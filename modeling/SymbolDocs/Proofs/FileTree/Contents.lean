import SymbolDocs.Proofs.FileTree.Within

/-! # What lies at a place

The contents of a place are what lies there and beneath, with names seen from the place. Work on a
tree is local to a place (`Local`) if it changes things there only, and if what it does there
depends on this place and on some others that it reads. Work on two places can be done in either
order, if neither of them is above the other and nothing is read at either by the work on the other
(`Local.comm`). -/

namespace SymbolDocs

/-! ### Either order -/

/-- Two pieces of work can be done in either order, from some state on. -/
structure Swaps {σ α β : Type} (f : σ → α × σ) (g : σ → β × σ) (s : σ) : Prop where
  left : (f (g s).2).1 = (f s).1
  right : (g (f s).2).1 = (g s).1
  state : (f (g s).2).2 = (g (f s).2).2

namespace Swaps

variable {σ α β γ : Type} {f : σ → α × σ} {g : σ → β × σ} {s : σ}

theorem symm (h : Swaps f g s) : Swaps g f s :=
  ⟨h.right, h.left, h.state.symm⟩

/-- What is made of an outcome does not matter. -/
theorem map (h : Swaps f g s) (φ : α → γ) : Swaps (fun s => (φ (f s).1, (f s).2)) g s :=
  ⟨congrArg φ h.left, h.right, h.state⟩

end Swaps

namespace FileTree

variable {t u v : FileTree} {p q r z : Place}

/-- What lies at a place and beneath, with names seen from the place. -/
def contents (t : FileTree) (p : Place) (names : List String) : Option Entry :=
  t.get? (p ++ names)

/-- A directory that holds nothing. -/
def emptyDirectory (names : List String) : Option Entry :=
  if names = [] then some .directory else none

/-- A directory that holds one thing. -/
def directoryOf (name : String) (e : Entry) (names : List String) : Option Entry :=
  if names = [name] then some e else emptyDirectory names

theorem contents_nil (t : FileTree) (p : Place) : t.contents p [] = t.get? p := by
  rw [contents, List.append_nil]

theorem contents_append (t : FileTree) (p : Place) (a : List String) :
    t.contents (p ++ a) = fun b => t.contents p (a ++ b) := by
  funext b
  rw [contents, contents, List.append_assoc]

/-- An empty directory gets an entry. -/
theorem contents_putAt {name : String} (h : t.contents p = emptyDirectory)
    (hname : Path.isName name = true) (e : Entry) : (t.putAt (p ++ [name]) e).contents p =
      directoryOf name e := by
  have hthere : t.get? p = some .directory := by
    rw [← contents_nil, h]
    rfl
  funext a
  rw [contents, directoryOf]
  split_ifs with ha
  · rw [ha]
    exact get?_putAt_new hname hthere (congrFun h [name]) e
  · rw [get?_putAt_of_ne e (by simpa using ha)]
    exact congrFun h a

/-- Neither place is the other one or lies beneath it. -/
def Aside (p q : Place) : Prop :=
  ¬ p <+: q ∧ ¬ q <+: p

theorem Aside.symm (h : Aside p q) : Aside q p :=
  ⟨h.2, h.1⟩

/-- What lies beneath a place lies aside of what the place is aside of. -/
theorem Aside.beneath (h : Aside p q) (hr : p <+: r) : Aside r q :=
  ⟨fun h' => h.1 (hr.trans h'), fun h' =>
    (List.prefix_or_prefix_of_prefix h' hr).elim (fun h' => h.2 h') fun h' => h.1 h'⟩

theorem aside_append {a b : List String} : Aside (p ++ a) (p ++ b) ↔ Aside a b := by
  simp only [Aside, List.prefix_append_right_inj]

/-- What lies in one directory is aside of what lies in the other. -/
theorem Aside.concat {a b : List String} (h : Aside a b) (x y : String) :
    Aside (a ++ [x]) (b ++ [y]) :=
  ((h.beneath (List.prefix_append a _)).symm.beneath (List.prefix_append b _)).symm

/-- The directory of what is reached by way of some names. -/
theorem dropLast_append_concat (p : Place) (names : List String) (name : String) :
    (p ++ (names ++ [name])).dropLast = p ++ names := by
  rw [← List.append_assoc, List.dropLast_concat]

/-- Ways that part. -/
theorem aside_cons {x y : String} {a b : List String} :
    Aside (x :: a) (y :: b) ↔ x = y → Aside a b := by
  unfold Aside
  rw [List.cons_prefix_cons, List.cons_prefix_cons]
  by_cases h : x = y
  · simp [h]
  · simp [h, Ne.symm h]

theorem Within.contents_eq (h : Within p t u) (hz : Aside z p) : u.contents z = t.contents z := by
  funext names
  have hq := hz.beneath (List.prefix_append z names)
  exact h.eq_aside hq.2 hq.1

/-! ### One place is filled anew -/

/-- Above a place there are directories only, as far as there is something. -/
def Free (t : FileTree) (p : Place) : Prop :=
  ∀ q, q <+: p → q ≠ p → t.get? q = none ∨ t.get? q = some .directory

/-- Two trees have the same contents at a place, and both have room for it or neither has. -/
structure Agree (p : Place) (t u : FileTree) : Prop where
  contents : t.contents p = u.contents p
  free : t.Free p ↔ u.Free p

theorem Agree.get? (h : Agree p t u) (hq : p <+: q) : t.get? q = u.get? q := by
  obtain ⟨names, rfl⟩ := hq
  exact congrFun h.contents names

theorem Agree.refl (p : Place) (t : FileTree) : Agree p t t := ⟨rfl, Iff.rfl⟩

theorem Agree.symm (h : Agree p t u) : Agree p u t := ⟨h.contents.symm, h.free.symm⟩

theorem Agree.trans (h1 : Agree p t u) (h2 : Agree p u v) : Agree p t v :=
  ⟨h1.contents.trans h2.contents, h1.free.trans h2.free⟩

/-- **`u` is `t` with other contents at `p`.** Directories above come only with something there. -/
def Filled (p : Place) (t u : FileTree) : Prop :=
  ∀ q, u.get? q = t.get? q ∨ p <+: q ∨ q <+: p ∧ t.get? q = none ∧ u.get? p ≠ none

namespace Filled

theorem refl (p : Place) (t : FileTree) : Filled p t t := fun _ => .inl rfl

/-- What is not at the place is known. -/
theorem get? (h : Filled p t u) (hq : ¬ p <+: q) :
    u.get? q = if q <+: p ∧ u.get? p ≠ none then some .directory else t.get? q := by
  split_ifs with hcases
  · obtain ⟨hqp, hp⟩ := hcases
    obtain ⟨e, he⟩ := Option.ne_none_iff_exists'.mp hp
    exact get?_above he hqp fun heq => hq (heq ▸ List.prefix_refl _)
  · rcases h q with h | h | ⟨hqp, -, hp⟩
    · exact h
    · exact absurd h hq
    · exact absurd ⟨hqp, hp⟩ hcases

theorem trans (h1 : Filled p t u) (h2 : Filled p u v) (hp : u.get? p ≠ none → v.get? p ≠ none) :
    Filled p t v := by
  intro q
  rcases h2 q with h | h | ⟨hq, hu, hv⟩
  · rcases h1 q with h' | h' | ⟨hq, ht, hu⟩
    · exact .inl (h.trans h')
    · exact .inr (.inl h')
    · exact .inr (.inr ⟨hq, ht, hp hu⟩)
  · exact .inr (.inl h)
  · rcases h1 q with h' | h' | ⟨hq, ht, -⟩
    · exact .inr (.inr ⟨hq, h' ▸ hu, hv⟩)
    · exact .inr (.inl h')
    · exact .inr (.inr ⟨hq, ht, hv⟩)

/-- Aside of the place nothing has changed. -/
theorem agree (h : Filled p t u) (hz : Aside z p) : Agree z t u where
  contents := by
    funext names
    have hq := hz.beneath (List.prefix_append z names)
    rcases h (z ++ names) with h | h | h
    · exact h.symm
    · exact absurd h hq.2
    · exact absurd h.1 hq.1
  free := by
    have key : ∀ q, q <+: z → q ≠ z →
        ((t.get? q = none ∨ t.get? q = some .directory) ↔
          (u.get? q = none ∨ u.get? q = some .directory)) := by
      intro q hq _
      rw [h.get? fun hp => hz.2 (hp.trans hq)]
      split_ifs with hcases
      · obtain ⟨hqp, hp⟩ := hcases
        refine iff_of_true ?_ (.inr rfl)
        rcases h q with h' | h' | ⟨-, h', -⟩
        · obtain ⟨e, he⟩ := Option.ne_none_iff_exists'.mp hp
          have hne : q ≠ p := by
            rintro rfl
            exact hz.2 hq
          exact .inr (h' ▸ get?_above he hqp hne)
        · exact absurd (h'.trans hq) hz.2
        · exact .inl h'
      · exact Iff.rfl
    exact forall_congr' fun q => forall_congr' fun hq => forall_congr' fun hne => key q hq hne

/-- What is there aside of the place, or above it, is still there. -/
theorem directory (h : Filled p t u) (hq : t.get? q = some .directory) (hp : ¬ p <+: q) :
    u.get? q = some .directory := by
  rw [h.get? hp, hq]
  split_ifs <;> rfl

end Filled

theorem filled_of_eq_outside (h : ∀ q, ¬ p <+: q → u.get? q = t.get? q) : Filled p t u := by
  intro q
  by_cases hq : p <+: q
  · exact .inr (.inl hq)
  · exact .inl (h q hq)

/-! ### Work at one place -/

/-- Work on trees of a kind that concerns one place: it fills this place anew, and how it ends and
what it leaves there depends on what is there and on what is at the places that it reads. -/
structure Local {α : Type} (I : FileTree → Prop) (p : Place) (R : Place → Prop)
    (f : FileTree → α × FileTree) : Prop where
  filled : ∀ t, I t → Filled p t (f t).2
  same : ∀ t u, I t → I u → Agree p t u → (∀ r, R r → Agree r t u) →
    (f t).1 = (f u).1 ∧ (f t).2.contents p = (f u).2.contents p

namespace Local

variable {α β : Type} {I J : FileTree → Prop} {R S : Place → Prop} {f : FileTree → α × FileTree}
  {g : FileTree → β × FileTree}

theorem mono (hf : Local I p R f) (hJ : ∀ t, J t → I t) : Local J p R f where
  filled := fun t ht => hf.filled t (hJ t ht)
  same := fun t u ht hu => hf.same t u (hJ t ht) (hJ u hu)

/-- What is made of the outcome does not matter. -/
theorem map {γ : Type} (hf : Local I p R f) (φ : α → γ) :
    Local I p R fun t => (φ (f t).1, (f t).2) where
  filled := hf.filled
  same := fun t u ht hu hagree hR =>
    ⟨congrArg φ (hf.same t u ht hu hagree hR).1, (hf.same t u ht hu hagree hR).2⟩

/-- Work at a place does the same before and after work elsewhere. -/
theorem after (hf : Local I p R f) (hg : Local J q S g) (hpq : Aside p q)
    (hR : ∀ r, R r → Aside r q) (hI : I t) (hJ : J t) (hI' : I (g t).2) :
    (f (g t).2).1 = (f t).1 ∧ (f (g t).2).2.contents p = (f t).2.contents p := by
  have hfill := hg.filled t hJ
  exact hf.same _ _ hI' hI (hfill.agree hpq).symm fun r hr => (hfill.agree (hR r hr)).symm

end Local

end FileTree

end SymbolDocs
