import SymbolDocs.FileTree.Change
import SymbolDocs.Proofs.Path.Components

/-! # Where a walk gets to

A stroll goes step by step (`Strolls`), and a walk is a sequence of strolls from one link to the
next (`Gets`). A walk that gets to a directory can be continued from there (`walk_append`), and over
the name of something that is no link it goes straight on (`walk_name`). What a walk gets to has a
directory above it and a proper name (`walk_reachable`). A walk looks at nothing but the entries it
comes across, and what lies at its end counts only as far as it can be walked over:
`walk_of_not_passable` carries a walk from one tree to another that differs from it in one place, at
which neither has a directory or a link. -/

namespace SymbolDocs.FileTree

open SymbolDocs.Path (isName)

variable {t u : FileTree}

/-- Steps that come from a path: no step is empty or has a slash in it. -/
def Steps (steps : List String) : Prop :=
  ∀ s ∈ steps, s ≠ "" ∧ '/' ∉ s.toList

theorem steps_names (p : Path) : Steps p.names := by
  intro s hs
  obtain ⟨hs, hne⟩ := List.mem_filter.mp hs
  exact ⟨by simpa using hne, Path.slash_not_mem_of_mem_segments hs⟩

theorem steps_steps (p : Path) : Steps p.steps := by
  unfold Path.steps
  split_ifs
  · intro s hs
    rcases List.mem_append.mp hs with hs | hs
    · exact steps_names p s hs
    · rw [List.mem_singleton.mp hs]; decide
  · exact steps_names p

theorem Steps.append {a b : List String} (ha : Steps a) (hb : Steps b) : Steps (a ++ b) := by
  intro s hs
  rcases List.mem_append.mp hs with hs | hs
  · exact ha s hs
  · exact hb s hs

theorem Steps.tail {s : String} {a : List String} (h : Steps (s :: a)) : Steps a :=
  fun x hx => h x (by simp [hx])

theorem Steps.isName {s : String} {a : List String} (h : Steps (s :: a)) (hd : s ≠ ".")
    (hu : s ≠ "..") : isName s = true := by
  obtain ⟨h1, h2⟩ := h s (by simp)
  simp [Path.isName, h1, h2, hd, hu]

/-- Above a directory there are directories only. -/
theorem get?_dropLast {p : Place} (h : t.get? p = some .directory) :
    t.get? p.dropLast = some .directory := by
  rcases List.eq_nil_or_concat p with rfl | ⟨dir, name, rfl⟩
  · simp
  · rw [List.concat_eq_append] at h ⊢
    rw [List.dropLast_concat]
    exact get?_parent h

/-! ### Step by step -/

/-- Something that is no link. -/
def Plain (t : FileTree) (p : Place) : Prop :=
  ∀ target, t.get? p ≠ some (.link target)

/-- A step that goes down. -/
def Down (step : String) : Prop :=
  step ≠ "." ∧ step ≠ ".."

theorem down_of_isName {s : String} (h : isName s = true) : Down s := by
  simp only [Path.isName, decide_eq_true_eq] at h
  exact ⟨h.2.1, h.2.2.1⟩

section Stroll

variable {followLast : Bool} {cur : Place} {step : String} {a : List String}

theorem stroll_into (hs : Down step) (h : t.get? (cur ++ [step]) = some .directory) :
    t.stroll followLast cur (step :: a) = t.stroll followLast (cur ++ [step]) a := by
  rw [stroll, if_neg hs.1, if_neg hs.2, h]

theorem stroll_last (hs : Down step) (hd : t.get? (cur ++ [step]) ≠ some .directory)
    (hl : followLast = true → t.Plain (cur ++ [step])) :
    t.stroll followLast cur [step] = .ok (.reached (cur ++ [step])) := by
  rw [stroll, if_neg hs.1, if_neg hs.2]
  rcases he : t.get? (cur ++ [step]) with _ | (_ | ⟨c, x⟩ | target)
  · rfl
  · exact absurd he hd
  · rfl
  · cases followLast
    · rfl
    · exact absurd he (hl rfl target)

theorem stroll_atLink (hs : Down step) {target : Path}
    (h : t.get? (cur ++ [step]) = some (.link target)) (ha : ¬ (a = [] ∧ followLast = false)) :
    t.stroll followLast cur (step :: a) = .ok (.atLink cur target a) := by
  rw [stroll, if_neg hs.1, if_neg hs.2, h]
  exact if_neg ha

/-- Over something that is neither a directory nor a link a stroll does not go on. -/
theorem stroll_stuck (followLast : Bool) (hs : Down step) (ha : a ≠ [])
    (hd : t.get? (cur ++ [step]) ≠ some .directory) (hl : t.Plain (cur ++ [step])) :
    t.get? (cur ++ [step]) = none ∧ t.stroll followLast cur (step :: a) = .error .notFound ∨
    (∃ c x, t.get? (cur ++ [step]) = some (.file c x)) ∧
      t.stroll followLast cur (step :: a) = .error .notADirectory := by
  rw [stroll, if_neg hs.1, if_neg hs.2]
  rcases he : t.get? (cur ++ [step]) with _ | (_ | ⟨c, x⟩ | target)
  · exact Or.inl ⟨rfl, if_neg ha⟩
  · exact absurd he hd
  · exact Or.inr ⟨⟨c, x, rfl⟩, if_neg ha⟩
  · exact absurd he (hl target)

end Stroll

/-- A stroll that gets to `x`, step by step. -/
inductive Strolls (t : FileTree) (followLast : Bool) (x : Stop) : Place → List String → Prop
  | done {cur : Place} : x = .reached cur → Strolls t followLast x cur []
  | here {cur : Place} {a : List String} : Strolls t followLast x cur a →
    Strolls t followLast x cur ("." :: a)
  | up {cur : Place} {a : List String} : Strolls t followLast x cur.dropLast a →
    Strolls t followLast x cur (".." :: a)
  | into {cur : Place} {step : String} {a : List String} : Down step →
    t.get? (cur ++ [step]) = some .directory → Strolls t followLast x (cur ++ [step]) a →
    Strolls t followLast x cur (step :: a)
  | last {cur : Place} {step : String} : Down step →
    t.get? (cur ++ [step]) ≠ some .directory → (followLast = true → t.Plain (cur ++ [step])) →
    x = .reached (cur ++ [step]) → Strolls t followLast x cur [step]
  | atLink {cur : Place} {step : String} {a : List String} {target : Path} : Down step →
    t.get? (cur ++ [step]) = some (.link target) → ¬ (a = [] ∧ followLast = false) →
    x = .atLink cur target a → Strolls t followLast x cur (step :: a)

theorem strolls_of_stroll {followLast : Bool} {x : Stop} : ∀ {a : List String} {cur : Place},
    t.stroll followLast cur a = .ok x → t.Strolls followLast x cur a
  | [], cur, h => .done (Except.ok.inj h).symm
  | step :: a, cur, h => by
    by_cases hd : step = "."
    · subst hd
      exact .here (strolls_of_stroll h)
    by_cases hu : step = ".."
    · subst hu
      exact .up (strolls_of_stroll h)
    have hs : Down step := ⟨hd, hu⟩
    rw [stroll, if_neg hs.1, if_neg hs.2] at h
    rcases he : t.get? (cur ++ [step]) with _ | (_ | ⟨c, e⟩ | target) <;> rw [he] at h
    · simp only at h
      split_ifs at h with ha
      subst ha
      exact .last hs (by simp [he]) (fun _ target h' => by rw [he] at h'; cases h')
        (Except.ok.inj h).symm
    · exact .into hs he (strolls_of_stroll h)
    · simp only at h
      split_ifs at h with ha
      subst ha
      exact .last hs (by simp [he]) (fun _ target h' => by rw [he] at h'; cases h')
        (Except.ok.inj h).symm
    · simp only at h
      split_ifs at h with ha
      · obtain ⟨rfl, hf⟩ := ha
        exact .last hs (by simp [he]) (fun hf' => by rw [hf] at hf'; cases hf')
          (Except.ok.inj h).symm
      · exact .atLink hs he ha (Except.ok.inj h).symm

/-- **Strolls step by step** are those that are computed. -/
theorem stroll_eq_ok_iff {followLast : Bool} {x : Stop} {a : List String} {cur : Place} :
    t.stroll followLast cur a = .ok x ↔ t.Strolls followLast x cur a := by
  refine ⟨strolls_of_stroll, fun h => ?_⟩
  induction h with
  | done hx => rw [hx]; rfl
  | here _ ih => exact ih
  | up _ ih => exact ih
  | into hs hd _ ih => rw [stroll_into hs hd, ih]
  | last hs hd hl hx => rw [stroll_last hs hd hl, hx]
  | atLink hs hl ha hx => rw [stroll_atLink hs hl ha, hx]

/-! ### From link to link -/

/-- Where a walk goes on after a link in the directory `dir`. -/
def origin (target : Path) (dir : Place) : Place :=
  if target.isAbsolute then [] else dir

/-- A walk that gets to `p`: with one stroll, or with one to a link and a walk from there. -/
inductive Gets (t : FileTree) (followLast : Bool) (p : Place) : Nat → Place → List String → Prop
  | reached {n : Nat} {cur : Place} {a : List String} :
    t.stroll followLast cur a = .ok (.reached p) → Gets t followLast p n cur a
  | onward {n : Nat} {cur : Place} {a : List String} {dir : Place} {target : Path}
    {rest : List String} : t.stroll followLast cur a = .ok (.atLink dir target rest) →
    target.text ≠ "" → Gets t followLast p n (origin target dir) (target.steps ++ rest) →
    Gets t followLast p (n + 1) cur a

theorem walk_eq_of_stroll {followLast : Bool} {cur cur' : Place} {a b : List String}
    (h : t.stroll followLast cur a = t.stroll followLast cur' b) (n : Nat) :
    t.walk followLast n cur a = t.walk followLast n cur' b := by
  cases n <;> (unfold walk; rw [h])

theorem walk_of_reached {followLast : Bool} {cur p : Place} {a : List String}
    (h : t.stroll followLast cur a = .ok (.reached p)) (n : Nat) :
    t.walk followLast n cur a = .ok p := by
  cases n <;> (unfold walk; rw [h]; rfl)

theorem walk_of_error {followLast : Bool} {cur : Place} {a : List String} {e : IoError}
    (h : t.stroll followLast cur a = .error e) (n : Nat) :
    t.walk followLast n cur a = .error e := by
  cases n <;> (unfold walk; rw [h]; rfl)

theorem walk_over {followLast : Bool} {cur dir : Place} {a rest : List String} {target : Path}
    (h : t.stroll followLast cur a = .ok (.atLink dir target rest)) (ht : target.text ≠ "")
    (n : Nat) : t.walk followLast (n + 1) cur a =
      t.walk followLast n (origin target dir) (target.steps ++ rest) := by
  conv_lhs => unfold walk
  rw [h]
  exact if_neg ht

theorem walk_eq_ok_iff {followLast : Bool} {p : Place} {n : Nat} {cur : Place} {a : List String} :
    t.walk followLast n cur a = .ok p ↔ t.Gets followLast p n cur a := by
  constructor
  · intro h
    induction n generalizing cur a with
    | zero =>
      unfold walk at h
      rcases hs : t.stroll followLast cur a with e | (q | ⟨dir, target, rest⟩) <;> rw [hs] at h
      · cases h
      · cases h; exact .reached hs
      · cases h
    | succ n ih =>
      rcases hs : t.stroll followLast cur a with e | (q | ⟨dir, target, rest⟩)
      · rw [walk_of_error hs] at h; cases h
      · rw [walk_of_reached hs] at h; cases h; exact .reached hs
      · by_cases ht : target.text = ""
        · unfold walk at h
          rw [hs] at h
          cases (if_pos ht).symm.trans h
        · rw [walk_over hs ht] at h
          exact .onward hs ht (ih h)
  · intro h
    induction h with
    | reached hs => exact walk_of_reached hs _
    | onward hs ht _ ih => rw [walk_over hs ht, ih]

theorem get?_origin {target : Path} {dir : Place} (h : t.get? dir = some .directory) :
    t.get? (origin target dir) = some .directory := by
  unfold origin
  split_ifs
  · exact get?_nil t
  · exact h

/-! ### One after the other -/

/-- A stroll that ends in a directory goes on from there. -/
theorem stroll_append (followLast : Bool) {b : List String} {a : List String} {cur q : Place}
    (h : t.stroll true cur a = .ok (.reached q)) (hq : t.get? q = some .directory) :
    t.stroll followLast cur (a ++ b) = t.stroll followLast q b := by
  rw [stroll_eq_ok_iff] at h
  induction h with
  | done hx => cases hx; rfl
  | here _ ih => exact ih
  | up _ ih => exact ih
  | into hs hd _ ih => rw [List.cons_append, stroll_into hs hd, ih]
  | last _ hd _ hx => cases hx; exact absurd hq hd
  | atLink _ _ _ hx => cases hx

theorem stroll_append_of_atLink (followLast : Bool) {b : List String} (hb : b ≠ [])
    {a rest : List String} {cur dir : Place} {target : Path}
    (h : t.stroll true cur a = .ok (.atLink dir target rest)) :
    t.stroll followLast cur (a ++ b) = .ok (.atLink dir target (rest ++ b)) := by
  rw [stroll_eq_ok_iff] at h
  induction h with
  | done hx => cases hx
  | here _ ih => exact ih
  | up _ ih => exact ih
  | into hs hd _ ih => rw [List.cons_append, stroll_into hs hd, ih]
  | last _ _ _ hx => cases hx
  | atLink hs hl _ hx =>
    cases hx
    exact stroll_atLink hs hl fun h => hb (List.append_eq_nil_iff.mp h.1).2

theorem walk_append {n : Nat} {cur q : Place} {a : List String}
    (h : t.walk true n cur a = .ok q) (hq : t.get? q = some .directory) :
    ∃ k, ∀ followLast b, b ≠ [] → t.walk followLast n cur (a ++ b) = t.walk followLast k q b := by
  rw [walk_eq_ok_iff] at h
  induction h with
  | @reached n cur a hs =>
    exact ⟨n, fun followLast b _ => walk_eq_of_stroll (stroll_append followLast hs hq) n⟩
  | @onward n cur a dir target rest hs ht _ ih =>
    obtain ⟨k, hk⟩ := ih
    refine ⟨k, fun followLast b hb => ?_⟩
    rw [walk_over (stroll_append_of_atLink followLast hb hs) ht n,
      ← List.append_assoc]
    exact hk followLast b hb

/-! ### Over names -/

/-- Over the last name a walk goes straight on, unless there is a link to be followed. -/
theorem walk_name {s : String} (hs : isName s = true) {followLast : Bool} {cur : Place}
    (h : followLast = true → t.Plain (cur ++ [s])) (n : Nat) :
    t.walk followLast n cur [s] = .ok (cur ++ [s]) := by
  refine walk_of_reached ?_ n
  by_cases hd : t.get? (cur ++ [s]) = some .directory
  · rw [stroll_into (down_of_isName hs) hd]
    rfl
  · exact stroll_last (down_of_isName hs) hd h

/-- Into a directory a walk goes on; where there is none, it ends. -/
theorem walk_into {s : String} (hs : isName s = true) (followLast : Bool) {cur : Place}
    {rest : List String} (hrest : rest ≠ []) (h : t.Plain (cur ++ [s])) (n : Nat) :
    (t.get? (cur ++ [s]) = some .directory ∧
      t.walk followLast n cur (s :: rest) = t.walk followLast n (cur ++ [s]) rest) ∨
    t.get? (cur ++ [s]) = none ∧ t.walk followLast n cur (s :: rest) = .error .notFound ∨
    (∃ c x, t.get? (cur ++ [s]) = some (.file c x)) ∧
      t.walk followLast n cur (s :: rest) = .error .notADirectory := by
  by_cases hd : t.get? (cur ++ [s]) = some .directory
  · exact Or.inl ⟨hd, walk_eq_of_stroll (stroll_into (down_of_isName hs) hd) n⟩
  right
  rcases stroll_stuck followLast (down_of_isName hs) hrest hd h with
    ⟨hnone, he⟩ | ⟨hfile, he⟩
  · exact Or.inl ⟨hnone, walk_of_error he n⟩
  · exact Or.inr ⟨hfile, walk_of_error he n⟩

/-! ### The end of a walk -/

/-- A place at which a walk may end: a directory, or something with a name in a directory. -/
structure Reachable (t : FileTree) (followLast : Bool) (p : Place) : Prop where
  placed : t.get? p = some .directory ∨
    ∃ dir name, p = dir ++ [name] ∧ isName name = true ∧ t.get? dir = some .directory
  plain : followLast = true → t.Plain p

theorem Reachable.of_directory {followLast : Bool} {p : Place}
    (h : t.get? p = some .directory) : t.Reachable followLast p :=
  ⟨Or.inl h, fun _ target h' => by rw [h] at h'; cases h'⟩

theorem stroll_reachable {followLast : Bool} {a : List String} {cur p : Place} (ha : Steps a)
    (hcur : t.get? cur = some .directory) (h : t.stroll followLast cur a = .ok (.reached p)) :
    t.Reachable followLast p := by
  rw [stroll_eq_ok_iff] at h
  induction h with
  | done hx => cases hx; exact .of_directory hcur
  | here _ ih => exact ih ha.tail hcur
  | up _ ih => exact ih ha.tail (get?_dropLast hcur)
  | into _ hd _ ih => exact ih ha.tail hd
  | @last cur step hs _ hl hx =>
    cases hx
    exact ⟨Or.inr ⟨cur, step, rfl, ha.isName hs.1 hs.2, hcur⟩, hl⟩
  | atLink _ _ _ hx => cases hx

theorem stroll_atLink_directory {followLast : Bool} {a rest : List String} {cur dir : Place}
    {target : Path} (ha : Steps a) (hcur : t.get? cur = some .directory)
    (h : t.stroll followLast cur a = .ok (.atLink dir target rest)) :
    t.get? dir = some .directory ∧ Steps rest := by
  rw [stroll_eq_ok_iff] at h
  induction h with
  | done hx => cases hx
  | here _ ih => exact ih ha.tail hcur
  | up _ ih => exact ih ha.tail (get?_dropLast hcur)
  | into _ hd _ ih => exact ih ha.tail hd
  | last _ _ _ hx => cases hx
  | atLink _ _ _ hx => cases hx; exact ⟨hcur, ha.tail⟩

theorem walk_reachable {followLast : Bool} {n : Nat} {a : List String} {cur p : Place}
    (ha : Steps a) (hcur : t.get? cur = some .directory)
    (h : t.walk followLast n cur a = .ok p) : t.Reachable followLast p := by
  rw [walk_eq_ok_iff] at h
  induction h with
  | reached hs => exact stroll_reachable ha hcur hs
  | @onward n cur a dir target rest hs _ _ ih =>
    obtain ⟨hdir, hrest⟩ := stroll_atLink_directory ha hcur hs
    exact ih ((steps_steps target).append hrest) (get?_origin hdir)

/-- What `follow` does once the path is one that can be followed. -/
theorem follow_eq_walk {base : Place} {path : Path} {steps : List String} {followLast : Bool}
    {p : Place} (h : t.follow base path steps followLast = .ok p) :
    ∃ cur, t.get? cur = some .directory ∧ t.walk followLast linkLimit cur steps = .ok p ∧
      cur = if path.isAbsolute then [] else base := by
  unfold follow at h
  split_ifs at h with h1 h2 h3 h4
  · exact ⟨[], by simp, h, by rw [if_pos h3]⟩
  · exact ⟨base, by simpa [isDirectory] using h4, h, by rw [if_neg h3]⟩

theorem follow_reachable {base : Place} {path : Path} {steps : List String} {followLast : Bool}
    {p : Place} (hsteps : Steps steps) (h : t.follow base path steps followLast = .ok p) :
    t.Reachable followLast p := by
  obtain ⟨cur, hcur, hw, -⟩ := follow_eq_walk h
  exact walk_reachable hsteps hcur hw

/-! ### The same walk in another tree -/

/-- There is a directory or a link at a place: something that a walk goes on from. -/
def Passable (t : FileTree) (p : Place) : Prop :=
  t.get? p = some .directory ∨ ∃ target, t.get? p = some (.link target)

theorem plain_of_not_passable {p : Place} (h : ¬ t.Passable p) : t.Plain p :=
  fun target hp => h (Or.inr ⟨target, hp⟩)

theorem stroll_of_not_passable {p : Place} (hagree : ∀ q, q ≠ p → u.get? q = t.get? q)
    (ht : ¬ t.Passable p) (hu : ¬ u.Passable p) {followLast : Bool} {x : Stop} {a : List String}
    {cur : Place} (h : t.stroll followLast cur a = .ok x) : u.stroll followLast cur a = .ok x := by
  rw [stroll_eq_ok_iff] at h ⊢
  induction h with
  | done hx => exact .done hx
  | here _ ih => exact .here ih
  | up _ ih => exact .up ih
  | into hs hd _ ih =>
    have hne : _ ≠ p := fun he => ht (Or.inl (he ▸ hd))
    exact .into hs ((hagree _ hne).trans hd) ih
  | @last cur step hs hd hl hx =>
    by_cases hp : cur ++ [step] = p
    · exact .last hs (fun h => hu (Or.inl (hp ▸ h))) (fun _ => hp ▸ plain_of_not_passable hu) hx
    · refine .last hs (by rw [hagree _ hp]; exact hd) (fun hf => ?_) hx
      unfold Plain
      rw [hagree _ hp]
      exact hl hf
  | @atLink cur step a target hs hl ha hx =>
    have hne : cur ++ [step] ≠ p := fun he => ht (Or.inr ⟨target, he ▸ hl⟩)
    exact .atLink hs ((hagree _ hne).trans hl) ha hx

/-- **A walk stays what it is** if the tree is changed in one place only, and neither before nor
after the change the walk could go on from there. -/
theorem walk_of_not_passable {p : Place} (hagree : ∀ q, q ≠ p → u.get? q = t.get? q)
    (ht : ¬ t.Passable p) (hu : ¬ u.Passable p) {followLast : Bool} {r : Place} {n : Nat}
    {a : List String} {cur : Place} (h : t.walk followLast n cur a = .ok r) :
    u.walk followLast n cur a = .ok r := by
  rw [walk_eq_ok_iff] at h ⊢
  induction h with
  | reached hs => exact .reached (stroll_of_not_passable hagree ht hu hs)
  | onward hs htext _ ih => exact .onward (stroll_of_not_passable hagree ht hu hs) htext ih

theorem follow_of_not_passable {p : Place} (hagree : ∀ q, q ≠ p → u.get? q = t.get? q)
    (ht : ¬ t.Passable p) (hu : ¬ u.Passable p) {base : Place} {path : Path}
    {steps : List String} {followLast : Bool} {r : Place}
    (h : t.follow base path steps followLast = .ok r) :
    u.follow base path steps followLast = .ok r := by
  have hbase : t.isDirectory base = true → u.isDirectory base = true := by
    intro hd
    have hd' : t.get? base = some .directory := by simpa [isDirectory] using hd
    have hne : base ≠ p := by rintro rfl; exact ht (Or.inl hd')
    simpa [isDirectory, hagree base hne] using hd'
  unfold follow at h ⊢
  by_cases h1 : path.text = ""
  · rw [if_pos h1] at h; cases h
  by_cases h2 : path.hasNul = true
  · rw [if_neg h1, if_pos h2] at h; cases h
  rw [if_neg h1, if_neg h2] at h ⊢
  by_cases h3 : path.isAbsolute = true
  · rw [if_pos h3] at h ⊢
    exact walk_of_not_passable hagree ht hu h
  · rw [if_neg h3] at h ⊢
    by_cases h4 : t.isDirectory base = true
    · rw [if_pos h4] at h
      rw [if_pos (hbase h4)]
      exact walk_of_not_passable hagree ht hu h
    · rw [if_neg h4] at h; cases h

end SymbolDocs.FileTree
