import SymbolDocs.Proofs.FileTree.Within

/-! # Edits that are confined to a directory

Making a directory, emptying it and copying into it change the tree within its place only
(`within_resetDir`, `keeps_copyTree`), whether they succeed or not. Once the directory has been
reset there is no link in it (`Cleared`), so that what is copied into it goes nowhere else. -/

namespace SymbolDocs

open FileTree SymbolDocs.Path

variable {base : Place} {path : Path} {p : Place} {names : List String} {t u : FileTree}

namespace FileTree

/-! ### Making one directory -/

theorem makeDir_of_none {X : Path} (hl : t.locateEntry base X = .ok r) (hg : t.get? r = none) :
    t.makeDir base X = .ok (t.putAt r .directory) := by
  unfold makeDir
  rw [hl]
  simp only [bind, Except.bind, hg]

theorem makeDir_of_some {X : Path} {e : Entry} (hl : t.locateEntry base X = .ok r)
    (hg : t.get? r = some e) : t.makeDir base X = .error .alreadyExists := by
  unfold makeDir
  rw [hl]
  simp only [bind, Except.bind, hg]

theorem makeDir_ok {X : Path} (h : t.makeDir base X = .ok u) :
    ∃ r, t.locateEntry base X = .ok r ∧ t.get? r = none ∧ u = t.putAt r .directory := by
  rcases hl : t.locateEntry base X with e | r
  · unfold makeDir at h
    rw [hl] at h
    cases h
  rcases hg : t.get? r with _ | e
  · rw [makeDir_of_none hl hg] at h
    cases h
    exact ⟨r, rfl, hg, rfl⟩
  · rw [makeDir_of_some hl hg] at h
    cases h

theorem makeDir_below (h : Ready base path p names t) {c : List String} (hc : AreNames c)
    (hne : c ≠ []) (hopen : t.Open p c) (hmake : t.makeDir base (path.below c) = .ok u) :
    t.get? (p ++ c) = none ∧ u = t.putAt (p ++ c) .directory := by
  obtain ⟨r, hl, hr, rfl⟩ := makeDir_ok hmake
  have := follow_below h.leads.resolve h.there hc hne hopen (fun hf => by cases hf) hl
  subst this
  exact ⟨hr, rfl⟩

/-- A stroll that ends at no link ends there also if the last link is not to be followed. -/
theorem stroll_false {a : List String} {cur q : Place}
    (h : t.stroll true cur a = .ok (.reached q)) : t.stroll false cur a = .ok (.reached q) := by
  rw [stroll_eq_ok_iff] at h ⊢
  induction h with
  | done hx => exact .done hx
  | here _ ih => exact .here ih
  | up _ ih => exact .up ih
  | into hs hd _ ih => exact .into hs hd ih
  | last hs hd _ hx => exact .last hs hd (fun hf => by cases hf) hx
  | atLink _ _ _ hx => cases hx

theorem stroll_false_of_atLink {a rest : List String} {cur dir : Place} {target : Path}
    (h : t.stroll true cur a = .ok (.atLink dir target rest)) :
    t.stroll false cur a = .ok (.atLink dir target rest) ∨
      ∃ r, t.stroll false cur a = .ok (.reached r) ∧ t.get? r ≠ none := by
  rw [stroll_eq_ok_iff] at h
  induction h with
  | done hx => cases hx
  | here _ ih => exact ih
  | up _ ih => exact ih
  | into hs hd _ ih => rw [stroll_into hs hd]; exact ih
  | last _ _ _ hx => cases hx
  | @atLink _ step _ _ hs hl _ hx =>
    cases hx
    by_cases ha : rest = []
    · subst ha
      refine Or.inr ⟨dir ++ [step], ?_, by simp [hl]⟩
      exact stroll_last hs (by simp [hl]) (fun hf => by cases hf)
    · exact Or.inl (stroll_atLink hs hl fun h => ha h.1)

/-- Without following the last link a walk gets to something, if it does so when it follows it. -/
theorem walk_false {n : Nat} {cur q : Place} {a : List String} (h : t.walk true n cur a = .ok q) :
    ∃ r, t.walk false n cur a = .ok r ∧ (r = q ∨ t.get? r ≠ none) := by
  rw [walk_eq_ok_iff] at h
  induction h with
  | @reached n cur a hs => exact ⟨q, walk_of_reached (stroll_false hs) n, Or.inl rfl⟩
  | @onward n cur a dir target rest hs ht _ ih =>
    rcases stroll_false_of_atLink hs with hs' | ⟨r, hr, hg⟩
    · rw [walk_over hs' ht]
      exact ih
    · exact ⟨r, walk_of_reached hr (n + 1), Or.inr hg⟩

/-- Where a path leads, something is there or can be made. -/
theorem makeDir_of_resolve (hends : path.EndsInStep) (h : t.resolve base path = .ok p) :
    t.makeDir base path = .error .alreadyExists ∨
      t.get? p = none ∧ t.makeDir base path = .ok (t.putAt p .directory) := by
  unfold resolve at h
  rw [steps_eq_names hends.endsInSlash] at h
  have hl : ∃ r, t.locateEntry base path = .ok r ∧ (r = p ∨ t.get? r ≠ none) := by
    unfold locateEntry
    unfold follow at h ⊢
    split_ifs at h ⊢
    · exact walk_false h
    · exact walk_false h
  obtain ⟨r, hr, hg⟩ := hl
  rcases he : t.get? r with _ | e
  · right
    obtain rfl := hg.resolve_right fun h => h he
    exact ⟨he, makeDir_of_none hr he⟩
  · left
    exact makeDir_of_some hr he

theorem isDir_of_resolve (h : t.resolve base path = .ok p) :
    t.isDir base path = true ↔ t.get? p = some .directory := by
  unfold isDir stat
  rw [h]
  simp only [bind, Except.bind]
  unfold entryAt
  rcases t.get? p with _ | (_ | ⟨content, executable⟩ | target) <;> simp

theorem makeDir_of_exists (hends : path.EndsInStep) (h : t.resolve base path = .ok p)
    (hp : t.get? p ≠ none) : t.makeDir base path = .error .alreadyExists :=
  (makeDir_of_resolve hends h).resolve_right fun h => hp h.1

end FileTree

namespace Edit

/-! ### Making directories -/

/-- The end of an attempt to make what is there already. -/
theorem apply_found (failure : IoFailure) (X : Path) :
    (do if (← get).isDir base X then return else throw failure : Edit Unit).apply t =
      (if t.isDir base X then .ok ⟨⟩ else .error failure, t) := by
  rw [apply_bind, apply_get]
  simp only
  split <;> rfl

theorem apply_makeOrFind (attempt : Attempt) (X : Path) :
    (makeChain.makeOrFind base attempt X).apply t =
      match t.makeDir base X with
      | .ok u => (.ok ⟨⟩, u)
      | .error cause =>
        (if t.isDir base X then .ok ⟨⟩ else .error ⟨attempt, cause⟩, t) := by
  unfold makeChain.makeOrFind
  rw [apply_bind, apply_get]
  simp only
  rcases t.makeDir base X with cause | u
  · exact apply_found ⟨attempt, cause⟩ X
  · rfl

theorem apply_makeChain_cons (attempt : Attempt) {X : Path} (hX : X.text ≠ "") (above : List Path) :
    (makeChain base attempt (X :: above)).apply t =
      match t.makeDir base X with
      | .ok u => (.ok ⟨⟩, u)
      | .error .notFound =>
        (do makeChain base attempt above; makeChain.makeOrFind base attempt X : Edit Unit).apply t
      | .error cause =>
        (if t.isDir base X then .ok ⟨⟩ else .error ⟨attempt, cause⟩, t) := by
  rw [makeChain]
  simp only [hX, if_false]
  rw [apply_bind, apply_get]
  simp only
  rcases t.makeDir base X with cause | u
  · cases cause <;> first | rfl | exact apply_found _ X
  · rfl

/-! ### Edits that keep to a place -/

/-- From any tree of a kind, an edit changes things within a place only. -/
def Keeps {α : Type} (I : FileTree → Prop) (p : Place) (e : Edit α) : Prop :=
  ∀ t, I t → Within p t (e.apply t).2

section Keeps

variable {α β : Type} {I : FileTree → Prop}

theorem Keeps.bind (hI : ∀ t u, I t → Within p t u → I u) {x : Edit α} {f : α → Edit β}
    (hx : Keeps I p x) (hf : ∀ a, Keeps I p (f a)) : Keeps I p (x >>= f) := by
  intro t ht
  have h := hx t ht
  rw [apply_bind]
  rcases hxt : x.apply t with ⟨e | a, u⟩ <;> rw [hxt] at h
  · exact h
  · exact h.trans (hf a u (hI t u ht h))

theorem Keeps.throw (failure : IoFailure) : Keeps I p (throw failure : Edit α) :=
  fun t _ => .refl p t

theorem Keeps.forM (hI : ∀ t u, I t → Within p t u → I u) {f : α → Edit Unit} :
    ∀ {l : List α}, (∀ a ∈ l, Keeps I p (f a)) → Keeps I p (l.forM f)
  | [], _ => fun t _ => .refl p t
  | a :: l, h => (h a (by simp)).bind hI fun _ => Keeps.forM hI fun b hb => h b (by simp [hb])

end Keeps

/-- Names that lead towards a directory, or beneath it, and which meet no link in trees of a kind.
-/
def Towards (I : FileTree → Prop) (p : Place) (names c : List String) : Prop :=
  (c <+: names ∨ names <+: c) ∧ ∀ t, I t → t.Open p c

theorem keeps_makeChain {I : FileTree → Prop} (hI : ∀ t u, I t → Within (p ++ names) t u → I u)
    (hready : ∀ t, I t → Ready base path p names t) (hends : path.EndsInName) (attempt : Attempt) :
    ∀ {c : List String}, AreNames c → (∀ d, d <+: c → Towards I p names d) →
      ∀ n, c.length ≤ n →
        Keeps I (p ++ names) (makeChain base attempt (path.below c :: climb n (path.below c))) := by
  intro c
  induction c using List.reverseRecOn with
  | nil =>
    intro _ _ n _ t ht
    have hr := hready t ht
    have hX : (path.below []).text ≠ "" := hends.text_ne
    rw [apply_makeChain_cons attempt hX]
    rw [below_nil, makeDir_of_exists hends.endsInStep hr.leads.resolve (by rw [hr.there]; simp)]
    exact .refl _ t
  | append_singleton c name ih =>
    intro hc htowards n hn t ht
    have hr := hready t ht
    have hX := (endsInName_below hends hc).text_ne
    have hone : ∀ u v, I u → u.makeDir base (path.below (c ++ [name])) = .ok v →
        Within (p ++ names) u v := by
      intro u v hu hmake
      obtain ⟨hdir, hopen⟩ := htowards _ (List.prefix_refl _)
      obtain ⟨hnone, rfl⟩ := makeDir_below (hready u hu) hc (by simp) (hopen u hu) hmake
      exact within_putAt_directory hnone (hdir.imp (List.prefix_append_right_inj p).mpr
        (List.prefix_append_right_inj p).mpr)
    obtain ⟨n, rfl⟩ : ∃ k, n = k + 1 := ⟨n - 1, by simp at hn; omega⟩
    rw [apply_makeChain_cons attempt hX, climb_below hends.endsInStep hc]
    have htail : Keeps I (p ++ names) (do
        makeChain base attempt (path.below c :: climb n (path.below c))
        makeChain.makeOrFind base attempt (path.below (c ++ [name]))) := by
      refine Keeps.bind hI (ih hc.of_append.1 (fun d hd => htowards d (hd.trans
        (List.prefix_append c [name]))) n (by simpa using hn)) fun _ u hu => ?_
      rw [apply_makeOrFind]
      rcases hm : u.makeDir base (path.below (c ++ [name])) with cause | v
      · exact .refl _ u
      · exact hone u v hu hm
    rcases hm : t.makeDir base (path.below (c ++ [name])) with cause | u
    · rcases cause with _ | _ | _ | _ | _ | _ | _ | _ | _ | _ | _ | _ | _ | _ | _ <;>
        first | exact htail t ht | exact .refl _ t
    · exact hone t u ht hm

theorem keeps_ensureDir {I : FileTree → Prop} (hI : ∀ t u, I t → Within (p ++ names) t u → I u)
    (hready : ∀ t, I t → Ready base path p names t) (hends : path.EndsInName) {c : List String}
    (hc : AreNames c) (htowards : ∀ d, d <+: c → Towards I p names d) :
    Keeps I (p ++ names) (ensureDir base (path.below c)) := by
  refine keeps_makeChain hI hready hends _ hc htowards _ ?_
  rw [length_segments_below hends.endsInStep hc]
  omega

theorem towards_above {d : List String} (hd : d <+: names) :
    Towards (Ready base path p names) p names d :=
  ⟨Or.inl hd, fun _ h => h.way.shorten hd⟩

theorem towards_of_append {c d : List String} (hd : d <+: names ++ c) :
    Towards (Cleared base path p names) p names d := by
  rcases List.prefix_or_prefix_of_prefix hd (List.prefix_append names c) with h | ⟨b, rfl⟩
  · exact ⟨Or.inl h, fun _ ht => ht.way.shorten h⟩
  · exact ⟨Or.inr (List.prefix_append names b), fun _ ht => ht.open_append b⟩

/-! ### Removing -/

theorem locate_below (h : Ready base path p names t) {q : Place}
    (hl : t.locate base (path.below names) = .ok q) : q = p ++ names := by
  unfold locate at hl
  rw [steps_eq_names (endsInName_below h.ends h.areNames).endsInSlash] at hl
  exact follow_below h.leads.resolve h.there h.areNames h.ne h.way (fun hf => by cases hf) hl

theorem removeDir_below (h : Ready base path p names t)
    (hr : t.removeDir base (path.below names) = .ok u) : u = t.prune (p ++ names) := by
  unfold removeDir at hr
  rcases hl : t.locateEntry base (path.below names) with e | q <;> rw [hl] at hr
  · cases hr
  have hq := follow_below h.leads.resolve h.there h.areNames h.ne h.way
    (fun hf => by cases hf) hl
  subst hq
  simp only [bind, Except.bind] at hr
  split at hr <;> try cases hr
  rcases hg : t.get? (p ++ names) with _ | (_ | ⟨content, executable⟩ | target) <;> rw [hg] at hr
  · cases hr
  · simp only at hr
    split at hr <;> cases hr
    rfl
  · cases hr
  · cases hr

/-- What is left when a tree has been removed, or has been found missing. -/
theorem within_removeTree (h : Ready base path p names t) :
    Within (p ++ names) t (removeTree base (path.below names) t).2 ∧
    (∀ u, (removeTree base (path.below names) t).1 = .ok u →
      Within (p ++ names) t u ∧ Cleared base path p names u) := by
  unfold removeTree
  rcases hl : t.locate base (path.below names) with e | q
  · exact ⟨.refl _ t, fun u hu => by cases hu⟩
  have hq := locate_below h hl
  subst hq
  have hprune : ∀ v, Ready base path p names v →
      Within (p ++ names) v (v.prune (p ++ names)) ∧
        Cleared base path p names (v.prune (p ++ names)) := by
    intro v hv
    have hw : Within (p ++ names) v (v.prune (p ++ names)) := within_prune (List.prefix_refl _)
    refine ⟨hw, (hv.within hw).cleared ?_⟩
    rw [get?_prune (by simp [h.ne]), if_pos (List.prefix_refl _)]
  simp only
  rcases hg : t.get? (p ++ names) with _ | (_ | ⟨content, executable⟩ | target)
  · exact ⟨.refl _ t, fun u hu => by cases hu⟩
  · have hw : Within (p ++ names) t (t.clear (p ++ names)) := within_clear (List.prefix_refl _)
    refine ⟨hw, fun u hu => ?_⟩
    have hu' := removeDir_below (h.within hw) hu
    subst hu'
    obtain ⟨h1, h2⟩ := hprune _ (h.within hw)
    exact ⟨hw.trans h1, h2⟩
  · exact ⟨.refl _ t, fun u hu => by cases hu⟩
  · refine ⟨.refl _ t, fun u hu => ?_⟩
    cases hu
    exact hprune t h

end Edit

namespace FileTree

/-! ### Emptying -/

theorem get?_foldl_prune {r q : Place} (hq : q ≠ []) : ∀ (names : List String) {t : FileTree},
    (t.get? q = none ∨ ∃ name ∈ names, r ++ [name] <+: q) →
      (names.foldl (fun t name => t.prune (r ++ [name])) t).get? q = none
  | [], _, h => h.resolve_right (by simp)
  | name :: names, t, h => by
    refine get?_foldl_prune hq names ?_
    by_cases hname : r ++ [name] <+: q
    · left; rw [get?_prune hq, if_pos hname]
    · rw [get?_prune hq, if_neg hname]
      refine h.imp_right ?_
      rintro ⟨m, hm, hpre⟩
      rcases List.mem_cons.mp hm with rfl | hm
      · exact absurd hpre hname
      · exact ⟨m, hm, hpre⟩

/-- A directory that has been cleared is empty. -/
theorem get?_clear {r q : Place} (hpre : r <+: q) (hne : q ≠ r) : (t.clear r).get? q = none := by
  obtain ⟨s, rfl⟩ := hpre
  rcases s with _ | ⟨name, s⟩
  · exact absurd (List.append_nil r) hne
  have hpre : r ++ [name] <+: r ++ name :: s := ⟨s, by simp⟩
  refine get?_foldl_prune (by simp) _ ?_
  rcases hg : t.get? (r ++ [name]) with _ | e
  · exact Or.inl (get?_eq_none_beneath hg hpre)
  · exact Or.inr ⟨name, mem_names.mpr (by simp [hg]), hpre⟩

theorem walk_of_exists {followLast : Bool} {e : Entry} :
    ∀ {names : List String} {p : Place} {n : Nat},
    names ≠ [] → AreNames names → t.get? (p ++ names) = some e →
      (followLast = true → t.Plain (p ++ names)) → t.walk followLast n p names = .ok (p ++ names)
  | [], _, _, hne, _, _, _ => absurd rfl hne
  | [name], _, n, _, hnames, _, hlast => walk_name (hnames name (by simp)) hlast n
  | name :: next :: rest, p, n, _, hnames, he, hlast => by
    have happ : p ++ name :: next :: rest = p ++ [name] ++ (next :: rest) := by simp
    have hdir : t.get? (p ++ [name]) = some .directory := by
      refine get?_above he ⟨next :: rest, by simp⟩ ?_
      simp
    rw [happ] at he hlast ⊢
    rcases walk_into (hnames name (by simp)) followLast (List.cons_ne_nil next rest)
      (plain_of_directory hdir) n with ⟨-, hw⟩ | ⟨hnone, -⟩ | ⟨⟨c, x, hfile⟩, -⟩
    · rw [hw]
      exact walk_of_exists (by simp) (fun m hm => hnames m (by simp [hm])) he hlast
    · rw [hdir] at hnone; cases hnone
    · rw [hdir] at hfile; cases hfile

/-- Something that is there is found under its path, unless no system call accepts the path. -/
theorem locate_of_exists (h : Ready base path p names t) {e : Entry}
    (he : t.get? (p ++ names) = some e) (hnul : (path.below names).hasNul = false) :
    t.locate base (path.below names) = .ok (p ++ names) := by
  unfold locate
  rw [steps_eq_names (endsInName_below h.ends h.areNames).endsInSlash]
  obtain ⟨n, hn⟩ := follow_eq_walk_below h.leads.resolve h.there h.areNames h.ne
  rw [hn, if_neg (by simp [hnul])]
  exact walk_of_exists h.ne h.areNames he fun hf => by cases hf

theorem locate_of_hasNul (h : Ready base path p names t) (hnul : (path.below names).hasNul = true) :
    t.locate base (path.below names) = .error .nulInPath := by
  unfold locate
  rw [steps_eq_names (endsInName_below h.ends h.areNames).endsInSlash]
  obtain ⟨n, hn⟩ := follow_eq_walk_below h.leads.resolve h.there h.areNames h.ne
  rw [hn, if_pos hnul]

end FileTree

namespace Edit

/-- What is not found can be made from scratch. -/
theorem cleared_of_notFound (h : Ready base path p names t)
    (hr : (removeTree base (path.below names) t).1 = .error .notFound) :
    Cleared base path p names (removeTree base (path.below names) t).2 := by
  unfold removeTree at hr ⊢
  rcases hl : t.locate base (path.below names) with e | q <;> rw [hl] at hr
  · cases hr
    refine h.cleared ?_
    rcases hg : t.get? (p ++ names) with _ | e
    · rfl
    · by_cases hnul : (path.below names).hasNul = true
      · rw [locate_of_hasNul h hnul] at hl
        cases hl
      · rw [locate_of_exists h hg (by simpa using hnul)] at hl
        cases hl
  have hq := locate_below h hl
  subst hq
  simp only at hr ⊢
  rcases hg : t.get? (p ++ names) with _ | (_ | ⟨content, executable⟩ | target) <;> rw [hg] at hr
  · exact h.cleared hg
  · have hw : Within (p ++ names) t (t.clear (p ++ names)) := within_clear (List.prefix_refl _)
    refine ⟨h.within hw, fun q hq => ?_⟩
    by_cases hne : q = p ++ names
    · rw [hne]
      exact hw.plain (plain_of_directory hg)
    · exact plain_of_none (get?_clear hq hne)
  · cases hr
  · cases hr

theorem within_removeDirAll (h : Ready base path p names t) :
    Within (p ++ names) t ((removeDirAll base (path.below names)).apply t).2 ∧
    (((removeDirAll base (path.below names)).apply t).1.toBool = true →
      Cleared base path p names ((removeDirAll base (path.below names)).apply t).2) := by
  obtain ⟨hleft, hremoved⟩ := within_removeTree h
  have hmissing := cleared_of_notFound h
  unfold removeDirAll
  rw [apply_bind, apply_get]
  simp only
  rcases hr : removeTree base (path.below names) t with ⟨e | u, v⟩ <;>
    rw [hr] at hleft hremoved hmissing
  · cases e <;> first
      | exact ⟨hleft, fun _ => hmissing rfl⟩
      | exact ⟨hleft, fun hok => by cases hok⟩
  · obtain ⟨h1, h2⟩ := hremoved u rfl
    exact ⟨h1, fun _ => h2⟩

/-- **Resetting a directory** changes things within it only, and if it succeeds no link is left
there. -/
theorem within_resetDir (h : Ready base path p names t) :
    Within (p ++ names) t ((resetDir base (path.below names)).apply t).2 ∧
    (((resetDir base (path.below names)).apply t).1.toBool = true →
      Cleared base path p names ((resetDir base (path.below names)).apply t).2) := by
  obtain ⟨h1, h2⟩ := within_removeDirAll h
  unfold resetDir
  rw [apply_bind]
  rcases hr : (removeDirAll base (path.below names)).apply t with ⟨e | ⟨⟩, u⟩ <;> rw [hr] at h1 h2
  · exact ⟨h1, fun hok => by cases hok⟩
  · have hc := h2 rfl
    have hw : Within (p ++ names) u ((ensureDir base (path.below names)).apply u).2 :=
      keeps_ensureDir (fun _ _ ht hw => Ready.within ht hw) (fun _ ht => ht) h.ends h.areNames
        (fun d hd => towards_above hd) u hc.toReady
    exact ⟨h1.trans hw, fun _ => hc.within hw⟩

/-! ### Copying -/

/-- A file that is copied is put in one place, twice. -/
theorem copyFile_ok {source destination : Path} (h : t.copyFile base source destination = .ok u) :
    ∃ r content executable, t.openForWriting base destination = .ok r ∧
      u = (t.putAt r (.file .empty executable)).putAt r (.file content executable) := by
  unfold FileTree.copyFile at h
  rcases hs : t.stat base source with e | (_ | ⟨content, executable⟩ | target) <;> rw [hs] at h
  · cases h
  · cases h
  · simp only [bind, Except.bind] at h
    rcases ho : t.openForWriting base destination with e | r <;> rw [ho] at h
    · cases h
    simp only at h
    rcases hread : (t.putAt r (.file .empty executable)).read base source with e | content' <;>
      rw [hread] at h <;> cases h
    exact ⟨r, content', executable, rfl, rfl⟩
  · cases h

theorem apply_copyFile_ok {source destination : Path} {a : Unit}
    (h : (copyFile base source destination).apply t = (.ok a, u)) :
    t.copyFile base source destination = .ok u := by
  unfold copyFile at h
  rw [apply_bind, apply_get] at h
  simp only at h
  rcases hc : t.copyFile base source destination with e | v <;> rw [hc] at h <;> cases h
  rfl

theorem openForWriting_below (h : Cleared base path p names t) {c : List String} (hc : AreNames c)
    {r : Place} (ho : t.openForWriting base (path.below (names ++ c)) = .ok r) :
    r = p ++ (names ++ c) ∧ t.Reachable true r := by
  have hnames := h.areNames.append hc
  obtain ⟨-, hr, -⟩ := openForWriting_ok ho
  refine ⟨?_, resolve_reachable hr⟩
  rw [resolve, steps_eq_names (endsInName_below h.ends hnames).endsInSlash] at hr
  exact follow_below h.leads.resolve h.there hnames (by simp [h.ne]) (h.open_append c)
    (fun _ => h.inside _ ((List.prefix_append_right_inj p).mpr (List.prefix_append names c))) hr

theorem within_copyFile (h : Cleared base path p names t) {c : List String} (hc : AreNames c)
    {source : Path} (hcopy : t.copyFile base source (path.below (names ++ c)) = .ok u) :
    Within (p ++ names) t u := by
  obtain ⟨r, content, executable, ho, rfl⟩ := copyFile_ok hcopy
  have hplace := (openForWriting_below h hc ho).1
  have hbelow : p ++ names <+: r :=
    hplace ▸ (List.prefix_append_right_inj p).mpr (List.prefix_append names c)
  exact (within_putAt (fun _ h => by cases h) hbelow).trans
    (within_putAt (fun _ h => by cases h) hbelow)

theorem keeps_copyFile {c : List String} (hc : AreNames c) (source : Path) :
    Keeps (Cleared base path p names) (p ++ names)
      (copyFile base source (path.below (names ++ c))) := by
  intro t ht
  unfold copyFile
  rw [apply_bind, apply_get]
  simp only
  rcases hcopy : t.copyFile base source (path.below (names ++ c)) with e | u
  · exact .refl _ t
  · exact within_copyFile ht hc hcopy

/-- What is read is the directory to which the path leads. -/
theorem of_readDir {source : Path} {found : List String} (h : t.readDir base source = .ok found) :
    ∃ q, t.resolve base source = .ok q ∧ t.get? q = some .directory ∧ found = t.names q := by
  unfold readDir entryAt at h
  rcases hr : t.resolve base source with e | q <;> rw [hr] at h
  · cases h
  simp only [bind, Except.bind] at h
  rcases he : t.get? q with _ | (_ | ⟨content, executable⟩ | target) <;> rw [he] at h
  · cases h
  · cases h
    exact ⟨q, rfl, he, rfl⟩
  · cases h
  · cases h

theorem areNames_of_readDir {source : Path} {found : List String}
    (h : t.readDir base source = .ok found) : AreNames found := by
  obtain ⟨q, -, -, rfl⟩ := of_readDir h
  intro name hname
  obtain ⟨e, he⟩ := Option.isSome_iff_exists.mp (mem_names.mp hname)
  exact isName_of_get? he name (by simp)

/-- **Copying into a directory** in which there are no links changes nothing elsewhere. -/
theorem keeps_copyDirAll (hends : path.EndsInName) :
    ∀ (depth : Nat) {c : List String}, AreNames names → AreNames c → ∀ source : Path,
      Keeps (Cleared base path p names) (p ++ names)
        (copyDirAll base depth source (path.below (names ++ c)))
  | 0, c, _, _, source => Keeps.throw _
  | depth + 1, c, hnames, hc, source => by
    have hI : ∀ t u, Cleared base path p names t → Within (p ++ names) t u →
        Cleared base path p names u := fun _ _ ht hw => ht.within hw
    unfold copyDirAll
    refine Keeps.bind hI (keeps_ensureDir hI (fun _ ht => ht.toReady) hends (hnames.append hc)
      fun d hd => towards_of_append hd) fun _ t ht => ?_
    rw [apply_bind, apply_ask]
    rcases hfound : t.readDir base source with e | found
    · exact .refl _ t
    have hfoundNames := areNames_of_readDir hfound
    refine Keeps.forM hI (fun name hname u hu => ?_) t ht
    have hcopy : (path.below (names ++ c)).entry name = path.below (names ++ (c ++ [name])) := by
      rw [← below_concat, List.append_assoc]
    have hc' := hc.append (areNames_singleton (hfoundNames name hname))
    simp only
    rw [apply_bind, apply_get, hcopy]
    simp only
    rcases u.lstat base (source.entry name) with e | (_ | ⟨content, executable⟩ | target)
    · exact keeps_copyFile hc' _ u hu
    · exact keeps_copyDirAll hends depth hnames hc' _ u hu
    · exact keeps_copyFile hc' _ u hu
    · exact keeps_copyFile hc' _ u hu

theorem keeps_copyTree (hends : path.EndsInName) (hnames : AreNames names) {c : List String}
    (hc : AreNames c) (source : Path) :
    Keeps (Cleared base path p names) (p ++ names)
      (copyTree base source (path.below (names ++ c))) := by
  intro t ht
  unfold copyTree
  rw [apply_bind, apply_get]
  exact keeps_copyDirAll hends _ hnames hc source t ht

end Edit

end SymbolDocs
