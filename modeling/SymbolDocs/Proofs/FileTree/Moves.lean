import SymbolDocs.Proofs.FileTree.Below
import SymbolDocs.Proofs.Path.Moves

/-! # Walks along the moves of a path

A walk along a path goes by its moves: what stays where it is says nothing (`walk_moves`), so an
absolute path that ends in what it says last is looked up by its moves from the root
(`locateEntry_eq_walk`, `resolve_eq_walk`). A walk to a name gets first to a directory and then into
it (`walk_concat`). -/

namespace SymbolDocs.FileTree

open SymbolDocs.Path (isName AreNames)

variable {t u : FileTree} {base p q : Place} {path : Path} {followLast : Bool}

/-! ### Steps that stay -/

theorem stroll_here {cur : Place} : ∀ {steps : List String},
    (∀ s ∈ steps, s = ".") → t.stroll followLast cur steps = .ok (.reached cur)
  | [], _ => rfl
  | s :: steps, h => by
    rw [h s (by simp), stroll, if_pos rfl]
    exact stroll_here fun x hx => h x (by simp [hx])

theorem names_of_inner_nil (h : path.inner = []) : ∀ s ∈ path.names, s = "." := by
  intro s hs
  obtain ⟨hmem, hne⟩ := List.mem_filter.mp hs
  have hsays := List.filterMap_eq_nil_iff.mp h s hmem
  unfold Path.Component.ofSegment? at hsays
  split_ifs at hsays with h1
  exact h1.resolve_left (by simpa using hne)

theorem steps_of_inner_nil (h : path.inner = []) : ∀ s ∈ path.steps, s = "." := by
  unfold Path.steps
  split_ifs
  · intro s hs
    rcases List.mem_append.mp hs with hs | hs
    · exact names_of_inner_nil h s hs
    · exact List.mem_singleton.mp hs
  · exact names_of_inner_nil h

/-- Steps that stay can be left out, except for a last one, which asks for a directory. -/
theorem walk_filter (t : FileTree) (followLast : Bool) (n : Nat) (cur : Place) :
    ∀ {b : List String}, b.getLast? ≠ some "." → ∀ a,
      t.walk followLast n cur (a ++ b) = t.walk followLast n cur (a ++ b.filter (· ≠ "."))
  | [], _, a => rfl
  | step :: b, hlast, a => by
    have hrest : b ≠ [] → b.getLast? ≠ some "." := by
      intro hb
      rwa [List.getLast?_cons_of_ne_nil hb] at hlast
    by_cases hstep : step = "."
    · have hb : b ≠ [] := by
        rintro rfl
        exact hlast (congrArg some hstep)
      rw [hstep, walk_dot t followLast hb, walk_filter t followLast n cur (hrest hb) a]
      simp
    · rw [List.filter_cons_of_pos (by simpa using hstep), List.append_cons a step b,
        List.append_cons a step (b.filter (· ≠ "."))]
      by_cases hb : b = []
      · rw [hb]
        rfl
      · exact walk_filter t followLast n cur (hrest hb) (a ++ [step])

/-! ### By moves -/

theorem getLast?_names (h : path.EndsInStep) :
    ∃ step, path.names.getLast? = some step ∧ step ≠ "." := by
  obtain ⟨step, hlast, hne, hdot⟩ := h
  obtain ⟨init, hinit⟩ := List.getLast?_eq_some_iff.mp hlast
  refine ⟨step, ?_, hdot⟩
  rw [Path.names, hinit, List.filter_append, List.filter_cons_of_pos (by simpa using hne)]
  simp

/-- **A walk along a path goes by its moves.** -/
theorem walk_moves (h : path.EndsProper) (t : FileTree) (followLast : Bool) (n : Nat) (cur : Place) :
    t.walk followLast n cur path.names = t.walk followLast n cur path.moves := by
  rcases h with hnil | hstep
  · have hmoves : path.moves = [] := by rw [Path.moves, hnil]; rfl
    rw [hmoves, walk_of_reached (stroll_here (names_of_inner_nil hnil)),
      walk_of_reached (stroll_here (by simp))]
  · obtain ⟨step, hlast, hdot⟩ := getLast?_names hstep
    rw [Path.moves_eq_filter]
    exact walk_filter t followLast n cur (fun h => hdot (Option.some.inj (hlast.symm.trans h))) []

section Absolute

variable (habs : path.isAbsolute = true) (hends : path.EndsProper) (hnul : path.hasNul = false)

include habs

theorem text_ne_of_isAbsolute : path.text ≠ "" := by
  intro h
  obtain ⟨cs, hcs⟩ := Path.isAbsolute_iff.mp habs
  rw [h] at hcs
  cases hcs

include hends hnul

theorem locateEntry_eq_walk (t : FileTree) (base : Place) :
    t.locateEntry base path = t.walk false linkLimit [] path.moves := by
  unfold locateEntry follow
  rw [if_neg (text_ne_of_isAbsolute habs), if_neg (by simp [hnul]), if_pos habs, walk_moves hends]

theorem resolve_eq_walk (t : FileTree) (base : Place) :
    t.resolve base path = t.walk true linkLimit [] path.moves := by
  unfold resolve follow
  rw [if_neg (text_ne_of_isAbsolute habs), if_neg (by simp [hnul]), if_pos habs]
  rcases hends with hnil | hstep
  · have hmoves : path.moves = [] := by rw [Path.moves, hnil]; rfl
    rw [hmoves, walk_of_reached (stroll_here (steps_of_inner_nil hnil)),
      walk_of_reached (stroll_here (by simp))]
  · rw [steps_eq_names hstep.endsInSlash, walk_moves (.inr hstep)]

end Absolute

/-! ### The last step of a walk -/

theorem stroll_append_of_error {a b : List String} (hb : b ≠ []) : ∀ {cur : Place} {e : IoError},
    t.stroll true cur a = .error e → t.stroll followLast cur (a ++ b) = .error e := by
  induction a with
  | nil => exact fun h => by cases h
  | cons step a ih =>
    intro cur e h
    by_cases hd : step = "."
    · rw [stroll, if_pos hd] at h
      rw [List.cons_append, stroll, if_pos hd, ih h]
    by_cases hu : step = ".."
    · rw [stroll, if_neg hd, if_pos hu] at h
      rw [List.cons_append, stroll, if_neg hd, if_pos hu, ih h]
    have hab : a ++ b ≠ [] := by simp [hb]
    rw [stroll, if_neg hd, if_neg hu] at h
    rw [List.cons_append, stroll, if_neg hd, if_neg hu]
    rcases he : t.get? (cur ++ [step]) with _ | (_ | ⟨c, x⟩ | target) <;> rw [he] at h <;>
      simp only at h ⊢
    · split_ifs at h
      cases h
      rw [if_neg hab]
    · exact ih h
    · split_ifs at h
      cases h
      rw [if_neg hab]
    · rw [if_neg (by simp)] at h
      cases h

/-- Where a walk fails it is of no use to go on. -/
theorem walk_append_of_error {b : List String} (hb : b ≠ []) : ∀ {n : Nat} {cur : Place}
    {a : List String} {e : IoError}, t.walk true n cur a = .error e →
      t.walk followLast n cur (a ++ b) = .error e := by
  intro n
  induction n with
  | zero =>
    intro cur a e h
    rcases hs : t.stroll true cur a with e' | (r | ⟨dir, target, rest⟩)
    · rw [walk_of_error hs] at h
      rw [walk_of_error (stroll_append_of_error hb hs), h]
    · rw [walk_of_reached hs] at h
      cases h
    · unfold walk at h ⊢
      rw [hs] at h
      rw [stroll_append_of_atLink followLast hb hs]
      exact h
  | succ n ih =>
    intro cur a e h
    rcases hs : t.stroll true cur a with e' | (r | ⟨dir, target, rest⟩)
    · rw [walk_of_error hs] at h
      rw [walk_of_error (stroll_append_of_error hb hs), h]
    · rw [walk_of_reached hs] at h
      cases h
    · have hs' := stroll_append_of_atLink followLast hb hs
      by_cases ht : target.text = ""
      · unfold walk at h ⊢
        rw [hs] at h
        rw [hs']
        simp only [bind, Except.bind, ht, if_true] at h ⊢
        exact h
      · rw [walk_over hs ht] at h
        rw [walk_over hs' ht, ← List.append_assoc, ih h]

/-- **A walk to a name** gets to a directory, and from there to what is called so in it. -/
theorem walk_concat {n : Nat} {cur r : Place} {a : List String} {name : String} (ha : Steps a)
    (hcur : t.get? cur = some .directory) (hname : isName name = true)
    (h : t.walk false n cur (a ++ [name]) = .ok r) :
    ∃ d, t.walk true n cur a = .ok d ∧ t.get? d = some .directory ∧ r = d ++ [name] := by
  rcases hw : t.walk true n cur a with e | d
  · rw [walk_append_of_error (List.cons_ne_nil name []) hw] at h
    cases h
  by_cases hd : t.get? d = some .directory
  · refine ⟨d, rfl, hd, ?_⟩
    obtain ⟨k, hk⟩ := walk_append hw hd
    rw [hk false [name] (by simp), walk_name hname (fun hf => by cases hf)] at h
    exact (Except.ok.inj h).symm
  · obtain ⟨e, he, -⟩ := walk_append_of_not_directory false ha hcur (List.cons_ne_nil name []) hw hd
    rw [he] at h
    cases h

/-- From a directory a walk goes on to a name in it. -/
theorem walk_concat_of_directory {n : Nat} {cur d : Place} {a : List String} {name : String}
    (hname : isName name = true) (h : t.walk true n cur a = .ok d)
    (hd : t.get? d = some .directory) (hlast : followLast = true → t.Plain (d ++ [name])) :
    t.walk followLast n cur (a ++ [name]) = .ok (d ++ [name]) := by
  obtain ⟨k, hk⟩ := walk_append h hd
  rw [hk followLast [name] (by simp), walk_name hname hlast]

theorem steps_moves (path : Path) : Steps path.moves := by
  rw [Path.moves_eq_filter]
  exact fun s hs => steps_names path s (List.mem_filter.mp hs).1

end SymbolDocs.FileTree
