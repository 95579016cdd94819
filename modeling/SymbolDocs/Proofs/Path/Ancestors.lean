import SymbolDocs.Proofs.Path.Components

/-! # The way up from a path

The parent of a path has all components of the path but the last one (`components_parent`); only the
root and a path without components have no parent (`components_of_parent_eq_none`). So the way up
from a path ends, after as many steps as there are components to be left (`LeadsUp.length_eq`), and
`ancestors` goes all of it (`leadsUp_ancestors`). -/

namespace SymbolDocs.Path

variable {p q : Path} {chain : List Path}

/-! ### One step up -/

theorem components_of_segments {first : String} {rest : List String}
    (hs : p.segments = first :: rest) :
    p.components = (Component.ofFirst? first p.isAbsolute).toList ++
      rest.filterMap Component.ofSegment? := by
  unfold components
  rw [hs]

theorem isAbsolute_parent (h : p.parent = some q) : q.isAbsolute = p.isAbsolute := by
  rcases parent_cases p with ⟨q', hq, habs, -⟩ | ⟨hnone, -⟩
  · cases hq.symm.trans h
    exact habs
  · cases hnone.symm.trans h

/-- **A parent lacks the last component**, and nothing else. -/
theorem components_parent (h : p.parent = some q) : ∃ c, p.components = q.components ++ [c] := by
  have habs := isAbsolute_parent h
  obtain ⟨first, rest, hs⟩ := List.exists_cons_of_ne_nil p.segments_ne_nil
  have hslash : ∀ s ∈ first :: rest, '/' ∉ s.toList :=
    fun s h => slash_not_mem_of_mem_segments (hs ▸ h)
  have hfirst := segments_of_slash_not_mem (hslash first (List.mem_cons_self ..))
  rw [components_of_segments hs]
  unfold parent at h
  rw [hs] at h
  simp only at h
  rcases hk : trimSegments rest with _ | ⟨k, ks⟩ <;> rw [hk] at h <;> simp only at h
  · -- the first segment is the only one that says something
    split_ifs at h with hempty
    cases h
    have hrest : rest.filterMap Component.ofSegment? = [] := by
      rw [← says_trimSegments, hk, List.filterMap_nil]
    have hrelative := isAbsolute_of_first_ne hs hempty
    rw [hrest, hrelative, Component.ofFirst?, Component.ofSegment?]
    simp only [Bool.false_eq_true, if_false, hempty, false_or]
    split_ifs <;> exact ⟨_, rfl⟩
  obtain ⟨c, hrest⟩ := says_trimSegments_concat (l := rest) (by simp [hk])
  refine ⟨c, ?_⟩
  rw [hrest, hk, ← List.append_assoc, ← habs]
  congr 1
  rcases ha : trimSegments (k :: ks).dropLast with _ | ⟨a, as⟩ <;> rw [ha] at h <;> simp only at h
  · split_ifs at h with hempty <;> cases h
    · rw [hempty]
      rfl
    · exact (components_of_segments hfirst).symm
  · cases h
    have hmem : ∀ s ∈ a :: as, s ∈ rest := fun s h => mem_of_mem_trimSegments
      (hk ▸ List.dropLast_subset _ (mem_of_mem_trimSegments (ha ▸ h)))
    refine (components_of_segments (segments_ofSegments (by simp) fun s h => ?_)).symm
    rcases List.mem_cons.mp h with rfl | h
    · exact hslash _ (by simp)
    · exact hslash s (by simp [hmem s h])

/-- Only the root and a path that says nothing have no parent. -/
theorem components_of_parent_eq_none (h : p.parent = none) :
    p.components = if p.isAbsolute then [.root] else [] := by
  obtain ⟨first, rest, hs⟩ := List.exists_cons_of_ne_nil p.segments_ne_nil
  have hinner : p.inner = [] := by
    rcases parent_cases p with ⟨q, hq, -⟩ | ⟨-, hinner⟩
    · cases h.symm.trans hq
    · exact hinner
  have hfirst : first = "" := by
    unfold parent at h
    rw [hs] at h
    simp only at h
    rcases hk : trimSegments rest with _ | ⟨k, ks⟩ <;> rw [hk] at h <;> simp only at h
    · split_ifs at h with hempty
      exact hempty
    · rcases ha : trimSegments (k :: ks).dropLast with _ | ⟨a, as⟩ <;> rw [ha] at h <;>
        simp only at h
      · split_ifs at h
      · cases h
  rw [components_eq, hinner, lead, hs, hfirst]
  simp

/-! ### All steps -/

/-- A path, its parent, the parent of that, and so on up to a path that has none. -/
inductive LeadsUp : Path → List Path → Prop
  | top {p : Path} (h : p.parent = none) : LeadsUp p [p]
  | step {p q : Path} {chain : List Path} (h : p.parent = some q) (hq : LeadsUp q chain) :
    LeadsUp p (p :: chain)

/-- **The way up leaves one component at each step**, and goes on to the root or, from a path that
does not start there, to the empty path. -/
theorem LeadsUp.length_eq (h : LeadsUp p chain) :
    chain.length = p.components.length + if p.isAbsolute then 0 else 1 := by
  induction h with
  | @top p h =>
    rw [components_of_parent_eq_none h]
    split_ifs <;> rfl
  | @step p q chain h _ ih =>
    obtain ⟨c, hc⟩ := components_parent h
    rw [List.length_cons, ih, hc, isAbsolute_parent h, List.length_append, List.length_singleton]
    omega

theorem leadsUp_climb : ∀ {n : Nat} {p : Path}, p.components.length ≤ n →
    LeadsUp p (p :: climb n p)
  | 0, p, h => by
    refine .top (Option.eq_none_iff_forall_ne_some.mpr fun q hq => ?_)
    obtain ⟨c, hc⟩ := components_parent hq
    simp [hc] at h
  | n + 1, p, h => by
    unfold climb
    rcases hp : p.parent with _ | q
    · exact .top hp
    · obtain ⟨c, hc⟩ := components_parent hp
      rw [hc, List.length_append, List.length_singleton] at h
      exact .step hp (leadsUp_climb (by omega))

theorem length_components_le (p : Path) : p.components.length ≤ p.segments.length := by
  obtain ⟨first, rest, hs⟩ := List.exists_cons_of_ne_nil p.segments_ne_nil
  have hone : (Component.ofFirst? first p.isAbsolute).toList.length ≤ 1 := by
    rcases Component.ofFirst? first p.isAbsolute with _ | c <;> simp
  have hrest := List.length_filterMap_le Component.ofSegment? rest
  rw [components_of_segments hs, hs, List.length_append, List.length_cons]
  omega

/-- **The ancestors of a path are all the paths on the way up from it.** -/
theorem leadsUp_ancestors (p : Path) : LeadsUp p p.ancestors :=
  leadsUp_climb (Nat.le_succ_of_le (length_components_le p))

end SymbolDocs.Path
