import SymbolDocs.Proofs.Path.Entries

/-! # The moves of a path

What a path says, as the steps that a walk along it takes: down to a name, or up (`moves`). The
parent of a path takes all of its moves but the last (`moves_parent`), and ends in a move itself, if
it makes any (`endsProper_parent`). -/

namespace SymbolDocs.Path

/-! ### Moves -/

/-- The step by which a walk follows a component. -/
def Component.step : Component → String
  | .root => ""
  | .here => "."
  | .up => ".."
  | .name s => s

/-- The steps along a path that lead anywhere. -/
def moves (p : Path) : List String :=
  p.inner.map Component.step

theorem step_ofSegment? {s : String} {c : Component} (h : Component.ofSegment? s = some c) :
    c.step = s := by
  unfold Component.ofSegment? at h
  split_ifs at h with h1 h2 <;> cases h
  · exact h2.symm
  · rfl

theorem map_step_filterMap (l : List String) :
    (l.filterMap Component.ofSegment?).map Component.step = l.filter fun s => s ≠ "" ∧ s ≠ "." := by
  induction l with
  | nil => rfl
  | cons s l ih =>
    rw [List.filterMap_cons, List.filter_cons]
    rcases h : Component.ofSegment? s with _ | c
    · have hs : s = "" ∨ s = "." := by
        by_contra hne
        unfold Component.ofSegment? at h
        rw [if_neg hne] at h
        split_ifs at h
      rw [if_neg (by simpa [imp_iff_not_or, or_comm] using hs.symm.imp not_not_intro id)]
      exact ih
    · have hs : s ≠ "" ∧ s ≠ "." := by
        unfold Component.ofSegment? at h
        split_ifs at h with h1 <;> exact not_or.mp h1
      rw [if_pos (by simp [hs]), List.map_cons, step_ofSegment? h, ih]

/-- The moves are the names without those that stay. -/
theorem moves_eq_filter (p : Path) : p.moves = p.names.filter (· ≠ ".") := by
  rw [moves, inner, map_step_filterMap, names, List.filter_filter]
  refine List.filter_congr fun s _ => ?_
  simp [Bool.and_comm]

theorem moves_join {p q : Path} (hq : q.isAbsolute = false) :
    (p.join q).moves = p.moves ++ q.moves := by
  rw [moves, inner_join hq, List.map_append]
  rfl

theorem moves_of_isName {s : String} (h : isName s = true) : (⟨s⟩ : Path).moves = [s] := by
  rw [moves, inner_of_isName h]
  rfl

theorem moves_entry (p : Path) {name : String} (h : isName name = true) :
    (p.entry name).moves = p.moves ++ [name] := by
  rw [entry, moves_join (isAbsolute_of_isName h), moves_of_isName h]

theorem moves_below {p : Path} : ∀ {names : List String}, AreNames names →
    (p.below names).moves = p.moves ++ names := by
  intro names
  induction names using List.reverseRecOn with
  | nil => simp
  | append_singleton names name ih =>
    intro h
    rw [below_concat, moves_entry _ (h name (by simp)), ih h.of_append.1, List.append_assoc]

/-! ### The way up -/

/-- A path that ends in a move, or makes none. -/
def EndsProper (p : Path) : Prop :=
  p.inner = [] ∨ p.EndsInStep

theorem endsInStep_ofSegments {first : String} {rest : List String} (h : trimSegments rest ≠ [])
    (hslash : ∀ s ∈ first :: trimSegments rest, '/' ∉ s.toList) :
    (ofSegments (first :: trimSegments rest)).EndsInStep := by
  refine ⟨(trimSegments rest).getLast h, ?_, getLast_trimSegments h⟩
  rw [segments_ofSegments (by simp) hslash, List.getLast?_cons, List.getLast?_eq_getLast_of_ne_nil h]
  rfl

theorem endsProper_of_segment {s : String} (h : '/' ∉ s.toList) : (⟨s⟩ : Path).EndsProper := by
  have hseg := segments_of_slash_not_mem h
  by_cases hs : s = "" ∨ s = "."
  · left
    rw [inner, hseg]
    simp [Component.ofSegment?, hs]
  · right
    exact ⟨s, by rw [hseg]; rfl, not_or.mp hs⟩

/-- A parent ends in what it says last. -/
theorem endsProper_parent {p q : Path} (h : p.parent = some q) : q.EndsProper := by
  obtain ⟨first, rest, hs⟩ := List.exists_cons_of_ne_nil p.segments_ne_nil
  have hslash : ∀ s ∈ first :: rest, '/' ∉ s.toList :=
    fun s h => slash_not_mem_of_mem_segments (hs ▸ h)
  unfold parent at h
  rw [hs] at h
  simp only at h
  rcases hk : trimSegments rest with _ | ⟨k, ks⟩ <;> rw [hk] at h <;> simp only at h
  · split_ifs at h
    cases h
    exact endsProper_of_segment (by simp)
  rcases ha : trimSegments (k :: ks).dropLast with _ | ⟨a, as⟩ <;> rw [ha] at h <;> simp only at h
  · split_ifs at h <;> cases h
    · exact .inl rfl
    · exact endsProper_of_segment (hslash first (by simp))
  · cases h
    rw [← ha]
    refine .inr (endsInStep_ofSegments (by simp [ha]) fun s hmem => ?_)
    rcases List.mem_cons.mp hmem with rfl | hmem
    · exact hslash s (by simp)
    · exact hslash s (by simp [mem_of_mem_trimSegments
        (hk ▸ List.dropLast_subset _ (mem_of_mem_trimSegments hmem))])

/-- **The parent takes all moves but the last one**; only a path without moves has none. -/
theorem moves_parent {p : Path} (h : p.moves ≠ []) :
    ∃ q, p.parent = some q ∧ q.isAbsolute = p.isAbsolute ∧ q.moves = p.moves.dropLast ∧
      q.EndsProper := by
  rcases parent_cases p with ⟨q, hq, habs, hinner⟩ | ⟨-, hnil⟩
  · exact ⟨q, hq, habs, by rw [moves, hinner, List.map_dropLast]; rfl, endsProper_parent hq⟩
  · exact absurd (by rw [moves, hnil]; rfl) h

/-! ### Paths without a step up -/

/-- A path that never leads up moves over names only. -/
theorem areNames_moves {p : Path} (h : Component.up ∉ p.inner) : AreNames p.moves := by
  intro s hs
  obtain ⟨c, hc, rfl⟩ := List.mem_map.mp hs
  obtain ⟨segment, -, hsegment⟩ := List.mem_filterMap.mp hc
  unfold Component.ofSegment? at hsegment
  split_ifs at hsegment <;> cases hsegment
  · exact absurd hc h
  · exact isName_of_name_mem_inner hc

end SymbolDocs.Path
