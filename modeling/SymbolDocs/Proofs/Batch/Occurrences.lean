import Mathlib.Data.List.Basic

/-! # First occurrences

The distinct members of a list, in the order in which they first occur in it. `List.eraseDups` lists
them. -/

namespace SymbolDocs

variable {α : Type} [DecidableEq α]

/-- **`ds` has each member of `l` once, in the order of the first occurrences.** -/
structure FirstOccurrences (l ds : List α) : Prop where
  mem_iff : ∀ a, a ∈ ds ↔ a ∈ l
  ascending : ds.Pairwise fun a b => l.idxOf a < l.idxOf b

namespace FirstOccurrences

theorem nodup {l ds : List α} (h : FirstOccurrences l ds) : ds.Nodup :=
  h.ascending.imp fun hlt he => by subst he; exact absurd hlt (Nat.lt_irrefl _)

/-- What occurs first in a list is known from the list. -/
theorem unique {l ds ds' : List α} (h : FirstOccurrences l ds) (h' : FirstOccurrences l ds') :
    ds = ds' :=
  List.Perm.eq_of_pairwise (fun _ _ _ _ hlt hgt => absurd hlt (Nat.lt_asymm hgt)) h.ascending
    h'.ascending ((List.perm_ext_iff_of_nodup h.nodup h'.nodup).mpr fun a => by
      rw [h.mem_iff, h'.mem_iff])

/-- One member that may be repeated occurs first once. -/
theorem eq_singleton {l ds : List α} {a : α} (h : FirstOccurrences l ds)
    (hl : ∀ b, b ∈ l ↔ b = a) : ds = [a] := by
  have hone : [a].Nodup := by simp
  refine List.perm_singleton.mp ((List.perm_ext_iff_of_nodup h.nodup hone).mpr fun b => ?_)
  rw [h.mem_iff, hl, List.mem_singleton]

/-- What is kept of a list is met in the same order. -/
theorem idxOf_lt_of_filter (p : α → Bool) {a b : α} (ha : p a = true) (hb : p b = true) :
    ∀ {l : List α}, (l.filter p).idxOf a < (l.filter p).idxOf b → l.idxOf a < l.idxOf b
  | [], h => by simp at h
  | x :: l, h => by
    rw [List.filter_cons] at h
    by_cases hxa : x = a
    · subst hxa
      rw [if_pos ha, List.idxOf_cons_self] at h
      rw [List.idxOf_cons_self]
      by_cases hxb : x = b
      · subst hxb; rw [List.idxOf_cons_self] at h; exact absurd h (Nat.lt_irrefl _)
      · rw [List.idxOf_cons_ne _ hxb]; exact Nat.succ_pos _
    · by_cases hxb : x = b
      · subst hxb
        rw [if_pos hb, List.idxOf_cons_self] at h
        exact absurd h (Nat.not_lt_zero _)
      · rw [List.idxOf_cons_ne _ hxa, List.idxOf_cons_ne _ hxb]
        refine Nat.succ_lt_succ (idxOf_lt_of_filter p ha hb ?_)
        split_ifs at h
        · rw [List.idxOf_cons_ne _ hxa, List.idxOf_cons_ne _ hxb] at h
          exact Nat.lt_of_succ_lt_succ h
        · exact h

theorem eraseDups : ∀ l : List α, FirstOccurrences l l.eraseDups
  | [] => ⟨by simp, by simp⟩
  | a :: l => by
    have ih := eraseDups (l.filter fun b => !b == a)
    refine ⟨fun b => List.mem_eraseDups, ?_⟩
    rw [List.eraseDups_cons]
    have hkept : ∀ b ∈ (l.filter fun b => !b == a).eraseDups, b ≠ a := by
      intro b hb
      have := (List.mem_filter.mp ((ih.mem_iff b).mp hb)).2
      simpa using this
    refine List.pairwise_cons.mpr ⟨fun b hb => ?_, ?_⟩
    · rw [List.idxOf_cons_self, List.idxOf_cons_ne _ (hkept b hb).symm]
      exact Nat.succ_pos _
    · refine ih.ascending.imp_of_mem fun {b c} hb hc hlt => ?_
      rw [List.idxOf_cons_ne _ (hkept b hb).symm, List.idxOf_cons_ne _ (hkept c hc).symm]
      refine Nat.succ_lt_succ (idxOf_lt_of_filter _ ?_ ?_ hlt)
      · simpa using hkept b hb
      · simpa using hkept c hc
termination_by l => l.length
decreasing_by exact Nat.lt_succ_of_le (List.length_filter_le _ _)

end FirstOccurrences

end SymbolDocs
