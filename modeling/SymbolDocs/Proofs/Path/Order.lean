import Mathlib.Data.List.Lex
import Mathlib.Data.List.Nodup
import Mathlib.Data.Prod.Lex
import Mathlib.Data.String.Basic
import SymbolDocs.Proofs.Path.Entries

/-! # The order of paths

Paths are compared component by component, and not as texts: a directory comes right before what lies
below it, whatever the other names beside it are. What lies below a directory is in the order of the
names that lead down to it (`before_below`). -/

namespace SymbolDocs.Path

variable {p q : Path} {a b : List String}

/-- The rank of a component: first the root, then the current directory, then the way up, then names
in the order of their characters. -/
def Component.rank : Component → Nat ×ₗ String
  | .root => toLex (0, "")
  | .here => toLex (1, "")
  | .up => toLex (2, "")
  | .name s => toLex (3, s)

/-- What decides where a path stands in a sorted list. -/
def sortKey (p : Path) : List (Nat ×ₗ String) :=
  p.components.map Component.rank

/-- A path comes before another one. -/
def Before (p q : Path) : Prop :=
  p.sortKey < q.sortKey

instance (p q : Path) : Decidable (Before p q) :=
  inferInstanceAs (Decidable (p.sortKey < q.sortKey))

theorem not_before_self (p : Path) : ¬ Before p p :=
  lt_irrefl p.sortKey

/-- Paths in an order that may hold some of them again. -/
def sort (paths : List Path) : List Path :=
  paths.mergeSort fun p q => p.sortKey ≤ q.sortKey

theorem components_below (hp : p.text ≠ "") : ∀ {names : List String}, AreNames names →
    (p.below names).components = p.components ++ names.map .name := by
  intro names
  induction names using List.reverseRecOn with
  | nil => simp
  | append_singleton names name ih =>
    intro h
    have hne : (p.below names).text ≠ "" := by
      rcases List.eq_nil_or_concat names with rfl | ⟨init, last, rfl⟩
      · exact hp
      · exact (endsInName_of_ne h.of_append.1 (by simp)).text_ne
    rw [below_concat, components_entry hne (h name (by simp)), ih h.of_append.1]
    simp

/-- **Below a directory paths are in the order of the names that lead there.** -/
theorem before_below (hp : p.text ≠ "") (ha : AreNames a) (hb : AreNames b) (h : a < b) :
    Before (p.below a) (p.below b) := by
  unfold Before sortKey
  rw [components_below hp ha, components_below hp hb, List.map_append, List.map_append,
    List.map_map, List.map_map]
  refine List.append_left_lt (List.map_lt (fun x y hxy => ?_) h)
  exact Prod.Lex.toLex_lt_toLex.mpr (.inr ⟨rfl, hxy⟩)

theorem pairwise_sort (paths : List Path) :
    (sort paths).Pairwise fun p q => p.sortKey ≤ q.sortKey := by
  have h : (sort paths).Pairwise fun p q => decide (p.sortKey ≤ q.sortKey) = true := by
    refine List.pairwise_mergeSort (fun a b c hab hbc => ?_) (fun a b => ?_) paths
    · simp only [decide_eq_true_eq] at hab hbc ⊢
      exact hab.trans hbc
    · simp only [Bool.or_eq_true, decide_eq_true_eq]
      exact le_total _ _
  exact h.imp of_decide_eq_true

/-- **A list in which each path comes before all later ones is what sorting makes of every list with
the same members**, whatever their order there. -/
theorem sort_eq_of_perm {paths sorted : List Path} (hperm : paths.Perm sorted)
    (hsorted : sorted.Pairwise Before) : sort paths = sorted := by
  have hkeys : (sorted.map sortKey).Nodup :=
    List.pairwise_map.mpr (hsorted.imp fun h => ne_of_lt h)
  have hmem : (sort paths).Perm sorted := (List.mergeSort_perm _ _).trans hperm
  refine hmem.eq_of_pairwise (fun x y hx hy hxy hyx => ?_) (pairwise_sort paths)
    (hsorted.imp fun h => le_of_lt h)
  exact List.inj_on_of_nodup_map hkeys (hmem.mem_iff.mp hx) hy (le_antisymm hxy hyx)

/-- What lies in a directory comes before a sibling of the directory, whose text is the smaller one.
-/
example : Before ⟨"a/b"⟩ ⟨"a.b"⟩ ∧ "a.b" < "a/b" := by
  decide +kernel

end SymbolDocs.Path
