import Mathlib.Logic.Function.Basic
import SymbolDocs.Coordinator

/-! # Workers that take turns

What holds of workers that share a lock and have their turns in any order, whatever they do in them.

* A lock guards a region if it is held just while somebody is inside, and nobody else is inside at
  the same time (`Lock.Guards`). This stays so if one after the other enters with the free lock and
  leaves with the lock released (`Lock.Guards.update`).
* Whoever comes nearer to the end with each turn, and is not set back by others, is there after so
  many turns of its own (`turns_foldl`). -/

namespace SymbolDocs

namespace Lock

variable {ι : Type} {lock lock' : Lock} {inside : ι → Bool}

/-- The lock is held just while somebody is inside, and there is one inside at most. -/
structure Guards (lock : Lock) (inside : ι → Bool) : Prop where
  held : lock.held = true ↔ ∃ x, inside x = true
  alone : ∀ x y, inside x = true → inside y = true → x = y

/-- What becomes of a lock when somebody has a turn, who is inside before and after it or not: all
stays as it is, or the free lock is taken, or the lock is released. -/
def Passes (lock lock' : Lock) (before after : Bool) : Prop :=
  (after = before ∧ lock' = lock) ∨
    (lock.held = false ∧ after = true ∧ lock'.held = true) ∨
    (before = true ∧ after = false ∧ lock'.held = false)

theorem Guards.none_inside (h : lock.Guards inside) (hfree : lock.held = false) (x : ι) :
    inside x = false := by
  by_contra hx
  have hheld := h.held.mpr ⟨x, by simpa using hx⟩
  simp [hfree] at hheld

/-- **A turn leaves the region guarded.** -/
theorem Guards.update [DecidableEq ι] {x : ι} {after : Bool} (h : lock.Guards inside)
    (hpasses : Passes lock lock' (inside x) after) :
    lock'.Guards (Function.update inside x after) := by
  rcases hpasses with ⟨rfl, rfl⟩ | ⟨hfree, rfl, hheld⟩ | ⟨hin, rfl, hfree⟩
  · rwa [Function.update_eq_self]
  · have honly : ∀ y, Function.update inside x true y = true → y = x := by
      intro y hy
      by_contra hyx
      rw [Function.update_of_ne hyx, h.none_inside hfree] at hy
      cases hy
    refine ⟨iff_of_true hheld ⟨x, Function.update_self ..⟩, fun y z hy hz => ?_⟩
    rw [honly y hy, honly z hz]
  · have hnobody : ∀ y, Function.update inside x false y ≠ true := by
      intro y hy
      by_cases hyx : y = x
      · rw [hyx, Function.update_self] at hy
        cases hy
      · rw [Function.update_of_ne hyx] at hy
        exact hyx (h.alone y x hy hin)
    exact ⟨iff_of_false (by simp [hfree]) fun ⟨y, hy⟩ => hnobody y hy,
      fun y z hy => absurd hy (hnobody y)⟩

end Lock

/-- **Each turn counts**: what is left to do after some moves, if a turn of somebody leaves less to
do and other moves leave as much. -/
theorem turns_foldl {σ μ : Type} {move : σ → μ → σ} (P : σ → Prop) (left : σ → Nat)
    (turn : μ → Bool)
    (hturn : ∀ s m, P s → turn m = true → P (move s m) ∧ left (move s m) ≤ left s - 1)
    (hother : ∀ s m, P s → turn m = false → P (move s m) ∧ left (move s m) = left s) :
    ∀ (moves : List μ) (s : σ), P s → left (moves.foldl move s) ≤ left s - moves.countP turn
  | [], _, _ => Nat.le_refl _
  | m :: moves, s, hs => by
    rw [List.foldl_cons, List.countP_cons]
    by_cases hm : turn m = true
    · obtain ⟨hnext, hless⟩ := hturn s m hs hm
      have hrest := turns_foldl P left turn hturn hother moves (move s m) hnext
      rw [if_pos hm]
      omega
    · obtain ⟨hnext, hsame⟩ := hother s m hs (by simpa using hm)
      have hrest := turns_foldl P left turn hturn hother moves (move s m) hnext
      rw [if_neg hm, ← hsame]
      exact hrest

end SymbolDocs
