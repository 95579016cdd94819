import SymbolDocs.Proofs.FileTree.Walk

/-! # Trees that grow

A tree grows if everything that is there stays as it is (`Grows`). Then a path that leads to
something leads to it still (`resolve_of_grows`, `stat_of_grows`), whereas one that leads to nothing
may come to name what is new. -/

namespace SymbolDocs.FileTree

variable {t u v : FileTree} {base p : Place} {path : Path} {followLast : Bool}

/-- Everything in `t` is in `u`. -/
def Grows (t u : FileTree) : Prop :=
  ∀ q e, t.get? q = some e → u.get? q = some e

namespace Grows

theorem refl (t : FileTree) : Grows t t := fun _ _ => id

theorem trans (h1 : Grows t u) (h2 : Grows u v) : Grows t v :=
  fun q e he => h2 q e (h1 q e he)

end Grows

theorem stroll_of_grows (h : Grows t u) {x : Stop} (hx : ∀ p, x = .reached p → t.get? p ≠ none)
    {a : List String} {cur : Place} (hs : t.stroll followLast cur a = .ok x) :
    u.stroll followLast cur a = .ok x := by
  rw [stroll_eq_ok_iff] at hs ⊢
  induction hs with
  | done hd => exact .done hd
  | here _ ih => exact .here ih
  | up _ ih => exact .up ih
  | into hstep hd _ ih => exact .into hstep (h _ _ hd) ih
  | last hstep hd hl hend =>
    obtain ⟨e, he⟩ := Option.ne_none_iff_exists'.mp (hx _ hend)
    refine .last hstep ?_ (fun hf target hlink => hl hf target ?_) hend
    · rw [h _ _ he, ← he]
      exact hd
    · rw [he, ← h _ _ he, hlink]
  | atLink hstep hl ha hend => exact .atLink hstep (h _ _ hl) ha hend

theorem walk_of_grows (h : Grows t u) (hp : t.get? p ≠ none) {n : Nat} {a : List String}
    {cur : Place} (hw : t.walk followLast n cur a = .ok p) : u.walk followLast n cur a = .ok p := by
  rw [walk_eq_ok_iff] at hw ⊢
  induction hw with
  | reached hs =>
    exact .reached (stroll_of_grows h (fun q hq => by cases hq; exact hp) hs)
  | onward hs htext _ ih =>
    exact .onward (stroll_of_grows h (fun q hq => by cases hq) hs) htext ih

theorem follow_of_grows (h : Grows t u) (hp : t.get? p ≠ none) {steps : List String}
    (hf : t.follow base path steps followLast = .ok p) :
    u.follow base path steps followLast = .ok p := by
  have hbase : t.isDirectory base = true → u.isDirectory base = true := by
    simpa [isDirectory] using h base .directory
  unfold follow at hf ⊢
  split_ifs at hf with h1 h2 h3 h4
  · rw [if_neg h1, if_neg h2, if_pos h3]
    exact walk_of_grows h hp hf
  · rw [if_neg h1, if_neg h2, if_neg h3, if_pos (hbase h4)]
    exact walk_of_grows h hp hf

/-- A path that leads to something leads to the same place when the tree has grown. -/
theorem resolve_of_grows (h : Grows t u) (hp : t.get? p ≠ none)
    (hr : t.resolve base path = .ok p) : u.resolve base path = .ok p :=
  follow_of_grows h hp hr

theorem entryAt_eq_ok_iff {e : Entry} : t.entryAt p = .ok e ↔ t.get? p = some e := by
  unfold entryAt
  rcases t.get? p with _ | d <;> simp

theorem stat_eq_ok_iff {e : Entry} :
    t.stat base path = .ok e ↔ ∃ p, t.resolve base path = .ok p ∧ t.get? p = some e := by
  unfold stat
  rcases t.resolve base path with cause | p
  · simp [bind, Except.bind]
  · refine entryAt_eq_ok_iff.trans ⟨fun h => ⟨p, rfl, h⟩, ?_⟩
    rintro ⟨q, hq, h⟩
    cases hq
    exact h

/-- **What a path names it names still** when the tree has grown. -/
theorem stat_of_grows (h : Grows t u) {e : Entry} (hs : t.stat base path = .ok e) :
    u.stat base path = .ok e := by
  obtain ⟨p, hr, he⟩ := stat_eq_ok_iff.mp hs
  exact stat_eq_ok_iff.mpr ⟨p, resolve_of_grows h (by simp [he]) hr, h p e he⟩

end SymbolDocs.FileTree
