import Mathlib.Data.String.Basic
import SymbolDocs.FileTree.Edit
import SymbolDocs.Proofs.Path.Entries

/-! # What a listing shows

The files below a directory are listed in ascending order of the ways that lead down to them, and
all of them but those that are hidden, or beneath something hidden (`lists_listFiles`). -/

namespace SymbolDocs.FileTree

variable {t : FileTree} {base p : Place} {root : Path}

/-! ### What is beneath a directory -/

theorem lt_of_append_lt {d a b : Place} (h : d ++ a < d ++ b) : a < b := by
  induction d with
  | nil => exact h
  | cons name d ih =>
    rw [List.cons_append, List.cons_append, List.cons_lt_cons_iff] at h
    rcases h with h | ⟨-, h⟩
    · exact absurd h (lt_irrefl name)
    · exact ih h

theorem mem_beneath {names : Place} {e : Entry} :
    (names, e) ∈ t.beneath p ↔ names ≠ [] ∧ t.get? (p ++ names) = some e := by
  have hiff : ∀ {names : Place}, names ≠ [] →
      (t.get? (p ++ names) = some e ↔ (p ++ names, e) ∈ t.entries) :=
    fun hne => get?_eq_some_iff (by simp [hne])
  unfold beneath
  rw [List.mem_filterMap]
  constructor
  · rintro ⟨⟨q, d⟩, hmem, hq⟩
    split_ifs at hq with hbelow
    obtain ⟨⟨a, rfl⟩, hne⟩ := hbelow
    rw [List.drop_left] at hq
    cases hq
    have hnames : names ≠ [] := by
      rintro rfl
      exact hne (List.append_nil p)
    exact ⟨hnames, (hiff hnames).mpr hmem⟩
  · rintro ⟨hne, he⟩
    refine ⟨(p ++ names, e), (hiff hne).mp he, ?_⟩
    rw [if_pos ⟨List.prefix_append p names, by simp [hne]⟩, List.drop_left]

theorem pairwise_beneath (t : FileTree) (p : Place) :
    (t.beneath p).Pairwise (·.1 < ·.1) := by
  refine List.Pairwise.filterMap _ ?_ t.ascending
  intro x y hlt a ha b hb
  split_ifs at ha with hx
  split_ifs at hb with hy
  cases ha
  cases hb
  obtain ⟨⟨a, ha⟩, -⟩ := hx
  obtain ⟨⟨b, hb⟩, -⟩ := hy
  rw [← ha, ← hb] at hlt ⊢
  rw [List.drop_left, List.drop_left]
  exact lt_of_append_lt hlt

/-! ### The listing -/

/-- Some paths are those of the files below a directory, in ascending order of the names that lead
down to them. A file is left out if one of these names is hidden; without a directory there are
none. -/
def Lists (t : FileTree) (base : Place) (root : Path) (paths : List Path) : Prop :=
  ∃ ways : List Place, paths = ways.map root.below ∧ ways.Pairwise (· < ·) ∧
    ∀ way, way ∈ ways ↔ (∀ name ∈ way, isHidden name = false) ∧
      ∃ p content executable, t.resolve base root = .ok p ∧ t.get? p = some .directory ∧
        t.get? (p ++ way) = some (.file content executable)

/-- The names that lead to a file that is listed. -/
def listedWay? : Place × Entry → Option Place
  | (names, .file _ _) => if names.any isHidden then none else some names
  | _ => none

theorem listedWay?_eq_some {x : Place × Entry} {way : Place} :
    listedWay? x = some way ↔ x.1 = way ∧ (∀ name ∈ way, isHidden name = false) ∧
      ∃ content executable, x.2 = .file content executable := by
  obtain ⟨names, e⟩ := x
  unfold listedWay?
  rcases e with _ | ⟨content, executable⟩ | target
  · simp
  · simp only [List.any_eq_true, Entry.file.injEq, exists_and_left, exists_eq', and_true]
    split_ifs with h
    · obtain ⟨name, hmem, hidden⟩ := h
      simp only [false_iff, not_and, not_forall]
      rintro rfl
      exact ⟨name, hmem, by simp [hidden]⟩
    · simp only [Option.some.injEq, iff_self_and]
      rintro rfl name hmem
      by_contra hidden
      exact h ⟨name, hmem, by simpa using hidden⟩
  · simp

/-- **What a listing shows.** -/
theorem lists_listFiles (t : FileTree) (base : Place) (root : Path) :
    t.Lists base root (t.listFiles base root) := by
  unfold listFiles
  rcases hr : t.resolve base root with cause | p
  · exact ⟨[], rfl, .nil, fun way => ⟨nofun, by rintro ⟨-, p, c, x, hp, -⟩; rw [hr] at hp; cases hp⟩⟩
  simp only
  split_ifs with hd
  swap
  · refine ⟨[], rfl, .nil, fun way => ⟨nofun, ?_⟩⟩
    rintro ⟨-, q, content, executable, hq, hdir, -⟩
    cases hr.symm.trans hq
    exact absurd (by simp [isDirectory, hdir]) hd
  have hdir : t.get? p = some .directory := by simpa [isDirectory] using hd
  refine ⟨(t.beneath p).filterMap listedWay?, ?_, ?_, fun way => ?_⟩
  · rw [List.map_filterMap]
    refine List.filterMap_congr fun x _ => ?_
    obtain ⟨names, _ | ⟨content, executable⟩ | target⟩ := x
    · rfl
    · simp only [listedWay?]
      split_ifs <;> rfl
    · rfl
  · refine List.Pairwise.filterMap _ ?_ (t.pairwise_beneath p)
    intro x y hlt a ha b hb
    rwa [(listedWay?_eq_some.mp ha).1, (listedWay?_eq_some.mp hb).1] at hlt
  · rw [List.mem_filterMap]
    constructor
    · rintro ⟨⟨names, e⟩, hmem, hway⟩
      obtain ⟨rfl, hshown, content, executable, rfl⟩ := listedWay?_eq_some.mp hway
      exact ⟨hshown, p, content, executable, hr, hdir, (mem_beneath.mp hmem).2⟩
    · rintro ⟨hshown, q, content, executable, hq, -, hfile⟩
      cases hr.symm.trans hq
      refine ⟨(way, .file content executable), mem_beneath.mpr ⟨?_, hfile⟩,
        listedWay?_eq_some.mpr ⟨rfl, hshown, content, executable, rfl⟩⟩
      rintro rfl
      rw [List.append_nil, hdir] at hfile
      cases hfile

end SymbolDocs.FileTree
