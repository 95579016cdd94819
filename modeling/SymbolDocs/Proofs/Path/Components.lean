import SymbolDocs.Path
import Mathlib.Data.List.Basic

/-! # What joined paths say

A path says something with its first segment, which may be the root or the current directory
(`lead`), and with all its segments (`inner`), of which empty ones and `.` say nothing. A path that
does not start at the root adds what it says to the path that it is joined to (`inner_join`,
`lead_join`), so the components of a joined path are those of its parts (`components_join`), and so
are the names that a lookup goes through (`names_join`). The parent of a path says all but the last
thing (`parent_cases`). -/

namespace SymbolDocs.Path

/-! ### The parts of a path -/

/-- What the segments of a path say, wherever it starts. -/
def inner (p : Path) : List Component :=
  p.segments.filterMap Component.ofSegment?

/-- Where a path starts, if it says so. -/
def lead (p : Path) : List Component :=
  if p.isAbsolute then [.root] else if p.segments.head? = some "." then [.here] else []

theorem root_not_mem_inner (p : Path) : Component.root ∉ p.inner := by
  intro h
  obtain ⟨s, -, hs⟩ := List.mem_filterMap.mp h
  unfold Component.ofSegment? at hs
  split_ifs at hs
  · cases hs
  · cases hs

theorem segments_ne_nil (p : Path) : p.segments ≠ [] := by
  simp [segments, List.splitOn_ne_nil]

theorem isAbsolute_iff {p : Path} : p.isAbsolute = true ↔ ∃ cs, p.text.toList = '/' :: cs := by
  unfold isAbsolute
  rcases p.text.toList with _ | ⟨c, cs⟩ <;> simp

theorem slash_not_mem_of_mem_splitOn : ∀ {cs s : List Char}, s ∈ cs.splitOn '/' → '/' ∉ s
  | [], s, h => by simp at h; simp [h]
  | c :: cs, s, h => by
    rw [List.splitOn_cons_eq_if_modifyHead] at h
    obtain ⟨x, xs, hx⟩ := List.exists_cons_of_ne_nil (List.splitOn_ne_nil '/' cs)
    have hmem : ∀ t ∈ x :: xs, '/' ∉ t := fun t ht => slash_not_mem_of_mem_splitOn (hx ▸ ht)
    rw [hx] at h
    split_ifs at h with hc
    · rcases List.mem_cons.mp h with rfl | h
      · simp
      · exact hmem s h
    · rw [List.modifyHead_cons] at h
      rcases List.mem_cons.mp h with rfl | h
      · have := hmem x (by simp)
        simp only [beq_iff_eq] at hc
        simp [this, Ne.symm hc]
      · exact hmem s (by simp [h])

theorem slash_not_mem_of_mem_segments {p : Path} {s : String} (h : s ∈ p.segments) :
    '/' ∉ s.toList := by
  obtain ⟨cs, hcs, rfl⟩ := List.mem_map.mp h
  rw [String.toList_ofList]
  exact slash_not_mem_of_mem_splitOn hcs

theorem segments_ofSegments {l : List String} (hl : l ≠ []) (h : ∀ s ∈ l, '/' ∉ s.toList) :
    (ofSegments l).segments = l := by
  unfold segments ofSegments
  rw [String.toList_intercalate, show "/".toList = ['/'] from rfl,
    List.splitOn_intercalate '/' (by simpa using h) (by simpa using hl)]
  simp

theorem segments_of_slash_not_mem {s : String} (h : '/' ∉ s.toList) :
    (⟨s⟩ : Path).segments = [s] := by
  unfold segments
  rw [List.splitOn_eq_singleton h]
  simp

/-- A path starts at the root if its first segment is empty and not its only one. -/
theorem isAbsolute_iff_segments {p : Path} :
    p.isAbsolute = true ↔ ∃ rest, rest ≠ [] ∧ p.segments = "" :: rest := by
  rw [isAbsolute_iff]
  constructor
  · rintro ⟨cs, hcs⟩
    refine ⟨(cs.splitOn '/').map String.ofList, by simp, ?_⟩
    unfold segments
    rw [hcs, show '/' :: cs = [] ++ '/' :: cs from rfl, List.splitOn_append_cons_self]
    simp
  · rintro ⟨rest, hrest, hs⟩
    unfold segments at hs
    rcases hp : p.text.toList with _ | ⟨c, cs⟩
    · rw [hp] at hs
      simp only [List.splitOn_nil, List.map_cons, List.map_nil, List.cons.injEq] at hs
      exact absurd hs.2.symm hrest
    · rw [hp, List.splitOn_cons_eq_if_modifyHead] at hs
      by_cases hc : c = '/'
      · exact ⟨cs, by rw [hc]⟩
      · obtain ⟨x, xs, hx⟩ := List.exists_cons_of_ne_nil (List.splitOn_ne_nil '/' cs)
        rw [if_neg (by simpa using hc), hx] at hs
        simp at hs

theorem components_eq (p : Path) : p.components = p.lead ++ p.inner := by
  obtain ⟨first, rest, hs⟩ := List.exists_cons_of_ne_nil p.segments_ne_nil
  unfold components lead inner
  rw [hs]
  simp only [List.filterMap_cons, List.head?_cons, Option.some.injEq, Component.ofFirst?]
  by_cases ha : p.isAbsolute = true
  · obtain ⟨rest', -, hf⟩ := isAbsolute_iff_segments.mp ha
    obtain ⟨rfl, -⟩ := List.cons.inj (hs.symm.trans hf)
    simp [ha, Component.ofSegment?]
  · rw [Bool.not_eq_true] at ha
    by_cases hd : first = "."
    · simp [ha, hd, Component.ofSegment?]
    · simp only [ha, Bool.false_eq_true, if_false, hd, List.nil_append]
      rcases Component.ofSegment? first with _ | c <;> simp

/-! ### Joined paths -/

/-- The text of a joined path: the left text, a slash where one is missing, and the right text. -/
theorem text_join {p q : Path} (hq : q.isAbsolute = false) :
    (p.join q).text.toList = q.text.toList ∧ p.text.toList = [] ∨
    (∃ cs, p.text.toList = cs ++ ['/'] ∧ (p.join q).text.toList = cs ++ '/' :: q.text.toList) ∨
    p.text.toList ≠ [] ∧ (p.join q).text.toList = p.text.toList ++ '/' :: q.text.toList := by
  unfold join
  rw [if_neg (by simp [hq])]
  by_cases he : p.text.toList = []
  · have : p.text = "" := String.toList_eq_nil_iff.mp he
    left
    simp [this]
  · right
    have hne : p.text.isEmpty = false := by
      rw [Bool.eq_false_iff, ne_eq, String.isEmpty_iff]
      rintro h
      simp [h] at he
    by_cases hl : p.text.toList.getLast? = some '/'
    · obtain ⟨cs, hcs⟩ := List.getLast?_eq_some_iff.mp hl
      left
      refine ⟨cs, hcs, ?_⟩
      rw [if_pos (Or.inr hl), String.toList_append, hcs, List.append_assoc]
      rfl
    · right
      refine ⟨he, ?_⟩
      rw [if_neg (by simp [hne, hl])]
      simp

/-- The segments of a joined path, up to empty ones. -/
theorem filterMap_segments_join {α : Type} {f : String → Option α} (hf : f "" = none) {p q : Path}
    (hq : q.isAbsolute = false) :
    (p.join q).segments.filterMap f = p.segments.filterMap f ++ q.segments.filterMap f := by
  unfold segments
  rcases text_join hq with ⟨hj, hp⟩ | ⟨cs, hp, hj⟩ | ⟨-, hj⟩
  · rw [hj, hp]; simp [hf]
  · rw [hj, hp, List.splitOn_append_cons_self, show cs ++ ['/'] = cs ++ '/' :: [] from rfl,
      List.splitOn_append_cons_self]
    simp [hf]
  · rw [hj, List.splitOn_append_cons_self]; simp

theorem inner_join {p q : Path} (hq : q.isAbsolute = false) :
    (p.join q).inner = p.inner ++ q.inner :=
  filterMap_segments_join (by simp [Component.ofSegment?]) hq

theorem names_join {p q : Path} (hq : q.isAbsolute = false) :
    (p.join q).names = p.names ++ q.names := by
  unfold names
  rw [← List.filterMap_eq_filter]
  exact filterMap_segments_join (by simp [Option.guard]) hq

theorem join_of_isAbsolute {p q : Path} (hq : q.isAbsolute = true) : p.join q = q := by
  unfold join; rw [if_pos hq]

theorem isAbsolute_join {p q : Path} (hq : q.isAbsolute = false) :
    (p.join q).isAbsolute = p.isAbsolute := by
  unfold isAbsolute at hq ⊢
  rcases text_join (p := p) hq with ⟨hj, hp⟩ | ⟨cs, hp, hj⟩ | ⟨hp, hj⟩
  · rw [hj, hp, hq]; rfl
  · rw [hj, hp]; cases cs <;> rfl
  · rw [hj]
    obtain ⟨c, cs, hc⟩ := List.exists_cons_of_ne_nil hp
    rw [hc]; rfl

theorem lead_join {p q : Path} (hq : q.isAbsolute = false) (hp : p.text ≠ "") :
    (p.join q).lead = p.lead := by
  have hp' : p.text.toList ≠ [] := fun h => hp (String.toList_eq_nil_iff.mp h)
  have hhead : (p.join q).segments.head? = p.segments.head? := by
    have first : ∀ cs ds : List Char,
        (((cs.splitOn '/') ++ ds.splitOn '/').map String.ofList).head? =
        ((cs.splitOn '/').map String.ofList).head? := by
      intro cs ds
      obtain ⟨x, xs, hx⟩ := List.exists_cons_of_ne_nil (List.splitOn_ne_nil '/' cs)
      rw [hx]; rfl
    unfold segments
    rcases text_join (p := p) hq with ⟨-, h⟩ | ⟨cs, hcs, hj⟩ | ⟨-, hj⟩
    · exact absurd h hp'
    · rw [hj, hcs, List.splitOn_append_cons_self, first, List.splitOn_append_cons_self, first]
    · rw [hj, List.splitOn_append_cons_self, first]
  unfold lead
  rw [isAbsolute_join hq, hhead]

/-- **The components of a joined path.** -/
theorem components_join {p q : Path} (hq : q.isAbsolute = false) (hp : p.text ≠ "") :
    (p.join q).components = p.components ++ q.inner := by
  rw [components_eq, components_eq, lead_join hq hp, inner_join hq, List.append_assoc]

/-! ### The parent -/

theorem filterMap_trimSegments {α : Type} {f : String → Option α} (h : f "" = none)
    (h' : f "." = none) (l : List String) : (trimSegments l).filterMap f = l.filterMap f := by
  have key : ∀ l : List String,
      (l.dropWhile fun s => s = "" ∨ s = ".").filterMap f = l.filterMap f := by
    intro l
    induction l with
    | nil => rfl
    | cons s l ih =>
      rw [List.dropWhile_cons]
      split_ifs with hs
      · have hs' : s = "" ∨ s = "." := by simpa using hs
        rw [ih, List.filterMap_cons]
        rcases hs' with rfl | rfl <;> simp [h, h']
      · rfl
  unfold trimSegments
  rw [List.filterMap_reverse, key, List.filterMap_reverse, List.reverse_reverse]

/-- The last segment that is kept says something. -/
theorem getLast_trimSegments {l : List String} (h : trimSegments l ≠ []) :
    (trimSegments l).getLast h ≠ "" ∧ (trimSegments l).getLast h ≠ "." := by
  unfold trimSegments at h ⊢
  have hne : (l.reverse.dropWhile fun s => decide (s = "" ∨ s = ".")) ≠ [] := by simpa using h
  rw [List.getLast_reverse]
  have := List.head_dropWhile_not (fun s => decide (s = "" ∨ s = ".")) hne
  simpa using this

theorem mem_of_mem_trimSegments {l : List String} {s : String} (h : s ∈ trimSegments l) :
    s ∈ l := by
  unfold trimSegments at h
  have hmem := (List.dropWhile_sublist _).subset (List.mem_reverse.mp h)
  exact List.mem_reverse.mp hmem

theorem says_trimSegments (l : List String) :
    (trimSegments l).filterMap Component.ofSegment? = l.filterMap Component.ofSegment? :=
  filterMap_trimSegments (by simp [Component.ofSegment?]) (by simp [Component.ofSegment?]) l

/-- What is kept says one thing more than what is kept without its last segment. -/
theorem says_trimSegments_concat {l : List String} (h : trimSegments l ≠ []) : ∃ c,
    l.filterMap Component.ofSegment? =
      (trimSegments (trimSegments l).dropLast).filterMap Component.ofSegment? ++ [c] := by
  obtain ⟨h1, h2⟩ := getLast_trimSegments h
  obtain ⟨c, hc⟩ : ∃ c, Component.ofSegment? ((trimSegments l).getLast h) = some c := by
    unfold Component.ofSegment?
    rw [if_neg (by simp [h1, h2])]
    split_ifs <;> exact ⟨_, rfl⟩
  refine ⟨c, ?_⟩
  rw [says_trimSegments, ← says_trimSegments l]
  conv_lhs => rw [← List.dropLast_append_getLast h]
  rw [List.filterMap_append, List.filterMap_cons, hc]
  rfl

section Segments

variable {p : Path} {first : String} {rest : List String}

theorem inner_of_segments (hs : p.segments = first :: rest) :
    p.inner = (Component.ofSegment? first).toList ++ rest.filterMap Component.ofSegment? := by
  unfold inner
  rw [hs, List.filterMap_cons]
  rcases Component.ofSegment? first with _ | c <;> rfl

theorem isAbsolute_iff_of_segments (hs : p.segments = first :: rest) :
    p.isAbsolute = true ↔ first = "" ∧ rest ≠ [] := by
  rw [isAbsolute_iff_segments, hs]
  constructor
  · rintro ⟨r, hr, h⟩
    obtain ⟨rfl, rfl⟩ := List.cons.inj h
    exact ⟨rfl, hr⟩
  · rintro ⟨rfl, hr⟩
    exact ⟨rest, hr, rfl⟩

theorem isAbsolute_of_first_ne (hs : p.segments = first :: rest) (h : first ≠ "") :
    p.isAbsolute = false := by
  rw [Bool.eq_false_iff, ne_eq, isAbsolute_iff_of_segments hs]
  exact fun h' => h h'.1

end Segments

/-- **A path's parent**: it starts where the path starts and says all but the last thing; only a
path that says nothing has none. -/
theorem parent_cases (p : Path) :
    (∃ q, p.parent = some q ∧ q.isAbsolute = p.isAbsolute ∧ q.inner = p.inner.dropLast) ∨
    p.parent = none ∧ p.inner = [] := by
  obtain ⟨first, rest, hs⟩ := List.exists_cons_of_ne_nil p.segments_ne_nil
  have hslash : ∀ s ∈ first :: rest, '/' ∉ s.toList :=
    fun s h => slash_not_mem_of_mem_segments (hs ▸ h)
  have hfirst := segments_of_slash_not_mem (hslash first (List.mem_cons_self ..))
  have hnothing : Component.ofSegment? "" = none := by simp [Component.ofSegment?]
  have hinner := inner_of_segments hs
  unfold parent
  rw [hs]
  simp only
  rcases hk : trimSegments rest with _ | ⟨k, ks⟩
  · have hrest : rest.filterMap Component.ofSegment? = [] := by
      rw [← says_trimSegments, hk, List.filterMap_nil]
    rw [hrest, List.append_nil] at hinner
    by_cases h : first = ""
    · right
      exact ⟨by simp [h], by rw [hinner, h, hnothing]; rfl⟩
    · left
      refine ⟨⟨""⟩, by simp [h], by rw [isAbsolute_of_first_ne hs h]; rfl, ?_⟩
      rw [hinner]
      rcases Component.ofSegment? first with _ | c <;> rfl
  left
  have hkne : trimSegments rest ≠ [] := by simp [hk]
  have hrne : rest ≠ [] := by rintro rfl; exact hkne rfl
  obtain ⟨c, hrest⟩ := says_trimSegments_concat hkne
  have hdrop : p.inner.dropLast = (Component.ofSegment? first).toList ++
      (trimSegments (k :: ks).dropLast).filterMap Component.ofSegment? := by
    rw [hinner, hrest, hk, ← List.append_assoc, List.dropLast_concat]
  rcases ha : trimSegments (k :: ks).dropLast with _ | ⟨a, as⟩
  · rw [ha, List.filterMap_nil, List.append_nil] at hdrop
    by_cases h : first = ""
    · refine ⟨⟨"/"⟩, by simp [h, ha], ?_, by rw [hdrop, h, hnothing]; rfl⟩
      rw [(isAbsolute_iff_of_segments hs).mpr ⟨h, hrne⟩]
      rfl
    · refine ⟨⟨first⟩, by simp [h, ha], ?_, ?_⟩
      · rw [isAbsolute_of_first_ne hs h, isAbsolute_of_first_ne hfirst h]
      · rw [hdrop, inner_of_segments hfirst, List.filterMap_nil, List.append_nil]
  · rw [ha] at hdrop
    have hmem : ∀ s ∈ a :: as, s ∈ rest := fun s h => mem_of_mem_trimSegments
      (hk ▸ List.dropLast_subset _ (mem_of_mem_trimSegments (ha ▸ h)))
    have hseg : (ofSegments (first :: a :: as)).segments = first :: a :: as := by
      refine segments_ofSegments (by simp) fun s h => ?_
      rcases List.mem_cons.mp h with rfl | h
      · exact hslash _ (by simp)
      · exact hslash s (by simp [hmem s h])
    refine ⟨ofSegments (first :: a :: as), by simp [ha], ?_, ?_⟩
    · rw [Bool.eq_iff_iff, isAbsolute_iff_of_segments hseg, isAbsolute_iff_of_segments hs]
      exact and_congr_right fun _ => iff_of_true (List.cons_ne_nil a as) hrne
    · rw [hdrop, inner_of_segments hseg]

end SymbolDocs.Path
