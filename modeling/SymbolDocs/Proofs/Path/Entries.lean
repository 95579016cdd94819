import SymbolDocs.Proofs.Path.Components
import Mathlib.Data.List.Induction

/-! # Entries of directories

The path of an entry is that of the directory with a name added: to the components
(`components_entry`), to what a lookup goes through (`names_entry`), and the directory is its parent
again (`parent_entry`). `below` goes down several names. -/

namespace SymbolDocs.Path

/-! ### Names -/

theorem isName_iff {s : String} :
    isName s = true ↔ s ≠ "" ∧ s ≠ "." ∧ s ≠ ".." ∧ '/' ∉ s.toList := by
  simp [isName]

theorem slash_not_mem_of_isName {s : String} (h : isName s = true) : '/' ∉ s.toList :=
  (isName_iff.mp h).2.2.2

theorem isAbsolute_of_isName {s : String} (h : isName s = true) :
    (⟨s⟩ : Path).isAbsolute = false := by
  rw [Bool.eq_false_iff, ne_eq, isAbsolute_iff]
  rintro ⟨cs, hcs⟩
  refine slash_not_mem_of_isName h ?_
  rw [show s.toList = '/' :: cs from hcs]
  exact List.mem_cons_self ..

theorem segments_of_isName {s : String} (h : isName s = true) : (⟨s⟩ : Path).segments = [s] :=
  segments_of_slash_not_mem (slash_not_mem_of_isName h)

theorem inner_of_isName {s : String} (h : isName s = true) : (⟨s⟩ : Path).inner = [.name s] := by
  obtain ⟨h1, h2, h3, -⟩ := isName_iff.mp h
  rw [inner, segments_of_isName h]
  simp [Component.ofSegment?, h1, h2, h3]

theorem names_of_isName {s : String} (h : isName s = true) : (⟨s⟩ : Path).names = [s] := by
  rw [names, segments_of_isName h]
  simp [(isName_iff.mp h).1]

theorem isName_of_name_mem_inner {p : Path} {s : String} (h : Component.name s ∈ p.inner) :
    isName s = true := by
  obtain ⟨segment, hmem, hs⟩ := List.mem_filterMap.mp h
  unfold Component.ofSegment? at hs
  split_ifs at hs with h1 h2 <;> cases hs
  rw [not_or] at h1
  exact isName_iff.mpr ⟨h1.1, h1.2, h2, slash_not_mem_of_mem_segments hmem⟩

/-- The last component of a path is a name that a directory can hold. -/
theorem isName_of_fileName {p : Path} {s : String} (h : p.fileName = some s) : isName s = true := by
  unfold fileName at h
  split at h
  · rename_i name hlast
    cases h
    have hmem := List.mem_of_getLast? hlast
    rw [components_eq, List.mem_append] at hmem
    refine isName_of_name_mem_inner (hmem.resolve_left ?_)
    unfold lead
    split_ifs <;> simp
  · cases h

/-! ### One entry -/

theorem text_entry_ne (p : Path) {name : String} (h : name ≠ "") : (p.entry name).text ≠ "" := by
  unfold entry join
  split_ifs
  · exact h
  · simp [h]
  · simp

theorem isAbsolute_entry (p : Path) (name : String) :
    (p.entry name).isAbsolute = ((⟨name⟩ : Path).isAbsolute || p.isAbsolute) := by
  rcases h : (⟨name⟩ : Path).isAbsolute with _ | _
  · exact isAbsolute_join h
  · rw [entry, join_of_isAbsolute h, h]
    rfl

theorem components_entry {p : Path} {name : String} (hp : p.text ≠ "") (h : isName name = true) :
    (p.entry name).components = p.components ++ [.name name] := by
  rw [entry, components_join (isAbsolute_of_isName h) hp, inner_of_isName h]

theorem fileName_entry {p : Path} {name : String} (hp : p.text ≠ "") (h : isName name = true) :
    (p.entry name).fileName = some name := by
  unfold fileName
  rw [components_entry hp h, List.getLast?_concat]

theorem names_entry (p : Path) {name : String} (h : isName name = true) :
    (p.entry name).names = p.names ++ [name] := by
  rw [entry, names_join (isAbsolute_of_isName h), names_of_isName h]

theorem hasNul_entry {p : Path} {name : String} (h : isName name = true) :
    (p.entry name).hasNul = (p.hasNul || (⟨name⟩ : Path).hasNul) := by
  unfold hasNul entry
  rcases text_join (p := p) (isAbsolute_of_isName h) with ⟨hj, hp⟩ | ⟨cs, hp, hj⟩ | ⟨-, hj⟩
  · rw [hj, hp]; simp
  · rw [hj, hp]; simp
  · rw [hj]; simp

/-! ### The directory above -/

/-- The last segment of a path is a name. -/
def EndsInName (p : Path) : Prop :=
  ∃ name, p.segments.getLast? = some name ∧ isName name = true

/-- The last segment of a path is a step: a name, or the way up. -/
def EndsInStep (p : Path) : Prop :=
  ∃ step, p.segments.getLast? = some step ∧ step ≠ "" ∧ step ≠ "."

theorem EndsInName.endsInStep {p : Path} (h : p.EndsInName) : p.EndsInStep := by
  obtain ⟨name, hlast, hname⟩ := h
  exact ⟨name, hlast, (isName_iff.mp hname).1, (isName_iff.mp hname).2.1⟩

theorem endsInName_entry (p : Path) {name : String} (h : isName name = true) :
    (p.entry name).EndsInName := by
  refine ⟨name, ?_, h⟩
  have hsplit : (name.toList.splitOn '/').map String.ofList = [name] := segments_of_isName h
  unfold entry segments
  rcases text_join (p := p) (isAbsolute_of_isName h) with ⟨hj, -⟩ | ⟨cs, -, hj⟩ | ⟨-, hj⟩
  · rw [hj, hsplit]; rfl
  · rw [hj, List.splitOn_append_cons_self, List.map_append, hsplit]; simp
  · rw [hj, List.splitOn_append_cons_self, List.map_append, hsplit]; simp

theorem EndsInStep.text_ne {p : Path} (h : p.EndsInStep) : p.text ≠ "" := by
  obtain ⟨step, hlast, hne, -⟩ := h
  intro he
  rw [segments, he, show "".toList.splitOn '/' = [[]] from rfl] at hlast
  exact hne (Option.some.inj hlast).symm

theorem EndsInStep.endsInSlash {p : Path} (h : p.EndsInStep) : p.endsInSlash = false := by
  obtain ⟨step, hlast, hne, -⟩ := h
  rw [Bool.eq_false_iff, ne_eq, Path.endsInSlash, beq_iff_eq]
  intro he
  obtain ⟨cs, hcs⟩ := List.getLast?_eq_some_iff.mp he
  rw [segments, hcs, show cs ++ ['/'] = cs ++ '/' :: [] from rfl,
    List.splitOn_append_cons_self] at hlast
  simp only [List.splitOn_nil, List.map_append, List.map_cons, List.map_nil, List.getLast?_concat,
    Option.some.injEq] at hlast
  exact hne hlast.symm

theorem EndsInName.text_ne {p : Path} (h : p.EndsInName) : p.text ≠ "" :=
  h.endsInStep.text_ne

theorem EndsInName.endsInSlash {p : Path} (h : p.EndsInName) : p.endsInSlash = false :=
  h.endsInStep.endsInSlash

theorem ofSegments_segments (p : Path) : ofSegments p.segments = p := by
  unfold ofSegments segments
  have h : ("/".intercalate ((p.text.toList.splitOn '/').map String.ofList)).toList =
      p.text.toList := by
    rw [String.toList_intercalate, List.map_map, show "/".toList = ['/'] from rfl]
    simp [Function.comp_def, List.intercalate_splitOn]
  rcases p with ⟨text⟩
  exact congrArg Path.mk (String.toList_inj.mp h)

theorem segments_entry {p : Path} (hp : p.EndsInStep) {name : String} (h : isName name = true) :
    (p.entry name).segments = p.segments ++ [name] := by
  have hsplit : (name.toList.splitOn '/').map String.ofList = [name] := segments_of_isName h
  unfold entry segments
  rcases text_join (p := p) (isAbsolute_of_isName h) with ⟨-, ht⟩ | ⟨cs, ht, -⟩ | ⟨-, hj⟩
  · exact absurd (String.toList_eq_nil_iff.mp ht) hp.text_ne
  · have := hp.endsInSlash
    rw [Path.endsInSlash, ht] at this
    simp at this
  · rw [hj, List.splitOn_append_cons_self, List.map_append, hsplit]

theorem trimSegments_append {l : List String} {step : String} (h1 : step ≠ "") (h2 : step ≠ ".") :
    trimSegments (l ++ [step]) = l ++ [step] := by
  unfold trimSegments
  rw [List.reverse_append, List.reverse_singleton, List.singleton_append, List.dropWhile_cons,
    if_neg (by simp [h1, h2])]
  simp

/-- **The parent of an entry is the directory.** -/
theorem parent_entry {p : Path} (hp : p.EndsInStep) {name : String} (h : isName name = true) :
    (p.entry name).parent = some p := by
  obtain ⟨last, hlast, hne, hdot⟩ := hp
  have hseg := segments_entry ⟨last, hlast, hne, hdot⟩ h
  have hback := ofSegments_segments p
  obtain ⟨first, rest, hs⟩ := List.exists_cons_of_ne_nil p.segments_ne_nil
  rw [hs] at hseg hlast hback
  unfold parent
  rw [hseg, List.cons_append]
  simp only
  rw [trimSegments_append (isName_iff.mp h).1 (isName_iff.mp h).2.1]
  rcases List.eq_nil_or_concat rest with rfl | ⟨mid, l, rfl⟩
  · have hfirst : first ≠ "" := by
      cases hlast
      exact hne
    have hp : p = ⟨first⟩ := by
      rw [← hback]
      rfl
    simp [trimSegments, hfirst, hp]
  · rw [List.concat_eq_append] at hlast hback ⊢
    have hl : l = last := by
      rw [← List.cons_append, List.getLast?_concat] at hlast
      exact Option.some.inj hlast
    subst hl
    rcases hk : mid ++ [l] ++ [name] with _ | ⟨k, ks⟩
    · simp at hk
    · simp only
      rw [← hk, List.dropLast_concat, trimSegments_append hne hdot]
      rcases hm : mid ++ [l] with _ | ⟨m, ms⟩
      · simp at hm
      · simp only
        rw [← hm, hback]

/-! ### Several names down -/

/-- The path that leads down over some names. -/
def below (p : Path) (names : List String) : Path :=
  names.foldl entry p

@[simp] theorem below_nil (p : Path) : p.below [] = p := rfl

theorem below_append (p : Path) (a b : List String) : p.below (a ++ b) = (p.below a).below b :=
  List.foldl_append

theorem below_concat (p : Path) (names : List String) (name : String) :
    p.below (names ++ [name]) = (p.below names).entry name := by
  rw [below_append]
  rfl

/-- Names that directories can hold. -/
def AreNames (names : List String) : Prop :=
  ∀ name ∈ names, isName name = true

theorem AreNames.of_append {a b : List String} (h : AreNames (a ++ b)) : AreNames a ∧ AreNames b :=
  ⟨fun n hn => h n (by simp [hn]), fun n hn => h n (by simp [hn])⟩

theorem AreNames.append {a b : List String} (ha : AreNames a) (hb : AreNames b) :
    AreNames (a ++ b) := by
  intro n hn
  rcases List.mem_append.mp hn with hn | hn
  · exact ha n hn
  · exact hb n hn

theorem areNames_nil : AreNames [] := fun _ h => absurd h List.not_mem_nil

theorem areNames_singleton {name : String} (h : isName name = true) : AreNames [name] := by
  intro n hn
  rwa [List.mem_singleton.mp hn]

theorem endsInName_below {p : Path} (hp : p.EndsInName) : ∀ {names : List String},
    AreNames names → (p.below names).EndsInName := by
  intro names
  induction names using List.reverseRecOn with
  | nil => exact fun _ => hp
  | append_singleton names name _ =>
    intro h
    rw [below_concat]
    exact endsInName_entry _ (h name (by simp))

theorem names_below {p : Path} : ∀ {names : List String}, AreNames names →
    (p.below names).names = p.names ++ names := by
  intro names
  induction names using List.reverseRecOn with
  | nil => simp
  | append_singleton names name ih =>
    intro h
    rw [below_concat, names_entry _ (h name (by simp)), ih h.of_append.1, List.append_assoc]

theorem isAbsolute_below {p : Path} : ∀ {names : List String}, AreNames names →
    (p.below names).isAbsolute = p.isAbsolute := by
  intro names
  induction names using List.reverseRecOn with
  | nil => simp
  | append_singleton names name ih =>
    intro h
    rw [below_concat, isAbsolute_entry, isAbsolute_of_isName (h name (by simp)), Bool.false_or,
      ih h.of_append.1]

/-- What is called something below a directory has a path that ends in a name. -/
theorem endsInName_of_ne {p : Path} {names : List String} (hnames : AreNames names)
    (hne : names ≠ []) : (p.below names).EndsInName := by
  obtain ⟨init, name, rfl⟩ := (List.eq_nil_or_concat names).resolve_left hne
  rw [List.concat_eq_append] at hnames ⊢
  rw [below_concat]
  exact endsInName_entry _ (hnames name (by simp))

theorem endsInStep_below {p : Path} (hp : p.EndsInStep) {names : List String}
    (hnames : AreNames names) : (p.below names).EndsInStep := by
  by_cases hne : names = []
  · rwa [hne]
  · exact (endsInName_of_ne hnames hne).endsInStep

theorem length_segments_below {p : Path} (hp : p.EndsInStep) : ∀ {names : List String},
    AreNames names → (p.below names).segments.length = p.segments.length + names.length := by
  intro names
  induction names using List.reverseRecOn with
  | nil => simp
  | append_singleton names name ih =>
    intro h
    rw [below_concat, segments_entry (endsInStep_below hp h.of_append.1) (h name (by simp))]
    rw [List.length_append, ih h.of_append.1]
    simp
    omega

/-- Above what lies below a directory there is, one name after the other, the way back to it. -/
theorem climb_below {p : Path} (hp : p.EndsInStep) {names : List String} {name : String}
    (h : AreNames (names ++ [name])) (n : Nat) :
    climb (n + 1) (p.below (names ++ [name])) = p.below names :: climb n (p.below names) := by
  rw [below_concat, climb, parent_entry (endsInStep_below hp h.of_append.1) (h name (by simp))]

end SymbolDocs.Path
