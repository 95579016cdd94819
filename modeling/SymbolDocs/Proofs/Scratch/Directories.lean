import SymbolDocs.Proofs.Package.Declared
import SymbolDocs.Proofs.Path.Entries
import SymbolDocs.Scratch

/-! # The directories of a target

A target has two directories in the scratch directory, both called after its name and its identifier
with a hyphen in between. Names may have hyphens too, and identifiers may be chosen, so the
directories of two targets can be the same; `same_directory_iff` says for which targets they are. -/

namespace SymbolDocs

namespace Path

/-- Two paths with the same components. -/
def Same (p q : Path) : Prop :=
  p.components = q.components

/-- Two paths of which neither leads through the other. -/
def Apart (p q : Path) : Prop :=
  ¬ p.components <+: q.components ∧ ¬ q.components <+: p.components

/-! ### Entries of a directory -/

theorem components_of_isAbsolute {p : Path} (h : p.isAbsolute = true) :
    p.components = .root :: p.inner := by
  rw [components_eq, lead, if_pos h]
  rfl

theorem root_not_mem_components {p : Path} (h : p.isAbsolute = false) :
    Component.root ∉ p.components := by
  rw [components_eq, lead, if_neg (by simp [h]), List.mem_append, not_or]
  refine ⟨?_, root_not_mem_inner p⟩
  split_ifs <;> simp

/-- Two texts lead from a directory to the same place. One of them may start at the root while the
other does not. -/
def Coincide (dir : Path) (a b : String) : Prop :=
  (⟨a⟩ : Path).isAbsolute = (⟨b⟩ : Path).isAbsolute ∧ (⟨a⟩ : Path).inner = (⟨b⟩ : Path).inner ∨
  (⟨a⟩ : Path).isAbsolute = true ∧ (⟨b⟩ : Path).isAbsolute = false ∧ dir.isAbsolute = true ∧
    (⟨a⟩ : Path).inner = dir.inner ++ (⟨b⟩ : Path).inner ∨
  (⟨b⟩ : Path).isAbsolute = true ∧ (⟨a⟩ : Path).isAbsolute = false ∧ dir.isAbsolute = true ∧
    (⟨b⟩ : Path).inner = dir.inner ++ (⟨a⟩ : Path).inner

theorem same_entry_of_absolute {dir : Path} (hdir : dir.text ≠ "") {a b : String}
    (ha : (⟨a⟩ : Path).isAbsolute = true) (hb : (⟨b⟩ : Path).isAbsolute = false) :
    (dir.entry a).Same (dir.entry b) ↔
      dir.isAbsolute = true ∧ (⟨a⟩ : Path).inner = dir.inner ++ (⟨b⟩ : Path).inner := by
  unfold Same entry
  rw [join_of_isAbsolute ha, components_join hb hdir, components_of_isAbsolute ha]
  by_cases hd : dir.isAbsolute = true
  · rw [components_of_isAbsolute hd]
    simp [hd]
  · rw [Bool.not_eq_true] at hd
    have hroot : Component.root ∉ dir.components ++ (⟨b⟩ : Path).inner := by
      simp [root_not_mem_components hd, root_not_mem_inner]
    refine ⟨fun h => absurd (h ▸ List.mem_cons_self ..) hroot, ?_⟩
    rintro ⟨h, -⟩
    rw [hd] at h
    cases h

/-- **Two entries are the same path** if their names coincide. -/
theorem same_entry_iff {dir : Path} (hdir : dir.text ≠ "") (a b : String) :
    (dir.entry a).Same (dir.entry b) ↔ dir.Coincide a b := by
  unfold Coincide
  rcases ha : (⟨a⟩ : Path).isAbsolute with _ | _ <;> rcases hb : (⟨b⟩ : Path).isAbsolute with _ | _
  · unfold Same entry
    rw [components_join ha hdir, components_join hb hdir]
    simp
  · rw [show (dir.entry a).Same (dir.entry b) ↔ (dir.entry b).Same (dir.entry a) from eq_comm,
      same_entry_of_absolute hdir hb ha]
    simp
  · rw [same_entry_of_absolute hdir ha hb]
    simp
  · unfold Same entry
    rw [join_of_isAbsolute ha, join_of_isAbsolute hb, components_of_isAbsolute ha,
      components_of_isAbsolute hb]
    simp

theorem coincide_iff_of_isName {dir : Path} {a b : String} (ha : isName a = true)
    (hb : isName b = true) : dir.Coincide a b ↔ a = b := by
  unfold Coincide
  rw [isAbsolute_of_isName ha, isAbsolute_of_isName hb, inner_of_isName ha, inner_of_isName hb]
  simp

theorem not_prefix_append {α : Type} {l m : List α} (h1 : ¬ l <+: m) (h2 : ¬ m <+: l)
    (a b : List α) : ¬ l ++ a <+: m ++ b := by
  intro h
  rcases List.prefix_or_prefix_of_prefix ((List.prefix_append l a).trans h)
    (List.prefix_append m b) with h | h
  · exact h1 h
  · exact h2 h

/-- Different entries of one directory are apart. -/
theorem apart_entry {p : Path} {a b : String} (hp : p.text ≠ "") (ha : isName a = true)
    (hb : isName b = true) (h : a ≠ b) : (p.entry a).Apart (p.entry b) := by
  unfold Apart
  rw [components_entry hp ha, components_entry hp hb]
  have hne : ∀ c d : String, c ≠ d →
      ¬ p.components ++ [.name c] <+: p.components ++ [Component.name d] := by
    intro c d hcd hpre
    rw [List.prefix_append_right_inj] at hpre
    simp [hcd] at hpre
  exact ⟨hne a b h, hne b a h.symm⟩

/-- Entries of directories that are apart are apart. -/
theorem Apart.entry {p q : Path} {a b : String} (hp : p.text ≠ "") (hq : q.text ≠ "")
    (ha : isName a = true) (hb : isName b = true) (h : p.Apart q) :
    (p.entry a).Apart (q.entry b) := by
  unfold Apart
  rw [components_entry hp ha, components_entry hq hb]
  exact ⟨not_prefix_append h.1 h.2 _ _, not_prefix_append h.2 h.1 _ _⟩

end Path

/-! ### Names of directories -/

namespace Target

/-- No slash is in the name of a target or in its identifier. -/
def Slashless (t : Target) : Prop :=
  '/' ∉ t.name.toList ∧ '/' ∉ t.id.toList

/-- What the name of `u` has more than that of `t`, the identifier of `t` has more than that of `u`.
-/
def Overlaps (t u : Target) : Prop :=
  ∃ w, u.name = t.name ++ "-" ++ w ∧ t.id = w ++ "-" ++ u.id

theorem toList_dirName (t : Target) : t.dirName.toList = t.name.toList ++ '-' :: t.id.toList := by
  simp [dirName]

theorem isName_dirName {t : Target} (h : t.Slashless) : Path.isName t.dirName = true := by
  have hdash : '-' ∈ t.dirName.toList := by simp [toList_dirName]
  have hslash : '/' ∉ t.dirName.toList := by simp [toList_dirName, h.1, h.2]
  simp only [Path.isName, decide_eq_true_eq]
  refine ⟨?_, ?_, ?_, hslash⟩ <;> rintro h <;> simp [h] at hdash

theorem overlaps_of_append {t u : Target} {w : List Char}
    (hname : u.name.toList = t.name.toList ++ '-' :: w)
    (hid : t.id.toList = w ++ '-' :: u.id.toList) : t.Overlaps u :=
  ⟨String.ofList w, String.toList_inj.mp (by simp [hname]), String.toList_inj.mp (by simp [hid])⟩

theorem Overlaps.dirName_eq {t u : Target} (h : t.Overlaps u) : t.dirName = u.dirName := by
  obtain ⟨w, hname, hid⟩ := h
  rw [dirName, dirName, hname, hid, String.append_assoc, String.append_assoc, String.append_assoc,
    String.append_assoc, String.append_assoc]

/-- Two different names with a hyphen between them and an identifier are the same text if one of the
names goes on into the other's identifier. -/
theorem dirName_eq_iff {t u : Target} (hne : t.name ≠ u.name) :
    t.dirName = u.dirName ↔ t.Overlaps u ∨ u.Overlaps t := by
  constructor
  · intro h
    have hne' : t.name.toList ≠ u.name.toList := fun h => hne (String.toList_inj.mp h)
    have hl := congrArg String.toList h
    rw [toList_dirName, toList_dirName] at hl
    rcases List.append_eq_append_iff.mp hl with ⟨w, h1, h2⟩ | ⟨w, h1, h2⟩
    · rcases w with _ | ⟨c, w⟩
      · exact absurd (by simpa using h1.symm) hne'
      · obtain ⟨rfl, h3⟩ := List.cons.inj h2
        exact Or.inl (overlaps_of_append h1 h3)
    · rcases w with _ | ⟨c, w⟩
      · exact absurd (by simpa using h1) hne'
      · obtain ⟨rfl, h3⟩ := List.cons.inj h2
        exact Or.inr (overlaps_of_append h1 h3)
  · rintro (h | h)
    · exact h.dirName_eq
    · exact h.dirName_eq.symm

end Target

/-! ### Identifiers -/

theorem dash_not_mem_shortId (components : List String) :
    '-' ∉ (Digest.shortId components).toList := by
  have hdigit : ∀ n < 16, Text.hexDigit n ≠ '-' := by decide
  unfold Digest.shortId
  rw [String.toList_ofList]
  intro h
  obtain ⟨b, -, hb⟩ := List.mem_flatMap.mp (List.mem_of_mem_take h)
  have := b.toNat_lt
  rcases List.mem_cons.mp hb with hb | hb
  · exact hdigit _ (by omega) hb.symm
  · exact hdigit _ (by omega) (List.mem_singleton.mp hb).symm

/-- A target whose identifier holds a hyphen has been given it by the manifest. -/
theorem explicit_of_dash {m : Manifest} {root : Path} {package : Package}
    (hp : m.toPackage root = .ok package) {t : Target} (ht : t ∈ package.targets)
    (hdash : '-' ∈ t.id.toList) : ∃ spec ∈ m.targets, spec.name = t.name ∧ spec.id = some t.id := by
  rw [(Manifest.toPackage_ok hp).1] at ht
  obtain ⟨spec, hspec, rfl⟩ := List.mem_map.mp ht
  refine ⟨spec, hspec, rfl, ?_⟩
  rcases hid : spec.id with _ | id
  · simp only [TargetSpec.target, hid, Option.getD_none] at hdash
    exact absurd hdash (dash_not_mem_shortId _)
  · simp [TargetSpec.target, hid]

/-! ### The directories of two targets -/

namespace Scratch

/-- The directory above the directories of the generator. -/
def allGraphs (s : Scratch) : Path :=
  s.symbolGraphs.entry "targets"

/-- The directory above the unified directories. -/
def allUnified (s : Scratch) : Path :=
  s.symbolGraphs.entry "unified-symbol-graphs"

theorem text_allGraphs_ne (s : Scratch) : s.allGraphs.text ≠ "" :=
  Path.text_entry_ne _ (by decide)

theorem text_allUnified_ne (s : Scratch) : s.allUnified.text ≠ "" :=
  Path.text_entry_ne _ (by decide)

theorem apart_allGraphs_allUnified (s : Scratch) : s.allGraphs.Apart s.allUnified :=
  Path.apart_entry (Path.text_entry_ne _ (by decide)) (by decide) (by decide) (by decide)

/-- **When two targets of a package have the same directories.** The generator's directories and the
unified ones coincide for the same pairs of targets, except that an absolute name may lead from the
one place and not from the other. If no name and no identifier has a slash in it, that is the case
just if one of the names goes on into the other's identifier, which then is no identifier that was
derived; otherwise all four directories lie beside each other. -/
theorem same_directory_iff {text : String} {m : Manifest} {root : Path} {package : Package}
    (hparse : Manifest.parse text = .ok m) (hpackage : m.toPackage root = .ok package)
    {t u : Target} (ht : t ∈ package.targets) (hu : u ∈ package.targets) (hne : t ≠ u)
    (s : Scratch) :
    ((s.targetGraphs t).Same (s.targetGraphs u) ↔ s.allGraphs.Coincide t.dirName u.dirName) ∧
    ((s.unified t).Same (s.unified u) ↔ s.allUnified.Coincide t.dirName u.dirName) ∧
    (t.Slashless → u.Slashless →
      ((s.targetGraphs t).Same (s.targetGraphs u) ↔ t.Overlaps u ∨ u.Overlaps t) ∧
      ((s.unified t).Same (s.unified u) ↔ t.Overlaps u ∨ u.Overlaps t) ∧
      (s.targetGraphs t).Apart (s.unified u) ∧ (s.targetGraphs u).Apart (s.unified t) ∧
      (¬ (t.Overlaps u ∨ u.Overlaps t) →
        (s.targetGraphs t).Apart (s.targetGraphs u) ∧ (s.unified t).Apart (s.unified u)) ∧
      (t.Overlaps u → ∃ spec ∈ m.targets, spec.name = t.name ∧ spec.id = some t.id) ∧
      (u.Overlaps t → ∃ spec ∈ m.targets, spec.name = u.name ∧ spec.id = some u.id)) := by
  have hname : t.name ≠ u.name := fun h => hne (Manifest.eq_of_name_eq hparse hpackage ht hu h)
  have hgraphs := Path.same_entry_iff s.text_allGraphs_ne t.dirName u.dirName
  have hunified := Path.same_entry_iff s.text_allUnified_ne t.dirName u.dirName
  refine ⟨hgraphs, hunified, fun hts hus => ?_⟩
  have htn := Target.isName_dirName hts
  have hun := Target.isName_dirName hus
  have hdash : ∀ {v x : Target}, v ∈ package.targets → v.Overlaps x →
      ∃ spec ∈ m.targets, spec.name = v.name ∧ spec.id = some v.id := by
    rintro v x hv ⟨w, -, hid⟩
    exact explicit_of_dash hpackage hv (by simp [hid])
  refine ⟨?_, ?_, ?_, ?_, fun hover => ?_, hdash ht, hdash hu⟩
  · rw [← Target.dirName_eq_iff hname]
    exact hgraphs.trans (Path.coincide_iff_of_isName htn hun)
  · rw [← Target.dirName_eq_iff hname]
    exact hunified.trans (Path.coincide_iff_of_isName htn hun)
  · exact s.apart_allGraphs_allUnified.entry s.text_allGraphs_ne s.text_allUnified_ne htn hun
  · exact s.apart_allGraphs_allUnified.entry s.text_allGraphs_ne s.text_allUnified_ne hun htn
  · have hdir : t.dirName ≠ u.dirName := fun h => hover ((Target.dirName_eq_iff hname).mp h)
    exact ⟨Path.apart_entry s.text_allGraphs_ne htn hun hdir,
      Path.apart_entry s.text_allUnified_ne htn hun hdir⟩

/-- The name of this target has a hyphen in it. -/
def longName : Target :=
  ⟨"a-b", "c", .sourceModule .library, {}⟩

/-- The identifier of this target has a hyphen in it. -/
def longId : Target :=
  ⟨"a", "b-c", .sourceModule .library, {}⟩

/-- A manifest whose two targets share their directories. -/
def sharingText : String :=
  "package.name=\"p\"\n[[targets]]\nname=\"a-b\"\nkind=\"lib\"\nid=\"c\"\n" ++
  "[[targets]]\nname=\"a\"\nkind=\"lib\"\nid=\"b-c\""

/-- The manifest that `sharingText` spells. -/
def sharingManifest : Manifest where
  package := { name := "p" }
  targets := [{ name := "a-b", kind := .sourceModule .library, id := some "c" },
    { name := "a", kind := .sourceModule .library, id := some "b-c" }]

theorem same_directory_shared :
    ∃ package, Manifest.parse sharingText = .ok sharingManifest ∧
      sharingManifest.toPackage ⟨"."⟩ = .ok package ∧ longId ∈ package.targets ∧
      longName ∈ package.targets ∧ longId ≠ longName ∧
      (targetGraphs ⟨⟨"./.graphdoc"⟩⟩ longId).Same (targetGraphs ⟨⟨"./.graphdoc"⟩⟩ longName) ∧
      (unified ⟨⟨"./.graphdoc"⟩⟩ longId).Same (unified ⟨⟨"./.graphdoc"⟩⟩ longName) := by
  have hparse : Manifest.parse sharingText = .ok sharingManifest :=
    Manifest.parse_of_spells (.append .literal .literal) (by decide +kernel)
  have hpackage : sharingManifest.toPackage ⟨"."⟩ = .ok
      { name := "p", version := ⟨0, 0, 0, "", ""⟩, root := ⟨"."⟩, targets := [longName, longId] } :=
    eq_ok_of_toOption (by decide +kernel)
  have hne : longId ≠ longName := by decide
  have hover : longId.Overlaps longName := ⟨"b", by decide, by decide⟩
  obtain ⟨-, -, h⟩ := same_directory_iff hparse hpackage (t := longId) (u := longName)
    (by simp) (by simp) hne ⟨⟨"./.graphdoc"⟩⟩
  obtain ⟨hgraphs, hunified, -⟩ := h ⟨by decide, by decide⟩ ⟨by decide, by decide⟩
  exact ⟨_, hparse, hpackage, by simp, by simp, hne, hgraphs.mpr (Or.inl hover),
    hunified.mpr (Or.inl hover)⟩

end Scratch

end SymbolDocs
