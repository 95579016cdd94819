import SymbolDocs.Batch
import SymbolDocs.Proofs.Package.Declared
import SymbolDocs.Proofs.Path.Entries

/-! # Archives that are apart

Archives lie side by side, and the name of each is made from the name of what it documents. So the
archives of two targets are apart just if the targets are. The archive of combined documentation is
apart from that of a target unless the package has the name of the target: nothing keeps these two
from being the same (`archives_apart`). -/

namespace SymbolDocs

open SymbolDocs.Path

/-- Neither the name of a package nor that of a target of it has a slash. -/
structure Package.SlashlessNames (package : Package) : Prop where
  name : '/' ∉ package.name.toList
  targets : ∀ target ∈ package.targets, '/' ∉ target.name.toList

namespace ArchiveLayout

variable {a b : String} {root : Path} {layout : ArchiveLayout} {target : Target}

/-! ### The names of archives -/

theorem toList_archiveName (name : String) :
    (archiveName name).toList = name.toList ++ ".doccarchive".toList :=
  String.toList_append

theorem archiveName_inj : archiveName a = archiveName b ↔ a = b := by
  rw [← String.toList_inj, toList_archiveName, toList_archiveName, List.append_left_inj,
    String.toList_inj]

theorem isName_archiveName (h : '/' ∉ a.toList) : isName (archiveName a) = true := by
  have hd : 'd' ∈ (archiveName a).toList := by
    rw [toList_archiveName]
    exact List.mem_append_right _ (by decide)
  rw [isName_iff]
  refine ⟨?_, ?_, ?_, ?_⟩
  · intro he
    simp [he] at hd
  · intro he
    simp [he] at hd
  · intro he
    simp [he] at hd
  · rw [toList_archiveName, List.mem_append, not_or]
    exact ⟨h, by decide⟩

/-- The last component of the path of an archive is its name, whatever the path of the directory. -/
theorem fileName_archive (root : Path) (h : '/' ∉ a.toList) :
    (root.entry (archiveName a)).fileName = some (archiveName a) := by
  have hname := isName_archiveName h
  by_cases hroot : root.text = ""
  · have hentry : root.entry (archiveName a) = ⟨archiveName a⟩ := by
      unfold entry join
      rw [if_neg (by simp [isAbsolute_of_isName hname]), if_pos (.inl (by simp [hroot])), hroot]
      rfl
    have hlead : (⟨archiveName a⟩ : Path).lead = [] := by
      unfold lead
      rw [isAbsolute_of_isName hname, segments_of_isName hname]
      simp [(isName_iff.mp hname).2.1]
    rw [hentry, fileName, components_eq, inner_of_isName hname, hlead]
    rfl
  · exact fileName_entry hroot hname

/-- Two archives in a directory are the same just if their names come from the same name. -/
theorem components_archive_eq_iff (ha : '/' ∉ a.toList) (hb : '/' ∉ b.toList) :
    (root.entry (archiveName a)).components = (root.entry (archiveName b)).components ↔ a = b := by
  refine ⟨fun h => ?_, fun h => h ▸ rfl⟩
  have hfile : (root.entry (archiveName a)).fileName = (root.entry (archiveName b)).fileName := by
    unfold fileName
    rw [h]
  rw [fileName_archive root ha, fileName_archive root hb] at hfile
  exact archiveName_inj.mp (Option.some.inj hfile)

/-! ### Plans -/

theorem archive_of_single (h : layout.single = none) (target : Target) :
    layout.archive target = layout.root.entry (archiveName target.name) := by
  rw [archive, h]
  rfl

variable {scratch : Scratch} {package : Package} {requested : List Target} {outputPath : Option Path}
  {combined : Bool}

/-- Two requested targets have the same archive just if they have the same name: there is only one
of them if its archive is the path that the user asks for. -/
theorem archive_plan_eq_iff (hslash : ∀ x ∈ requested, '/' ∉ x.name.toList) {x y : Target}
    (hx : x ∈ requested) (hy : y ∈ requested) :
    ((plan scratch package requested.length outputPath combined).archive x).components =
      ((plan scratch package requested.length outputPath combined).archive y).components ↔
      x.name = y.name := by
  by_cases hone : requested.length = 1 ∧ combined = false
  · obtain ⟨z, hz⟩ := List.length_eq_one_iff.mp hone.1
    rw [hz, List.mem_singleton] at hx hy
    rw [hx, hy]
    exact iff_of_true rfl rfl
  · have hsingle : (plan scratch package requested.length outputPath combined).single = none :=
      if_neg hone
    rw [archive_of_single hsingle, archive_of_single hsingle]
    exact components_archive_eq_iff (hslash x hx) (hslash y hy)

/-- The archive of combined documentation is that of a target just if the names are the same. -/
theorem combined_plan_eq_iff {count : Nat} {c : Path} {x : Target} (hx : '/' ∉ x.name.toList)
    (hpackage : '/' ∉ package.name.toList)
    (hc : (plan scratch package count outputPath combined).combined = some c) :
    ((plan scratch package count outputPath combined).archive x).components = c.components ↔
      x.name = package.name := by
  cases combined with
  | false => cases hc
  | true =>
    cases hc
    rw [archive_of_single (if_neg fun h => by cases h.2)]
    exact components_archive_eq_iff hx hpackage

theorem of_mem_assemble {documented : List (Target × TargetDocs)} {e : PlannedTarget}
    (h : e ∈ (Batch.assemble package layout requested documented).targets) :
    ∃ x ∈ requested, e.name = x.name ∧ e.archiveDir = layout.archive x := by
  obtain ⟨x, hx, he⟩ := List.mem_filterMap.mp h
  obtain ⟨docs, -, rfl⟩ := Option.map_eq_some_iff.mp he
  exact ⟨x, hx, rfl, rfl⟩

end ArchiveLayout

open ArchiveLayout in
/-- **In the plan for some targets of a package** with names that have no slash, the archives of two
targets are the same just if the targets are. Combined documentation has an archive of its own,
unless the package has the name of one of the targets: then it is the archive of that target. -/
theorem Plan.archives_apart {text : String} {m : Manifest} {root : Path} {package : Package}
    (h : Manifest.parse text = .ok m) (hp : m.toPackage root = .ok package)
    (hnames : package.SlashlessNames) (scratch : Scratch) {requested : List Target}
    (hrequested : ∀ x ∈ requested, x ∈ package.targets) (outputPath : Option Path) (combined : Bool)
    (documented : List (Target × TargetDocs)) :
    let layout := ArchiveLayout.plan scratch package requested.length outputPath combined
    let plan := Batch.assemble package layout requested documented
    (∀ e ∈ plan.targets, ∀ f ∈ plan.targets, ∀ x ∈ package.targets, ∀ y ∈ package.targets,
      e.name = x.name → f.name = y.name →
      (e.archiveDir.components = f.archiveDir.components ↔ x = y)) ∧
    ∀ c, plan.combinedArchive = some c → ∀ e ∈ plan.targets,
      (e.archiveDir.components = c.components ↔ e.name = package.name) := by
  intro layout plan
  have hslash : ∀ x ∈ requested, '/' ∉ x.name.toList := fun x hx =>
    hnames.targets x (hrequested x hx)
  refine ⟨fun e he f hf x hx y hy hex hfy => ?_, fun c hc e he => ?_⟩
  · obtain ⟨x', hx', hname, harchive⟩ := of_mem_assemble he
    obtain ⟨y', hy', hname', harchive'⟩ := of_mem_assemble hf
    rw [harchive, harchive', archive_plan_eq_iff hslash hx' hy', ← hname, ← hname', hex, hfy]
    exact ⟨Manifest.eq_of_name_eq h hp hx hy, fun hxy => hxy ▸ rfl⟩
  · obtain ⟨x, hx, hname, harchive⟩ := of_mem_assemble he
    rw [harchive, hname]
    exact combined_plan_eq_iff (hslash x hx) hnames.name hc

/-! ### A package with the name of a target -/

/-- The text of a manifest with two targets, one of them with the name of the package. -/
def namesakeText : String :=
  "package.name=\"a\"\n[[targets]]\nname=\"a\"\nkind=\"lib\"\nid=\"i\"\n" ++
    "[[targets]]\nname=\"b\"\nkind=\"lib\"\nid=\"j\""

/-- The manifest that `namesakeText` spells. -/
def namesakeManifest : Manifest where
  package := { name := "a" }
  targets :=
    [{ name := "a", kind := .sourceModule .library, id := some "i" },
     { name := "b", kind := .sourceModule .library, id := some "j" }]

/-- The package of `namesakeManifest` in the current directory. -/
def namesakePackage : Package where
  name := "a"
  version := ⟨0, 0, 0, "", ""⟩
  root := ⟨""⟩
  targets :=
    [{ name := "a", id := "i", kind := .sourceModule .library },
     { name := "b", id := "j", kind := .sourceModule .library }]

theorem slashlessNames_namesakePackage : namesakePackage.SlashlessNames where
  name := by decide
  targets := by decide

/-- What was made for the targets of the package. -/
def namesakeDocs : List (Target × TargetDocs) :=
  namesakePackage.targets.map fun x => (x, ⟨default, .single ⟨x.name⟩⟩)

/-- The plan for both targets, with combined documentation. -/
def namesakePlan : Plan :=
  Batch.assemble namesakePackage
    (ArchiveLayout.plan ⟨⟨".graphdoc"⟩⟩ namesakePackage 2 none true) namesakePackage.targets
    namesakeDocs

/-- Combined documentation would go into the archive of one of the two targets, and not into that of
the other one. -/
theorem archives_namesake : ∃ a b c, namesakePlan.targets = [a, b] ∧
    namesakePlan.combinedArchive = some c ∧
    a.archiveDir.components ≠ b.archiveDir.components ∧
    a.archiveDir.components = c.components ∧ b.archiveDir.components ≠ c.components := by
  obtain ⟨happart, hcombined⟩ := Plan.archives_apart
    (show Manifest.parse namesakeText = .ok namesakeManifest from
      Manifest.parse_of_spells (.append .literal .literal) (by decide +kernel))
    (show namesakeManifest.toPackage ⟨""⟩ = .ok namesakePackage from
      eq_ok_of_toOption (by decide +kernel))
    slashlessNames_namesakePackage ⟨⟨".graphdoc"⟩⟩ (fun x hx => hx) none true namesakeDocs
  obtain ⟨a, b, c, htargets, hc, ha, hb⟩ : ∃ a b c, namesakePlan.targets = [a, b] ∧
      namesakePlan.combinedArchive = some c ∧ a.name = "a" ∧ b.name = "b" :=
    ⟨_, _, _, rfl, rfl, rfl, rfl⟩
  have hmem : a ∈ namesakePlan.targets ∧ b ∈ namesakePlan.targets := by
    rw [htargets]
    exact ⟨by simp, by simp⟩
  refine ⟨a, b, c, htargets, hc, fun h => ?_, ?_, fun h => ?_⟩
  · have hsame := (happart a hmem.1 b hmem.2 _ (List.mem_cons_self ..) _
      (List.mem_cons_of_mem _ (List.mem_cons_self ..)) ha hb).mp h
    exact absurd hsame (by decide)
  · exact (hcombined c hc a hmem.1).mpr ha
  · have hsame := (hcombined c hc b hmem.2).mp h
    rw [hb] at hsame
    exact absurd hsame (by decide)

end SymbolDocs
