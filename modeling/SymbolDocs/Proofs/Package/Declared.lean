import SymbolDocs.Manifest.Reader
import SymbolDocs.Proofs.Manifest.Valid
import Mathlib.Data.List.Nodup

/-! # The targets of a package

The package of a manifest has one target for each target that the manifest declares, and no two of
them have the same name (`names_nodup`, `eq_of_name_eq`). The manifest that a given text spells is
found from the characters of its parts (`Manifest.parse_of_spells`). -/

namespace SymbolDocs

/-! ### Names in manifests -/

namespace Manifest

variable {text : String} {m : Manifest} {root : Path} {package : Package}

theorem validate_of_parse (h : parse text = .ok m) : m.validate = .ok () := by
  unfold parse at h
  rcases hr : Toml.read shape text with e | m' <;> rw [hr] at h
  · cases h
  simp only at h
  rcases hv : m'.validate with e | ⟨⟩ <;> rw [hv] at h
  · cases h
  · cases h; exact hv

theorem names_nodup_of_validate (h : m.validate = .ok ()) :
    (m.targets.map TargetSpec.name).Nodup :=
  (validate_eq_ok_iff.mp h).targets

theorem toPackage_ok (h : m.toPackage root = .ok package) :
    package.targets = m.buildTargets ∧ package.name = m.package.name ∧ package.root = root := by
  unfold toPackage at h
  rcases hv : m.package.parsedVersion with e | v <;> rw [hv] at h
  · cases h
  · cases h; exact ⟨rfl, rfl, rfl⟩

/-- **No two targets of a package have the same name.** -/
theorem names_nodup (h : parse text = .ok m) (hp : m.toPackage root = .ok package) :
    (package.targets.map Target.name).Nodup := by
  rw [(toPackage_ok hp).1, buildTargets, List.map_map]
  exact names_nodup_of_validate (validate_of_parse h)

/-- A target of a package is known by its name. -/
theorem eq_of_name_eq (h : parse text = .ok m) (hp : m.toPackage root = .ok package) {t u : Target}
    (ht : t ∈ package.targets) (hu : u ∈ package.targets) (hname : t.name = u.name) : t = u :=
  List.inj_on_of_nodup_map (names_nodup h hp) ht hu hname

end Manifest

/-! ### Manifests by their characters

To look for the characters of a long text takes long. So a text is taken apart where it has been put
together, and a manifest is read from the characters of the parts. -/

/-- The text consists of these characters. -/
def Spells (text : String) (cs : List Char) : Prop :=
  text.toList = cs

namespace Spells

variable {s t : String} {cs ds : List Char}

theorem literal : Spells (String.ofList cs) cs :=
  String.toList_ofList

theorem append (hs : Spells s cs) (ht : Spells t ds) : Spells (s ++ t) (cs ++ ds) := by
  rw [Spells, String.toList_append, hs, ht]

end Spells

/-- The document that characters spell, as a table. -/
def Toml.tableOf? (cs : List Char) : Option Node := do
  let lines ← lines? (cs.length + 1) (withoutMark cs)
  let draft ← lines.foldlM Draft.takeLine (Draft.start cs.length)
  let draft ← draft.close
  return .table .header (some draft.rootSpan) draft.root

/-- The manifest that characters spell. -/
def Manifest.ofChars? (cs : List Char) : Option Manifest := do
  let m ← (shape (← Toml.tableOf? cs)).toOption
  m.validate.toOption
  return m

theorem Manifest.toOption_parse {text : String} {cs : List Char} (h : Spells text cs) :
    (parse text).toOption = ofChars? cs := by
  have hdocument : Toml.document? text = Toml.tableOf? cs := by
    rw [← h]
    rfl
  unfold parse Toml.read ofChars?
  rw [hdocument]
  rcases Toml.tableOf? cs with _ | document
  · rfl
  rcases hshape : shape document with fault | m
  · simp [hshape, Except.toOption]
  · rcases hvalid : m.validate with fault | ⟨⟩ <;> simp [hshape, hvalid, Except.toOption]

theorem eq_ok_of_toOption {α ε : Type} {x : Except ε α} {a : α} (h : x.toOption = some a) :
    x = .ok a := by
  rcases x with e | b <;> cases h
  rfl

theorem Manifest.parse_of_spells {text : String} {cs : List Char} {m : Manifest}
    (h : Spells text cs) (hm : ofChars? cs = some m) : parse text = .ok m :=
  eq_ok_of_toOption ((toOption_parse h).trans hm)

theorem Manifest.package_of_spells {text : String} {cs : List Char} {root : Path} {package : Package}
    (h : Spells text cs)
    (hp : ((ofChars? cs).bind fun m => (m.toPackage root).toOption) = some package) :
    ∃ m, parse text = .ok m ∧ m.toPackage root = .ok package := by
  obtain ⟨m, hm, hp⟩ := Option.bind_eq_some_iff.mp hp
  exact ⟨m, parse_of_spells h hm, eq_ok_of_toOption hp⟩

/-! ### A small package -/

/-- The text of a manifest that declares one target. -/
def smallText : String :=
  "package.name=\"p\"\n[[targets]]\nname=\"a\"\nkind=\"lib\"\nid=\"i\""

/-- The manifest that `smallText` spells. -/
def smallManifest : Manifest where
  package := { name := "p" }
  targets := [{ name := "a", kind := .sourceModule .library, id := some "i" }]

/-- The package of `smallManifest` in the current directory. -/
def smallPackage : Package where
  name := "p"
  version := ⟨0, 0, 0, "", ""⟩
  root := ⟨""⟩
  targets := [{ name := "a", id := "i", kind := .sourceModule .library }]

theorem parse_smallText : Manifest.parse smallText = .ok smallManifest :=
  Manifest.parse_of_spells .literal (by decide +kernel)

theorem toPackage_smallManifest : smallManifest.toPackage ⟨""⟩ = .ok smallPackage :=
  eq_ok_of_toOption (by decide +kernel)

end SymbolDocs
