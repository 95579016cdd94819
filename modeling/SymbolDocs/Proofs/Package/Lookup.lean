import SymbolDocs.Proofs.Package.Declared
import Mathlib.Data.List.Forall2

/-! # Names that are looked up

A package is searched for a name from the front, and the members of a product are what its names lead
to; a name that leads nowhere is passed over. In the package of a manifest that is accepted no search
depends on the order, and no name is passed over:

* each declared name leads to the one target (the one product) that has it, and no other text leads
  anywhere (`Indexes`);
* a product has one member for each of its names, in the order of the names (`Package.WellNamed`).

So such a package says what its manifest says (`Manifest.toPackage_faithful`). -/

namespace SymbolDocs

/-! ### Searching by key -/

/-- If no key occurs twice, each member of a list is found by its key. -/
theorem find?_key {α : Type} {key : α → String} {l : List α} (hnodup : (l.map key).Nodup) {a : α}
    (ha : a ∈ l) : l.find? (fun b => key b = key a) = some a := by
  rcases hfound : l.find? (fun b => key b = key a) with _ | b
  · have hnone := List.find?_eq_none.mp hfound a ha
    simp at hnone
  · have hkey : key b = key a := by simpa using List.find?_some hfound
    rw [List.inj_on_of_nodup_map hnodup (List.mem_of_find?_eq_some hfound) ha hkey]

/-- **A search by key** finds each member of a list by its key, which no other member has, and finds
nothing else. -/
structure Indexes {α : Type} (key : α → String) (l : List α) (search : String → Option α) :
    Prop where
  distinct : (l.map key).Nodup
  found : ∀ a ∈ l, search (key a) = some a
  missing : ∀ name, name ∉ l.map key → search name = none

namespace Indexes

variable {α : Type} {key : α → String} {l : List α} {search : String → Option α}

/-- If no key occurs twice, a list is indexed by the search from its front. -/
theorem of_nodup (h : (l.map key).Nodup) :
    Indexes key l fun name => l.find? fun a => key a = name where
  distinct := h
  found _ ha := find?_key h ha
  missing name hname := by
    refine List.find?_eq_none.mpr fun a ha => ?_
    have hne : key a ≠ name := fun hkey => hname (hkey ▸ List.mem_map_of_mem ha)
    simpa using hne

/-- What is found is a member with the key. -/
theorem eq_some_iff (h : Indexes key l search) {name : String} {a : α} :
    search name = some a ↔ a ∈ l ∧ key a = name := by
  constructor
  · intro hsearch
    by_cases hname : name ∈ l.map key
    · obtain ⟨b, hb, rfl⟩ := List.mem_map.mp hname
      have hab : some b = some a := (h.found b hb).symm.trans hsearch
      cases hab
      exact ⟨hb, rfl⟩
    · rw [h.missing name hname] at hsearch
      cases hsearch
  · rintro ⟨ha, rfl⟩
    exact h.found a ha

/-- Members are found again by their keys, in whatever order and how often the keys are given. -/
theorem filterMap_keys (h : Indexes key l search) {as : List α} (has : ∀ a ∈ as, a ∈ l) :
    (as.map key).filterMap search = as := by
  induction as with
  | nil => rfl
  | cons a as ih =>
    have hfound : search (key a) = some a := h.found a (has a (List.mem_cons_self ..))
    have hrest := ih fun b hb => has b (List.mem_cons_of_mem a hb)
    rw [List.map_cons, List.filterMap_cons_some hfound, hrest]

/-- Some keys lead to one member each. -/
theorem forall₂_filterMap (h : Indexes key l search) {names : List String}
    (hnames : ∀ name ∈ names, name ∈ l.map key) :
    List.Forall₂ (fun name a => a ∈ l ∧ key a = name) names (names.filterMap search) := by
  induction names with
  | nil => exact .nil
  | cons name names ih =>
    obtain ⟨a, ha, hkey⟩ := List.mem_map.mp (hnames name (List.mem_cons_self ..))
    have hfound : search name = some a := h.eq_some_iff.mpr ⟨ha, hkey⟩
    have hrest := ih fun n hn => hnames n (List.mem_cons_of_mem name hn)
    rw [List.filterMap_cons_some hfound]
    exact .cons ⟨ha, hkey⟩ hrest

end Indexes

/-! ### Packages -/

/-- Names lead where they should: a search for a target or a product does not depend on the order,
and a product has one member for each of its names, in the order of the names. -/
structure Package.WellNamed (p : Package) : Prop where
  targets : Indexes Target.name p.targets p.target?
  products : Indexes Product.name p.products p.product?
  members : ∀ q ∈ p.products,
    List.Forall₂ (fun name t => t ∈ p.targets ∧ t.name = name) q.members (p.members q)

/-- The members of a product have the names that it lists. -/
theorem Package.WellNamed.member_names {p : Package} (h : p.WellNamed) {q : Product}
    (hq : q ∈ p.products) : (p.members q).map Target.name = q.members := by
  have hnames : List.Forall₂ (fun name t => name = t.name) q.members (p.members q) :=
    (h.members q hq).imp fun _ _ ht => ht.2.symm
  rw [← List.forall₂_map_right_iff (f := Target.name), List.forall₂_eq_eq_eq] at hnames
  exact hnames.symm

/-- A target is as an entry of a manifest declares it, in a package with the given name. -/
structure TargetSpec.Describes (spec : TargetSpec) (packageName : String) (t : Target) : Prop where
  name : t.name = spec.name
  kind : t.kind = spec.kind
  settings : t.settings = spec.settings
  /-- An identifier that is given is taken. -/
  givenId : ∀ id, spec.id = some id → t.id = id
  /-- Otherwise it is made from the names of the package and of the target. -/
  madeId : spec.id = none → t.id = Digest.shortId [packageName, spec.name]

/-- A package is as a manifest declares it, with one target for each entry and in their order. -/
structure Manifest.Describes (m : Manifest) (root : Path) (p : Package) : Prop where
  name : p.name = m.package.name
  version : Version.parse m.package.version = .ok p.version
  root : p.root = root
  settings : p.settings = m.settings
  targets : List.Forall₂ (fun spec t => spec.Describes m.package.name t) m.targets p.targets
  products : p.products = m.products

theorem TargetSpec.describes_target (spec : TargetSpec) (packageName : String) :
    spec.Describes packageName (spec.target packageName) where
  name := rfl
  kind := rfl
  settings := rfl
  givenId id hid := by simp [target, hid]
  madeId hid := by simp [target, hid]

namespace Manifest

variable {text : String} {m : Manifest} {root : Path} {package : Package}

theorem describes_of_toPackage (h : m.toPackage root = .ok package) : m.Describes root package := by
  unfold toPackage PackageMetadata.parsedVersion at h
  rcases hversion : Version.parse m.package.version with e | v <;> rw [hversion] at h
  · cases h
  · cases h
    refine ⟨rfl, hversion, rfl, rfl, ?_, rfl⟩
    refine List.forall₂_map_right_iff.mpr (List.forall₂_same.mpr fun spec _ => ?_)
    exact spec.describes_target m.package.name

theorem toPackage_products (h : m.toPackage root = .ok package) : package.products = m.products :=
  (describes_of_toPackage h).products

theorem target_names (h : m.toPackage root = .ok package) :
    package.targets.map Target.name = m.targets.map TargetSpec.name := by
  rw [(toPackage_ok h).1, buildTargets, List.map_map]
  rfl

/-- A manifest that is accepted describes a package. -/
theorem toPackage_of_parse (h : parse text = .ok m) (root : Path) :
    ∃ package, m.toPackage root = .ok package := by
  obtain ⟨v, hv⟩ := (validate_eq_ok_iff.mp (validate_of_parse h)).version
  unfold toPackage PackageMetadata.parsedVersion
  rw [hv]
  exact ⟨_, rfl⟩

/-- What a manifest is checked for carries over to its package. -/
theorem wellNamed (h : parse text = .ok m) (hpackage : m.toPackage root = .ok package) :
    package.WellNamed := by
  have hvalid : m.Valid := validate_eq_ok_iff.mp (validate_of_parse h)
  have htargets : Indexes Target.name package.targets package.target? :=
    .of_nodup (names_nodup h hpackage)
  have hproducts : (package.products.map Product.name).Nodup := by
    rw [toPackage_products hpackage]
    exact hvalid.products
  refine ⟨htargets, .of_nodup hproducts, fun q hq => htargets.forall₂_filterMap fun name hname => ?_⟩
  rw [toPackage_products hpackage] at hq
  rw [target_names hpackage]
  exact hvalid.members q hq name hname

/-- **A package says what its manifest says.** A manifest that is accepted describes a package: one
target for each entry and in their order, and the products as they are declared. Each declared name
leads to the one target or the one product that has it, and no other text leads anywhere; and the
members of a product are one target for each of its names, in the order of the names and with their
repetitions, so that no name of a product is passed over. -/
theorem toPackage_faithful (h : parse text = .ok m) (root : Path) :
    ∃ package, m.toPackage root = .ok package ∧ m.Describes root package ∧
      package.targets.map Target.name = m.targets.map TargetSpec.name ∧ package.WellNamed := by
  obtain ⟨package, hpackage⟩ := toPackage_of_parse h root
  exact ⟨package, hpackage, describes_of_toPackage hpackage, target_names hpackage,
    wellNamed h hpackage⟩

/-- A manifest with a product that lists a target twice, a module of tests among its targets, and a
target without an identifier of its own. -/
def groupedText : String :=
  "package.name=\"p\"\n" ++
  "[[targets]]\nname=\"a\"\nkind=\"lib\"\nid=\"i\"\n" ++
  "[[targets]]\nname=\"t\"\nkind=\"test\"\nid=\"j\"\n" ++
  "[[targets]]\nname=\"b\"\nkind=\"exe\"\n" ++
  "[[products]]\nname=\"P\"\ntargets=[\"b\",\"t\",\"b\"]"

/-- The manifest that `groupedText` spells. -/
def groupedManifest : Manifest where
  package := { name := "p" }
  targets := [{ name := "a", kind := .sourceModule .library, id := some "i" },
    { name := "t", kind := .sourceModule .test, id := some "j" },
    { name := "b", kind := .sourceModule .executable }]
  products := [{ name := "P", members := ["b", "t", "b"] }]

theorem parse_groupedText : parse groupedText = .ok groupedManifest :=
  parse_of_spells (.append (.append (.append (.append .literal .literal) .literal) .literal) .literal)
    (by decide +kernel)

theorem toPackage_faithful_grouped :
    parse groupedText = .ok groupedManifest ∧
    ∃ package q t, groupedManifest.toPackage ⟨"r"⟩ = .ok package ∧
      package.product? "P" = some q ∧ (package.members q).map Target.name = ["b", "t", "b"] ∧
      package.target? "b" = some t ∧ t.kind = .sourceModule .executable ∧
      t.id = Digest.shortId ["p", "b"] ∧ package.target? "P" = none := by
  obtain ⟨package, hpackage, hdescribes, hnames, hwell⟩ :=
    toPackage_faithful parse_groupedText ⟨"r"⟩
  have hproduct : (⟨"P", ["b", "t", "b"]⟩ : Product) ∈ package.products := by
    rw [hdescribes.products]
    exact List.mem_singleton.mpr rfl
  obtain ⟨_, _, -, hrest, htargets⟩ := List.forall₂_cons_left_iff.mp hdescribes.targets
  obtain ⟨_, _, -, hlast, rfl⟩ := List.forall₂_cons_left_iff.mp hrest
  obtain ⟨t, _, ht, -, rfl⟩ := List.forall₂_cons_left_iff.mp hlast
  have htarget : t ∈ package.targets := by
    rw [htargets]
    simp
  have hfound : package.target? "b" = some t := hwell.targets.eq_some_iff.mpr ⟨htarget, ht.name⟩
  have hmissing : "P" ∉ package.targets.map Target.name := by
    rw [hnames]
    decide
  exact ⟨parse_groupedText, package, _, t, hpackage, hwell.products.found _ hproduct,
    hwell.member_names hproduct, hfound, ht.kind, ht.madeId rfl,
    hwell.targets.missing "P" hmissing⟩

end Manifest

end SymbolDocs
