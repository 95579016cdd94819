import SymbolDocs.Batch
import SymbolDocs.Proofs.Selection.Names

/-! # What is declared elsewhere does not matter

A selection is resolved by looking up the names that it asks for, and the names that the products
among them list. So two packages resolve it alike if they answer these names alike (`AnswersAlike`,
`resolve_congr`), whatever else they declare.

Two manifests of packages of one name do answer a name alike if both declare it in the same way
(`Manifest.SharesTarget`, `Manifest.SharesProduct`): what an entry declares becomes the same target in
both, wherever it stands among the others (`exists_target?_of_shared`). And the options for a target
depend on nothing that other targets say (`settle_congr`). -/

namespace SymbolDocs

/-! ### Options -/

/-- Of a package, only the settings matter for the options of a target. -/
theorem GraphOptions.settle_congr {p p' : Package} (h : p.settings = p'.settings) (target : Target)
    (overrides : Overrides) (capabilities : Capabilities) :
    settle target p overrides capabilities = settle target p' overrides capabilities := by
  have hstandard : standard target p = standard target p' := by
    unfold standard
    rw [h]
  unfold settle
  rw [hstandard]

/-- So does what is told when they are settled. -/
theorem Batch.settle_congr {p p' : Package} (h : p.settings = p'.settings) (target : Target)
    (overrides : Overrides) (capabilities : Capabilities) :
    settle p target overrides capabilities = settle p' target overrides capabilities := by
  unfold settle
  rw [GraphOptions.settle_congr h]

namespace Selection

/-! ### Packages that answer alike -/

/-- Two packages answer a selection alike: they find the same for each name that it asks for, and for
each name that a product among them lists. -/
structure AnswersAlike (p p' : Package) (s : Selection) : Prop where
  products : ∀ name ∈ s.products, p.product? name = p'.product? name
  members : ∀ name ∈ s.products, ∀ q, p.product? name = some q →
    ∀ member ∈ q.members, p.target? member = p'.target? member
  targets : ∀ name ∈ s.targets, p.target? name = p'.target? name

namespace AnswersAlike

variable {p p' : Package} {s : Selection}

theorem symm (h : AnswersAlike p p' s) : AnswersAlike p' p s where
  products name hname := (h.products name hname).symm
  members name hname q hq member hmember := by
    rw [← h.products name hname] at hq
    exact (h.members name hname q hq member hmember).symm
  targets name hname := (h.targets name hname).symm

/-- A product that is asked for has the same members. -/
theorem members_eq (h : AnswersAlike p p' s) {name : String} (hname : name ∈ s.products)
    {q : Product} (hq : p.product? name = some q) : p.members q = p'.members q :=
  List.filterMap_congr (h.members name hname q hq)

theorem offers (h : AnswersAlike p p' s) {name : String} (hname : name ∈ s.products)
    (hoffers : Offers p name) : Offers p' name := by
  obtain ⟨q, hq, t, ht, hdocumentable⟩ := hoffers
  have hq' : p'.product? name = some q := (h.products name hname).symm.trans hq
  rw [h.members_eq hname hq] at ht
  exact ⟨q, hq', t, ht, hdocumentable⟩

theorem provides (h : AnswersAlike p p' s) {name : String} (hname : name ∈ s.targets)
    (hprovides : Provides p name) : Provides p' name := by
  obtain ⟨t, ht, hkind⟩ := hprovides
  exact ⟨t, (h.targets name hname).symm.trans ht, hkind⟩

theorem membersNamed_eq (h : AnswersAlike p p' s) {name : String} (hname : name ∈ s.products) :
    membersNamed p name = membersNamed p' name := by
  unfold membersNamed
  rw [← h.products name hname]
  rcases hq : p.product? name with _ | q
  · rfl
  · simp only [Option.elim_some]
    rw [Package.documentableMembers, Package.documentableMembers, h.members_eq hname hq]

theorem targetsOf_eq (h : AnswersAlike p p' s) : s.targetsOf p = s.targetsOf p' := by
  have hproducts : s.products.flatMap (membersNamed p) = s.products.flatMap (membersNamed p') := by
    rw [List.flatMap_def, List.flatMap_def]
    exact congrArg List.flatten (List.map_congr_left fun name hname => h.membersNamed_eq hname)
  rw [targetsOf, targetsOf, hproducts, List.filterMap_congr h.targets]

theorem resolve (h : AnswersAlike p p' s) {targets : List Target}
    (hresolve : s.resolve p = .ok targets) : s.resolve p' = .ok targets := by
  obtain ⟨hoffers, hprovides, rfl⟩ := ((resolve_cases s p).1 targets).mp hresolve
  refine ((resolve_cases s p').1 _).mpr ⟨fun name hname => h.offers hname (hoffers name hname),
    fun name hname => h.provides hname (hprovides name hname), h.targetsOf_eq⟩

end AnswersAlike

/-- A selection stands for the same targets in packages that answer it alike. -/
theorem resolve_congr {p p' : Package} {s : Selection} (h : AnswersAlike p p' s)
    (targets : List Target) : s.resolve p = .ok targets ↔ s.resolve p' = .ok targets :=
  ⟨h.resolve, h.symm.resolve⟩

end Selection

/-! ### Manifests that share declarations -/

namespace Manifest

/-- Both manifests declare a target of this name, and in the same way. -/
def SharesTarget (m m' : Manifest) (name : String) : Prop :=
  ∃ spec ∈ m.targets, spec ∈ m'.targets ∧ spec.name = name

/-- Both manifests declare a product of this name, and in the same way, and so they do for the
targets that it lists. -/
def SharesProduct (m m' : Manifest) (name : String) : Prop :=
  ∃ q ∈ m.products, q ∈ m'.products ∧ q.name = name ∧
    ∀ member ∈ q.members, m.SharesTarget m' member

section

variable {text text' : String} {m m' : Manifest} {root root' : Path} {p p' : Package}

/-- What an entry declares is found by its name, wherever the entry stands. -/
theorem target?_of_mem (h : parse text = .ok m) (hp : m.toPackage root = .ok p) {spec : TargetSpec}
    (hspec : spec ∈ m.targets) : p.target? spec.name = some (spec.target m.package.name) := by
  have hmem : spec.target m.package.name ∈ p.targets := by
    rw [(toPackage_ok hp).1]
    exact List.mem_map_of_mem hspec
  exact (wellNamed h hp).targets.found _ hmem

theorem product?_of_mem (h : parse text = .ok m) (hp : m.toPackage root = .ok p) {q : Product}
    (hq : q ∈ m.products) : p.product? q.name = some q := by
  rw [← toPackage_products hp] at hq
  exact (wellNamed h hp).products.found q hq

variable (h : parse text = .ok m) (h' : parse text' = .ok m') (hp : m.toPackage root = .ok p)
  (hp' : m'.toPackage root' = .ok p') (hname : m.package.name = m'.package.name)

include h h' hp hp' hname

/-- An entry that both declare becomes the same target in both. -/
theorem exists_target?_of_shared {spec : TargetSpec} (hspec : spec ∈ m.targets)
    (hspec' : spec ∈ m'.targets) :
    ∃ t, p.target? spec.name = some t ∧ p'.target? spec.name = some t := by
  refine ⟨spec.target m.package.name, target?_of_mem h hp hspec, ?_⟩
  rw [hname]
  exact target?_of_mem h' hp' hspec'

theorem target?_eq_of_shared {name : String} (hshares : m.SharesTarget m' name) :
    p.target? name = p'.target? name := by
  obtain ⟨spec, hspec, hspec', rfl⟩ := hshares
  obtain ⟨t, ht, ht'⟩ := exists_target?_of_shared h h' hp hp' hname hspec hspec'
  rw [ht, ht']

/-- Two manifests that share what a selection asks for answer it alike. -/
theorem answersAlike_of_shared {s : Selection}
    (hproducts : ∀ name ∈ s.products, m.SharesProduct m' name)
    (htargets : ∀ name ∈ s.targets, m.SharesTarget m' name) : s.AnswersAlike p p' where
  products name hmem := by
    obtain ⟨q, hq, hq', rfl, -⟩ := hproducts name hmem
    rw [product?_of_mem h hp hq, product?_of_mem h' hp' hq']
  members name hmem q hfound member hmember := by
    obtain ⟨r, hr, -, rfl, hmembers⟩ := hproducts name hmem
    have hqr : some r = some q := (product?_of_mem h hp hr).symm.trans hfound
    cases hqr
    exact target?_eq_of_shared h h' hp hp' hname (hmembers member hmember)
  targets name hmem := target?_eq_of_shared h h' hp hp' hname (htargets name hmem)

end

/-- **What is declared elsewhere does not matter.** Two manifests that are accepted, for packages of
one name and with the same settings for all targets, may differ in any of their declarations and in
the order of all of them. An entry that both declare becomes one and the same target, identifier and
directory name included, and the same options are settled for it and told, whatever the user asks for
and the generator is able to do. A selection that asks for something, and only for what both declare
in the same way, with all members of its products, stands for the same targets in the same order. -/
theorem shared_unchanged {text text' : String} {m m' : Manifest} (h : parse text = .ok m)
    (h' : parse text' = .ok m') (hname : m.package.name = m'.package.name)
    (hsettings : m.settings = m'.settings) (root root' : Path) :
    ∃ p p', m.toPackage root = .ok p ∧ m'.toPackage root' = .ok p' ∧
      (∀ spec ∈ m.targets, spec ∈ m'.targets →
        ∃ t, p.target? spec.name = some t ∧ p'.target? spec.name = some t ∧
          ∀ overrides capabilities,
            GraphOptions.settle t p overrides capabilities =
              GraphOptions.settle t p' overrides capabilities ∧
            Batch.settle p t overrides capabilities = Batch.settle p' t overrides capabilities) ∧
      ∀ s : Selection, s.isEmpty = false →
        (∀ name ∈ s.products, m.SharesProduct m' name) →
        (∀ name ∈ s.targets, m.SharesTarget m' name) →
        ∀ targets, (s.resolve p = .ok targets ↔ s.resolve p' = .ok targets) ∧
          (s.resolveOrDefault p = .ok targets ↔ s.resolveOrDefault p' = .ok targets) := by
  obtain ⟨p, hp⟩ := toPackage_of_parse h root
  obtain ⟨p', hp'⟩ := toPackage_of_parse h' root'
  have hsame : p.settings = p'.settings := by
    rw [(describes_of_toPackage hp).settings, (describes_of_toPackage hp').settings, hsettings]
  refine ⟨p, p', hp, hp', fun spec hspec hspec' => ?_, fun s hs hproducts htargets targets => ?_⟩
  · obtain ⟨t, ht, ht'⟩ := exists_target?_of_shared h h' hp hp' hname hspec hspec'
    exact ⟨t, ht, ht', fun overrides capabilities =>
      ⟨GraphOptions.settle_congr hsame t overrides capabilities,
        Batch.settle_congr hsame t overrides capabilities⟩⟩
  · have halike := answersAlike_of_shared h h' hp hp' hname hproducts htargets
    rw [Selection.resolveOrDefault_of_not_isEmpty hs, Selection.resolveOrDefault_of_not_isEmpty hs]
    exact ⟨Selection.resolve_congr halike targets, Selection.resolve_congr halike targets⟩

/-- The entries of `groupedText` in another order, and others: another library `c` with a product, and
a target of the name `a` that is declared in another way. -/
def regroupedText : String :=
  "package.name=\"p\"\n" ++
  "[[targets]]\nname=\"b\"\nkind=\"exe\"\n" ++
  "[[targets]]\nname=\"c\"\nkind=\"lib\"\n" ++
  "[[targets]]\nname=\"a\"\nkind=\"exe\"\nid=\"k\"\n" ++
  "[[targets]]\nname=\"t\"\nkind=\"test\"\nid=\"j\"\n" ++
  "[[products]]\nname=\"Q\"\ntargets=[\"c\"]\n" ++
  "[[products]]\nname=\"P\"\ntargets=[\"b\",\"t\",\"b\"]"

/-- The manifest that `regroupedText` spells. -/
def regroupedManifest : Manifest where
  package := { name := "p" }
  targets := [{ name := "b", kind := .sourceModule .executable },
    { name := "c", kind := .sourceModule .library },
    { name := "a", kind := .sourceModule .executable, id := some "k" },
    { name := "t", kind := .sourceModule .test, id := some "j" }]
  products := [{ name := "Q", members := ["c"] }, { name := "P", members := ["b", "t", "b"] }]

theorem parse_regroupedText : parse regroupedText = .ok regroupedManifest :=
  parse_of_spells (.append (.append (.append (.append (.append (.append .literal .literal) .literal)
    .literal) .literal) .literal) .literal) (by decide +kernel)

/-- The product `P` and the target `b` are shared. -/
theorem shared_unchanged_regrouped :
    parse groupedText = .ok groupedManifest ∧ parse regroupedText = .ok regroupedManifest ∧
    ∃ p p' t targets, groupedManifest.toPackage ⟨"r"⟩ = .ok p ∧
      regroupedManifest.toPackage ⟨"s"⟩ = .ok p' ∧
      p.target? "b" = some t ∧ p'.target? "b" = some t ∧ p.target? "a" ≠ p'.target? "a" ∧
      ({ products := ["P"], targets := ["b"] } : Selection).resolve p = .ok targets ∧
      ({ products := ["P"], targets := ["b"] } : Selection).resolve p' = .ok targets ∧
      targets.map Target.name = ["b", "b", "b"] := by
  obtain ⟨p, p', hp, hp', hentries, hselections⟩ :=
    shared_unchanged parse_groupedText parse_regroupedText rfl rfl ⟨"r"⟩ ⟨"s"⟩
  have hb : groupedManifest.SharesTarget regroupedManifest "b" :=
    ⟨{ name := "b", kind := .sourceModule .executable }, by decide, by decide, rfl⟩
  have ht : groupedManifest.SharesTarget regroupedManifest "t" :=
    ⟨{ name := "t", kind := .sourceModule .test, id := some "j" }, by decide, by decide, rfl⟩
  have hP : groupedManifest.SharesProduct regroupedManifest "P" :=
    ⟨{ name := "P", members := ["b", "t", "b"] }, by decide, by decide, rfl, by simp [hb, ht]⟩
  obtain ⟨t, htarget, htarget', -⟩ := hentries { name := "b", kind := .sourceModule .executable }
    (by decide) (by decide)
  have hresolved : ∃ targets, ({ products := ["P"], targets := ["b"] } : Selection).resolve p =
      .ok targets ∧ targets.map Target.name = ["b", "b", "b"] := by
    cases hp
    exact ⟨_, rfl, rfl⟩
  obtain ⟨targets, htargets, hnames⟩ := hresolved
  have hshared := hselections { products := ["P"], targets := ["b"] } rfl (by simpa using hP)
    (by simpa using hb) targets
  refine ⟨parse_groupedText, parse_regroupedText, p, p', t, targets, hp, hp', htarget, htarget', ?_,
    htargets, hshared.1.mp htargets, hnames⟩
  cases hp
  cases hp'
  decide +kernel

end Manifest

end SymbolDocs
