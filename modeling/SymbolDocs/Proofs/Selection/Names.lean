import SymbolDocs.Proofs.Package.Lookup
import SymbolDocs.Proofs.Selection.Resolved

/-! # Selections by name

A target can be asked for by its name just if documentation is made of it (`provides_iff`), and a
selection that names some of these targets stands for just them, in the order in which they are named
(`resolve_naming`). Each request of a selection that is resolved contributes at least one target
(`requests_le_length`). If nothing is asked for, all targets that documentation is made of are meant,
as if each of them had been named (`selected_documentable`). -/

namespace SymbolDocs

/-- The two kinds that can be asked for are those that documentation is made of. -/
theorem Target.isDocumentable_iff_kind {t : Target} : t.isDocumentable = true ↔
    t.kind = .sourceModule .library ∨ t.kind = .sourceModule .executable := by
  unfold isDocumentable TargetKind.isDocumentable
  rcases t.kind with (_ | _ | _) | _ | _ | _ <;> simp

namespace Selection

/-! ### Selections of one name -/

section

variable {package : Package} {name : String}

theorem resolve_target (package : Package) (name : String) :
    ({ targets := [name] } : Selection).resolve package =
      (pick package name).map fun target => [target] := by
  unfold resolve
  rcases hpick : pick package name with e | target <;>
    simp [List.mapM_cons, hpick] <;> rfl

theorem resolve_product (package : Package) (name : String) :
    ({ products := [name] } : Selection).resolve package = expand package name := by
  unfold resolve
  rcases hexpand : expand package name with e | targets <;> simp [List.mapM_cons, hexpand]

theorem exists_resolve_target_iff :
    (∃ targets, ({ targets := [name] } : Selection).resolve package = .ok targets) ↔
      Provides package name := by
  rw [← exists_pick_iff, resolve_target]
  rcases pick package name with e | target <;> simp [Except.map]

/-- A target can be asked for by its name just if documentation is made of it. -/
theorem provides_iff (hnodup : (package.targets.map Target.name).Nodup) {t : Target}
    (ht : t ∈ package.targets) : Provides package t.name ↔ t.isDocumentable = true := by
  unfold Provides
  rw [Package.target?, find?_key hnodup ht, Target.isDocumentable_iff_kind]
  simp

/-- A name can be asked for just if a target that documentation is made of has it. -/
theorem mem_documentable_iff (hnodup : (package.targets.map Target.name).Nodup) :
    name ∈ package.documentable.map Target.name ↔ Provides package name := by
  unfold Package.documentable
  constructor
  · intro h
    obtain ⟨t, ht, rfl⟩ := List.mem_map.mp h
    obtain ⟨hmem, hdoc⟩ := List.mem_filter.mp ht
    exact (provides_iff hnodup hmem).mpr hdoc
  · rintro ⟨t, ht, hkind⟩
    obtain ⟨hmem, hname⟩ := Package.target?_eq_some ht
    exact List.mem_map.mpr
      ⟨t, List.mem_filter.mpr ⟨hmem, Target.isDocumentable_iff_kind.mpr hkind⟩, hname⟩

end

/-! ### Selections of some names -/

section

variable {package : Package} {name : String} {s : Selection} {t : Target} {targets : List Target}

/-- The selection that asks for some targets by their names. -/
def naming (targets : List Target) : Selection where
  targets := targets.map Target.name

/-- Naming some targets that documentation is made of selects just them, in whatever order and how
often they are named. -/
theorem resolve_naming (h : package.WellNamed)
    (htargets : ∀ t ∈ targets, t ∈ package.targets ∧ t.isDocumentable = true) :
    (naming targets).resolve package = .ok targets := by
  have hprovides : ∀ name ∈ (naming targets).targets, Provides package name := by
    intro name hname
    obtain ⟨t, ht, rfl⟩ := List.mem_map.mp hname
    obtain ⟨hmem, hdocumentable⟩ := htargets t ht
    exact (provides_iff h.targets.distinct hmem).mpr hdocumentable
  have hfound : (naming targets).targetsOf package = targets :=
    h.targets.filterMap_keys fun t ht => (htargets t ht).1
  exact ((resolve_cases _ package).1 targets).mpr ⟨by simp [naming], hprovides, hfound.symm⟩

/-! ### What each request contributes -/

theorem membersNamed_ne_nil (h : Offers package name) : membersNamed package name ≠ [] := by
  obtain ⟨product, hproduct, hmember⟩ := h
  rw [membersNamed, hproduct]
  exact documentableMembers_ne_nil_iff.mpr hmember

theorem mem_of_mem_members {product : Product} (h : t ∈ package.members product) :
    t ∈ package.targets := by
  obtain ⟨name, -, hname⟩ := List.mem_filterMap.mp h
  exact (Package.target?_eq_some hname).1

theorem documentable_of_mem_membersNamed (h : t ∈ membersNamed package name) :
    t ∈ package.targets ∧ t.isDocumentable = true := by
  rw [membersNamed] at h
  rcases hproduct : package.product? name with _ | product <;> rw [hproduct] at h
  · exact absurd h List.not_mem_nil
  · obtain ⟨hmember, hdocumentable⟩ := List.mem_filter.mp h
    exact ⟨mem_of_mem_members hmember, hdocumentable⟩

theorem Provides.documentable (h : Provides package name) (ht : package.target? name = some t) :
    t ∈ package.targets ∧ t.isDocumentable = true := by
  obtain ⟨u, hu, hkind⟩ := h
  have htu : some t = some u := ht.symm.trans hu
  cases htu
  exact ⟨(Package.target?_eq_some ht).1, Target.isDocumentable_iff_kind.mpr hkind⟩

theorem length_le_flatMap_membersNamed {names : List String}
    (h : ∀ name ∈ names, Offers package name) :
    names.length ≤ (names.flatMap (membersNamed package)).length := by
  induction names with
  | nil => simp
  | cons name names ih =>
    have hone : 0 < (membersNamed package name).length :=
      List.length_pos_iff.mpr (membersNamed_ne_nil (h name (List.mem_cons_self ..)))
    have hrest := ih fun n hn => h n (List.mem_cons_of_mem name hn)
    rw [List.flatMap_cons, List.length_append, List.length_cons]
    omega

theorem length_filterMap_target? {names : List String}
    (h : ∀ name ∈ names, Provides package name) :
    (names.filterMap package.target?).length = names.length := by
  induction names with
  | nil => rfl
  | cons name names ih =>
    obtain ⟨t, ht, -⟩ := h name (List.mem_cons_self ..)
    have hrest := ih fun n hn => h n (List.mem_cons_of_mem name hn)
    rw [List.filterMap_cons_some ht, List.length_cons, List.length_cons, hrest]

/-- **Each request contributes a target**: there are at least as many targets as requests. -/
theorem requests_le_length (h : s.resolve package = .ok targets) :
    s.products.length + s.targets.length ≤ targets.length := by
  obtain ⟨hoffers, hprovides, rfl⟩ := ((resolve_cases s package).1 targets).mp h
  have hproducts := length_le_flatMap_membersNamed hoffers
  have htargets := length_filterMap_target? hprovides
  rw [targetsOf, List.length_append]
  omega

theorem documentable_of_resolve (h : s.resolve package = .ok targets) (ht : t ∈ targets) :
    t ∈ package.targets ∧ t.isDocumentable = true := by
  obtain ⟨-, hprovides, rfl⟩ := ((resolve_cases s package).1 targets).mp h
  rcases List.mem_append.mp ht with ht | ht
  · obtain ⟨name, -, ht⟩ := List.mem_flatMap.mp ht
    exact documentable_of_mem_membersNamed ht
  · obtain ⟨name, hname, ht⟩ := List.mem_filterMap.mp ht
    exact (hprovides name hname).documentable ht

/-! ### Nothing is asked for -/

theorem everything_ok_iff :
    everything package = .ok targets ↔ package.documentable ≠ [] ∧ targets = package.documentable := by
  unfold everything
  rcases package.documentable with _ | ⟨t, l⟩
  · simp
  · simp [eq_comm]

/-- A selection that asks for something is resolved as it is. -/
theorem resolveOrDefault_of_not_isEmpty (hs : s.isEmpty = false) :
    s.resolveOrDefault package = s.resolve package := by
  unfold resolveOrDefault
  rw [hs]
  rfl

theorem ne_nil_of_resolveOrDefault (h : s.resolveOrDefault package = .ok targets) :
    targets ≠ [] := by
  rcases hs : s.isEmpty with _ | _
  · rw [resolveOrDefault_of_not_isEmpty hs] at h
    have hrequests := requests_le_length h
    rintro rfl
    have hnone : s.products.length = 0 ∧ s.targets.length = 0 := by
      rw [List.length_nil] at hrequests
      omega
    simp [isEmpty, List.length_eq_zero_iff.mp hnone.1, List.length_eq_zero_iff.mp hnone.2] at hs
  · rw [resolveOrDefault, if_pos hs] at h
    obtain ⟨hne, rfl⟩ := everything_ok_iff.mp h
    exact hne

theorem documentable_of_resolveOrDefault (h : s.resolveOrDefault package = .ok targets)
    (ht : t ∈ targets) : t ∈ package.targets ∧ t.isDocumentable = true := by
  rcases hs : s.isEmpty with _ | _
  · rw [resolveOrDefault_of_not_isEmpty hs] at h
    exact documentable_of_resolve h ht
  · rw [resolveOrDefault, if_pos hs] at h
    obtain ⟨-, rfl⟩ := everything_ok_iff.mp h
    exact List.mem_filter.mp ht

theorem mem_of_resolveOrDefault (h : s.resolveOrDefault package = .ok targets) (ht : t ∈ targets) :
    t ∈ package.targets :=
  (documentable_of_resolveOrDefault h ht).1

end

/-- **What is selected can be documented, and something is selected.** For a package of a manifest
that is accepted, a selection that succeeds stands for one target or more, all of them targets of the
package that documentation is made of. If nothing is asked for, it succeeds just if there is such a
target. It stands for all of them then, in the order of the declaration and each of them once, and so
does the selection that names them in this order. -/
theorem selected_documentable {text : String} {m : Manifest} (h : Manifest.parse text = .ok m)
    (root : Path) :
    ∃ package, m.toPackage root = .ok package ∧
      (∀ (s : Selection) (targets : List Target), s.resolveOrDefault package = .ok targets →
        targets ≠ [] ∧ ∀ t ∈ targets, t ∈ package.targets ∧ t.isDocumentable = true) ∧
      ((∃ targets, ({} : Selection).resolveOrDefault package = .ok targets) ↔
        ∃ t ∈ package.targets, t.isDocumentable = true) ∧
      ∀ targets, ({} : Selection).resolveOrDefault package = .ok targets →
        targets.Sublist package.targets ∧
        (∀ t ∈ package.targets, t.isDocumentable = true → targets.count t = 1) ∧
        ({ targets := (m.targets.filter fun spec => spec.kind.isDocumentable).map TargetSpec.name } :
          Selection).resolve package = .ok targets := by
  obtain ⟨package, hpackage⟩ := Manifest.toPackage_of_parse h root
  have hwell := Manifest.wellNamed h hpackage
  have hnodup : package.targets.Nodup := .of_map _ hwell.targets.distinct
  refine ⟨package, hpackage, fun s targets hs => ⟨ne_nil_of_resolveOrDefault hs, fun t ht =>
    documentable_of_resolveOrDefault hs ht⟩, ?_, fun targets htargets => ?_⟩
  · have hsome : (∃ targets, everything package = .ok targets) ↔ package.documentable ≠ [] := by
      simp [everything_ok_iff]
    refine hsome.trans ?_
    simp [Package.documentable]
  · obtain ⟨-, rfl⟩ := everything_ok_iff.mp htargets
    refine ⟨List.filter_sublist, fun t ht hdocumentable => ?_, ?_⟩
    · exact List.count_eq_one_of_mem (hnodup.filter _) (List.mem_filter.mpr ⟨ht, hdocumentable⟩)
    · have hnames : (m.targets.filter fun spec => spec.kind.isDocumentable).map TargetSpec.name =
          package.documentable.map Target.name := by
        rw [Package.documentable, (Manifest.toPackage_ok hpackage).1, Manifest.buildTargets,
          List.filter_map, List.map_map]
        rfl
      rw [hnames]
      exact resolve_naming hwell fun t ht => List.mem_filter.mp ht

/-- Of a library, a module of tests and an executable, two are selected if nothing is asked for. -/
theorem selected_documentable_grouped :
    Manifest.parse Manifest.groupedText = .ok Manifest.groupedManifest ∧
    ∃ package targets members, Manifest.groupedManifest.toPackage ⟨""⟩ = .ok package ∧
      ({} : Selection).resolveOrDefault package = .ok targets ∧
      ({ targets := ["a", "b"] } : Selection).resolve package = .ok targets ∧
      targets.map Target.name = ["a", "b"] ∧
      ({ products := ["P"] } : Selection).resolveOrDefault package = .ok members ∧
      members ≠ [] ∧ ∀ t ∈ members, t.isDocumentable = true := by
  obtain ⟨package, hpackage, hselected, hsome, hall⟩ :=
    selected_documentable Manifest.parse_groupedText ⟨""⟩
  have hfirst : ∃ t ∈ package.targets, t.isDocumentable = true := by
    cases hpackage
    exact ⟨_, List.mem_cons_self .., rfl⟩
  obtain ⟨targets, htargets⟩ := hsome.mpr hfirst
  have hmembers : ∃ members, ({ products := ["P"] } : Selection).resolveOrDefault package =
      .ok members := by
    cases hpackage
    exact ⟨_, rfl⟩
  obtain ⟨members, hmembers⟩ := hmembers
  obtain ⟨hne, hdocumentable⟩ := hselected _ _ hmembers
  obtain ⟨-, -, hnamed⟩ := hall targets htargets
  refine ⟨Manifest.parse_groupedText, package, targets, members, hpackage, htargets, hnamed, ?_,
    hmembers, hne, fun t ht => (hdocumentable t ht).2⟩
  cases hpackage
  cases htargets
  rfl

end Selection

end SymbolDocs
