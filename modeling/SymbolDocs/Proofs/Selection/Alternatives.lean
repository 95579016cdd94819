import SymbolDocs.Proofs.CommandLine.Listing

/-! # The names that a failed selection suggests

An error about a selection lists names. If nothing of the requested name is declared, it lists all
that is declared (`Lists`); otherwise it lists what can be asked for instead. The lists are filters
over the declarations, while a request is resolved by looking its name up; that both speak of the
same names rests on the names of a manifest being distinct (`mem_documentableProducts_iff`,
`mem_documentable_iff`). -/

namespace SymbolDocs

namespace Selection

variable {package : Package} {name : String}

/-! ### Products -/

theorem exists_resolve_product_iff :
    (∃ targets, ({ products := [name] } : Selection).resolve package = .ok targets) ↔
      Offers package name := by
  rw [resolve_product, exists_expand_iff]

/-- A product can be asked for by its name just if one of its members is documentable. -/
theorem offers_iff (hnodup : (package.products.map Product.name).Nodup) {q : Product}
    (hq : q ∈ package.products) :
    Offers package q.name ↔ (package.members q).any Target.isDocumentable = true := by
  unfold Offers
  rw [Package.product?, find?_key hnodup hq]
  simp

/-- A name can be asked for just if a product with a documentable member has it. -/
theorem mem_documentableProducts_iff (hnodup : (package.products.map Product.name).Nodup) :
    name ∈ package.documentableProducts.map Product.name ↔ Offers package name := by
  unfold Package.documentableProducts
  constructor
  · intro h
    obtain ⟨q, hq, rfl⟩ := List.mem_map.mp h
    obtain ⟨hmem, hany⟩ := List.mem_filter.mp hq
    exact (offers_iff hnodup hmem).mpr hany
  · intro h
    obtain ⟨q, hfound, -⟩ := id h
    obtain ⟨hmem, rfl⟩ := Package.product?_eq_some hfound
    exact List.mem_map.mpr ⟨q, List.mem_filter.mpr ⟨hmem, (offers_iff hnodup hmem).mp h⟩, rfl⟩

/-! ### Names that are not declared -/

theorem not_mem_of_product?_eq_none (h : package.product? name = none) :
    name ∉ package.products.map Product.name := by
  intro hmem
  obtain ⟨q, hq, rfl⟩ := List.mem_map.mp hmem
  simpa using List.find?_eq_none.mp h q hq

theorem not_mem_of_target?_eq_none (h : package.target? name = none) :
    name ∉ package.targets.map Target.name := by
  intro hmem
  obtain ⟨t, ht, rfl⟩ := List.mem_map.mp hmem
  simpa using List.find?_eq_none.mp h t ht

/-! ### Lists -/

/-- The names are those of the declared ones that are accepted, once each and in the order of the
declaration. -/
structure Accepted (declared : List String) (accepts : String → Prop) (names : List String) :
    Prop where
  sublist : names.Sublist declared
  nodup : names.Nodup
  mem_iff : ∀ name, name ∈ names ↔ accepts name

/-- What an error lists, about a package whose manifest declares these products and targets. -/
inductive Lists (package : Package) (products targets : List String) : SelectionError → Prop
  /-- All declared products. -/
  | unknownProduct {name : String} : name ∉ products →
    Lists package products targets (.unknownProduct name products)
  /-- The products that can be asked for. -/
  | emptyProduct {name : String} {names : List String} :
    Accepted products (fun n => ∃ found,
      ({ products := [n] } : Selection).resolve package = .ok found) names →
    Lists package products targets (.emptyProduct name names)
  /-- All declared targets. -/
  | unknownTarget {name : String} : name ∉ targets →
    Lists package products targets (.unknownTarget name targets)
  /-- The targets that can be asked for. -/
  | testTarget {name : String} {names : List String} :
    Accepted targets (fun n => ∃ found,
      ({ targets := [n] } : Selection).resolve package = .ok found) names →
    Lists package products targets (.testTarget name names)
  /-- The targets that can be asked for. -/
  | notSourceModule {name : String} {kind : TargetKind} {names : List String} :
    Accepted targets (fun n => ∃ found,
      ({ targets := [n] } : Selection).resolve package = .ok found) names →
    Lists package products targets (.notSourceModule name kind names)
  /-- Nothing. -/
  | emptyPackage {name : String} : Lists package products targets (.emptyPackage name)

/-- The documentable products are those that can be asked for. -/
theorem accepted_documentableProducts (hnodup : (package.products.map Product.name).Nodup) :
    Accepted (package.products.map Product.name) (fun n => ∃ found,
      ({ products := [n] } : Selection).resolve package = .ok found)
      (package.documentableProducts.map Product.name) where
  sublist := List.filter_sublist.map _
  nodup := hnodup.sublist (List.filter_sublist.map _)
  mem_iff _ := (mem_documentableProducts_iff hnodup).trans exists_resolve_product_iff.symm

/-- The documentable targets are those that can be asked for. -/
theorem accepted_documentable (hnodup : (package.targets.map Target.name).Nodup) :
    Accepted (package.targets.map Target.name) (fun n => ∃ found,
      ({ targets := [n] } : Selection).resolve package = .ok found)
      (package.documentable.map Target.name) where
  sublist := List.filter_sublist.map _
  nodup := hnodup.sublist (List.filter_sublist.map _)
  mem_iff _ := (mem_documentable_iff hnodup).trans exists_resolve_target_iff.symm

variable {s : Selection} {e : SelectionError}

/-- A selection that asks for something fails at one of its requests. -/
theorem fault_of_resolve (h : s.resolve package = .error e) :
    (∃ name ∈ s.products, ProductFault package name e) ∨
      ∃ name ∈ s.targets, TargetFault package name e := by
  obtain ⟨before, name, after, hlist, -, hfault⟩ | ⟨-, before, name, after, hlist, -, hfault⟩ :=
    ((resolve_cases s package).2 e).mp h
  · exact .inl ⟨name, by simp [hlist], hfault⟩
  · exact .inr ⟨name, by simp [hlist], hfault⟩

/-- A selection fails at one of its requests, or it asks for nothing of a package that has nothing
to document. -/
theorem fault_of_resolveOrDefault (h : s.resolveOrDefault package = .error e) :
    s.resolve package = .error e ∨ e = .emptyPackage package.name := by
  unfold resolveOrDefault everything at h
  split_ifs at h
  · rcases hd : package.documentable with _ | ⟨t, l⟩ <;> rw [hd] at h <;> cases h
    exact .inr rfl
  · exact .inl h

/-- The subject of an error about a request is the name that is asked for. -/
theorem ProductFault.subject_eq (h : ProductFault package name e) : e.subject = name := by
  cases h <;> rfl

theorem TargetFault.subject_eq (h : TargetFault package name e) : e.subject = name := by
  cases h <;> rfl

section

variable (hproducts : (package.products.map Product.name).Nodup)
  (htargets : (package.targets.map Target.name).Nodup)

include hproducts in
theorem ProductFault.lists (h : ProductFault package name e) :
    Lists package (package.products.map Product.name) (package.targets.map Target.name) e := by
  cases h with
  | unknown hnone => exact .unknownProduct (not_mem_of_product?_eq_none hnone)
  | empty => exact .emptyProduct (accepted_documentableProducts hproducts)

include htargets in
theorem TargetFault.lists (h : TargetFault package name e) :
    Lists package (package.products.map Product.name) (package.targets.map Target.name) e := by
  cases h with
  | unknown hnone => exact .unknownTarget (not_mem_of_target?_eq_none hnone)
  | test => exact .testTarget (accepted_documentable htargets)
  | notSourceModule => exact .notSourceModule (accepted_documentable htargets)

end

/-- **The names that an error lists are right.** If a selection fails for a package of a manifest
that is accepted, the error is about one of the names that are asked for, or about a package with
nothing to document. An error about a name that is not declared lists all declared names in the
order of the declaration, and the name is not among them; any other error lists the declared names
that can be asked for and nothing else, once each and in the order of the declaration. -/
theorem lists_of_error {text : String} {m : Manifest} {root : Path}
    (h : Manifest.parse text = .ok m) (hpackage : m.toPackage root = .ok package)
    (herror : s.resolve package = .error e ∨ s.resolveOrDefault package = .error e) :
    Lists package (m.products.map Product.name) (m.targets.map TargetSpec.name) e ∧
      (e.subject ∈ s.products ∨ e.subject ∈ s.targets ∨ e = .emptyPackage package.name) := by
  have hproducts : (package.products.map Product.name).Nodup := by
    rw [Manifest.toPackage_products hpackage]
    exact (Manifest.validate_eq_ok_iff.mp (Manifest.validate_of_parse h)).products
  have htargets := Manifest.names_nodup h hpackage
  rw [← Manifest.toPackage_products hpackage, ← Manifest.target_names hpackage]
  have hcases : s.resolve package = .error e ∨ e = .emptyPackage package.name :=
    herror.elim .inl fault_of_resolveOrDefault
  rcases hcases with hresolve | rfl
  · rcases fault_of_resolve hresolve with ⟨name, hname, hfault⟩ | ⟨name, hname, hfault⟩
    · exact ⟨hfault.lists hproducts, .inl (by rwa [hfault.subject_eq])⟩
    · exact ⟨hfault.lists htargets, .inr (.inl (by rwa [hfault.subject_eq]))⟩
  · exact ⟨.emptyPackage, .inr (.inr rfl)⟩

theorem lists_of_error_tests :
    Manifest.parse CommandLine.listedText = .ok CommandLine.listedManifest ∧
    ∃ package, CommandLine.listedManifest.toPackage ⟨""⟩ = .ok package ∧
      ({ products := ["P", "Q"] } : Selection).resolve package =
        .error (.emptyProduct "Q" ["P"]) ∧
      (∀ n, n ∈ ["P"] ↔
        ∃ found, ({ products := [n] } : Selection).resolve package = .ok found) ∧
      ({ targets := ["a", "t"] } : Selection).resolve package = .error (.testTarget "t" ["a"]) ∧
      (∀ n, n ∈ ["a"] ↔
        ∃ found, ({ targets := [n] } : Selection).resolve package = .ok found) := by
  obtain ⟨package, hpackage⟩ := Manifest.toPackage_of_parse CommandLine.parse_listedText ⟨""⟩
  have herrors : ({ products := ["P", "Q"] } : Selection).resolve package =
        .error (.emptyProduct "Q" ["P"]) ∧
      ({ targets := ["a", "t"] } : Selection).resolve package =
        .error (.testTarget "t" ["a"]) := by
    cases hpackage
    exact ⟨rfl, rfl⟩
  obtain ⟨hproduct, htest⟩ := herrors
  have hlists := (lists_of_error CommandLine.parse_listedText hpackage (.inl hproduct)).1
  have hlists' := (lists_of_error CommandLine.parse_listedText hpackage (.inl htest)).1
  refine ⟨CommandLine.parse_listedText, package, hpackage, hproduct, ?_, htest, ?_⟩
  · cases hlists with
    | emptyProduct haccepted => exact haccepted.mem_iff
  · cases hlists' with
    | testTarget haccepted => exact haccepted.mem_iff

end Selection

end SymbolDocs
