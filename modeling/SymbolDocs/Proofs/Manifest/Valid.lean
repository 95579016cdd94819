import SymbolDocs.Manifest
import Mathlib.Data.List.Basic
import Mathlib.Tactic.Tauto

/-! # Valid manifests

A manifest is valid if its version is one, if no two of its targets and no two of its products have
the same name, and if every member of a product is one of its targets (`Valid`). It is accepted just
if it is valid. If it is not, the fault that is reported is the first one (`FirstFault`): the version
comes before the targets, the targets come before the products, and the name of a product comes
before its members (`validate_cases`). -/

namespace SymbolDocs

/-! ### One check after the other -/

section

variable {ε : Type} {x : Except ε Unit} {next : Unit → Except ε Unit}

theorem check_bind_eq_ok_iff : (x >>= next) = .ok () ↔ x = .ok () ∧ next () = .ok () := by
  rcases x with e | ⟨⟩
  · exact ⟨nofun, nofun⟩
  · exact ⟨fun h => ⟨rfl, h⟩, And.right⟩

theorem check_bind_eq_error_iff {e : ε} :
    (x >>= next) = .error e ↔ x = .error e ∨ x = .ok () ∧ next () = .error e := by
  rcases x with e' | ⟨⟩
  · refine ⟨fun h => .inl (by cases h; rfl), ?_⟩
    rintro (h | ⟨h, -⟩) <;> cases h
    rfl
  · refine ⟨fun h => .inr ⟨rfl, h⟩, ?_⟩
    rintro (h | ⟨-, h⟩)
    · cases h
    · exact h

end

/-! ### Places in lists -/

/-- A place in a list is the first one or lies further on. -/
theorem exists_place_cons {α : Type} {P : List α → α → Prop} {x : α} {l : List α} :
    (∃ before a after, x :: l = before ++ a :: after ∧ P before a) ↔
      P [] x ∨ ∃ before a after, l = before ++ a :: after ∧ P (x :: before) a := by
  constructor
  · rintro ⟨_ | ⟨b, before⟩, a, after, hl, hp⟩
    · obtain ⟨rfl, -⟩ := List.cons.inj hl
      exact .inl hp
    · obtain ⟨rfl, rfl⟩ := List.cons.inj hl
      exact .inr ⟨before, a, after, rfl, hp⟩
  · rintro (hp | ⟨before, a, after, rfl, hp⟩)
    · exact ⟨[], x, l, rfl, hp⟩
    · exact ⟨x :: before, a, after, rfl, hp⟩

/-- No name occurs twice or has been seen before. -/
def Fresh (seen names : List String) : Prop :=
  names.Nodup ∧ ∀ name ∈ names, name ∉ seen

variable {seen names targets : List String} {name : String}

@[simp] theorem fresh_nil : Fresh seen [] := by simp [Fresh]

theorem fresh_nil_left : Fresh [] names ↔ names.Nodup := by simp [Fresh]

/-- A name counts as seen for the names after it. -/
theorem fresh_cons : Fresh seen (name :: names) ↔ name ∉ seen ∧ Fresh (name :: seen) names := by
  simp only [Fresh, List.nodup_cons, List.mem_cons, forall_eq_or_imp, not_or]
  constructor
  · rintro ⟨⟨hname, hnodup⟩, hseen, hrest⟩
    exact ⟨hseen, hnodup, fun x hx => ⟨fun h => hname (h ▸ hx), hrest x hx⟩⟩
  · rintro ⟨hseen, hnodup, hrest⟩
    exact ⟨⟨fun h => (hrest name h).1 rfl, hnodup⟩, hseen, fun x hx => (hrest x hx).2⟩

namespace Manifest

/-! ### What is checked -/

/-- All members of a product are among the targets. -/
def Declares (targets : List String) (product : Product) : Prop :=
  ∀ member ∈ product.members, member ∈ targets

theorem checkTargets_eq_ok_iff : ∀ {seen names : List String},
    checkTargets seen names = .ok () ↔ Fresh seen names
  | _, [] => by simp [checkTargets]
  | seen, name :: names => by
    rw [checkTargets, fresh_cons, ← checkTargets_eq_ok_iff]
    split_ifs with h <;> simp [h]

/-- The target at fault is the first whose name has been seen. -/
theorem checkTargets_eq_error_iff {f : ManifestFault} : ∀ {seen names : List String},
    checkTargets seen names = .error f ↔
      ∃ before name after, names = before ++ name :: after ∧
        (Fresh seen before ∧ (name ∈ seen ∨ name ∈ before) ∧ f = .duplicateTarget name)
  | _, [] => by simp [checkTargets]
  | seen, name :: names => by
    rw [checkTargets, exists_place_cons]
    split_ifs with h
    · simp [h, fresh_cons, eq_comm]
    · rw [checkTargets_eq_error_iff]
      simp only [h, fresh_cons, List.mem_cons, false_or, List.not_mem_nil, or_false, false_and,
        and_false, not_false_eq_true, true_and]
      simp only [or_assoc, or_left_comm]

theorem checkMembers_eq_ok_iff {product : Product} :
    checkMembers targets product.name product.members = .ok () ↔ Declares targets product := by
  unfold Declares
  induction product.members with
  | nil => simp [checkMembers]
  | cons member members ih =>
    rw [checkMembers, List.forall_mem_cons, ← ih]
    split_ifs with h <;> simp [h]

/-- The member at fault is the first that is no target. -/
theorem checkMembers_eq_error_iff {product : String} {f : ManifestFault} : ∀ {members : List String},
    checkMembers targets product members = .error f ↔
      ∃ before member after, members = before ++ member :: after ∧
        ((∀ b ∈ before, b ∈ targets) ∧ member ∉ targets ∧ f = .unknownMember product member)
  | [] => by simp [checkMembers]
  | member :: members => by
    rw [checkMembers, exists_place_cons]
    split_ifs with h
    · rw [checkMembers_eq_error_iff]
      simp [h]
    · simp only [List.forall_mem_cons, List.not_mem_nil, false_imp_iff, implies_true, h, false_and,
        and_false, exists_const, not_false_eq_true, true_and, or_false, Except.error.injEq, eq_comm]

/-- What is at fault with a product after others with the names seen: its name comes first, and then
the first of its members that is no target. -/
inductive ProductFault (targets seen : List String) (product : Product) : ManifestFault → Prop
  | name : product.name ∈ seen → ProductFault targets seen product (.duplicateProduct product.name)
  | member {before after : List String} {member : String} : product.name ∉ seen →
    product.members = before ++ member :: after → (∀ b ∈ before, b ∈ targets) →
    member ∉ targets → ProductFault targets seen product (.unknownMember product.name member)

theorem productFault_of_mem {seen : List String} {product : Product} {f : ManifestFault}
    (h : product.name ∈ seen) :
    ProductFault targets seen product f ↔ f = .duplicateProduct product.name := by
  constructor
  · rintro (_ | hname)
    · rfl
    · exact absurd h hname
  · rintro rfl
    exact .name h

theorem productFault_of_not_mem {seen : List String} {product : Product} {f : ManifestFault}
    (h : product.name ∉ seen) :
    ProductFault targets seen product f ↔
      checkMembers targets product.name product.members = .error f := by
  rw [checkMembers_eq_error_iff]
  constructor
  · rintro (hname | ⟨-, hmembers, hbefore, hmember⟩)
    · exact absurd hname h
    · exact ⟨_, _, _, hmembers, hbefore, hmember, rfl⟩
  · rintro ⟨before, member, after, hmembers, hbefore, hmember, rfl⟩
    exact .member h hmembers hbefore hmember

/-- Only the names that have been seen matter. -/
theorem productFault_congr {seen seen' : List String} (h : ∀ name, name ∈ seen ↔ name ∈ seen')
    {product : Product} {f : ManifestFault} :
    ProductFault targets seen product f ↔ ProductFault targets seen' product f := by
  by_cases hname : product.name ∈ seen
  · rw [productFault_of_mem hname, productFault_of_mem ((h _).mp hname)]
  · rw [productFault_of_not_mem hname, productFault_of_not_mem (mt (h _).mpr hname)]

theorem checkProducts_eq_ok_iff : ∀ {seen : List String} {products : List Product},
    checkProducts targets seen products = .ok () ↔
      Fresh seen (products.map Product.name) ∧ ∀ product ∈ products, Declares targets product
  | _, [] => by simp [checkProducts]
  | seen, product :: products => by
    rw [checkProducts, List.map_cons, fresh_cons, List.forall_mem_cons]
    split_ifs with h
    · simp [h]
    · rw [check_bind_eq_ok_iff, checkMembers_eq_ok_iff, checkProducts_eq_ok_iff, and_left_comm]
      simp only [h, not_false_eq_true, true_and]

/-- The product at fault is the first with a name that has been seen or a member that is no
target. -/
theorem checkProducts_eq_error_iff {f : ManifestFault} :
    ∀ {seen : List String} {products : List Product},
    checkProducts targets seen products = .error f ↔
      ∃ before product after, products = before ++ product :: after ∧
        (Fresh seen (before.map Product.name) ∧ (∀ b ∈ before, Declares targets b) ∧
          ProductFault targets (before.map Product.name ++ seen) product f)
  | _, [] => by simp [checkProducts]
  | seen, product :: products => by
    rw [checkProducts, exists_place_cons]
    split_ifs with h
    · simp [h, fresh_cons, productFault_of_mem, eq_comm]
    · rw [check_bind_eq_error_iff, checkMembers_eq_ok_iff, checkProducts_eq_error_iff]
      refine or_congr ?_ ?_
      · simp [productFault_of_not_mem h]
      · simp only [List.map_cons, fresh_cons, List.forall_mem_cons, h, not_false_eq_true, true_and,
          ← exists_and_left]
        refine exists_congr fun before => exists_congr fun p => exists_congr fun after => ?_
        rw [productFault_congr fun name => List.perm_middle.mem_iff, List.cons_append]
        tauto

/-! ### What is valid -/

/-- The version is one, no two targets and no two products have the same name, and every member of
a product is a target. -/
structure Valid (m : Manifest) : Prop where
  version : ∃ v, Version.parse m.package.version = .ok v
  targets : (m.targets.map TargetSpec.name).Nodup
  products : (m.products.map Product.name).Nodup
  members : ∀ product ∈ m.products, Declares (m.targets.map TargetSpec.name) product

/-- The first thing that is wrong with a manifest. -/
inductive FirstFault (m : Manifest) : ManifestFault → Prop
  | version {e : Version.Error} : Version.parse m.package.version = .error e →
    FirstFault m (.invalidVersion m.package.name m.package.version e)
  | target {v : Version} {before after : List String} {name : String} :
    Version.parse m.package.version = .ok v →
    m.targets.map TargetSpec.name = before ++ name :: after → before.Nodup → name ∈ before →
    FirstFault m (.duplicateTarget name)
  | product {v : Version} {before after : List Product} {product : Product} {f : ManifestFault} :
    Version.parse m.package.version = .ok v → (m.targets.map TargetSpec.name).Nodup →
    m.products = before ++ product :: after → (before.map Product.name).Nodup →
    (∀ b ∈ before, Declares (m.targets.map TargetSpec.name) b) →
    ProductFault (m.targets.map TargetSpec.name) (before.map Product.name) product f →
    FirstFault m f

theorem validate_eq {m : Manifest} {v : Version} (hv : Version.parse m.package.version = .ok v) :
    m.validate = (checkTargets [] (m.targets.map TargetSpec.name) >>= fun _ =>
      checkProducts (m.targets.map TargetSpec.name) [] m.products) := by
  unfold validate PackageMetadata.parsedVersion
  rw [hv]
  rfl

theorem validate_eq_error {m : Manifest} {e : Version.Error}
    (he : Version.parse m.package.version = .error e) :
    m.validate = .error (.invalidVersion m.package.name m.package.version e) := by
  unfold validate PackageMetadata.parsedVersion
  rw [he]
  rfl

theorem validate_eq_ok_iff {m : Manifest} : m.validate = .ok () ↔ m.Valid := by
  rcases hv : Version.parse m.package.version with e | v
  · rw [validate_eq_error hv]
    refine ⟨nofun, fun ⟨⟨v, h⟩, _, _, _⟩ => ?_⟩
    rw [hv] at h
    cases h
  · rw [validate_eq hv, check_bind_eq_ok_iff, checkTargets_eq_ok_iff, checkProducts_eq_ok_iff,
      fresh_nil_left, fresh_nil_left]
    exact ⟨fun ⟨htargets, hproducts, hmembers⟩ => ⟨⟨v, hv⟩, htargets, hproducts, hmembers⟩,
      fun h => ⟨h.targets, h.products, h.members⟩⟩

theorem validate_eq_error_iff {m : Manifest} {f : ManifestFault} :
    m.validate = .error f ↔ m.FirstFault f := by
  rcases hv : Version.parse m.package.version with e | v
  · rw [validate_eq_error hv]
    constructor
    · rintro ⟨⟩
      exact .version hv
    · rintro (h | ⟨h, -, -, -⟩ | ⟨h, -, -, -, -, -⟩) <;> rw [hv] at h <;> cases h
      rfl
  · rw [validate_eq hv, check_bind_eq_error_iff, checkTargets_eq_ok_iff, checkTargets_eq_error_iff,
      checkProducts_eq_error_iff]
    simp only [fresh_nil_left, List.append_nil, List.not_mem_nil, false_or]
    constructor
    · rintro (⟨before, name, after, hsplit, hnodup, hname, rfl⟩ |
        ⟨htargets, before, product, after, hsplit, hnodup, hbefore, hfault⟩)
      · exact .target hv hsplit hnodup hname
      · exact .product hv htargets hsplit hnodup hbefore hfault
    · rintro (h | ⟨-, hsplit, hnodup, hname⟩ | ⟨-, htargets, hsplit, hnodup, hbefore, hfault⟩)
      · rw [hv] at h
        cases h
      · exact .inl ⟨_, _, _, hsplit, hnodup, hname, rfl⟩
      · exact .inr ⟨htargets, _, _, _, hsplit, hnodup, hbefore, hfault⟩

/-- **A manifest is accepted just if it is valid, and what is reported of another one is the first
thing that is wrong with it.** -/
theorem validate_cases (m : Manifest) :
    (m.validate = .ok () ↔ m.Valid) ∧ ∀ f, m.validate = .error f ↔ m.FirstFault f :=
  ⟨validate_eq_ok_iff, fun _ => validate_eq_error_iff⟩

end Manifest

end SymbolDocs
