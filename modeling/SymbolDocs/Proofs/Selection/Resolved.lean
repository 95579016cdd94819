import SymbolDocs.Selection
import Mathlib.Data.List.Forall2

/-! # What a selection stands for

A selection is resolved just if each of its requests can be met, product by product (`Offers`) and
target by target (`Provides`). It stands for the targets in the order of the requests then
(`targetsOf`). Otherwise the first request that cannot be met decides the error, and all products
come before all targets (`resolve_cases`). -/

namespace SymbolDocs

/-! ### Lists of outcomes -/

/-- A list is gone through if each member is. -/
theorem mapM_eq_ok_iff {α β ε : Type} {f : α → Except ε β} :
    ∀ {l : List α} {m : List β}, l.mapM f = .ok m ↔ List.Forall₂ (fun a b => f a = .ok b) l m
  | [], m => by
    rw [List.mapM_nil, List.forall₂_nil_left_iff]
    exact ⟨fun h => by cases h; rfl, fun h => by rw [h]; rfl⟩
  | a :: l, m => by
    rw [List.mapM_cons, List.forall₂_cons_left_iff]
    rcases hf : f a with e | b
    · refine ⟨fun h => ?_, ?_⟩
      · cases h
      rintro ⟨b, m', hb, -, -⟩
      cases hb
    · rcases hl : l.mapM f with e | m'
      · refine ⟨fun h => ?_, ?_⟩
        · cases h
        rintro ⟨b, m', -, hm, -⟩
        rw [mapM_eq_ok_iff.mpr hm] at hl
        cases hl
      · constructor
        · intro h
          cases h
          exact ⟨b, m', rfl, mapM_eq_ok_iff.mp hl, rfl⟩
        · rintro ⟨b', m'', hb, hm, rfl⟩
          cases hb
          rw [mapM_eq_ok_iff.mpr hm] at hl
          cases hl
          rfl

/-- The first member of a list at which something is wrong, and what it is. -/
def FirstFault {α ε : Type} (fine : α → Prop) (fault : α → ε → Prop) (l : List α) (e : ε) : Prop :=
  ∃ before a after, l = before ++ a :: after ∧ (∀ b ∈ before, fine b) ∧ fault a e

/-- Going through a list ends at the first member that fails. -/
theorem mapM_eq_error_iff {α β ε : Type} {f : α → Except ε β} {e : ε} :
    ∀ {l : List α}, l.mapM f = .error e ↔
      FirstFault (fun a => ∃ b, f a = .ok b) (fun a e => f a = .error e) l e
  | [] => by
    refine ⟨fun h => ?_, ?_⟩
    · rw [List.mapM_nil] at h
      cases h
    · rintro ⟨before, a, after, hl, -, -⟩
      simp at hl
  | a :: l => by
    rw [List.mapM_cons]
    rcases hf : f a with e' | b
    · constructor
      · intro h
        cases h
        exact ⟨[], a, l, rfl, by simp, hf⟩
      · rintro ⟨_ | ⟨c, before⟩, a', after, hl, hbefore, hfault⟩
        · obtain ⟨rfl, -⟩ := List.cons.inj hl
          rw [hf] at hfault
          cases hfault
          rfl
        · obtain ⟨rfl, -⟩ := List.cons.inj hl
          obtain ⟨b, hb⟩ := hbefore a (by simp)
          rw [hf] at hb
          cases hb
    · have ih := mapM_eq_error_iff (f := f) (e := e) (l := l)
      have hrest : (Except.ok b >>= fun b => l.mapM f >>= fun m => pure (b :: m)) = .error e ↔
          l.mapM f = .error e := by
        rcases l.mapM f with e' | m
        · exact ⟨fun h => (by cases h; rfl), fun h => (by cases h; rfl)⟩
        · exact ⟨nofun, nofun⟩
      rw [hrest, ih]
      constructor
      · rintro ⟨before, a', after, rfl, hbefore, hfault⟩
        refine ⟨a :: before, a', after, rfl, fun x hx => ?_, hfault⟩
        rcases List.mem_cons.mp hx with rfl | hx
        · exact ⟨b, hf⟩
        · exact hbefore x hx
      · rintro ⟨_ | ⟨c, before⟩, a', after, hl, hbefore, hfault⟩
        · obtain ⟨rfl, -⟩ := List.cons.inj hl
          rw [hf] at hfault
          cases hfault
        · obtain ⟨rfl, rfl⟩ := List.cons.inj hl
          exact ⟨before, a', after, rfl, fun x hx => hbefore x (List.mem_cons_of_mem _ hx), hfault⟩

/-- What a list of outcomes holds if each of them is known. -/
theorem mapM_eq_map {α β ε : Type} {f : α → Except ε β} {g : α → β} {l : List α} {m : List β}
    (hg : ∀ a b, f a = .ok b → g a = b) (h : l.mapM f = .ok m) : m = l.map g := by
  have hall := mapM_eq_ok_iff.mp h
  clear h
  induction hall with
  | nil => rfl
  | cons hab _ ih => rw [List.map_cons, hg _ _ hab, ih]

theorem exists_mapM_ok_iff {α β ε : Type} {f : α → Except ε β} :
    ∀ {l : List α}, (∃ m, l.mapM f = .ok m) ↔ ∀ a ∈ l, ∃ b, f a = .ok b
  | [] => by simp only [List.not_mem_nil, false_imp_iff, implies_true, iff_true]; exact ⟨[], rfl⟩
  | a :: l => by
    have ih := exists_mapM_ok_iff (f := f) (l := l)
    simp only [mapM_eq_ok_iff, List.forall₂_cons_left_iff, List.mem_cons, forall_eq_or_imp]
      at ih ⊢
    rw [← ih]
    constructor
    · rintro ⟨_, b, m, hb, hm, rfl⟩
      exact ⟨⟨b, hb⟩, m, hm⟩
    · rintro ⟨⟨b, hb⟩, m, hm⟩
      exact ⟨_, b, m, hb, hm, rfl⟩

namespace Selection

/-! ### Requests -/

/-- The first product with the name has a member that documentation is made of. -/
def Offers (package : Package) (name : String) : Prop :=
  ∃ product, package.product? name = some product ∧
    ∃ target ∈ package.members product, target.isDocumentable = true

/-- The first target with the name is a library or an executable. -/
def Provides (package : Package) (name : String) : Prop :=
  ∃ target, package.target? name = some target ∧
    (target.kind = .sourceModule .library ∨ target.kind = .sourceModule .executable)

/-- Why a product cannot be expanded. -/
inductive ProductFault (package : Package) (name : String) : SelectionError → Prop
  | unknown : package.product? name = none →
    ProductFault package name (.unknownProduct name (package.products.map Product.name))
  | empty {product : Product} : package.product? name = some product →
    (∀ target ∈ package.members product, target.isDocumentable = false) →
    ProductFault package name
      (.emptyProduct name (package.documentableProducts.map Product.name))

/-- Why a target cannot be picked. -/
inductive TargetFault (package : Package) (name : String) : SelectionError → Prop
  | unknown : package.target? name = none →
    TargetFault package name (.unknownTarget name (package.targets.map Target.name))
  | test {target : Target} : package.target? name = some target →
    target.kind = .sourceModule .test →
    TargetFault package name (.testTarget name (package.documentable.map Target.name))
  | notSourceModule {target : Target} : package.target? name = some target →
    target.kind.isSourceModule = false →
    TargetFault package name
      (.notSourceModule name target.kind (package.documentable.map Target.name))

/-- The targets that a product's name stands for, in the order of the product. -/
def membersNamed (package : Package) (name : String) : List Target :=
  (package.product? name).elim [] package.documentableMembers

/-- The targets that a selection stands for: for each product its documentable members, and after
them the targets that are asked for. -/
def targetsOf (s : Selection) (package : Package) : List Target :=
  s.products.flatMap (membersNamed package) ++ s.targets.filterMap package.target?

section

variable {package : Package} {name : String} {e : SelectionError}

theorem documentableMembers_ne_nil_iff {product : Product} :
    package.documentableMembers product ≠ [] ↔
      ∃ target ∈ package.members product, target.isDocumentable = true := by
  rw [ne_eq, Package.documentableMembers_eq_nil_iff, Bool.not_eq_false, List.any_eq_true]

theorem expand_ok_iff {targets : List Target} :
    expand package name = .ok targets ↔
      Offers package name ∧ targets = membersNamed package name := by
  unfold expand Offers membersNamed
  rcases package.product? name with _ | product
  · simp
  simp only [Option.some.injEq, exists_eq_left', Option.elim_some, ← documentableMembers_ne_nil_iff]
  rcases package.documentableMembers product with _ | ⟨t, l⟩
  · simp
  · simp [eq_comm]

theorem expand_error_iff : expand package name = .error e ↔ ProductFault package name e := by
  unfold expand
  constructor
  · intro h
    rcases hp : package.product? name with _ | product <;> rw [hp] at h
    · cases h
      exact .unknown hp
    · simp only at h
      rcases hm : package.documentableMembers product with _ | ⟨t, l⟩ <;> rw [hm] at h <;> cases h
      refine .empty hp fun target ht => ?_
      have hnone := Package.documentableMembers_eq_nil_iff.mp hm
      simpa using List.any_eq_false.mp hnone target ht
  · rintro (hp | ⟨hp, hnone⟩)
    · rw [hp]
    · rename_i product
      have hm : package.documentableMembers product = [] :=
        Package.documentableMembers_eq_nil_iff.mpr
          (List.any_eq_false.mpr fun t ht => by simp [hnone t ht])
      rw [hp]
      simp only
      rw [hm]

theorem pick_ok_iff {target : Target} :
    pick package name = .ok target ↔
      Provides package name ∧ package.target? name = some target := by
  unfold pick Provides
  rcases package.target? name with _ | t
  · simp
  simp only [Option.some.injEq, exists_eq_left']
  rcases t.kind with (_ | _ | _) | _ | _ | _ <;> simp

theorem pick_error_iff : pick package name = .error e ↔ TargetFault package name e := by
  unfold pick
  constructor
  · intro h
    rcases ht : package.target? name with _ | target <;> rw [ht] at h
    · cases h
      exact .unknown ht
    · have hsource (hk : target.kind.isSourceModule = false) :=
        TargetFault.notSourceModule ht hk
      simp only at h
      rcases hk : target.kind with (_ | _ | _) | _ | _ | _ <;> rw [hk] at h hsource <;> cases h
      · exact .test ht hk
      · exact hsource rfl
      · exact hsource rfl
      · exact hsource rfl
  · rintro (ht | ⟨ht, hk⟩ | ⟨ht, hk⟩)
    · rw [ht]
    · rw [ht]
      simp only
      rw [hk]
    · rename_i target
      rw [ht]
      simp only
      rcases hkind : target.kind with kind | _ | _ | _
      · rw [hkind] at hk
        cases hk
      · rfl
      · rfl
      · rfl

theorem exists_expand_iff : (∃ targets, expand package name = .ok targets) ↔
    Offers package name := by
  simp [expand_ok_iff]

theorem exists_pick_iff : (∃ target, pick package name = .ok target) ↔ Provides package name := by
  simp only [pick_ok_iff, exists_and_left, and_iff_left_iff_imp]
  rintro ⟨target, ht, -⟩
  exact ⟨target, ht⟩

end

/-! ### All requests -/

variable (s : Selection) (package : Package)

theorem products_ok_iff {l : List String} {expansions : List (List Target)} :
    l.mapM (expand package) = .ok expansions ↔
      (∀ name ∈ l, Offers package name) ∧ expansions = l.map (membersNamed package) := by
  constructor
  · intro h
    have hall := exists_mapM_ok_iff.mp ⟨expansions, h⟩
    exact ⟨fun name hname => exists_expand_iff.mp (hall name hname),
      mapM_eq_map (fun _ _ h => (expand_ok_iff.mp h).2.symm) h⟩
  · rintro ⟨hall, rfl⟩
    obtain ⟨m, hm⟩ := exists_mapM_ok_iff.mpr fun name hname =>
      exists_expand_iff.mpr (hall name hname)
    rw [hm, mapM_eq_map (fun _ _ h => (expand_ok_iff.mp h).2.symm) hm]

theorem picks_ok_iff {l : List String} {picks : List Target} :
    l.mapM (pick package) = .ok picks ↔
      (∀ name ∈ l, Provides package name) ∧ picks = l.filterMap package.target? := by
  have hpicks : ∀ {l : List String} {m : List Target}, l.mapM (pick package) = .ok m →
      m = l.filterMap package.target? := by
    intro l m h
    have hall := mapM_eq_ok_iff.mp h
    clear h
    induction hall with
    | nil => rfl
    | cons hab _ ih => rw [List.filterMap_cons_some (pick_ok_iff.mp hab).2, ih]
  constructor
  · intro h
    have hall := exists_mapM_ok_iff.mp ⟨picks, h⟩
    exact ⟨fun name hname => exists_pick_iff.mp (hall name hname), hpicks h⟩
  · rintro ⟨hall, rfl⟩
    obtain ⟨m, hm⟩ := exists_mapM_ok_iff.mpr fun name hname =>
      exists_pick_iff.mpr (hall name hname)
    rw [hm, hpicks hm]

theorem firstFault_congr {α ε : Type} {fine fine' : α → Prop} {fault fault' : α → ε → Prop}
    (hfine : ∀ a, fine a ↔ fine' a) (hfault : ∀ a e, fault a e ↔ fault' a e) {l : List α} {e : ε} :
    FirstFault fine fault l e ↔ FirstFault fine' fault' l e := by
  simp only [FirstFault, hfine, hfault]

/-- **What a selection stands for, and why it stands for nothing.** It is resolved just if each
product that is asked for is declared and has something to document and each target that is asked
for is declared and is a library or an executable; nothing is added, dropped or merged then. If it
is not resolved, the error says of the first request that cannot be met why it cannot be met, and
targets are looked at only if there is nothing wrong with the products. -/
theorem resolve_cases :
    (∀ targets, s.resolve package = .ok targets ↔
      (∀ name ∈ s.products, Offers package name) ∧ (∀ name ∈ s.targets, Provides package name) ∧
        targets = s.targetsOf package) ∧
    (∀ e, s.resolve package = .error e ↔
      FirstFault (Offers package) (ProductFault package) s.products e ∨
      (∀ name ∈ s.products, Offers package name) ∧
        FirstFault (Provides package) (TargetFault package) s.targets e) := by
  have hproducts {e} : s.products.mapM (expand package) = .error e ↔
      FirstFault (Offers package) (ProductFault package) s.products e :=
    mapM_eq_error_iff.trans (firstFault_congr (fun _ => exists_expand_iff)
      fun _ _ => expand_error_iff)
  have htargets {e} : s.targets.mapM (pick package) = .error e ↔
      FirstFault (Provides package) (TargetFault package) s.targets e :=
    mapM_eq_error_iff.trans (firstFault_congr (fun _ => exists_pick_iff) fun _ _ => pick_error_iff)
  unfold resolve
  rcases hx : s.products.mapM (expand package) with e | expansions
  · have hnot : ¬ ∀ name ∈ s.products, Offers package name := by
      intro hall
      rw [(products_ok_iff package).mpr ⟨hall, rfl⟩] at hx
      cases hx
    refine ⟨fun targets => ⟨nofun, fun h => absurd h.1 hnot⟩, fun e' => ?_⟩
    rw [← hproducts, hx]
    constructor
    · intro h
      cases h
      exact .inl rfl
    · rintro (h | ⟨h, -⟩)
      · cases h
        rfl
      · exact absurd h hnot
  obtain ⟨hall, rfl⟩ := (products_ok_iff package).mp hx
  rcases hy : s.targets.mapM (pick package) with e | picks
  · have hnot : ¬ ∀ name ∈ s.targets, Provides package name := by
      intro h
      rw [(picks_ok_iff package).mpr ⟨h, rfl⟩] at hy
      cases hy
    refine ⟨fun targets => ⟨nofun, fun h => absurd h.2.1 hnot⟩, fun e' => ?_⟩
    rw [← hproducts, ← htargets, hx, hy]
    constructor
    · intro h
      cases h
      exact .inr ⟨hall, rfl⟩
    · rintro (h | ⟨-, h⟩)
      · cases h
      · cases h
        rfl
  · obtain ⟨hprovides, rfl⟩ := (picks_ok_iff package).mp hy
    have htargetsOf : (s.products.map (membersNamed package)).flatten ++
        s.targets.filterMap package.target? = s.targetsOf package := by
      rw [targetsOf, List.flatMap_def]
    refine ⟨fun targets => ⟨fun h => ?_, fun h => ?_⟩, fun e' => ?_⟩
    · cases h
      exact ⟨hall, hprovides, htargetsOf⟩
    · rw [h.2.2, ← htargetsOf]
      rfl
    · rw [← hproducts, ← htargets, hx, hy]
      refine ⟨nofun, ?_⟩
      rintro (h | ⟨-, h⟩) <;> cases h

end Selection

end SymbolDocs
