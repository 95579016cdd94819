import SymbolDocs.Path
import SymbolDocs.Target
import SymbolDocs.Version

/-!
# Packages

A package has targets and products in the order of their declaration. Both are looked up by their
names, and the first of a name counts.
-/

namespace SymbolDocs

/-- A package with its targets and products. -/
structure Package where
  name : String
  version : Version
  root : Path
  targets : List Target := []
  products : List Product := []
  settings : GraphSettings := {}
deriving DecidableEq, Repr, Inhabited

namespace Package

instance : ToString Package where
  toString p := p.name ++ " v" ++ toString p.version

/-- The target with a name. -/
def target? (p : Package) (name : String) : Option Target :=
  p.targets.find? (·.name = name)

/-- The product with a name. -/
def product? (p : Package) (name : String) : Option Product :=
  p.products.find? (·.name = name)

/-- The targets of a product in the product's order; a member that is no target is passed over. -/
def members (p : Package) (product : Product) : List Target :=
  product.members.filterMap p.target?

/-- The targets of a product that documentation is made of. -/
def documentableMembers (p : Package) (product : Product) : List Target :=
  (p.members product).filter Target.isDocumentable

/-- The targets that documentation is made of. -/
def documentable (p : Package) : List Target :=
  p.targets.filter Target.isDocumentable

/-- The products that have a target that documentation is made of. -/
def documentableProducts (p : Package) : List Product :=
  p.products.filter fun product => (p.members product).any Target.isDocumentable

theorem target?_eq_some {p : Package} {name : String} {t : Target} (h : p.target? name = some t) :
    t ∈ p.targets ∧ t.name = name :=
  ⟨List.mem_of_find?_eq_some h, by simpa using List.find?_some h⟩

theorem product?_eq_some {p : Package} {name : String} {q : Product}
    (h : p.product? name = some q) : q ∈ p.products ∧ q.name = name :=
  ⟨List.mem_of_find?_eq_some h, by simpa using List.find?_some h⟩

theorem documentableMembers_eq_nil_iff {p : Package} {q : Product} :
    p.documentableMembers q = [] ↔ (p.members q).any Target.isDocumentable = false := by
  simp [documentableMembers]

end Package

end SymbolDocs
