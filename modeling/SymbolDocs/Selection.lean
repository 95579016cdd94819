import SymbolDocs.Package
import SymbolDocs.Selection.Error

/-!
# Selections

A selection names products and targets. It stands for a list of targets: for each product, in the
order asked for, its documentable members; after that the targets themselves. A target that is asked
for twice stands in the list twice. The first name that cannot be satisfied decides the error, and
all products come before all targets.
-/

namespace SymbolDocs

/-- The names of products and targets that are asked for. -/
structure Selection where
  products : List String := []
  targets : List String := []
deriving DecidableEq, Repr, Inhabited

namespace Selection

/-- Nothing is asked for. -/
def isEmpty (s : Selection) : Bool :=
  s.products.isEmpty && s.targets.isEmpty

/-- The targets that a product stands for. -/
def expand (package : Package) (name : String) : Except SelectionError (List Target) :=
  match package.product? name with
  | none => .error (.unknownProduct name (package.products.map Product.name))
  | some product =>
    match package.documentableMembers product with
    | [] => .error (.emptyProduct name (package.documentableProducts.map Product.name))
    | members => .ok members

/-- The target with a name. -/
def pick (package : Package) (name : String) : Except SelectionError Target :=
  match package.target? name with
  | none => .error (.unknownTarget name (package.targets.map Target.name))
  | some target =>
    match target.kind with
    | .sourceModule .test => .error (.testTarget name (package.documentable.map Target.name))
    | .sourceModule _ => .ok target
    | kind => .error (.notSourceModule name kind (package.documentable.map Target.name))

/-- The targets that a selection stands for. -/
def resolve (s : Selection) (package : Package) : Except SelectionError (List Target) := do
  let expansions ← s.products.mapM (expand package)
  let picks ← s.targets.mapM (pick package)
  return expansions.flatten ++ picks

/-- Every documentable target of a package. -/
def everything (package : Package) : Except SelectionError (List Target) :=
  match package.documentable with
  | [] => .error (.emptyPackage package.name)
  | targets => .ok targets

/-- The targets that a selection stands for, all documentable ones if nothing is asked for. -/
def resolveOrDefault (s : Selection) (package : Package) : Except SelectionError (List Target) :=
  if s.isEmpty then everything package else s.resolve package

/-- One line for each product that is expanded before the first error. -/
def expansionLines (package : Package) : List String → List String
  | [] => []
  | name :: rest =>
    match expand package name with
    | .error _ => []
    | .ok members =>
      ("product `" ++ name ++ "` expands to " ++ toString members.length ++ " target(s)") ::
        expansionLines package rest

end Selection

end SymbolDocs
