import SymbolDocs.Diagnostic
import SymbolDocs.Target

/-!
# Why a selection fails

Each cause names what was asked for and carries the names that could have been asked for instead.
-/

namespace SymbolDocs

/-- Why a selection stands for no targets. -/
inductive SelectionError
  /-- No product has the name. -/
  | unknownProduct (name : String) (available : List String)
  /-- The product has nothing to document. -/
  | emptyProduct (name : String) (documentableProducts : List String)
  /-- No target has the name. -/
  | unknownTarget (name : String) (available : List String)
  /-- The target is not compiled from sources. -/
  | notSourceModule (name : String) (kind : TargetKind) (documentable : List String)
  /-- The target holds tests. -/
  | testTarget (name : String) (documentable : List String)
  /-- The package has nothing to document. -/
  | emptyPackage (package : String)
deriving DecidableEq, Repr

namespace SelectionError

/-- The text of an error. -/
def message : SelectionError → String
  | .unknownProduct name _ => "no product named `" ++ name ++ "`"
  | .emptyProduct name _ =>
    "product `" ++ name ++ "` does not contain any documentable targets"
  | .unknownTarget name _ => "no target named `" ++ name ++ "`"
  | .notSourceModule name _ _ => "target `" ++ name ++ "` is not a source module"
  | .testTarget name _ => "test target `" ++ name ++ "` is not supported for documentation"
  | .emptyPackage package =>
    "package `" ++ package ++ "` does not contain any documentable targets"

/-- The name that was asked for, or that of the package if nothing was asked for. -/
def subject : SelectionError → String
  | .unknownProduct name _ | .emptyProduct name _ | .unknownTarget name _
  | .notSourceModule name _ _ | .testTarget name _ => name
  | .emptyPackage package => package

/-- The names that could have been asked for. -/
def alternatives : SelectionError → Option (List String)
  | .unknownProduct _ names | .emptyProduct _ names | .unknownTarget _ names
  | .notSourceModule _ _ names | .testTarget _ names => some names
  | .emptyPackage _ => none

/-- Names as a line lists them. -/
def listing (names : List String) : String :=
  match names with
  | [] => "(none)"
  | _ => ", ".intercalate names

/-- What can be documented at all. -/
def documentableRule : String :=
  "only library and executable source modules can be documented"

/-- The advice to list what there is. -/
def listAdvice : String :=
  "Run `graphdoc targets` to see documentable targets and products"

/-- The advice to ask for another target. -/
def otherTargetAdvice : String :=
  "Select a library or executable target instead"

/-- What the diagnostic of an error says first. -/
def title : SelectionError → String
  | .unknownProduct name _ => "no product named `" ++ name ++ "`"
  | .emptyProduct name _ =>
    "product `" ++ name ++ "` does not contain any documentable targets"
  | .unknownTarget name _ => "no target named `" ++ name ++ "`"
  | .notSourceModule name _ _ => "target `" ++ name ++ "` is not a source module"
  | .testTarget name _ => "test target `" ++ name ++ "` is not supported for documentation"
  | .emptyPackage package =>
    "package `" ++ package ++ "` does not contain any documentable targets"

/-- What the diagnostic of an error says after that. -/
def context : SelectionError → List String
  | .unknownProduct _ available => ["compatible products: " ++ listing available]
  | .emptyProduct _ products =>
    [documentableRule, "products with documentable targets: " ++ listing products]
  | .unknownTarget _ available => ["compatible targets: " ++ listing available]
  | .notSourceModule name kind documentable =>
    ["`" ++ name ++ "` is a " ++ kind.name ++ " target",
     "documentable targets: " ++ listing documentable]
  | .testTarget _ documentable => ["documentable targets: " ++ listing documentable]
  | .emptyPackage _ => [documentableRule]

/-- What the diagnostic of an error suggests. -/
def suggestions : SelectionError → List String
  | .unknownProduct _ _ => ["Check that the product name is spelled correctly", listAdvice]
  | .emptyProduct _ _ => [listAdvice]
  | .unknownTarget _ _ => ["Check that the target name is spelled correctly", listAdvice]
  | .notSourceModule _ _ _ => [otherTargetAdvice]
  | .testTarget _ _ => [otherTargetAdvice]
  | .emptyPackage _ => ["Add a `library` or `executable` target to Graphdoc.toml"]

/-- The diagnostic of an error. -/
def diagnostic (e : SelectionError) : Diagnostic :=
  { message := e.title, context := e.context, suggestions := e.suggestions }

end SelectionError

end SymbolDocs
