import SymbolDocs.Digest.ShortId
import SymbolDocs.Package

/-!
# Manifests

A manifest describes a package: its targets, the products that group them, and what holds for all
its symbol graphs. It is valid if the version is one, if no two targets and no two products have the
same name, and if products have targets of the manifest for members. Of several faults the first one
counts: the version, then the targets, then product by product its name before its members.
-/

namespace SymbolDocs

/-- What a manifest says about the package as a whole. -/
structure PackageMetadata where
  name : String
  version : String := "0.0.0"
  description : Option String := none
deriving DecidableEq, Repr, Inhabited

/-- What a manifest says about a target. -/
structure TargetSpec where
  name : String
  kind : TargetKind
  id : Option String := none
  settings : GraphSettings := {}
deriving DecidableEq, Repr, Inhabited

/-- A manifest. -/
structure Manifest where
  package : PackageMetadata
  settings : GraphSettings := {}
  targets : List TargetSpec := []
  products : List Product := []
deriving DecidableEq, Repr, Inhabited

/-- What is wrong with the content of a manifest. -/
inductive ManifestFault
  | invalidVersion (package version : String) (error : Version.Error)
  | duplicateTarget (name : String)
  | duplicateProduct (name : String)
  | unknownMember (product member : String)
deriving DecidableEq, Repr

/-- The text of a fault. -/
def ManifestFault.message : ManifestFault → String
  | .invalidVersion package version error =>
    "invalid version `" ++ version ++ "` for package `" ++ package ++ "`: " ++ error.message
  | .duplicateTarget name => "duplicate target `" ++ name ++ "`"
  | .duplicateProduct name => "duplicate product `" ++ name ++ "`"
  | .unknownMember product member =>
    "product `" ++ product ++ "` refers to unknown target `" ++ member ++ "`"

/-- The version of a package. -/
def PackageMetadata.parsedVersion (m : PackageMetadata) : Except ManifestFault Version :=
  match Version.parse m.version with
  | .ok v => .ok v
  | .error e => .error (.invalidVersion m.name m.version e)

/-- The target of a package with the given name. A target without an identifier of its own gets one
that depends on the names of the package and of the target. -/
def TargetSpec.target (spec : TargetSpec) (packageName : String) : Target where
  name := spec.name
  id := spec.id.getD (Digest.shortId [packageName, spec.name])
  kind := spec.kind
  settings := spec.settings

namespace Manifest

/-- The targets that a manifest describes. -/
def buildTargets (m : Manifest) : List Target :=
  m.targets.map fun spec => spec.target m.package.name

/-! ### Validity -/

/-- No name occurs twice, and none has been seen before. -/
def checkTargets (seen : List String) : List String → Except ManifestFault Unit
  | [] => .ok ()
  | name :: rest =>
    if name ∈ seen then .error (.duplicateTarget name) else checkTargets (name :: seen) rest

/-- All members of a product are targets. -/
def checkMembers (targets : List String) (product : String) :
    List String → Except ManifestFault Unit
  | [] => .ok ()
  | member :: rest =>
    if member ∈ targets then checkMembers targets product rest
    else .error (.unknownMember product member)

/-- No name of a product occurs twice or has been seen before, and all members are targets. -/
def checkProducts (targets seen : List String) : List Product → Except ManifestFault Unit
  | [] => .ok ()
  | product :: rest =>
    if product.name ∈ seen then .error (.duplicateProduct product.name)
    else do
      checkMembers targets product.name product.members
      checkProducts targets (product.name :: seen) rest

/-- Refuses a manifest that is not valid. -/
def validate (m : Manifest) : Except ManifestFault Unit := do
  let _ ← m.package.parsedVersion
  let names := m.targets.map TargetSpec.name
  checkTargets [] names
  checkProducts names [] m.products

/-- The package that a manifest describes. -/
def toPackage (m : Manifest) (root : Path) : Except ManifestFault Package := do
  let version ← m.package.parsedVersion
  return {
    name := m.package.name
    version
    root
    targets := m.buildTargets
    products := m.products
    settings := m.settings }

end Manifest

end SymbolDocs
