import SymbolDocs.Manifest
import SymbolDocs.Toml.Report

/-!
# Manifests as text

How a manifest is written in TOML, and what is said about a text that is none.
-/

namespace SymbolDocs

open Toml (Shape RecordField field record)

namespace GraphSettings

/-- Settings for symbol graphs as they are written. -/
def shape : Shape GraphSettings :=
  record "SymbolGraphSettings"
    [field "minimum-access-level" (Toml.word (AccessLevel.all.map fun l => (l.name, l)))
      (fun s v => { s with minimumAccessLevel := some v }) false,
     field "include-synthesized" Toml.boolean
      (fun s v => { s with includeSynthesized := some v }) false,
     field "include-extension-blocks" Toml.boolean
      (fun s v => { s with includeExtensionBlocks := some v }) false]
    {}

end GraphSettings

namespace Manifest

/-- What is said about the package. -/
def metadataShape : Shape PackageMetadata :=
  record "PackageMetadata"
    [field "name" Toml.string (fun m v => { m with name := v }) true,
     field "version" Toml.string (fun m v => { m with version := v }) false,
     field "description" Toml.string (fun m v => { m with description := some v }) false]
    { name := "" }

/-- What is said about a target. -/
def targetShape : Shape TargetSpec :=
  record "TargetSpec"
    [field "name" Toml.string (fun t v => { t with name := v }) true,
     field "kind" (Toml.word TargetKind.words) (fun t v => { t with kind := v }) true,
     field "id" Toml.string (fun t v => { t with id := some v }) false,
     field "symbol-graph" GraphSettings.shape (fun t v => { t with settings := v }) false]
    { name := "", kind := .other }

/-- What is said about a product. -/
def productShape : Shape Product :=
  record "Product"
    [field "name" Toml.string (fun p v => { p with name := v }) true,
     field "targets" (Toml.list Toml.string) (fun p v => { p with members := v }) true]
    { name := "", members := [] }

/-- A whole manifest. -/
def shape : Shape Manifest :=
  record "Manifest"
    [field "package" metadataShape (fun m v => { m with package := v }) true,
     field "symbol-graph" GraphSettings.shape (fun m v => { m with settings := v }) false,
     field "targets" (Toml.list targetShape) (fun m v => { m with targets := v }) false,
     field "products" (Toml.list productShape) (fun m v => { m with products := v }) false]
    { package := { name := "" } }

/-- Why a text is no valid manifest. -/
inductive ReadError
  | toml (fault : Toml.Fault)
  | invalid (fault : ManifestFault)

/-- The text of an error. -/
def ReadError.message : ReadError → String
  | .toml fault => fault.message
  | .invalid fault => fault.message

/-- The manifest that a text spells, if it is valid. -/
def parse (text : String) : Except ReadError Manifest :=
  match Toml.read shape text with
  | .error fault => .error (.toml fault)
  | .ok m =>
    match m.validate with
    | .error fault => .error (.invalid fault)
    | .ok () => .ok m

end Manifest

end SymbolDocs
