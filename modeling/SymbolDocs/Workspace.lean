import SymbolDocs.Act
import SymbolDocs.Config
import SymbolDocs.Scratch

/-!
# Workspaces

A workspace is a package read from its manifest, with the scratch directory beside the manifest. The
manifest is searched for from a directory upwards, and the nearest one counts.
-/

namespace SymbolDocs

/-- A package on disk. -/
structure Workspace where
  package : Package
deriving DecidableEq, Repr

namespace Workspace

/-- The package's directory. -/
def root (ws : Workspace) : Path :=
  ws.package.root

/-- The scratch directory, which the project's settings are in. -/
def scratch (ws : Workspace) : Scratch :=
  ⟨ws.root.entry Config.directoryName⟩

/-- The project's settings. -/
def config (ws : Workspace) : Path :=
  ws.scratch.dir.entry Config.fileName

/-! ### Finding and opening -/

/-- The first manifest in some directories. -/
def firstManifest (files : FileTree) (base : Place) (directories : List Path) : Option Path :=
  (directories.map fun dir => dir.entry manifestName).find? (files.isFile base)

/-- The nearest manifest in a directory and above it. -/
def findManifest (start : Path) : Act Path := do
  match firstManifest (← Act.files) (← Act.here) start.ancestors with
  | some path => return path
  | none => Work.fail (.noManifest start)

/-- The directory of a manifest. -/
def rootOf (manifest : Path) : Path :=
  match manifest.parent with
  | some dir => if dir.text = "" then ⟨"."⟩ else dir
  | none => ⟨"."⟩

/-- Reads a manifest. -/
def loadManifest (path : Path) : Act Manifest := do
  let text ← Act.readText (.readManifest path) path
  Work.inside ("failed to parse manifest: " ++ path.text) <|
    Work.ofExcept Cause.ofReadError (Manifest.parse text)

/-- Reads the package that a manifest describes. -/
def loadPackage (path : Path) : Act Package := do
  let manifest ← loadManifest path
  Work.ofExcept .manifest (manifest.toPackage (rootOf path))

/-- Reads the workspace of a manifest. -/
def load (manifest : Path) : Act Workspace := do
  return ⟨← loadPackage manifest⟩

/-- Makes the scratch directory. -/
def ensureScratch (ws : Workspace) : Act Unit :=
  Act.edit fun base =>
    Edit.makeChain base (.createScratch ws.scratch.dir) ws.scratch.dir.ancestors

end Workspace

end SymbolDocs
