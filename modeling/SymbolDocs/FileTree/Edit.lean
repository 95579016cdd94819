import SymbolDocs.FileTree.Change

/-!
# Edits of a file tree

Work on files that takes several calls to the system. Where such work fails, what was done before
the failure stays done: an edit always hands on the tree, and the failure says what was attempted.
-/

namespace SymbolDocs

/-- What was attempted when the system reported an error. -/
inductive Attempt
  | createDirectory (path : Path)
  | createScratch (path : Path)
  | removeDirectory (path : Path)
  | removeFile (path : Path)
  | readDirectory (path : Path)
  | writeFile (path : Path)
  | copy (source destination : Path)
  | readManifest (path : Path)
  | readConfig (path : Path)
  | spawn (program : Path)
deriving DecidableEq, Repr

/-- What is said about an attempt. -/
def Attempt.message : Attempt → String
  | .createDirectory p => "failed to create directory: " ++ p.text
  | .createScratch p => "failed to create scratch directory: " ++ p.text
  | .removeDirectory p => "failed to remove directory: " ++ p.text
  | .removeFile p => "failed to remove file: " ++ p.text
  | .readDirectory p => "failed to read directory: " ++ p.text
  | .writeFile p => "failed to write file: " ++ p.text
  | .copy p q => "failed to copy " ++ p.text ++ " to " ++ q.text
  | .readManifest p => "failed to read manifest: " ++ p.text
  | .readConfig p => "failed to read config: " ++ p.text
  | .spawn p => "failed to spawn `" ++ p.text ++ "`"

/-- An attempt that failed. -/
structure IoFailure where
  attempt : Attempt
  cause : IoError
deriving DecidableEq, Repr

/-- The text of a failure. -/
def IoFailure.message (f : IoFailure) : String :=
  f.attempt.message ++ ": " ++ f.cause.message

/-- Work on a file tree that may fail halfway. -/
abbrev Edit := ExceptT IoFailure (StateM FileTree)

namespace Edit

/-- The outcome of an edit and the tree it leaves. -/
def apply {α : Type} (e : Edit α) (t : FileTree) : Except IoFailure α × FileTree :=
  (e.run.run t).run

/-- A single call, as a part of an attempt. -/
def call (attempt : Attempt) (change : FileTree → Except IoError FileTree) : Edit Unit := do
  match change (← get) with
  | .ok t => set t
  | .error cause => throw ⟨attempt, cause⟩

/-- A question, as a part of an attempt. -/
def ask {α : Type} (attempt : Attempt) (question : FileTree → Except IoError α) : Edit α := do
  match question (← get) with
  | .ok a => return a
  | .error cause => throw ⟨attempt, cause⟩

/-! ### Directories -/

/-- Makes the first of some paths a directory, each being the parent of the one before; parents are
made where they are missing. A path that names a directory already is left alone. -/
def makeChain (base : Place) (attempt : Attempt) : List Path → Edit Unit
  | [] => throw ⟨attempt, .noWholeTree⟩
  | path :: above => do
    if path.text = "" then return
    match (← get).makeDir base path with
    | .ok t => set t
    | .error .notFound =>
      makeChain base attempt above
      makeOrFind path
    | .error cause =>
      if (← get).isDir base path then return
      throw ⟨attempt, cause⟩
where
  makeOrFind (path : Path) : Edit Unit := do
    match (← get).makeDir base path with
    | .ok t => set t
    | .error cause =>
      if (← get).isDir base path then return
      throw ⟨attempt, cause⟩

/-- Makes a directory and the directories above it, as far as they are missing. -/
def ensureDir (base : Place) (path : Path) : Edit Unit :=
  makeChain base (.createDirectory path) path.ancestors

/-- Removes a directory with everything in it, or a link. The directory is emptied first, and its
path is looked up anew after that. -/
def removeTree (base : Place) (path : Path) (t : FileTree) : Except IoError FileTree × FileTree :=
  match t.locate base path with
  | .error cause => (.error cause, t)
  | .ok p =>
    match t.get? p with
    | none => (.error .notFound, t)
    | some (.file _ _) => (.error .notADirectory, t)
    | some (.link _) => (.ok (t.prune p), t)
    | some .directory => ((t.clear p).removeDir base path, t.clear p)

/-- Removes a directory with everything in it; it is no failure that there is none. -/
def removeDirAll (base : Place) (path : Path) : Edit Unit := do
  match removeTree base path (← get) with
  | (.ok t, _) => set t
  | (.error .notFound, t) => set t
  | (.error cause, t) =>
    set t
    throw ⟨.removeDirectory path, cause⟩

/-- Removes a file; it is no failure that there is none. -/
def removeFile (base : Place) (path : Path) : Edit Unit := do
  match (← get).unlink base path with
  | .ok t => set t
  | .error .notFound => return
  | .error cause => throw ⟨.removeFile path, cause⟩

/-- Makes a directory that is empty. -/
def resetDir (base : Place) (path : Path) : Edit Unit := do
  removeDirAll base path
  ensureDir base path

/-! ### Files -/

/-- Writes a text into a file; the directory for it is made where it is missing. -/
def writeText (base : Place) (path : Path) (text : String) : Edit Unit := do
  match path.parent with
  | some dir => ensureDir base dir
  | none => pure ()
  call (.writeFile path) fun t => t.write base path text.toUTF8

/-- Copies a file. -/
def copyFile (base : Place) (source destination : Path) : Edit Unit := do
  let t ← get
  match t.copyFile base source destination with
  | .ok t => set t
  | .error cause => throw ⟨.copy source destination, cause⟩

/-- Copies a directory with everything in it, at most `depth` directories deep. Links to files
become files; a link to anything else is a failure. -/
def copyDirAll (base : Place) : Nat → Path → Path → Edit Unit
  | 0, source, _ => throw ⟨.readDirectory source, .linkLoop⟩
  | depth + 1, source, destination => do
    ensureDir base destination
    let names ← ask (.readDirectory source) fun t => t.readDir base source
    names.forM fun name => do
      let origin := source.entry name
      let copy := destination.entry name
      match (← get).lstat base origin with
      | .ok .directory => copyDirAll base depth origin copy
      | _ => copyFile base origin copy

/-- Copies a directory with everything in it; no directory of the tree lies deeper than its height.
-/
def copyTree (base : Place) (source destination : Path) : Edit Unit := do
  copyDirAll base ((← get).height + 1) source destination

end Edit

/-! ### Listing -/

namespace FileTree

/-- A name that is passed over in listings. -/
def isHidden (name : String) : Bool :=
  name.toList.head? == some '.'

/-- The files below a directory, in the order of their paths. Hidden names and everything beneath
them are passed over, and so are links; the directory itself may be a link and may be hidden. -/
def listFiles (t : FileTree) (base : Place) (root : Path) : List Path :=
  match t.resolve base root with
  | .error _ => []
  | .ok p =>
    if t.isDirectory p then
      (t.beneath p).filterMap fun
        | (names, .file _ _) =>
          if names.any isHidden then none else some (names.foldl Path.entry root)
        | _ => none
    else []

end FileTree

end SymbolDocs
