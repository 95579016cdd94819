import SymbolDocs.FileTree.Lookup

/-!
# Changing a file tree

Each operation here is one call to the system: it fails and changes nothing, or it succeeds. Files
that are written through a link go where the link leads; entries that are removed, and directories
that are made, are what the path itself names.
-/

namespace SymbolDocs.FileTree

/-- The directory and the name under which a place is entered, for all places but the root. -/
def splitPlace (p : Place) : Option (Place × String) :=
  p.getLast?.map fun name => (p.dropLast, name)

/-- Puts an entry at a place; the root is no such place. -/
def putAt (t : FileTree) (p : Place) (e : Entry) : FileTree :=
  match splitPlace p with
  | none => t
  | some (dir, name) => t.put dir name e

/-- Makes a directory. -/
def makeDir (t : FileTree) (base : Place) (path : Path) : Except IoError FileTree := do
  let p ← t.locateEntry base path
  match t.get? p with
  | some _ => .error .alreadyExists
  | none => .ok (t.putAt p .directory)

/-- The place of a file that is opened to be written. No file is named by a path that ends in a
slash, whatever lies there. -/
def openForWriting (t : FileTree) (base : Place) (path : Path) : Except IoError Place := do
  let p ← t.follow base path path.names (!path.endsInSlash)
  if path.endsInSlash ∨ t.isDirectory p then .error .isADirectory
  else .ok p

/-- Writes a file; one that is there keeps its permission, a new one is no program. -/
def write (t : FileTree) (base : Place) (path : Path) (content : ByteArray) :
    Except IoError FileTree := do
  let p ← t.openForWriting base path
  match t.get? p with
  | some (.file _ executable) => .ok (t.putAt p (.file content executable))
  | _ => .ok (t.putAt p (.file content false))

/-- Copies a file with its permission. The destination is emptied before the source is read, so a
file that is copied onto itself is lost. -/
def copyFile (t : FileTree) (base : Place) (source destination : Path) :
    Except IoError FileTree := do
  match ← t.stat base source with
  | .file _ executable =>
    let p ← t.openForWriting base destination
    let t := t.putAt p (.file .empty executable)
    .ok (t.putAt p (.file (← t.read base source) executable))
  | _ => .error .notARegularFile

/-- Removes a file or a link. -/
def unlink (t : FileTree) (base : Place) (path : Path) : Except IoError FileTree := do
  let p ← t.locateEntry base path
  match t.get? p with
  | none => .error .notFound
  | some .directory => .error .isADirectory
  | some _ => if path.endsInSlash then .error .notADirectory else .ok (t.prune p)

/-- Removes everything in a directory. -/
def clear (t : FileTree) (p : Place) : FileTree :=
  (t.names p).foldl (fun t name => t.prune (p ++ [name])) t

/-- Removes an empty directory. -/
def removeDir (t : FileTree) (base : Place) (path : Path) : Except IoError FileTree := do
  let p ← t.locateEntry base path
  match path.names.getLast? with
  | none => .error .busy
  | some "." => .error .invalidArgument
  | some ".." => .error .notEmpty
  | some _ =>
    match t.get? p with
    | none => .error .notFound
    | some .directory => if (t.names p).isEmpty then .ok (t.prune p) else .error .notEmpty
    | some _ => .error .notADirectory

end SymbolDocs.FileTree
