import SymbolDocs.FileTree.Basic
import SymbolDocs.FileTree.Error

/-!
# Looking up a path

A lookup starts at the root or at the current directory and goes through the names of the path. A
link on the way is replaced by its target; the last name is a link to be followed only if that is
asked for. The place found has a directory above it, but there need be nothing at it: a new entry
goes there.

The questions about a path (`stat`, `isFile`, `isDir`) follow all links, `lstat` all but the last.
-/

namespace SymbolDocs.FileTree

/-! ### The walk -/

/-- How many links one lookup follows. -/
def linkLimit : Nat := 40

/-- Where a walk gets to before it follows a link. -/
inductive Stop
  /-- The end of the walk. -/
  | reached (place : Place)
  /-- A link in the directory `dir`, with the names that remain after it. -/
  | atLink (dir : Place) (target : Path) (rest : List String)

/-- Goes from the directory `cur` through `steps` up to the first link that is to be followed; one
that is the last step is to be followed only if `followLast` is set. -/
def stroll (t : FileTree) (followLast : Bool) (cur : Place) : List String → Except IoError Stop
  | [] => .ok (.reached cur)
  | step :: rest =>
    if step = "." then stroll t followLast cur rest
    else if step = ".." then stroll t followLast cur.dropLast rest
    else
      match t.get? (cur ++ [step]) with
      | some .directory => stroll t followLast (cur ++ [step]) rest
      | some (.link target) =>
        if rest = [] ∧ followLast = false then .ok (.reached (cur ++ [step]))
        else .ok (.atLink cur target rest)
      | some (.file _ _) =>
        if rest = [] then .ok (.reached (cur ++ [step])) else .error .notADirectory
      | none => if rest = [] then .ok (.reached (cur ++ [step])) else .error .notFound

/-- Goes from the directory `cur` through `steps`, following at most `links` links. -/
def walk (t : FileTree) (followLast : Bool) : Nat → Place → List String → Except IoError Place
  | 0, cur, steps => do
    match ← t.stroll followLast cur steps with
    | .reached p => .ok p
    | .atLink _ _ _ => .error .linkLoop
  | links + 1, cur, steps => do
    match ← t.stroll followLast cur steps with
    | .reached p => .ok p
    | .atLink dir target rest =>
      if target.text = "" then .error .notFound
      else
        walk t followLast links (if target.isAbsolute then [] else dir) (target.steps ++ rest)

/-- The place that `steps` lead to, from the root if `path` is absolute and from `base` if not. -/
def follow (t : FileTree) (base : Place) (path : Path) (steps : List String) (followLast : Bool) :
    Except IoError Place :=
  if path.text = "" then .error .notFound
  else if path.hasNul then .error .nulInPath
  else if path.isAbsolute then t.walk followLast linkLimit [] steps
  else if t.isDirectory base then t.walk followLast linkLimit base steps
  else .error .notFound

/-- The place that a path names, links followed. -/
def resolve (t : FileTree) (base : Place) (path : Path) : Except IoError Place :=
  t.follow base path path.steps true

/-- The place that a path names, without following a link at the end. -/
def locate (t : FileTree) (base : Place) (path : Path) : Except IoError Place :=
  t.follow base path path.steps false

/-- The place of an entry that is to be made or removed: a closing slash is passed over. -/
def locateEntry (t : FileTree) (base : Place) (path : Path) : Except IoError Place :=
  t.follow base path path.names false

/-! ### Questions about a path -/

/-- What lies at a place. -/
def entryAt (t : FileTree) (p : Place) : Except IoError Entry :=
  match t.get? p with
  | some e => .ok e
  | none => .error .notFound

/-- What a path names, links followed. -/
def stat (t : FileTree) (base : Place) (path : Path) : Except IoError Entry := do
  t.entryAt (← t.resolve base path)

/-- What a path names, which may be a link. -/
def lstat (t : FileTree) (base : Place) (path : Path) : Except IoError Entry := do
  t.entryAt (← t.locate base path)

/-- The path names a regular file, or a link to one. -/
def isFile (t : FileTree) (base : Place) (path : Path) : Bool :=
  match t.stat base path with
  | .ok (.file _ _) => true
  | _ => false

/-- The path names a directory, or a link to one. -/
def isDir (t : FileTree) (base : Place) (path : Path) : Bool :=
  match t.stat base path with
  | .ok .directory => true
  | _ => false

/-- The path names something. -/
def pathExists (t : FileTree) (base : Place) (path : Path) : Bool :=
  match t.stat base path with
  | .ok _ => true
  | .error _ => false

/-- The bytes of a file. -/
def read (t : FileTree) (base : Place) (path : Path) : Except IoError ByteArray := do
  match ← t.stat base path with
  | .file content _ => .ok content
  | _ => .error .isADirectory

/-- The names in a directory. -/
def readDir (t : FileTree) (base : Place) (path : Path) : Except IoError (List String) := do
  let p ← t.resolve base path
  match ← t.entryAt p with
  | .directory => .ok (t.names p)
  | _ => .error .notADirectory

end SymbolDocs.FileTree
