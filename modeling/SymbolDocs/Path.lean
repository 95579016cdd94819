/-!
# Paths

A path is text. Between its slashes stand segments; an empty segment and a `.` say nothing, except
that a leading empty segment is the root and a leading `.` is the current directory. What is left
are the components. Joining keeps the text on the left as it is, the parent and the file name go by
components, and nothing here looks at a disk.
-/

namespace SymbolDocs

/-- A path as it was written. -/
structure Path where
  text : String
deriving DecidableEq, Repr, Inhabited

namespace Path

instance : ToString Path := ⟨Path.text⟩

/-! ### Segments and components -/

/-- The segments of a path, from left to right. -/
def segments (p : Path) : List String :=
  (p.text.toList.splitOn '/').map String.ofList

/-- The path with these segments. -/
def ofSegments (segments : List String) : Path :=
  ⟨"/".intercalate segments⟩

/-- A path that starts at the root. -/
def isAbsolute (p : Path) : Bool :=
  p.text.toList.head? == some '/'

/-- What one segment means. -/
inductive Component
  | root
  | here
  | up
  | name (text : String)
deriving DecidableEq, Repr

/-- The component that a segment after the first one stands for, if it stands for any. -/
def Component.ofSegment? (s : String) : Option Component :=
  if s = "" ∨ s = "." then none
  else if s = ".." then some .up
  else some (.name s)

/-- The component that the first segment stands for: an empty one before a slash is the root. -/
def Component.ofFirst? (s : String) (absolute : Bool) : Option Component :=
  if absolute then some .root
  else if s = "." then some .here
  else Component.ofSegment? s

/-- The components of a path, from left to right. -/
def components (p : Path) : List Component :=
  match p.segments with
  | [] => []
  | first :: rest =>
    (Component.ofFirst? first p.isAbsolute).toList ++ rest.filterMap Component.ofSegment?

/-! ### Joining and taking apart -/

/-- The path `q` seen from the directory `p`; an absolute `q` stays what it is. -/
def join (p q : Path) : Path :=
  if q.isAbsolute then q
  else if p.text.isEmpty ∨ p.text.toList.getLast? = some '/' then ⟨p.text ++ q.text⟩
  else ⟨p.text ++ "/" ++ q.text⟩

/-- The entry called `name` in the directory `p`. -/
def entry (p : Path) (name : String) : Path :=
  p.join ⟨name⟩

/-- The segments up to the last one that says something. -/
def trimSegments (segments : List String) : List String :=
  (segments.reverse.dropWhile fun s => s = "" ∨ s = ".").reverse

/-- The path without its last component; the root and the empty path have no parent. -/
def parent (p : Path) : Option Path :=
  match p.segments with
  | [] => none
  | first :: rest =>
    match trimSegments rest with
    | [] => if first = "" then none else some ⟨""⟩
    | kept =>
      match trimSegments kept.dropLast with
      | [] => if first = "" then some ⟨"/"⟩ else some ⟨first⟩
      | above => some (ofSegments (first :: above))

/-- The last component, if it is a name. -/
def fileName (p : Path) : Option String :=
  match p.components.getLast? with
  | some (.name s) => some s
  | _ => none

/-- The first `n` paths above `p`. -/
def climb : Nat → Path → List Path
  | 0, _ => []
  | n + 1, p =>
    match p.parent with
    | none => []
    | some q => q :: climb n q

/-- The path, its parent, the parent of that, and so on; a parent has fewer segments, or is empty.
-/
def ancestors (p : Path) : List Path :=
  p :: climb (p.segments.length + 1) p

/-! ### What a lookup walks through -/

/-- A name that a directory can hold: it stands for nothing but itself, and no slash is in it. -/
def isName (s : String) : Bool :=
  s ≠ "" ∧ s ≠ "." ∧ s ≠ ".." ∧ '/' ∉ s.toList

/-- A path that ends in a slash names a directory. -/
def endsInSlash (p : Path) : Bool :=
  p.text.toList.getLast? == some '/'

/-- The names a lookup goes through one after the other; empty segments are passed over. -/
def names (p : Path) : List String :=
  p.segments.filter (· ≠ "")

/-- The names a lookup goes through, with a last `.` where a closing slash asks for a directory. -/
def steps (p : Path) : List String :=
  if p.endsInSlash then p.names ++ ["."] else p.names

/-- A path that no system call accepts. -/
def hasNul (p : Path) : Bool :=
  p.text.toList.contains '\x00'

/-- A program called by a path, and not by a name that is to be searched for. -/
def hasSlash (p : Path) : Bool :=
  p.text.toList.contains '/'

end Path

/-- A location after all links are followed: the names from the root down. -/
abbrev Place := List String

/-- The absolute path that names a place. -/
def Place.path (p : Place) : Path :=
  ⟨"/" ++ "/".intercalate p⟩

end SymbolDocs
