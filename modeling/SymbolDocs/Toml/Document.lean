import SymbolDocs.Toml.Value

/-!
# TOML documents

A document is read line by line: a header opens a table, an entry adds a value to the table opened
last. A header may stand after the headers of tables within its table, but each table is written
down only once, and dotted keys do not add to a table that is written down. The table that a header
opens lies behind all tables that were there before.
-/

namespace SymbolDocs.Toml

/-! ### Lines -/

/-- A line that says something. -/
inductive Line
  | header (isArray : Bool) (path : List Key) (span : Span)
  | entry (path : List Key) (value : Node)

/-- A header, in single or double brackets. -/
def header? : List Char → Option (Line × List Char)
  | '[' :: '[' :: inner => do
    let (path, rest) ← keyPath? depthLimit inner
    let rest ← passed? ']' (← passed? ']' rest)
    return (.header true path ⟨inner.length + 2, rest.length⟩, rest)
  | '[' :: inner => do
    let (path, rest) ← keyPath? depthLimit inner
    let rest ← passed? ']' rest
    return (.header false path ⟨inner.length + 1, rest.length⟩, rest)
  | _ => none

/-- The lines of a text that say something; `fuel` bounds the number of all lines. -/
def lines? : Nat → List Char → Option (List Line)
  | 0, _ => none
  | fuel + 1, cs =>
    match skipBlanks cs with
    | [] => some []
    | '#' :: rest => do lines? fuel (← lineEnd? ('#' :: rest))
    | '\n' :: rest => lines? fuel rest
    | '\r' :: rest => do lines? fuel (← newline? ('\r' :: rest))
    | '[' :: rest => do
      let (line, rest) ← header? ('[' :: rest)
      let lines ← lines? fuel (← lineEnd? rest)
      return line :: lines
    | rest => do
      let (path, value, rest) ← entry? (value? depthLimit) rest
      let lines ← lines? fuel (← lineEnd? rest)
      return .entry path value :: lines

/-! ### Tables -/

/-- The table at the end of `path` changed by `change`; tables on the way are made where they are
missing, and of tables that share a header the last one counts. With `viaDots` the path belongs to a
dotted key and may not go through a table that is written down. -/
def update (viaDots : Bool) (change : TableForm → Fields → Option Fields) :
    List Key → TableForm → Fields → Option Fields
  | [], form, fields => change form fields
  | key :: path, _, fields =>
    match fields.get? key.name with
    | none => do
      let form := if viaDots then TableForm.dotted else .implied
      let inner ← update viaDots change path form []
      return fields ++ [(key, .table form none inner)]
    | some (.table form span inner) =>
      if form.isInline || (viaDots && !form.isOpen) then none
      else do
        let inner ← update viaDots change path form inner
        return fields.set key.name (.table form span inner)
    | some (.tables span items) =>
      match items.getLast? with
      | some (.table form last inner) => do
        let inner ← update viaDots change path form inner
        return fields.set key.name (.tables span (items.dropLast ++ [.table form last inner]))
      | _ => none
    | some _ => none

/-- The key at the end of a path, with the keys before it. -/
def splitKeys (path : List Key) : Option (List Key × Key) :=
  path.getLast?.map fun key => (path.dropLast, key)

/-- A document under construction, and the table opened last. -/
structure Draft where
  root : Fields := []
  rootSpan : Span
  path : List Key := []
  isArray : Bool := false
  span : Span
  fields : Fields := []

namespace Draft

/-- Nothing has been read of a text of `total` characters. -/
def start (total : Nat) : Draft where
  rootSpan := ⟨total, total⟩
  span := ⟨total, total⟩

/-- The span from the first of some tables to the last. -/
def spanOf (items : List Node) : Option Span := do
  let first ← (← items.head?).span
  let last ← (← items.getLast?).span
  return ⟨first.start, last.stop⟩

/-- The document with the table opened last put in its place. -/
def close (d : Draft) : Option Draft :=
  match splitKeys d.path with
  | none => some { d with root := d.fields, rootSpan := d.span }
  | some (parents, key) => do
    let table := Node.table .header (some d.span) d.fields
    let root ← update false (fun _ fields =>
      match fields.get? key.name with
      | none => some (fields ++ [(key, table)])
      | some (.tables _ items) =>
        if d.isArray then
          let items := items ++ [table]
          some (fields.set key.name (.tables (spanOf items) items))
        else none
      | some _ => none) parents .header d.root
    return { d with root }

/-- Opens a table. One that has only been mentioned so far is taken out and goes on with its
fields. -/
def openTable (d : Draft) (path : List Key) (span : Span) : Option Draft := do
  let d ← d.close
  let (parents, key) ← splitKeys path
  let root ← update false (fun _ fields => some fields) parents .header d.root
  let mentioned ← lookup root path
  let root ← update false (fun _ fields => some (fields.erase key.name)) parents .header root
  return { d with root, path, span, isArray := false, fields := mentioned }
where
  /-- The fields that the table at a path has so far, if it may be opened. -/
  lookup (fields : Fields) : List Key → Option Fields
    | [] => none
    | [key] =>
      match fields.get? key.name with
      | none => some []
      | some (.table .implied _ inner) => some inner
      | some _ => none
    | key :: rest =>
      match fields.get? key.name with
      | some (.table _ _ inner) => lookup inner rest
      | some (.tables _ items) =>
        match items.getLast? with
        | some (.table _ _ inner) => lookup inner rest
        | _ => none
      | _ => none

/-- Opens the next of the tables that share a header. -/
def openArray (d : Draft) (path : List Key) (span : Span) : Option Draft := do
  let d ← d.close
  let (parents, key) ← splitKeys path
  let root ← update false (fun _ fields =>
    match fields.get? key.name with
    | none => some (fields ++ [(key, .tables none [])])
    | some (.tables _ _) => some fields
    | some _ => none) parents .header d.root
  return { d with root, path, span, isArray := true, fields := [] }

/-- Adds an entry to the table opened last. -/
def add (d : Draft) (path : List Key) (value : Node) : Option Draft := do
  let (parents, key) ← splitKeys path
  let fields ← update true (addField (!parents.isEmpty) key value) parents .header d.fields
  let stop := (value.span.map Span.stop).getD d.span.stop
  return { d with fields, span := ⟨d.span.start, stop⟩ }

/-- Takes in a line. -/
def takeLine (d : Draft) : Line → Option Draft
  | .header false path span => d.openTable path span
  | .header true path span => d.openArray path span
  | .entry path value => d.add path value

end Draft

/-- The text without the mark that may open it. -/
def withoutMark : List Char → List Char
  | '\ufeff' :: rest => rest
  | cs => cs

/-- The document that a text spells, as a table. -/
def document? (text : String) : Option Node := do
  let cs := text.toList
  let lines ← lines? (cs.length + 1) (withoutMark cs)
  let draft ← lines.foldlM Draft.takeLine (Draft.start cs.length)
  let draft ← draft.close
  return .table .header (some draft.rootSpan) draft.root

end SymbolDocs.Toml
