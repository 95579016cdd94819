import SymbolDocs.Toml.Lexeme

/-!
# The values of TOML

A value is a quoted text, a number, a truth value, a date, an array in brackets, or a table in
braces. Arrays may run over several lines; tables in braces stand on one. How deep values may lie
within each other is limited.
-/

namespace SymbolDocs.Toml

/-! ### Tables in braces -/

/-- The table at the end of `path` changed by `change`, below a table in braces; tables on the way
are made where they are missing. -/
def updateInline (change : TableForm → Fields → Option Fields) :
    List Key → TableForm → Fields → Option Fields
  | [], form, fields => change form fields
  | key :: path, _, fields =>
    match fields.get? key.name with
    | none => do
      let inner ← updateInline change path .inlineDotted []
      return fields ++ [(key, .table .inlineDotted none inner)]
    | some (.table form span inner) =>
      if form.isOpen then do
        let inner ← updateInline change path form inner
        return fields.set key.name (.table form span inner)
      else none
    | some _ => none

/-- A table with one more field. A table that came to be by dotted keys gets fields by dotted keys
only, and any other gets none of its own by them. -/
def addField (viaDots : Bool) (key : Key) (value : Node) (form : TableForm) (fields : Fields) :
    Option Fields :=
  if form.isDotted = !viaDots then none
  else if (fields.get? key.name).isSome then none
  else some (fields ++ [(key, value)])

/-- A table in braces with one more entry. -/
def addInline (fields : Fields) (path : List Key) (value : Node) : Option Fields :=
  match path.getLast? with
  | none => none
  | some key =>
    let parents := path.dropLast
    updateInline (addField (!parents.isEmpty) key value) parents .inline fields

/-! ### Readers -/

/-- A key, an equals sign and a value. -/
def entry? (value? : List Char → Option (Node × List Char)) (cs : List Char) :
    Option (List Key × Node × List Char) := do
  let (path, rest) ← keyPath? depthLimit cs
  let rest ← passed? '=' rest
  let (value, rest) ← value? (skipBlanks rest)
  return (path, value, rest)

/-- The elements of an array, and what follows its closing bracket; `fuel` bounds their number. -/
def elements? (value? : List Char → Option (Node × List Char)) :
    Nat → List Char → Option (List Node × List Char)
  | 0, _ => none
  | fuel + 1, cs =>
    match skipFiller false cs with
    | ']' :: rest => some ([], rest)
    | cs => do
      let (item, rest) ← value? cs
      match skipFiller false rest with
      | ',' :: rest =>
        let (items, rest) ← elements? value? fuel rest
        return (item :: items, rest)
      | ']' :: rest => return ([item], rest)
      | _ => none

/-- The entries of a table in braces after those already read, and what follows its closing brace.
-/
def inlineFields? (value? : List Char → Option (Node × List Char)) :
    Nat → Fields → List Char → Option (Fields × List Char)
  | 0, _, _ => none
  | fuel + 1, fields, cs => do
    let (path, value, rest) ← entry? value? cs
    let fields ← addInline fields path value
    match skipBlanks rest with
    | ',' :: rest => inlineFields? value? fuel fields rest
    | '\x7d' :: rest => return (fields, rest)
    | _ => none

/-- A value that holds no others. -/
def scalar? (cs : List Char) : Option (Node × List Char) :=
  let spanTo (rest : List Char) : Span := ⟨cs.length, rest.length⟩
  match cs with
  | 't' :: 'r' :: 'u' :: 'e' :: rest => some (.boolean (spanTo rest) true, rest)
  | 'f' :: 'a' :: 'l' :: 's' :: 'e' :: rest => some (.boolean (spanTo rest) false, rest)
  | [] => none
  | c :: _ =>
    if c = '"' || c = '\'' then
      (string? cs).map fun (s, rest) => (.text (spanTo rest) s, rest)
    else
      match moment? cs with
      | some rest => some (.moment (spanTo rest), rest)
      | none =>
        match float? cs with
        | some (x, rest) => some (.float (spanTo rest) x, rest)
        | none => (integer? cs).map fun (n, rest) => (.integer (spanTo rest) n, rest)

/-- A value with at most `depth` arrays and tables around its innermost parts. -/
def value? : Nat → List Char → Option (Node × List Char)
  | 0, cs =>
    match cs with
    | '[' :: _ => none
    | '\x7b' :: _ => none
    | _ => scalar? cs
  | depth + 1, cs =>
    match cs with
    | '[' :: inner => do
      let (items, rest) ← elements? (value? depth) (inner.length + 1) inner
      return (.array ⟨cs.length, rest.length⟩ items, rest)
    | '\x7b' :: inner => do
      let (fields, rest) ← match skipBlanks inner with
        | '\x7d' :: rest => some ([], rest)
        | _ => inlineFields? (value? depth) (inner.length + 1) [] inner
      return (.table .inline (some ⟨cs.length, rest.length⟩) fields, rest)
    | _ => scalar? cs

end SymbolDocs.Toml
