import SymbolDocs.Number.Binary64

/-!
# TOML documents as trees

A document is a table of values. Each value knows its span in the text, and each table how it came
to be: that decides what may still be added to it and under which name a message speaks of it.
-/

namespace SymbolDocs.Toml

/-- A piece of a text. Both ends are given by the number of characters that follow them. -/
structure Span where
  start : Nat
  stop : Nat
deriving DecidableEq, Repr, Inhabited

/-- A key with its place in the text. -/
structure Key where
  name : String
  span : Span
deriving DecidableEq, Repr, Inhabited

/-- How a table came to be. -/
inductive TableForm
  /-- By its own header; the document itself counts as such a table. -/
  | header
  /-- As the table above one that has a header. -/
  | implied
  /-- By a key with dots. -/
  | dotted
  /-- In braces. -/
  | inline
  /-- By a key with dots within braces. -/
  | inlineDotted
deriving DecidableEq, Repr

namespace TableForm

/-- The table has been mentioned but not been written down. -/
def isOpen : TableForm → Bool
  | .implied | .dotted | .inlineDotted => true
  | .header | .inline => false

/-- The table came to be by a key with dots. -/
def isDotted : TableForm → Bool
  | .dotted | .inlineDotted => true
  | .header | .implied | .inline => false

/-- The table stands in braces. -/
def isInline : TableForm → Bool
  | .inline | .inlineDotted => true
  | .header | .implied | .dotted => false

end TableForm

/-- A value of a document. -/
inductive Node
  | text (span : Span) (value : String)
  | integer (span : Span) (value : Int)
  | float (span : Span) (value : Binary64)
  | boolean (span : Span) (value : Bool)
  /-- A date, a time or both. -/
  | moment (span : Span)
  | array (span : Span) (items : List Node)
  | table (form : TableForm) (span : Option Span) (fields : List (Key × Node))
  /-- The tables that share a header in double brackets. -/
  | tables (span : Option Span) (items : List Node)
deriving Inhabited

/-- The fields of a table, in the order of the text. -/
abbrev Fields := List (Key × Node)

namespace Node

/-- The place of a value. A table without a place of its own has come to be by a mention. -/
def span : Node → Option Span
  | .text s _ | .integer s _ | .float s _ | .boolean s _ | .moment s | .array s _ => some s
  | .table _ s _ | .tables s _ => s

/-- What a message calls a value. -/
def typeName : Node → String
  | .text _ _ => "string"
  | .integer _ _ => "integer"
  | .float _ _ => "float"
  | .boolean _ _ => "boolean"
  | .moment _ => "datetime"
  | .array _ _ => "array"
  | .table form _ _ => if form.isInline then "inline table" else "table"
  | .tables _ _ => "array of tables"

end Node

/-- The value of a key. -/
def Fields.get? (fields : Fields) (name : String) : Option Node :=
  (fields.find? fun f => f.1.name = name).map Prod.snd

/-- The fields with the value of a key replaced. -/
def Fields.set (fields : Fields) (name : String) (value : Node) : Fields :=
  fields.map fun f => if f.1.name = name then (f.1, value) else f

/-- The fields without a key. -/
def Fields.erase (fields : Fields) (name : String) : Fields :=
  fields.filter fun f => f.1.name ≠ name

end SymbolDocs.Toml
