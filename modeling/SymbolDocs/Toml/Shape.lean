import SymbolDocs.Number.Shortest
import SymbolDocs.Path
import SymbolDocs.Text.Quoted
import SymbolDocs.Toml.Document

/-!
# The shape of values

Readers that take data out of a document and refuse a value of the wrong shape. A record may be
written as a table, whose unknown keys are passed over, or as an array with the fields in their
order. The fields of a table are read in the order of the text; only after them a missing field is
noticed.
-/

namespace SymbolDocs.Toml

/-- What is wrong with a value. -/
inductive Mismatch
  /-- A field that must be there is not. -/
  | missingField (name : String)
  /-- A value of one kind stands where another is expected. -/
  | wrongKind (found : Node) (expected : String)
  /-- An integer is out of range. -/
  | outOfRange (found : Int) (expected : String)
  /-- A word is none of those that are known. -/
  | unknownWord (found : String) (known : List String)
  /-- A word has to be a text, or a table with one key. -/
  | noWord
  | noKey
  | manyKeys
  /-- The table under a word has to be empty. -/
  | notEmpty
  | noTable (found : Node)
  /-- An array ends before all fields of a record are there. -/
  | tooShort (length : Nat) (record : String) (fields : Nat)

/-- A mismatch and where it is, if it has a place of its own. -/
structure Misfit where
  place : Option Span
  mismatch : Mismatch

/-- A reader of values of a shape. -/
abbrev Shape (α : Type) := Node → Except Misfit α

/-! ### Messages -/

/-- How a message shows the value that was found. -/
def Node.shown : Node → String
  | .text _ s => "string " ++ Text.quoteText s
  | .integer _ n => "integer `" ++ toString n ++ "`"
  | .float _ x => "floating point `" ++ x.text ++ "`"
  | .boolean _ b => "boolean `" ++ toString b ++ "`"
  | .array _ _ | .tables _ _ => "sequence"
  | .moment _ | .table _ _ _ => "map"

/-- The text of a mismatch. -/
def Mismatch.message : Mismatch → String
  | .missingField name => "missing field `" ++ name ++ "`"
  | .wrongKind found expected => "invalid type: " ++ found.shown ++ ", expected " ++ expected
  | .outOfRange found expected =>
    "invalid value: integer `" ++ toString found ++ "`, expected " ++ expected
  | .unknownWord found known =>
    "unknown variant `" ++ found ++ "`, expected one of " ++
      ", ".intercalate (known.map fun word => "`" ++ word ++ "`")
  | .noWord => "wanted string or table"
  | .noKey => "wanted exactly 1 element, found 0 elements"
  | .manyKeys => "wanted exactly 1 element, more than 1 element"
  | .notEmpty => "expected empty table"
  | .noTable found => "expected table, found " ++ found.typeName
  | .tooShort length record fields =>
    "invalid length " ++ toString length ++ ", expected struct " ++ record ++ " with " ++
      toString fields ++ (if fields = 1 then " element" else " elements")

/-! ### Places -/

/-- A mismatch in a value. -/
def refuse {α : Type} (value : Node) (mismatch : Mismatch) : Except Misfit α :=
  .error ⟨value.span, mismatch⟩

/-- Gives a place to a misfit that has none. -/
def placedAt {α : Type} (place : Option Span) : Except Misfit α → Except Misfit α
  | .error ⟨none, mismatch⟩ => .error ⟨place, mismatch⟩
  | result => result

/-! ### Single values -/

/-- A text. -/
def readText (expected : String) : Shape String
  | .text _ s => .ok s
  | value => refuse value (.wrongKind value expected)

/-- A text of any kind. -/
def string : Shape String := readText "a string"

/-- A path. -/
def path : Shape Path := fun value => do
  return ⟨← readText "path string" value⟩

/-- A truth value. -/
def boolean : Shape Bool
  | .boolean _ b => .ok b
  | value => refuse value (.wrongKind value "a boolean")

/-- A number that is not negative. -/
def natural : Shape Nat
  | .integer span n =>
    if 0 ≤ n then .ok n.toNat else refuse (.integer span n) (.outOfRange n "usize")
  | value => refuse value (.wrongKind value "usize")

/-- The value that a word stands for. -/
def wordOf {α : Type} (words : List (String × α)) (word : String) (place : Option Span) :
    Except Misfit α :=
  match words.lookup word with
  | some value => .ok value
  | none => .error ⟨place, .unknownWord word (words.map Prod.fst)⟩

/-- What stands under a word that is written as a key has to be empty. -/
def nothing : Shape Unit
  | .table form span fields =>
    if fields.isEmpty then .ok () else refuse (.table form span fields) .notEmpty
  | .array span items =>
    if items.isEmpty then .ok () else refuse (.array span items) .notEmpty
  | value => refuse value (.noTable value)

/-- One of some words, written as a text or as the only key of a table. -/
def word {α : Type} (words : List (String × α)) : Shape α
  | .text span s => wordOf words s (some span)
  | .table form span fields =>
    match fields with
    | [] => refuse (.table form span fields) .noKey
    | [(key, value)] => placedAt span do
      let found ← wordOf words key.name (some key.span)
      nothing value
      return found
    | _ => refuse (.table form span fields) .manyKeys
  | value => refuse value .noWord

/-! ### Lists and records -/

/-- A list of values of one shape. -/
def list {α : Type} (item : Shape α) : Shape (List α)
  | .array _ items | .tables _ items => items.mapM item
  | value => refuse value (.wrongKind value "a sequence")

/-- A field of a record: how its value is put into the record, and whether it has to be there. -/
structure RecordField (ρ : Type) where
  name : String
  read : ρ → Node → Except Misfit ρ
  required : Bool := false

/-- Reads the entries of a table into a record. -/
def readEntries {ρ : Type} (fields : List (RecordField ρ)) : ρ → Fields → Except Misfit ρ
  | record, [] => .ok record
  | record, (key, value) :: rest => do
    match fields.find? fun f => f.name = key.name with
    | none => readEntries fields record rest
    | some field =>
      let record ← placedAt (value.span <|> some key.span) (field.read record value)
      readEntries fields record rest

/-- Reads the elements of an array into the fields of a record, the first of which has the number
`index`. -/
def readElements {ρ : Type} (label : String) (count : Nat) :
    Nat → List (RecordField ρ) → ρ → List Node → Except Misfit ρ
  | _, [], record, _ => .ok record
  | index, field :: fields, record, [] =>
    if field.required then .error ⟨none, .tooShort index label count⟩
    else readElements label count (index + 1) fields record []
  | index, field :: fields, record, value :: rest => do
    let record ← field.read record value
    readElements label count (index + 1) fields record rest

/-- The first required field without a key. -/
def missing {ρ : Type} (fields : List (RecordField ρ)) (entries : Fields) :
    Option (RecordField ρ) :=
  fields.find? fun f => f.required && (entries.get? f.name).isNone

/-- A record whose fields are `blank` until they are read; `blank` is not seen in a required field.
-/
def record {ρ : Type} (label : String) (fields : List (RecordField ρ)) (blank : ρ) : Shape ρ
  | .table _ span entries => readTable span entries
  | .moment span => readTable (some span) []
  | .array span items => readArray (some span) items
  | .tables span items => readArray span items
  | value => refuse value (.wrongKind value ("struct " ++ label))
where
  readTable (span : Option Span) (entries : Fields) : Except Misfit ρ := do
    let record ← readEntries fields blank entries
    match missing fields entries with
    | some field => .error ⟨span, .missingField field.name⟩
    | none => return record
  readArray (span : Option Span) (items : List Node) : Except Misfit ρ :=
    placedAt span (readElements label fields.length 0 fields blank items)

/-- A field that keeps what it reads. -/
def field {ρ α : Type} (name : String) (shape : Shape α) (put : ρ → α → ρ)
    (required : Bool) : RecordField ρ where
  name
  read record value := do return put record (← shape value)
  required

end SymbolDocs.Toml
