import SymbolDocs.Text.Hexadecimal

/-!
# JSON

JSON values as far as plans need them, that is without numbers, and their text on several lines:
each element and each field stands on its own line, two blanks deeper than what it belongs to, and
an empty array or object is closed at once. The quote, the backslash and the controls are escaped,
all other characters stand for themselves.
-/

namespace SymbolDocs

/-- A JSON value without numbers; the fields of an object keep their order. -/
inductive Json
  | null
  | boolean (b : Bool)
  | text (s : String)
  | array (items : List Json)
  | object (fields : List (String × Json))

namespace Json

instance : Inhabited Json := ⟨.null⟩

/-! ### Texts -/

/-- A character between the quotes of a text. -/
def escape (c : Char) : List Char :=
  match c with
  | '"' => ['\\', '"']
  | '\\' => ['\\', '\\']
  | '\x08' => ['\\', 'b']
  | '\x0c' => ['\\', 'f']
  | '\n' => ['\\', 'n']
  | '\r' => ['\\', 'r']
  | '\t' => ['\\', 't']
  | _ =>
    if c.toNat < 32 then
      ['\\', 'u', '0', '0', Text.hexDigit (c.toNat / 16), Text.hexDigit (c.toNat % 16)]
    else [c]

/-- A text between quotes. -/
def quote (s : String) : List Char :=
  '"' :: s.toList.flatMap escape ++ ['"']

/-! ### Values -/

/-- The beginning of a line at a depth. -/
def newline (depth : Nat) : List Char :=
  '\n' :: List.replicate (2 * depth) ' '

mutual

/-- The text of a value whose first line stands at a depth. -/
def write (depth : Nat) : Json → List Char
  | .null => "null".toList
  | .boolean true => "true".toList
  | .boolean false => "false".toList
  | .text s => quote s
  | .array [] => ['[', ']']
  | .array (item :: rest) =>
    '[' :: newline (depth + 1) ++ write (depth + 1) item ++ writeItems (depth + 1) rest ++
      newline depth ++ [']']
  | .object [] => ['\x7b', '\x7d']
  | .object ((key, value) :: rest) =>
    '\x7b' :: newline (depth + 1) ++ quote key ++ [':', ' '] ++ write (depth + 1) value ++
      writeFields (depth + 1) rest ++ newline depth ++ ['\x7d']

/-- The elements after the first one. -/
def writeItems (depth : Nat) : List Json → List Char
  | [] => []
  | item :: rest => ',' :: newline depth ++ write depth item ++ writeItems depth rest

/-- The fields after the first one. -/
def writeFields (depth : Nat) : List (String × Json) → List Char
  | [] => []
  | (key, value) :: rest =>
    ',' :: newline depth ++ quote key ++ [':', ' '] ++ write depth value ++ writeFields depth rest

end

/-- The text of a value. -/
def pretty (j : Json) : String :=
  String.ofList (write 0 j)

end Json

end SymbolDocs
