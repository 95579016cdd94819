import SymbolDocs.Toml.Shape

/-!
# What is said about a faulty document

A document that is no TOML is called so, and no more is said. About a value of the wrong shape the
message says where it is, shows its line with the value underlined, and says what is wrong with it.
Lines and columns count from one; a column is a number of characters, and the underline is as long
as the value in bytes, but ends with the line.
-/

namespace SymbolDocs.Toml

/-- Why a document does not hold the data that it should. -/
inductive Fault
  /-- The text is no TOML. -/
  | malformed
  /-- A value of the text has the wrong shape. -/
  | misfit (text : String) (misfit : Misfit)

/-- How each message about a document begins. -/
def faultTitle : String := "TOML parse error"

/-- The line of a text that holds the character with the number `index`: the number of line ends
before it, its characters, and the number of characters before the one asked for. -/
def lineAt (cs : List Char) (index : Nat) : Nat × List Char × Nat :=
  let before := cs.take index
  let column := (before.reverse.takeWhile (· ≠ '\n')).length
  (before.count '\n', (cs.drop (index - column)).takeWhile (· ≠ '\n'), column)

/-- The number of bytes of some characters. -/
def byteCount (cs : List Char) : Nat :=
  cs.foldr (fun c n => c.utf8Size + n) 0

/-- Blanks. -/
def blanks (n : Nat) : String :=
  String.ofList (List.replicate n ' ')

/-- The lines that show a place in a text. -/
def excerpt (text : String) (place : Span) : String :=
  let cs := text.toList
  let index := cs.length - place.start
  let (line, content, column) := lineAt cs index
  let width := byteCount ((cs.drop index).take (place.start - place.stop))
  let number := toString (line + 1)
  let margin := blanks (number.length + 1) ++ "|"
  " at line " ++ number ++ ", column " ++ toString (column + 1) ++ "\n" ++
    margin ++ "\n" ++
    number ++ " | " ++ String.ofList content ++ "\n" ++
    margin ++ blanks (column + 1) ++
    String.ofList (List.replicate (max 1 (min width (byteCount content - column))) '^') ++ "\n"

/-- The text of a fault. -/
def Fault.message : Fault → String
  | .malformed => faultTitle
  | .misfit _ ⟨none, mismatch⟩ =>
    mismatch.message ++ "\n"
  | .misfit text ⟨some place, mismatch⟩ =>
    faultTitle ++ excerpt text place ++ mismatch.message ++ "\n"

/-- The data of a shape that a text holds. -/
def read {α : Type} (shape : Shape α) (text : String) : Except Fault α :=
  match document? text with
  | none => .error .malformed
  | some document =>
    match shape document with
    | .ok data => .ok data
    | .error misfit => .error (.misfit text misfit)

end SymbolDocs.Toml
