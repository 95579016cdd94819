import SymbolDocs.Text.Printable

/-!
# Quoted text

Texts and characters as messages quote them: between quotes, with a backslash before the quote and
the backslash, short escapes for NUL, tab and the line ends, and the hexadecimal number in braces
for everything else that does not print on its own.
-/

namespace SymbolDocs.Text

/-- The digits of a number in lower-case hexadecimal. -/
def hexDigits (n : Nat) : List Char :=
  Nat.toDigits 16 n

/-- A character as it stands between the quotes `quote`. -/
def escape (quote c : Char) : List Char :=
  match c with
  | '\x00' => ['\\', '0']
  | '\t' => ['\\', 't']
  | '\n' => ['\\', 'n']
  | '\r' => ['\\', 'r']
  | '\\' => ['\\', '\\']
  | _ =>
    if c = quote then ['\\', c]
    else if isPrintable c then [c]
    else ['\\', 'u', '\x7b'] ++ hexDigits c.toNat ++ ['\x7d']

/-- A text in double quotes. -/
def quoteText (s : String) : String :=
  "\"" ++ String.ofList (s.toList.flatMap (escape '"')) ++ "\""

/-- A character in single quotes. -/
def quoteChar (c : Char) : String :=
  "'" ++ String.ofList (escape '\'' c) ++ "'"

end SymbolDocs.Text
