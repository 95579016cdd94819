import SymbolDocs.Text.Hexadecimal
import SymbolDocs.Toml.Node

/-!
# The words of TOML

Blanks, comments, quoted texts, keys, numbers and dates. A reader takes what it reads from the
beginning of a text and hands on the rest; where the text is ill-formed it has no answer.
-/

namespace SymbolDocs.Toml

/-! ### Blanks and comments -/

/-- A space or a tab. -/
def isBlank (c : Char) : Bool :=
  c = ' ' || c = '\t'

/-- A character that may stand in a comment or in a quoted text: all but the controls. -/
def isPlain (c : Char) : Bool :=
  c = '\t' || (32 ≤ c.toNat && c.toNat ≠ 127)

/-- The text after its blanks. -/
def skipBlanks (cs : List Char) : List Char :=
  cs.dropWhile isBlank

/-- The text after an end of line. -/
def newline? : List Char → Option (List Char)
  | '\n' :: rest => some rest
  | '\r' :: '\n' :: rest => some rest
  | _ => none

/-- The text after a comment, if there is one. -/
def skipComment : List Char → List Char
  | '#' :: rest => rest.dropWhile isPlain
  | cs => cs

/-- The next line: nothing but blanks and a comment may be left of this one. -/
def lineEnd? (cs : List Char) : Option (List Char) :=
  match skipComment (skipBlanks cs) with
  | [] => some []
  | rest => newline? rest

/-- The text after blanks, comments and ends of lines. -/
def skipFiller (inComment : Bool) : List Char → List Char
  | [] => []
  | c :: rest =>
    if inComment && isPlain c then skipFiller true rest
    else if isBlank c || c = '\n' || (c = '\r' && rest.head? = some '\n') then
      skipFiller false rest
    else if c = '#' then skipFiller true rest
    else c :: rest

/-! ### Quoted texts -/

/-- The character with a number in hexadecimal digits, if there is one. -/
def numberedChar (digits : List Char) (count : Nat) : Option (Char × Nat) :=
  if digits.length = count then
    match Text.hexNumber? digits with
    | some n => if h : n.isValidChar then some (Char.ofNatAux n h, count + 1) else none
    | none => none
  else none

/-- The character that an escape stands for and the number of characters of the escape, after its
backslash. -/
def escape? : List Char → Option (Char × Nat)
  | 'b' :: _ => some ('\x08', 1)
  | 'f' :: _ => some ('\x0c', 1)
  | 'n' :: _ => some ('\n', 1)
  | 'r' :: _ => some ('\r', 1)
  | 't' :: _ => some ('\t', 1)
  | '"' :: _ => some ('"', 1)
  | '\\' :: _ => some ('\\', 1)
  | 'u' :: rest => numberedChar (rest.take 4) 4
  | 'U' :: rest => numberedChar (rest.take 8) 8
  | _ => none

/-- The text after blanks and ends of lines. -/
def skipLines : List Char → List Char
  | [] => []
  | c :: rest =>
    if isBlank c || c = '\n' || (c = '\r' && rest.head? = some '\n') then skipLines rest
    else c :: rest

/-- The length of a line break that a backslash hides, with the blanks around it and the lines of
blanks after it. -/
def hiddenBreak? (cs : List Char) : Option Nat :=
  (newline? (skipBlanks cs)).map fun rest => cs.length - (skipLines rest).length

/-- A quoted text on one line, after its opening quote; `skip` characters belong to an escape
already read. -/
def quoted (quote : Char) (escapes : Bool) : Nat → List Char → Option (List Char × List Char)
  | _, [] => none
  | skip + 1, _ :: rest => quoted quote escapes skip rest
  | 0, c :: rest =>
    if c = quote then some ([], rest)
    else if escapes && c = '\\' then do
      let (d, n) ← escape? rest
      let (cs, rest) ← quoted quote escapes n rest
      return (d :: cs, rest)
    else if isPlain c then do
      let (cs, rest) ← quoted quote escapes 0 rest
      return (c :: cs, rest)
    else none

/-- A quoted text of many lines, after its opening quotes. Up to two quotes may stand before the
closing three. -/
def multiline (quote : Char) (escapes : Bool) : Nat → List Char → Option (List Char × List Char)
  | _, [] => none
  | skip + 1, _ :: rest => multiline quote escapes skip rest
  | 0, c :: rest =>
    if c = quote then
      let following := (rest.takeWhile (· = quote)).length
      if 2 ≤ following then
        let extra := min (following - 2) 2
        some (List.replicate extra quote, rest.drop (extra + 2))
      else do
        let (cs, rest) ← multiline quote escapes 0 rest
        return (c :: cs, rest)
    else if escapes && c = '\\' then
      match hiddenBreak? rest with
      | some n => multiline quote escapes n rest
      | none => do
        let (d, n) ← escape? rest
        let (cs, rest) ← multiline quote escapes n rest
        return (d :: cs, rest)
    else if c = '\n' || isPlain c then do
      let (cs, rest) ← multiline quote escapes 0 rest
      return (c :: cs, rest)
    else if c = '\r' && rest.head? = some '\n' then multiline quote escapes 0 rest
    else none

/-- The text after a line end that follows the opening quotes. -/
def afterOpening (cs : List Char) : List Char :=
  (newline? cs).getD cs

/-- A quoted text in any of its four forms. -/
def string? : List Char → Option (String × List Char)
  | '"' :: '"' :: '"' :: rest =>
    (multiline '"' true 0 (afterOpening rest)).map fun (s, rest) => (String.ofList s, rest)
  | '\'' :: '\'' :: '\'' :: rest =>
    (multiline '\'' false 0 (afterOpening rest)).map fun (s, rest) => (String.ofList s, rest)
  | '"' :: rest => (quoted '"' true 0 rest).map fun (s, rest) => (String.ofList s, rest)
  | '\'' :: rest => (quoted '\'' false 0 rest).map fun (s, rest) => (String.ofList s, rest)
  | _ => none

/-! ### Keys -/

/-- A character of a key without quotes. -/
def isKeyChar (c : Char) : Bool :=
  c.isAlphanum || c = '-' || c = '_'

/-- One part of a key. -/
def simpleKey? : List Char → Option (String × List Char)
  | '"' :: rest => (quoted '"' true 0 rest).map fun (s, rest) => (String.ofList s, rest)
  | '\'' :: rest => (quoted '\'' false 0 rest).map fun (s, rest) => (String.ofList s, rest)
  | cs =>
    match cs.takeWhile isKeyChar with
    | [] => none
    | name => some (String.ofList name, cs.dropWhile isKeyChar)

/-- How deep values may lie within each other, and how many parts a key may have. -/
def depthLimit : Nat := 79

/-- A key of up to `limit` parts with dots between them and the blanks around it. -/
def keyPath? : Nat → List Char → Option (List Key × List Char)
  | 0, _ => none
  | limit + 1, cs => do
    let cs := skipBlanks cs
    let (name, rest) ← simpleKey? cs
    let key : Key := ⟨name, ⟨cs.length, rest.length⟩⟩
    match skipBlanks rest with
    | '.' :: rest =>
      let (path, rest) ← keyPath? limit rest
      return (key :: path, rest)
    | rest => return ([key], rest)

/-! ### Numbers -/

/-- A digit of hexadecimal, octal and binary numbers. -/
def isDigitOf (base : Nat) (c : Char) : Bool :=
  match Text.hexValue? c with
  | some n => n < base
  | none => false

/-- Digits with single underscores between them, without the underscores. -/
def digits? (base : Nat) (afterDigit : Bool) : List Char → Option (List Char × List Char)
  | [] => if afterDigit then some ([], []) else none
  | c :: rest =>
    if isDigitOf base c then do
      let (ds, rest) ← digits? base true rest
      return (c :: ds, rest)
    else if afterDigit then
      if c = '_' then digits? base false rest else some ([], c :: rest)
    else none

/-- The number that digits spell. -/
def numberOf (base : Nat) (digits : List Char) : Nat :=
  digits.foldl (fun n c => n * base + (Text.hexValue? c).getD 0) 0

/-- The sign before a number, and whether it is a minus. -/
def sign : List Char → Bool × List Char
  | '+' :: rest => (false, rest)
  | '-' :: rest => (true, rest)
  | cs => (false, cs)

/-- The digits before the point; a zero stands alone. -/
def wholeDigits? : List Char → Option (List Char × List Char)
  | '0' :: rest => some (['0'], rest)
  | cs => digits? 10 false cs

/-- The power of ten after an `e`. -/
def power? : List Char → Option (Int × List Char)
  | c :: rest =>
    if c = 'e' || c = 'E' then do
      let (negative, rest) := sign rest
      let (ds, rest) ← digits? 10 false rest
      let n : Int := numberOf 10 ds
      return (if negative then -n else n, rest)
    else none
  | [] => none

/-- A number with a point or a power of ten, or one of the names `inf` and `nan`. -/
def float? (cs : List Char) : Option (Binary64 × List Char) := do
  let (negative, cs) := sign cs
  match cs with
  | 'i' :: 'n' :: 'f' :: rest => return (.infinite negative, rest)
  | 'n' :: 'a' :: 'n' :: rest => return (.nan, rest)
  | _ =>
    let (whole, rest) ← wholeDigits? cs
    let (fraction, rest, pointed) ← match rest with
      | '.' :: rest => do
        let (ds, rest) ← digits? 10 false rest
        pure (ds, rest, true)
      | _ => pure ([], rest, false)
    let (power, rest) ← match power? rest with
      | some (n, rest) => pure (n, rest)
      | none => if pointed then pure (0, rest) else none
    let value := Binary64.ofDecimal negative (numberOf 10 (whole ++ fraction))
      (power - fraction.length)
    if value = .infinite false then none else return (value, rest)

/-- An integer of 64 bits. -/
def integer? : List Char → Option (Int × List Char)
  | '0' :: 'x' :: rest => prefixed 16 rest
  | '0' :: 'o' :: rest => prefixed 8 rest
  | '0' :: 'b' :: rest => prefixed 2 rest
  | cs => do
    let (negative, cs) := sign cs
    let (ds, rest) ← wholeDigits? cs
    let n : Int := numberOf 10 ds
    bounded (if negative then -n else n) rest
where
  bounded (n : Int) (rest : List Char) : Option (Int × List Char) :=
    if -Int.pow 2 63 ≤ n ∧ n < Int.pow 2 63 then some (n, rest) else none
  prefixed (base : Nat) (cs : List Char) : Option (Int × List Char) := do
    let (ds, rest) ← digits? base false cs
    bounded (numberOf base ds) rest

/-! ### Dates and times -/

/-- A number of exactly `count` digits between two bounds. -/
def fixed? (count lo hi : Nat) (cs : List Char) : Option (Nat × List Char) :=
  let ds := cs.take count
  let n := numberOf 10 ds
  if ds.length = count ∧ ds.all Char.isDigit ∧ lo ≤ n ∧ n ≤ hi then some (n, cs.drop count)
  else none

/-- The text after a character that has to stand there. -/
def passed? (c : Char) : List Char → Option (List Char)
  | d :: rest => if d = c then some rest else none
  | [] => none

/-- The number of days of a month. -/
def monthLength (year month : Nat) : Nat :=
  if month = 2 then
    if year % 4 = 0 ∧ (year % 100 ≠ 0 ∨ year % 400 = 0) then 29 else 28
  else if month = 4 ∨ month = 6 ∨ month = 9 ∨ month = 11 then 30
  else 31

/-- The text after a date. -/
def date? (cs : List Char) : Option (List Char) := do
  let (year, rest) ← fixed? 4 0 9999 cs
  let (month, rest) ← fixed? 2 1 12 (← passed? '-' rest)
  let (_, rest) ← fixed? 2 1 (monthLength year month) (← passed? '-' rest)
  return rest

/-- The text after a fraction of a second, if there is one. -/
def skipFraction : List Char → List Char
  | '.' :: c :: rest => if c.isDigit then rest.dropWhile Char.isDigit else '.' :: c :: rest
  | cs => cs

/-- The text after a time of day. -/
def time? (cs : List Char) : Option (List Char) := do
  let (_, rest) ← fixed? 2 0 23 cs
  let (_, rest) ← fixed? 2 0 59 (← passed? ':' rest)
  let (_, rest) ← fixed? 2 0 60 (← passed? ':' rest)
  return skipFraction rest

/-- The text after a difference to universal time. -/
def offset? : List Char → Option (List Char)
  | c :: rest =>
    if c = 'Z' || c = 'z' then some rest
    else if c = '+' || c = '-' then do
      let (_, rest) ← fixed? 2 0 23 rest
      let (_, rest) ← fixed? 2 0 59 (← passed? ':' rest)
      return rest
    else none
  | [] => none

/-- The text after a date, a time, or a date with a time. -/
def moment? (cs : List Char) : Option (List Char) :=
  match date? cs with
  | none => time? cs
  | some rest =>
    match rest with
    | c :: after =>
      if c = 'T' || c = 't' || c = ' ' then
        match time? after with
        | some rest => some ((offset? rest).getD rest)
        | none => some rest
      else some rest
    | [] => some rest

end SymbolDocs.Toml
