import SymbolDocs.FileTree.Lookup

/-!
# What the shell does itself

The words that a script prints with escapes in them, and the conditions it tests.
-/

namespace SymbolDocs.Shell

/-! ### Escapes -/

/-- The bytes of a character. -/
def charBytes (c : Char) : List UInt8 :=
  (String.singleton c).toUTF8.toList

/-- A digit of an octal number. -/
def isOctal (c : Char) : Bool :=
  '0' ≤ c && c ≤ '7'

/-- The number that octal digits spell. -/
def octal (cs : List Char) : Nat :=
  cs.foldl (fun n c => n * 8 + (c.toNat - 48)) 0

/-- The bytes of an escape and the number of characters that it takes after its backslash. -/
def escape (echo : Bool) : List Char → List UInt8 × Nat
  | 'a' :: _ => ([7], 1)
  | 'b' :: _ => ([8], 1)
  | 'f' :: _ => ([12], 1)
  | 'n' :: _ => ([10], 1)
  | 'r' :: _ => ([13], 1)
  | 't' :: _ => ([9], 1)
  | 'v' :: _ => ([11], 1)
  | '\\' :: _ => ([92], 1)
  | c :: rest =>
    if echo && c = '0' then
      let digits := (rest.take 3).takeWhile isOctal
      ([UInt8.ofNat (octal digits)], digits.length + 1)
    else if isOctal c then
      let digits := ((c :: rest).take 3).takeWhile isOctal
      ([UInt8.ofNat (octal digits)], digits.length)
    else ([92], 0)
  | [] => ([92], 0)

/-- The bytes of a text with escapes, and whether nothing may follow; `skip` characters belong to an
escape already read. -/
def unescape : Nat → List Char → List UInt8 × Bool
  | _, [] => ([], false)
  | skip + 1, _ :: rest => unescape skip rest
  | 0, '\\' :: rest =>
    if rest.head? = some 'c' then ([], true)
    else
      let (bytes, n) := escape true rest
      let (more, stop) := unescape n rest
      (bytes ++ more, stop)
  | 0, c :: rest =>
    let (more, stop) := unescape 0 rest
    (charBytes c ++ more, stop)

/-- What `echo` prints. -/
def echo (arguments : List String) : List UInt8 :=
  let (arguments, newline) := match arguments with
    | "-n" :: rest => (rest, [])
    | arguments => (arguments, [(10 : UInt8)])
  let (bytes, stop) := unescape 0 (" ".intercalate arguments).toList
  if stop then bytes else bytes ++ newline

/-- What a format prints of some words, and the words it leaves; `skip` characters belong to a
directive already read. -/
def formatOnce : Nat → List Char → List String → List UInt8 × List String
  | _, [], arguments => ([], arguments)
  | skip + 1, _ :: rest, arguments => formatOnce skip rest arguments
  | 0, '\\' :: rest, arguments =>
    let (bytes, n) := escape false rest
    let (more, arguments) := formatOnce n rest arguments
    (bytes ++ more, arguments)
  | 0, '%' :: rest, arguments =>
    if rest.head? = some '%' then
      let (more, arguments) := formatOnce 1 rest arguments
      (37 :: more, arguments)
    else
      let (more, left) := formatOnce 1 rest arguments.tail
      ((arguments.headD "").toUTF8.toList ++ more, left)
  | 0, c :: rest, arguments =>
    let (more, arguments) := formatOnce 0 rest arguments
    (charBytes c ++ more, arguments)

/-- What a format prints of some words; it is used again while words are left. -/
def formatAll : Nat → List Char → List String → List UInt8
  | 0, _, _ => []
  | n + 1, format, arguments =>
    let (bytes, left) := formatOnce 0 format arguments
    if left.isEmpty || left.length = arguments.length then bytes
    else bytes ++ formatAll n format left

/-- What `printf` prints. -/
def printf : List String → List UInt8
  | [] => []
  | format :: arguments => formatAll (arguments.length + 1) format.toList arguments

/-! ### Conditions -/

/-- Whether a condition holds. -/
def test (files : FileTree) (directory : Place) : List String → Bool
  | [] => false
  | [s] => s ≠ ""
  | ["!", s] => s = ""
  | ["-n", s] => s ≠ ""
  | ["-z", s] => s = ""
  | ["-f", s] => files.isFile directory ⟨s⟩
  | ["-d", s] => files.isDir directory ⟨s⟩
  | ["-e", s] => files.pathExists directory ⟨s⟩
  | [a, "=", b] => a = b
  | [a, "!=", b] => a ≠ b
  | [a, operator, b] =>
    match a.toInt?, b.toInt? with
    | some a, some b =>
      match operator with
      | "-eq" => a = b
      | "-ne" => a ≠ b
      | "-gt" => b < a
      | "-ge" => b ≤ a
      | "-lt" => a < b
      | "-le" => a ≤ b
      | _ => false
    | _, _ => false
  | _ => false

/-! ### Calculations -/

/-- The numbers and signs of a calculation, the values of variables put in. -/
def terms (value : String → String) : Nat → List Char → List (Char ⊕ Int)
  | 0, _ => []
  | fuel + 1, cs =>
    match cs with
    | [] => []
    | c :: rest =>
      if c.isAlphanum || c = '_' then
        let isName (c : Char) : Bool := c.isAlphanum || c = '_'
        let name := String.ofList ((c :: rest).takeWhile isName)
        let n := if c.isDigit then name.toInt?.getD 0 else (value name).toInt?.getD 0
        .inr n :: terms value fuel (rest.dropWhile isName)
      else if c = '+' || c = '-' || c = '*' then .inl c :: terms value fuel rest
      else terms value fuel rest

/-- The product at the beginning of a calculation, and what follows it. -/
def product (acc : Int) : List (Char ⊕ Int) → Int × List (Char ⊕ Int)
  | .inl '*' :: .inr n :: rest => product (acc * n) rest
  | rest => (acc, rest)

/-- The sum of products that a calculation is. -/
def sum (acc : Int) : Nat → List (Char ⊕ Int) → Int
  | 0, _ => acc
  | fuel + 1, ts =>
    match ts with
    | .inl '+' :: .inr n :: rest =>
      let (n, rest) := product n rest
      sum (acc + n) fuel rest
    | .inl '-' :: .inr n :: rest =>
      let (n, rest) := product n rest
      sum (acc - n) fuel rest
    | _ => acc

/-- The value of a calculation. -/
def calculate (value : String → String) (calculation : String) : Int :=
  let cs := calculation.toList
  sum 0 (cs.length + 1) (.inl '+' :: terms value (cs.length + 1) cs)

end SymbolDocs.Shell
