import SymbolDocs.Text.Quoted

/-!
# Versions

A version is three numbers below 2^64 with points between them, then, after a hyphen, a pre-release
identifier and, after a plus sign, build metadata. An identifier is a sequence of segments of
letters, digits and hyphens; a numeric segment of a pre-release identifier has no leading zero, and
neither has one of the three numbers.
-/

namespace SymbolDocs

/-- A version of a package. -/
structure Version where
  major : Nat
  minor : Nat
  patch : Nat
  pre : String
  build : String
deriving DecidableEq, Repr, Inhabited

namespace Version

instance : ToString Version where
  toString v :=
    toString v.major ++ "." ++ toString v.minor ++ "." ++ toString v.patch
      ++ (if v.pre = "" then "" else "-" ++ v.pre) ++ (if v.build = "" then "" else "+" ++ v.build)

/-- The parts of a version. -/
inductive Part
  | major
  | minor
  | patch
  | pre
  | build
deriving DecidableEq, Repr

/-- What messages call a part. -/
def Part.label : Part → String
  | .major => "major version number"
  | .minor => "minor version number"
  | .patch => "patch version number"
  | .pre => "pre-release identifier"
  | .build => "build metadata"

/-- Why a text is no version. -/
inductive Error
  | empty
  | unexpectedEnd (part : Part)
  | unexpectedChar (part : Part) (c : Char)
  | unexpectedCharAfter (part : Part) (c : Char)
  | leadingZero (part : Part)
  | overflow (part : Part)
  | emptySegment (part : Part)
deriving DecidableEq, Repr

/-- The text of an error. -/
def Error.message : Error → String
  | .empty => "empty string, expected a semver version"
  | .unexpectedEnd part => "unexpected end of input while parsing " ++ part.label
  | .unexpectedChar part c =>
    "unexpected character " ++ Text.quoteChar c ++ " while parsing " ++ part.label
  | .unexpectedCharAfter part c =>
    "unexpected character " ++ Text.quoteChar c ++ " after " ++ part.label
  | .leadingZero part => "invalid leading zero in " ++ part.label
  | .overflow part => "value of " ++ part.label ++ " exceeds u64::MAX"
  | .emptySegment part => "empty identifier segment in " ++ part.label

/-! ### Numbers -/

/-- Adds the digits at the beginning of a text to the number `value` read so far, `none` before the
first digit. -/
def readDigits (part : Part) (value : Option Nat) : List Char → Except Error (Nat × List Char)
  | [] =>
    match value with
    | some n => .ok (n, [])
    | none => .error (.unexpectedEnd part)
  | c :: rest =>
    if c.isDigit then
      if value = some 0 then .error (.leadingZero part)
      else
        let n := value.getD 0 * 10 + (c.toNat - 48)
        if n < Nat.pow 2 64 then readDigits part (some n) rest else .error (.overflow part)
    else
      match value with
      | some n => .ok (n, c :: rest)
      | none => .error (.unexpectedChar part c)

/-- Passes the point after a number. -/
def readPoint (part : Part) : List Char → Except Error (List Char)
  | [] => .error (.unexpectedEnd part)
  | c :: rest => if c = '.' then .ok rest else .error (.unexpectedCharAfter part c)

/-! ### Identifiers -/

/-- A letter, digit or hyphen. -/
def isSegmentChar (c : Char) : Bool :=
  c.isAlphanum || c = '-'

/-- Judges a complete segment of an identifier. -/
def checkSegment (part : Part) (segment : List Char) : Except Error Unit :=
  if segment = [] then .error (.emptySegment part)
  else if part = .pre ∧ segment.all Char.isDigit ∧ 1 < segment.length ∧
      segment.head? = some '0' then
    .error (.leadingZero part)
  else .ok ()

/-- Reads an identifier; `segment` is what was read of its last segment and `done` all that was
read, both in reverse. -/
def readIdentifier (part : Part) (segment done : List Char) :
    List Char → Except Error (String × List Char)
  | [] => do
    checkSegment part segment.reverse
    return (String.ofList done.reverse, [])
  | c :: rest =>
    if isSegmentChar c then readIdentifier part (c :: segment) (c :: done) rest
    else do
      checkSegment part segment.reverse
      if c = '.' then readIdentifier part [] (c :: done) rest
      else return (String.ofList done.reverse, c :: rest)

/-- Reads the identifier that `mark` announces, if the text goes on with it. -/
def readMarked (part : Part) (mark : Char) : List Char → Except Error (Option String × List Char)
  | c :: rest =>
    if c = mark then do
      let (s, rest) ← readIdentifier part [] [] rest
      return (some s, rest)
    else .ok (none, c :: rest)
  | [] => .ok (none, [])

/-- The version that a text spells. -/
def parse (text : String) : Except Error Version :=
  if text = "" then .error .empty
  else do
    let (major, rest) ← readDigits .major none text.toList
    let rest ← readPoint .major rest
    let (minor, rest) ← readDigits .minor none rest
    let rest ← readPoint .minor rest
    let (patch, rest) ← readDigits .patch none rest
    let (pre, rest) ← readMarked .pre '-' rest
    let (build, rest) ← readMarked .build '+' rest
    match rest with
    | [] => return ⟨major, minor, patch, pre.getD "", build.getD ""⟩
    | c :: _ =>
      .error (.unexpectedCharAfter
        (if build.isSome then .build else if pre.isSome then .pre else .patch) c)

end Version

end SymbolDocs
