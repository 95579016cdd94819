import SymbolDocs.Shell.Syntax

/-!
# Scripts as text

A script is cut into words and marks, and these are put together to instructions. A text that is no
script has no reading. The bounds on the depth are the lengths of what is read.
-/

namespace SymbolDocs.Shell

/-! ### Words and marks -/

/-- A piece of a script. -/
inductive Token
  | word (word : Word)
  | mark (text : String)
  /-- The mark of a redirection, with the number of the output before it. -/
  | arrow (output : Nat) (append : Bool)
  | copyArrow (output : Nat)
  | newline
deriving Repr, DecidableEq

/-- A character of a variable's name. -/
def isNameChar (c : Char) : Bool :=
  c.isAlphanum || c = '_'

/-- A parameter that has a single character for its name. -/
def isSpecial (c : Char) : Bool :=
  c.isDigit || c = '@' || c = '*' || c = '#' || c = '?' || c = '$'

/-- A character that ends a word. -/
def endsWord (c : Char) : Bool :=
  c = ' ' || c = '\t' || c = '\n' || c = ';' || c = '&' || c = '|' || c = '<' || c = '>' ||
    c = '(' || c = ')'

/-- The text up to the parenthesis that closes the one before it, and what follows. -/
def enclosed : Nat → List Char → Option (List Char × List Char)
  | _, [] => none
  | 0, ')' :: rest => some ([], rest)
  | depth, c :: rest => do
    let depth := if c = '(' then depth + 1 else if c = ')' then depth - 1 else depth
    let (inner, rest) ← enclosed depth rest
    return (c :: inner, rest)

/-- What a dollar sign stands for, with the text after it. -/
def dollar (quoted : Bool) : List Char → Option (Part × List Char)
  | '(' :: '(' :: rest => do
    let (inner, rest) ← enclosed 0 rest
    match rest with
    | ')' :: rest => return (.number quoted (String.ofList inner), rest)
    | _ => none
  | '(' :: rest => do
    let (inner, rest) ← enclosed 0 rest
    return (.output quoted (String.ofList inner), rest)
  | '\x7b' :: rest =>
    match rest.dropWhile (· ≠ '\x7d') with
    | '\x7d' :: after => some (.value quoted (String.ofList (rest.takeWhile (· ≠ '\x7d'))), after)
    | _ => none
  | c :: rest =>
    if isSpecial c then some (.value quoted (String.singleton c), rest)
    else if isNameChar c then
      some (.value quoted (String.ofList ((c :: rest).takeWhile isNameChar)),
        (c :: rest).dropWhile isNameChar)
    else some (.text quoted "$", c :: rest)
  | [] => some (.text quoted "$", [])

/-- The parts between double quotes, after the opening one. -/
def quotedParts : Nat → List Char → Option (Word × List Char)
  | 0, _ => none
  | fuel + 1, cs =>
    match cs with
    | [] => none
    | '"' :: rest => some ([], rest)
    | '\\' :: c :: rest => do
      let (parts, rest) ← quotedParts fuel rest
      let escaped := c = '$' ∨ c = '"' ∨ c = '\\' ∨ c.toNat = 96
      return (.text true (if escaped then String.singleton c else String.ofList ['\\', c]) :: parts,
        rest)
    | '$' :: rest => do
      let (part, rest) ← dollar true rest
      let (parts, rest) ← quotedParts fuel rest
      return (part :: parts, rest)
    | c :: rest => do
      let (parts, rest) ← quotedParts fuel rest
      return (.text true (String.singleton c) :: parts, rest)

/-- The parts of a word, and what follows the word. -/
def wordParts : Nat → List Char → Option (Word × List Char)
  | 0, _ => none
  | fuel + 1, cs =>
    match cs with
    | [] => some ([], [])
    | '\'' :: rest =>
      match rest.dropWhile (· ≠ '\'') with
      | '\'' :: after => do
        let (parts, after) ← wordParts fuel after
        return (.text true (String.ofList (rest.takeWhile (· ≠ '\''))) :: parts, after)
      | _ => none
    | '"' :: rest => do
      let (inner, rest) ← quotedParts fuel rest
      let (parts, rest) ← wordParts fuel rest
      return ((if inner.isEmpty then [.text true ""] else inner) ++ parts, rest)
    | '\\' :: c :: rest => do
      let (parts, rest) ← wordParts fuel rest
      return (.text true (String.singleton c) :: parts, rest)
    | '$' :: rest => do
      let (part, rest) ← dollar false rest
      let (parts, rest) ← wordParts fuel rest
      return (part :: parts, rest)
    | c :: rest =>
      if endsWord c then some ([], c :: rest)
      else do
        let (parts, rest) ← wordParts fuel rest
        return (.text false (String.singleton c) :: parts, rest)

/-- Neighbouring texts of one kind as one text. -/
def joinTexts : Word → Word
  | [] => []
  | part :: rest =>
    match part, joinTexts rest with
    | .text q s, .text r t :: rest =>
      if q = r then .text q (s ++ t) :: rest else .text q s :: .text r t :: rest
    | part, rest => part :: rest

/-- The pieces of a script, with their lines. -/
def tokens : Nat → Nat → List Char → Option (List (Nat × Token))
  | 0, _, _ => none
  | fuel + 1, line, cs =>
    let more (token : Token) (rest : List Char) : Option (List (Nat × Token)) := do
      return (line, token) :: (← tokens fuel line rest)
    match cs with
    | [] => some []
    | ' ' :: rest => tokens fuel line rest
    | '\t' :: rest => tokens fuel line rest
    | '\n' :: rest => do return (line, .newline) :: (← tokens fuel (line + 1) rest)
    | '#' :: rest => tokens fuel line (rest.dropWhile (· ≠ '\n'))
    | ';' :: ';' :: rest => more (.mark ";;") rest
    | ';' :: rest => more (.mark ";") rest
    | '&' :: '&' :: rest => more (.mark "&&") rest
    | '|' :: '|' :: rest => more (.mark "||") rest
    | '|' :: rest => more (.mark "|") rest
    | '(' :: rest => more (.mark "(") rest
    | ')' :: rest => more (.mark ")") rest
    | '>' :: '>' :: rest => more (.arrow 1 true) rest
    | '>' :: '&' :: rest => more (.copyArrow 1) rest
    | '>' :: rest => more (.arrow 1 false) rest
    | '2' :: '>' :: '>' :: rest => more (.arrow 2 true) rest
    | '2' :: '>' :: '&' :: rest => more (.copyArrow 2) rest
    | '2' :: '>' :: rest => more (.arrow 2 false) rest
    | cs => do
      let (parts, rest) ← wordParts (cs.length + 1) cs
      if rest.length < cs.length then more (.word (joinTexts parts)) rest else none

/-! ### Instructions -/

/-- The text of a word that holds nothing but unquoted text. -/
def bareText : Word → Option String
  | [.text false s] => some s
  | _ => none

/-- The piece is this reserved word. -/
def isReserved (name : String) : Nat × Token → Bool
  | (_, .word word) => bareText word == some name
  | _ => false

/-- Passes a reserved word. -/
def pass (name : String) : List (Nat × Token) → Option (List (Nat × Token))
  | t :: rest => if isReserved name t then some rest else none
  | [] => none

/-- The pieces after line ends and semicolons. -/
def skipBreaks (ts : List (Nat × Token)) : List (Nat × Token) :=
  ts.dropWhile fun t => t.2 = .newline || t.2 = .mark ";"

/-- The words up to the end of an instruction. -/
def takeWords : List (Nat × Token) → List Word × List (Nat × Token)
  | (_, .word w) :: rest =>
    let (ws, rest) := takeWords rest
    (w :: ws, rest)
  | ts => ([], ts)

/-- The variable and the value of a word that assigns one. -/
def assignment? : Word → Option (String × Word)
  | .text false s :: parts =>
    let name := String.ofList (s.toList.takeWhile isNameChar)
    match s.toList.dropWhile isNameChar with
    | '=' :: value =>
      if name = "" then none
      else some (name, if value = [] then parts else .text false (String.ofList value) :: parts)
    | _ => none
  | _ => none

/-- A simple command. -/
def simple (line : Nat) : List (Nat × Token) →
    List (String × Word) × List Word × List Redirect × List (Nat × Token)
  | (_, .arrow output append) :: (_, .word w) :: rest =>
    let (as, ws, rs, rest) := simple line rest
    (as, ws, .file output append w :: rs, rest)
  | (_, .copyArrow output) :: (_, .word w) :: rest =>
    let (as, ws, rs, rest) := simple line rest
    (as, ws, .copy output (if bareText w = some "2" then 2 else 1) :: rs, rest)
  | (_, .word w) :: rest =>
    let (as, ws, rs, rest) := simple line rest
    match assignment? w with
    | some a => (a :: as, ws, rs, rest)
    | none =>
      let later := as.map fun a => Part.text false (a.1 ++ "=") :: a.2
      ([], w :: later ++ ws, rs, rest)
  | ts => ([], [], [], ts)

/-- The patterns of an arm, up to the parenthesis after them. -/
def patterns : Nat → List (Nat × Token) → Option (List Word × List (Nat × Token))
  | 0, _ => none
  | fuel + 1, ts =>
    match ts with
    | (_, .mark "(") :: rest => patterns fuel rest
    | (_, .word w) :: (_, .mark "|") :: rest => do
      let (ws, rest) ← patterns fuel rest
      return (w :: ws, rest)
    | (_, .word w) :: (_, .mark ")") :: rest => some ([w], rest)
    | _ => none

mutual

/-- Instructions up to one of some reserved words, or up to the end of an arm. -/
def instrs : Nat → List String → List (Nat × Token) → Option (List Instr × List (Nat × Token))
  | 0, _, _ => none
  | fuel + 1, stops, ts =>
    match skipBreaks ts with
    | [] => some ([], [])
    | t :: rest =>
      if stops.any (fun s => isReserved s t) || t.2 = .mark ";;" then some ([], t :: rest)
      else do
        let (first, rest) ← instr fuel (t :: rest)
        let (more, rest) ← instrs fuel stops rest
        return (first :: more, rest)

/-- An instruction with those that are joined to it. -/
def instr : Nat → List (Nat × Token) → Option (Instr × List (Nat × Token))
  | 0, _ => none
  | fuel + 1, ts => do
    let (first, rest) ← single fuel ts
    joined fuel first rest

/-- What is joined to an instruction. -/
def joined : Nat → Instr → List (Nat × Token) → Option (Instr × List (Nat × Token))
  | 0, _, _ => none
  | fuel + 1, first, ts =>
    match ts with
    | (_, .mark "&&") :: rest => do
      let (second, rest) ← single fuel (skipBreaks rest)
      joined fuel (.both first second) rest
    | (_, .mark "||") :: rest => do
      let (second, rest) ← single fuel (skipBreaks rest)
      joined fuel (.either first second) rest
    | ts => some (first, ts)

/-- A single instruction. -/
def single : Nat → List (Nat × Token) → Option (Instr × List (Nat × Token))
  | 0, _ => none
  | fuel + 1, ts =>
    match ts with
    | [] => none
    | t :: rest =>
      if isReserved "while" t then do
        let (condition, rest) ← instrs fuel ["do"] rest
        let (body, rest) ← instrs fuel ["done"] (← pass "do" rest)
        return (.whileLoop condition body, ← pass "done" rest)
      else if isReserved "for" t then
        match rest with
        | (_, .word name) :: rest => do
          let name ← bareText name
          let (words, rest) := takeWords (← pass "in" rest)
          let (body, rest) ← instrs fuel ["done"] (← pass "do" (skipBreaks rest))
          return (.forLoop name words body, ← pass "done" rest)
        | _ => none
      else if isReserved "case" t then
        match rest with
        | (_, .word word) :: rest => do
          let (arms, rest) ← arms fuel (← pass "in" rest)
          return (.choice word arms, rest)
        | _ => none
      else
        match simple t.1 (t :: rest) with
        | ([], [], [], _) => none
        | (as, ws, rs, rest) => some (.simple t.1 as ws rs, rest)

/-- The arms of a choice, up to its end. -/
def arms : Nat → List (Nat × Token) → Option (List (List Word × List Instr) × List (Nat × Token))
  | 0, _ => none
  | fuel + 1, ts =>
    match skipBreaks ts with
    | [] => none
    | t :: rest =>
      if isReserved "esac" t then some ([], rest)
      else do
        let (ps, rest) ← patterns (rest.length + 2) (t :: rest)
        let (body, rest) ← instrs fuel ["esac"] rest
        let rest := match rest with
          | (_, .mark ";;") :: rest => rest
          | rest => rest
        let (more, rest) ← arms fuel rest
        return ((ps, body) :: more, rest)

end

/-- The instructions of a script whose first line has the number `line`. -/
def parse (line : Nat) (text : String) : Option (List Instr) := do
  let cs := text.toList
  let ts ← tokens (cs.length + 1) line cs
  let (is, rest) ← instrs (4 * ts.length + 4) [] ts
  if rest.isEmpty then return is else none

end SymbolDocs.Shell
