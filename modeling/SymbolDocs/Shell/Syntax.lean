/-!
# Shell scripts

The scripts that stand in for tools: simple commands with redirections, loops over a condition or
over words, choices by patterns, and commands joined by `&&` and `||`. A word is made of parts, and
a quoted part is neither split nor read as a pattern.
-/

namespace SymbolDocs.Shell

/-- A part of a word. -/
inductive Part
  | text (quoted : Bool) (s : String)
  /-- The value of a variable or of a parameter. -/
  | value (quoted : Bool) (name : String)
  /-- What a script prints. -/
  | output (quoted : Bool) (script : String)
  /-- The value of a calculation. -/
  | number (quoted : Bool) (calculation : String)
deriving DecidableEq, Repr

/-- A word. -/
abbrev Word := List Part

/-- Where an output goes. -/
inductive Redirect
  | file (output : Nat) (append : Bool) (word : Word)
  | copy (output source : Nat)
deriving Repr

/-- An instruction; a simple command knows its line. -/
inductive Instr
  | simple (line : Nat) (assignments : List (String × Word)) (words : List Word)
      (redirects : List Redirect)
  | both (first second : Instr)
  | either (first second : Instr)
  | whileLoop (condition body : List Instr)
  | forLoop (name : String) (words : List Word) (body : List Instr)
  | choice (word : Word) (arms : List (List Word × List Instr))
deriving Inhabited

end SymbolDocs.Shell
