import SymbolDocs.Path

/-!
# Diagnostics

A message for the user: what is wrong, where, what else there is to know, and what could be done. It
can be written with colours or without; the two forms differ in the colours of two words only.
-/

namespace SymbolDocs

/-- How grave a message is. -/
inductive Severity
  | error
  | warning
deriving DecidableEq, Repr, Inhabited

/-- The word for a severity. -/
def Severity.word : Severity → String
  | .error => "error"
  | .warning => "warning"

/-- A message for the user. -/
structure Diagnostic where
  severity : Severity := .error
  message : String
  context : List String := []
  suggestions : List String := []
  location : Option Path := none
deriving DecidableEq, Repr, Inhabited

namespace Diagnostic

/-- The word for a severity as it is shown, in bold and in its colour if colours are wanted. -/
def severityText : Bool → Severity → String
  | true, .error => "\x1b[1;31merror\x1b[0m"
  | true, .warning => "\x1b[1;33mwarning\x1b[0m"
  | false, severity => severity.word

/-- The word over the suggestions, in bold and in its colour if colours are wanted. -/
def helpText : Bool → String
  | true => "\x1b[1;32mhelp\x1b[0m"
  | false => "help"

/-- The line with the severity and the message. -/
def headline (d : Diagnostic) (colour : Bool) : String :=
  severityText colour d.severity ++ ": " ++ d.message ++ "\n"

/-- The suggestions as lines, numbered from `n` on. -/
def numbered : Nat → List String → String
  | _, [] => ""
  | n, s :: rest => "  " ++ toString n ++ ". " ++ s ++ "\n" ++ numbered (n + 1) rest

/-- The suggestions under their heading, after a blank line, if there are any. -/
def help (d : Diagnostic) (colour : Bool) : String :=
  match d.suggestions with
  | [] => ""
  | _ => "\n" ++ helpText colour ++ ": consider:\n" ++ numbered 1 d.suggestions

/-- The message as it is shown. -/
def format (d : Diagnostic) (colour : Bool) : String :=
  d.headline colour ++
    (match d.location with
      | none => ""
      | some path => "  --> " ++ path.text ++ "\n") ++
    String.join (d.context.map fun line => "  = " ++ line ++ "\n") ++
    d.help colour

end Diagnostic

end SymbolDocs
