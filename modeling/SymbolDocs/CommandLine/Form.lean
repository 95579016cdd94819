import SymbolDocs.AccessLevel

/-!
# How the command line is written

The verbs and options there are, how each option is spelled, and which texts are values of it.
-/

namespace SymbolDocs.CommandLine

/-- What the program is told to do. -/
inductive Verb
  | generate
  | targets
  | completions
  | help
deriving DecidableEq, Repr

namespace Verb

/-- The verbs there are. -/
def all : List Verb :=
  [.generate, .targets, .completions, .help]

/-- The word for a verb. -/
def word : Verb → String
  | .generate => "generate"
  | .targets => "targets"
  | .completions => "completions"
  | .help => "help"

/-- The verb that a word stands for. -/
def ofWord? (text : String) : Option Verb :=
  all.find? fun verb => verb.word = text

/-- How many words have to follow a verb. -/
def slots : Verb → Nat
  | .completions => 1
  | _ => 0

end Verb

/-- The shells that a completion can be asked for. -/
def shells : List String :=
  ["bash", "elvish", "fish", "powershell", "zsh"]

/-- A word may follow a verb. -/
def Verb.admits (verb : Verb) (word : String) : Bool :=
  match verb with
  | .completions => word ∈ shells
  | _ => false

/-! ### Options -/

/-- What an option says. -/
inductive Key
  | help
  | version
  | verbose
  | noColour
  | manifest
  | product
  | target
  | accessLevel
  | skipSynthesized
  | includeExtended
  | excludeExtended
  | noSnippets
  | combined
  | output
  | jobs
  | emitPlan
deriving DecidableEq, Repr

/-- How an option is written. -/
structure Form where
  key : Key
  long : String
  short : Option Char := none
  /-- A value goes with the option. -/
  valued : Bool := false
  /-- The option may be given more than once. -/
  repeatable : Bool := false
deriving DecidableEq, Repr

namespace Form

/-- Options that may stand before and after the verb. -/
def anywhere : List Form :=
  [{ key := .verbose, long := "verbose", short := some 'v' },
   { key := .noColour, long := "no-color" },
   { key := .manifest, long := "manifest-path", valued := true },
   { key := .help, long := "help", short := some 'h' }]

/-- Options that stand before the verb only. -/
def beforeVerb : List Form :=
  [{ key := .version, long := "version", short := some 'V' }]

/-- Options that go with a verb. -/
def ofVerb : Verb → List Form
  | .generate =>
    [{ key := .product, long := "product", valued := true, repeatable := true },
     { key := .target, long := "target", valued := true, repeatable := true },
     { key := .accessLevel, long := "symbol-graph-minimum-access-level", valued := true },
     { key := .skipSynthesized, long := "skip-synthesized-symbols" },
     { key := .includeExtended, long := "include-extended-types" },
     { key := .excludeExtended, long := "exclude-extended-types" },
     { key := .noSnippets, long := "no-snippets" },
     { key := .combined, long := "combined" },
     { key := .output, long := "output-path", valued := true },
     { key := .jobs, long := "jobs", short := some 'j', valued := true },
     { key := .emitPlan, long := "emit-plan" }]
  | _ => []

/-- The options before a verb, or those after it. -/
def at? : Option Verb → List Form
  | none => beforeVerb ++ anywhere
  | some verb => ofVerb verb ++ anywhere

end Form

/-! ### Values -/

/-- A number that fits into a machine word, in digits, perhaps after a plus sign. -/
def machineNumber? (text : String) : Option Nat :=
  let digits := match text.toList with
    | '+' :: rest => rest
    | all => all
  if digits ≠ [] ∧ digits.all Char.isDigit then
    let n := digits.foldl (fun n c => n * 10 + (c.toNat - 48)) 0
    if n < Nat.pow 2 64 then some n else none
  else none

/-- A text is a value of an option. -/
def Key.admits (key : Key) (value : String) : Bool :=
  match key with
  | .manifest | .output => value ≠ ""
  | .accessLevel => (AccessLevel.ofName? value).isSome
  | .jobs => (machineNumber? value).isSome
  | _ => true

end SymbolDocs.CommandLine
