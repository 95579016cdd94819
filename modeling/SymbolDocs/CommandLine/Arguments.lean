import SymbolDocs.CommandLine.Form
import SymbolDocs.GraphOptions
import SymbolDocs.Selection

/-!
# Arguments

What the arguments of the command line ask for. They are read from left to right: options, a verb,
and what goes with the verb. A value stands in the argument after its option or in the same one; one
hyphen may lead several short options, and two hyphens end the options. The first argument that is
out of place ends the reading, and so does an option that asks for help.

A value in an argument of its own is judged only when the next option turns up or the arguments of
its level are over.
-/

namespace SymbolDocs.CommandLine

/-- Why the arguments do not lead to any work. -/
inductive Stop
  /-- They are not understood. -/
  | misuse
  | helpAsked
  | versionAsked
deriving DecidableEq, Repr

/-! ### Reading one level -/

/-- What was read of one level. -/
structure Reading where
  /-- The options with their values, in order. -/
  uses : List (Key × String) := []
  /-- The words that are no options. -/
  words : List String := []
  /-- An option whose value is still to come, or has come and is not judged yet. -/
  pending : Option (Form × Option String) := none
deriving Repr

namespace Reading

/-- The option was used. -/
def has (r : Reading) (key : Key) : Bool :=
  r.uses.any (·.1 = key)

/-- The value of an option. -/
def value? (r : Reading) (key : Key) : Option String :=
  r.uses.lookup key

/-- All values of an option. -/
def values (r : Reading) (key : Key) : List String :=
  r.uses.filterMap fun (k, value) => if k = key then some value else none

/-- The next argument is the value of an option, unless it looks like an option itself. -/
def isWaiting (r : Reading) : Bool :=
  match r.pending with
  | some (_, none) => true
  | _ => false

/-- Takes in an option with its value, if that is admitted. -/
def judge (r : Reading) (form : Form) (value : String) : Except Stop Reading :=
  match form.key with
  | .help => .error .helpAsked
  | .version => .error .versionAsked
  | key =>
    if (!form.repeatable && r.has key) || !key.admits value then .error .misuse
    else .ok { r with uses := r.uses ++ [(key, value)] }

/-- Takes in the option that is pending. -/
def settle (r : Reading) : Except Stop Reading :=
  match r.pending with
  | none => .ok r
  | some (_, none) => .error .misuse
  | some (form, some value) => judge { r with pending := none } form value

/-- An option with all that belongs to it. -/
def use (r : Reading) (form : Form) (value : String) : Except Stop Reading := do
  (← r.settle).judge form value

/-- An option whose value is in the next argument. -/
def expect (r : Reading) (form : Form) : Except Stop Reading := do
  return { (← r.settle) with pending := some (form, none) }

/-- A word that is no option. -/
def word (r : Reading) (level : Option Verb) (text : String) : Except Stop Reading := do
  let r ← r.settle
  match level with
  | none => throw .misuse
  | some verb =>
    if r.words.length < verb.slots && verb.admits text then
      return { r with words := r.words ++ [text] }
    else throw .misuse

/-- An argument without hyphens: the value that is waited for, or a word. -/
def plain (r : Reading) (level : Option Verb) (text : String) : Except Stop Reading :=
  match r.pending with
  | some (form, none) => .ok { r with pending := some (form, some text) }
  | _ => r.word level text

/-- An argument with two hyphens, which stand before `body`. -/
def long (r : Reading) (level : Option Verb) (body : List Char) : Except Stop Reading :=
  let name := String.ofList (body.takeWhile (· ≠ '='))
  match (Form.at? level).find? (·.long = name), body.dropWhile (· ≠ '=') with
  | none, _ => .error .misuse
  | some form, [] => if form.valued then r.expect form else r.use form ""
  | some form, _ :: value =>
    if form.valued then r.use form (String.ofList value) else .error .misuse

/-- An argument with one hyphen: short options, of which the last one may have a value. -/
def short (level : Option Verb) : List Char → Reading → Except Stop Reading
  | [], r => .ok r
  | c :: rest, r =>
    match (Form.at? level).find? (·.short = some c) with
    | none => .error .misuse
    | some form =>
      if form.valued then
        match rest with
        | [] => r.expect form
        | '=' :: value => r.use form (String.ofList value)
        | value => r.use form (String.ofList value)
      else do short level rest (← r.use form "")

/-- Reads the arguments of a level; before the verb, up to it. Answers the verb and the arguments
after it. -/
def ofArguments (level : Option Verb) (r : Reading) :
    List String → Except Stop (Reading × Option (Verb × List String))
  | [] => .ok (r, none)
  | argument :: rest =>
    match if level = none ∧ r.isWaiting = false then Verb.ofWord? argument else none with
    | some verb => .ok (r, some (verb, rest))
    | none =>
      match argument.toList with
      | ['-', '-'] => do return (← rest.foldlM (fun r text => r.word level text) r, none)
      | '-' :: '-' :: body => do ofArguments level (← r.long level body) rest
      | '-' :: c :: body => do ofArguments level (← short level (c :: body) r) rest
      | _ => do ofArguments level (← r.plain level argument) rest

end Reading

/-! ### What is asked for -/

/-- What a run of the generator is asked for. How many workers there are to be is checked where it is
read, and not kept: it does not change what they come to. -/
structure GenerateOptions where
  selection : Selection := {}
  overrides : Overrides := {}
  outputPath : Option Path := none
  combined : Bool := false
  snippets : Bool := true
  emitPlan : Bool := false
deriving Repr, Inhabited

/-- The work to be done. -/
inductive Task
  | generate (options : GenerateOptions)
  | targets
  | completions
deriving Repr

/-- What the command line asks for. -/
structure Arguments where
  verbose : Bool := false
  colour : Bool := true
  manifest : Option Path := none
  task : Task
deriving Repr

namespace GenerateOptions

/-- What is said about extension blocks. -/
def extensionBlocks (r : Reading) : Option Bool :=
  if r.has .includeExtended then some true
  else if r.has .excludeExtended then some false
  else none

/-- The options that were read. -/
def ofReading (r : Reading) : GenerateOptions where
  selection := { products := r.values .product, targets := r.values .target }
  overrides :=
    { minimumAccessLevel := (r.value? .accessLevel).bind AccessLevel.ofName?
      skipSynthesized := r.has .skipSynthesized
      extensionBlocks := extensionBlocks r }
  outputPath := (r.value? .output).map Path.mk
  combined := r.has .combined
  snippets := !r.has .noSnippets
  emitPlan := r.has .emitPlan

end GenerateOptions

/-- The task that was read after a verb. -/
def Task.ofReading (verb : Verb) (r : Reading) : Except Stop Task :=
  if r.words.length ≠ verb.slots then .error .misuse
  else
    match verb with
    | .generate =>
      if r.has .includeExtended && r.has .excludeExtended then .error .misuse
      else .ok (.generate (GenerateOptions.ofReading r))
    | .targets => .ok .targets
    | .completions => .ok .completions
    | .help => .error .misuse

/-- The words after `help` are one verb at most. -/
def helpOn (words : List String) : Stop :=
  match words with
  | [] => .helpAsked
  | [text] => if (Verb.ofWord? text).isSome then .helpAsked else .misuse
  | _ => .misuse

/-- What the arguments ask for. An option that stands both before and after the verb counts as it
stands after it. -/
def Arguments.parse (arguments : List String) : Except Stop Arguments := do
  match ← Reading.ofArguments none {} arguments with
  | (_, none) => throw .misuse
  | (_, some (.help, words)) => throw (helpOn words)
  | (before, some (verb, rest)) =>
    let (after, _) ← Reading.ofArguments (some verb) {} rest
    let after ← after.settle
    let task ← Task.ofReading verb after
    let before ← before.settle
    return {
      verbose := before.has .verbose || after.has .verbose
      colour := !(before.has .noColour || after.has .noColour)
      manifest := (after.value? .manifest <|> before.value? .manifest).map Path.mk
      task }

end SymbolDocs.CommandLine
