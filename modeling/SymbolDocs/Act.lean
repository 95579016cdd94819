import SymbolDocs.Command.Basic
import SymbolDocs.Failure
import SymbolDocs.Text.Utf8

/-!
# Acts

Work that reads and changes files, runs programs and tells the user what it does. An act is
performed on a host, from a state of the world, and leaves a state of the world whether it succeeds
or not. What a program does is a property of the host: a program is a function of its arguments and
the files, so that all acts are functions too.
-/

namespace SymbolDocs

/-! ### Programs -/

/-- How a program is called. -/
structure Invocation where
  /-- The name by which the program was found. -/
  program : String
  arguments : List String
  /-- The directory in which it runs. -/
  directory : Place

/-- What a program leaves. -/
structure Completion where
  files : FileTree
  status : ExitStatus
  stdout : ByteArray := .empty
  stderr : ByteArray := .empty

/-- What a program does. -/
abbrev Program := Invocation → FileTree → Completion

/-! ### Messages -/

/-- The importance of an event. -/
inductive Level
  | error
  | warn
  | info
  | debug
deriving DecidableEq, Repr

/-- The word for a level. -/
def Level.word : Level → String
  | .error => "ERROR"
  | .warn => "WARN"
  | .info => "INFO"
  | .debug => "DEBUG"

/-- What an act tells: an event for the log, the start of a command, or text on one of the two
outputs. -/
inductive Emission
  | event (level : Level) (text : String)
  | launch (command : Command)
  | out (text : String)
  | err (text : String)
deriving DecidableEq, Repr

/-- What an emission is in the log. -/
def Emission.logged? : Emission → Option (Level × String)
  | .event level text => some (level, text)
  | .launch command => some (.debug, "running `" ++ command.line ++ "`")
  | .out _ | .err _ => none

/-! ### Hosts and worlds -/

/-- Where acts are performed. -/
structure Host where
  /-- The current directory. -/
  directory : Place
  /-- The home of the user. -/
  home : Path
  /-- Where programs are searched for, as a text with colons. -/
  searchPath : String
  /-- What a file does when it is run, if it is a program. -/
  program? : ByteArray → Option Program

/-- What acts change. -/
structure World where
  files : FileTree
  /-- What has been told so far. -/
  emissions : List Emission := []

/-- Why an act ends before its end. -/
inductive Halt
  | failed (failure : Failure)
  /-- A defect shows; the message says which. -/
  | crashed (message : String)

/-- An act has ended because of a defect. -/
def Halt.isCrash {α : Type} : Except Halt α → Bool
  | .error (.crashed _) => true
  | _ => false

/-- Work on a host that changes a state of the type `σ`. -/
abbrev Work (σ : Type) := ReaderT Host (ExceptT Halt (StateM σ))

/-- Work on the world. -/
abbrev Act := Work World

/-! ### Going on and giving up -/

namespace Work

variable {σ α : Type}

/-- The outcome of work and the state it leaves. -/
def perform (work : Work σ α) (host : Host) (s : σ) : Except Halt α × σ :=
  ((work.run host).run.run s).run

/-- Ends in a failure. -/
def fail (cause : Cause) : Work σ α :=
  throw (.failed { cause })

/-- Goes on with a value, or ends in the failure that an error is. -/
def ofExcept {ε : Type} (cause : ε → Cause) : Except ε α → Work σ α
  | .ok a => return a
  | .error e => fail (cause e)

/-- Says what work is for, should it fail. -/
def inside (purpose : String) (work : Work σ α) : Work σ α :=
  tryCatch work fun
    | .failed failure => throw (.failed (failure.inside purpose))
    | .crashed message => throw (.crashed message)

/-- Work that succeeds always, and answers how the given work ended. -/
def attempt (work : Work σ α) : Work σ (Except Halt α) :=
  tryCatch (do return .ok (← work)) fun halt => return .error halt

/-- Ends as other work has ended. -/
def ofOutcome : Except Halt α → Work σ α
  | .ok a => return a
  | .error halt => throw halt

end Work

namespace Act

/-! ### Telling -/

/-- Tells something. -/
def emit (e : Emission) : Act Unit :=
  modify fun w => { w with emissions := w.emissions ++ [e] }

/-- Tells an event. -/
def log (level : Level) (text : String) : Act Unit :=
  emit (.event level text)

/-! ### Files -/

/-- The files as they are. -/
def files : Act FileTree :=
  return (← get).files

/-- The current directory. -/
def here : Act Place :=
  return (← read).directory

/-- An edit of the files, seen from the current directory. -/
def edit {α : Type} (work : Place → Edit α) : Act α := do
  let (outcome, files) := (work (← here)).apply (← files)
  modify fun w => { w with files }
  Work.ofExcept .io outcome

/-- The text of a file. -/
def readText (attempt : Attempt) (path : Path) : Act String := do
  let files ← files
  match files.read (← here) path with
  | .error cause => Work.fail (.io ⟨attempt, cause⟩)
  | .ok bytes =>
    match Text.decode? bytes with
    | some text => return text
    | none => Work.fail (.io ⟨attempt, .notText⟩)

end Act

end SymbolDocs
