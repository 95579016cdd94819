import SymbolDocs.Command
import SymbolDocs.Shell.Builtin
import SymbolDocs.Shell.Reader

/-!
# Running scripts

A script runs with the parameters it is called with and changes the files. Loops are bounded by
`fuel`, which every call of the runner uses up by one level.
-/

namespace SymbolDocs.Shell

/-- What a script runs in. -/
structure Setting where
  /-- The name by which the script was called. -/
  name : String
  directory : Place
  /-- The programs that the script may call. -/
  tool? : FileTree → Place → String → Option Program

/-- What a script changes. -/
structure State where
  files : FileTree
  /-- The values of variables. -/
  bindings : List (String × String) := []
  parameters : List String := []
  status : Nat := 0
  out : ByteArray := .empty
  err : ByteArray := .empty

/-- A part of a run; it may end the whole. -/
abbrev Run := ReaderT Setting (ExceptT ExitStatus (StateM State))

/-! ### Values -/

/-- The number by which the shell knows itself. -/
def processNumber : String := "1"

/-- The value of a variable or of a parameter. -/
def valueOf (setting : Setting) (s : State) (name : String) : String :=
  if name = "@" || name = "*" then " ".intercalate s.parameters
  else if name = "#" then toString s.parameters.length
  else if name = "?" then toString s.status
  else if name = "$" then processNumber
  else
    match name.toNat? with
    | some 0 => setting.name
    | some n => s.parameters.getD (n - 1) ""
    | none => (s.bindings.lookup name).getD ""

/-- Words that are being put together: those that are done, in reverse, and the one that is not. -/
structure Fields where
  done : List String := []
  open? : Option String := none

namespace Fields

/-- Text is added to the last word. -/
def add (f : Fields) (s : String) : Fields :=
  { f with open? := some (f.open?.getD "" ++ s) }

/-- The last word is done. -/
def close (f : Fields) : Fields :=
  match f.open? with
  | some s => ⟨s :: f.done, none⟩
  | none => f

/-- Text is added that is split at its blanks. -/
def addSplit (f : Fields) (s : String) : Fields :=
  s.toList.foldl
    (fun f c =>
      if c = ' ' || c = '\t' || c = '\n' then f.close else f.add (String.singleton c))
    f

/-- Several words are added, the first to the last word there is. -/
def addAll (f : Fields) : List String → Fields
  | [] => f
  | [s] => f.add s
  | s :: rest => addAll (f.add s).close rest

/-- All words. -/
def toList (f : Fields) : List String :=
  f.close.done.reverse

end Fields

/-- The text without the line ends at its end. -/
def trimLines (s : String) : String :=
  String.ofList (s.toList.reverse.dropWhile (· = '\n')).reverse

/-- A text matches a pattern of characters, of which a star stands for any text. -/
def matchesPattern : List (Bool × Char) → List Char → Bool
  | [], s => s.isEmpty
  | (false, '*') :: ps, s => (List.range (s.length + 1)).any fun n => matchesPattern ps (s.drop n)
  | (false, '?') :: ps, s => !s.isEmpty && matchesPattern ps (s.drop 1)
  | (_, c) :: ps, s => s.head? = some c && matchesPattern ps (s.drop 1)

/-! ### Outputs -/

/-- Where an output goes. -/
inductive Target
  | out
  | err
  | file (place : Place)
deriving DecidableEq

/-- The two outputs of a command. -/
structure Outputs where
  out : Target := .out
  err : Target := .err

/-- The outputs with the first one, or the second one, going elsewhere. -/
def Outputs.redirect (outputs : Outputs) (output : Nat) (target : Target) : Outputs :=
  if output = 1 then { outputs with out := target } else { outputs with err := target }

/-- Adds bytes to an output. -/
def writeTo (target : Target) (bytes : ByteArray) : Run Unit :=
  if bytes.isEmpty then pure ()
  else
    match target with
    | .out => modify fun s => { s with out := s.out ++ bytes }
    | .err => modify fun s => { s with err := s.err ++ bytes }
    | .file p => modify fun s =>
      match s.files.get? p with
      | some (.file content executable) =>
        { s with files := s.files.putAt p (.file (content ++ bytes) executable) }
      | _ => s

/-- A complaint of the shell. -/
def complain (line : Nat) (text : String) : Run Unit := do
  let name := (← read).name
  writeTo .err (name ++ ": " ++ toString line ++ ": " ++ text ++ "\n").toUTF8

/-- What the shell says when a file cannot be opened to be written. -/
def openComplaint (path : String) (cause : IoError) : String :=
  "cannot create " ++ path ++ ": " ++
    match cause with
    | .notFound | .notADirectory => "Directory nonexistent"
    | .isADirectory => "Is a directory"
    | .linkLoop => "Too many levels of symbolic links"
    | cause => cause.message

/-- Opens a file to be written. -/
def openFile (path : String) (append : Bool) : Run (Except IoError Place) := do
  let s ← get
  let directory := (← read).directory
  match s.files.openForWriting directory ⟨path⟩ with
  | .error cause => return .error cause
  | .ok p =>
    let entry := match s.files.get? p with
      | some (.file content executable) =>
        Entry.file (if append then content else .empty) executable
      | _ => .file .empty false
    set { s with files := s.files.putAt p entry }
    return .ok p

/-! ### Commands -/

/-- Gives up the first parameters. Without so many of them the script ends. -/
def shift (line count : Nat) : Run Unit := do
  let s ← get
  if s.parameters.length < count then
    complain line "shift: can't shift that many"
    throw (.exited 2)
  set { s with parameters := s.parameters.drop count }

/-- Runs a command that the shell does itself; the answer is its status and what it prints. -/
def builtin (line : Nat) (words : List String) : Run (Option (Nat × List UInt8)) := do
  let s ← get
  let directory := (← read).directory
  match words with
  | "echo" :: arguments => return some (0, echo arguments)
  | "printf" :: arguments => return some (0, printf arguments)
  | "pwd" :: _ => return some (0, (directory.path.text ++ "\n").toUTF8.toList)
  | "true" :: _ | ":" :: _ => return some (0, [])
  | "false" :: _ => return some (1, [])
  | "[" :: arguments =>
    return some (if test s.files directory arguments.dropLast then 0 else 1, [])
  | "test" :: arguments => return some (if test s.files directory arguments then 0 else 1, [])
  | "read" :: names =>
    set { s with bindings := names.map (·, "") ++ s.bindings }
    return some (1, [])
  | "shift" :: arguments =>
    shift line ((arguments.head?.bind String.toNat?).getD 1)
    return some (0, [])
  | "exit" :: arguments =>
    throw (.exited (((arguments.head?.bind String.toNat?).getD s.status) % 256))
  | ["kill", "-9", number] =>
    if number = processNumber then throw .killed else return some (1, [])
  | _ => return none

/-- Runs a command with its words and outputs known. -/
def command (line : Nat) (words : List String) (outputs : Outputs) : Run Nat := do
  match ← builtin line words with
  | some (status, bytes) =>
    writeTo outputs.out (ByteArray.mk bytes.toArray)
    return status
  | none =>
    let setting ← read
    let s ← get
    let name := words.headD ""
    match setting.tool? s.files setting.directory name with
    | none =>
      complain line (name ++ ": not found")
      return 127
    | some program =>
      let completion := program ⟨name, words.tail, setting.directory⟩ s.files
      set { s with files := completion.files }
      writeTo outputs.out completion.stdout
      writeTo outputs.err completion.stderr
      return match completion.status with
        | .exited code => code
        | .killed => 137

mutual

/-- Adds a part of a word to the words before it. -/
def expandPart : Nat → Fields → Part → Run Fields
  | 0, f, _ => return f
  | fuel + 1, f, part => do
    let setting ← read
    let s ← get
    match part with
    | .text _ text => return f.add text
    | .value quoted name =>
      if quoted && name = "@" then return f.addAll s.parameters
      let value := valueOf setting s name
      return if quoted then f.add value else f.addSplit value
    | .number quoted calculation =>
      let value := toString (calculate (valueOf setting s) calculation)
      return if quoted then f.add value else f.addSplit value
    | .output quoted script =>
      let value := trimLines (← capture fuel script)
      return if quoted then f.add value else f.addSplit value

/-- What a script prints that runs beside this one. -/
def capture : Nat → String → Run String
  | 0, _ => return ""
  | fuel + 1, script => do
    let s ← get
    match parse 1 script with
    | none => return ""
    | some is =>
      set { s with out := .empty }
      let status ← tryCatch (do runAll fuel is; return (← get).status) fun
        | .exited code => return code
        | .killed => return 137
      let after ← get
      set { s with files := after.files, err := after.err, status }
      return Text.decodeLossy after.out

/-- Adds the parts of a word to the words before it. -/
def expandParts : Nat → Fields → Word → Run Fields
  | 0, f, _ => return f
  | _ + 1, f, [] => return f
  | fuel + 1, f, part :: rest => do
    let f ← expandPart fuel f part
    expandParts fuel f rest

/-- The words that some words stand for. -/
def expandWords : Nat → Fields → List Word → Run (List String)
  | 0, f, _ => return f.toList
  | _ + 1, f, [] => return f.toList
  | fuel + 1, f, word :: rest => do
    let f ← expandParts fuel f word
    expandWords fuel f.close rest

/-- The text that a word stands for where it is not split. -/
def expandText : Nat → Word → Run String
  | 0, _ => return ""
  | fuel + 1, word => do return " ".intercalate (← expandParts fuel {} word).toList

/-- Opens the files of redirections; the answer says why one of them cannot be opened. -/
def redirectAll : Nat → Outputs → List Redirect → Run (Except String Outputs)
  | 0, outputs, _ => return .ok outputs
  | _ + 1, outputs, [] => return .ok outputs
  | fuel + 1, outputs, .copy output source :: rest => do
    let target := if source = 1 then outputs.out else outputs.err
    redirectAll fuel (outputs.redirect output target) rest
  | fuel + 1, outputs, .file output append word :: rest => do
    let path ← expandText fuel word
    match ← openFile path append with
    | .error cause => return .error (openComplaint path cause)
    | .ok p => redirectAll fuel (outputs.redirect output (.file p)) rest

/-- Gives values to variables. -/
def assignAll : Nat → List (String × Word) → Run Unit
  | 0, _ => return
  | _ + 1, [] => return
  | fuel + 1, (name, word) :: rest => do
    let value ← expandText fuel word
    modify fun s => { s with bindings := (name, value) :: s.bindings.filter (·.1 ≠ name) }
    assignAll fuel rest

/-- Runs instructions one after the other. -/
def runAll : Nat → List Instr → Run Unit
  | 0, _ => return
  | _ + 1, [] => return
  | fuel + 1, i :: rest => do
    runOne fuel i
    runAll fuel rest

/-- Runs an instruction. -/
def runOne : Nat → Instr → Run Unit
  | 0, _ => return
  | fuel + 1, i => do
    match i with
    | .simple line assignments words redirects =>
      let words ← expandWords fuel {} words
      match ← redirectAll fuel {} redirects with
      | .error complaint =>
        complain line complaint
        modify fun s => { s with status := 2 }
      | .ok outputs =>
        assignAll fuel assignments
        if words.isEmpty then
          modify fun s => { s with status := if assignments.isEmpty then s.status else 0 }
        else
          let status ← command line words outputs
          modify fun s => { s with status }
    | .both first second =>
      runOne fuel first
      if (← get).status = 0 then runOne fuel second
    | .either first second =>
      runOne fuel first
      if (← get).status ≠ 0 then runOne fuel second
    | .whileLoop condition body => runWhile fuel condition body 0
    | .forLoop name words body => do
      let words ← expandWords fuel {} words
      runFor fuel name body words
    | .choice word arms =>
      let text ← expandText fuel word
      runArms fuel text arms

/-- Runs a loop over a condition; `status` is that of its last round. -/
def runWhile : Nat → List Instr → List Instr → Nat → Run Unit
  | 0, _, _, _ => return
  | fuel + 1, condition, body, status => do
    runAll fuel condition
    if (← get).status = 0 then
      runAll fuel body
      runWhile fuel condition body (← get).status
    else
      modify fun s => { s with status }

/-- Runs a loop over words. -/
def runFor : Nat → String → List Instr → List String → Run Unit
  | 0, _, _, _ => return
  | _ + 1, _, _, [] => return
  | fuel + 1, name, body, word :: rest => do
    modify fun s => { s with bindings := (name, word) :: s.bindings.filter (·.1 ≠ name) }
    runAll fuel body
    runFor fuel name body rest

/-- Runs the first arm with a pattern that the text matches. -/
def runArms : Nat → String → List (List Word × List Instr) → Run Unit
  | 0, _, _ => return
  | _ + 1, _, [] => modify fun s => { s with status := 0 }
  | fuel + 1, text, (ps, body) :: rest => do
    if ← anyPattern fuel text ps then
      modify fun s => { s with status := 0 }
      runAll fuel body
    else runArms fuel text rest

/-- The text matches one of some patterns. -/
def anyPattern : Nat → String → List Word → Run Bool
  | 0, _, _ => return false
  | _ + 1, _, [] => return false
  | fuel + 1, text, p :: rest => do
    if matchesPattern (← pattern fuel p) text.toList then return true
    anyPattern fuel text rest

/-- The characters of a pattern, each with a mark that it stands for itself. -/
def pattern : Nat → Word → Run (List (Bool × Char))
  | 0, _ => return []
  | _ + 1, [] => return []
  | fuel + 1, part :: rest => do
    let quoted := match part with
      | .text q _ | .value q _ | .output q _ | .number q _ => q
    let text ← expandText fuel [match part with
      | .text _ s => .text true s
      | .value _ name => .value true name
      | .output _ script => .output true script
      | .number _ calculation => .number true calculation]
    return text.toList.map (quoted, ·) ++ (← pattern fuel rest)

end

/-- How many levels a run may use. -/
def runFuel : Nat := 100000

/-- The script as a program. -/
def program (tool? : FileTree → Place → String → Option Program) (script : String) :
    Program :=
  fun invocation files =>
    match parse 1 script with
    | none => { files, status := .exited 2 }
    | some is =>
      let setting : Setting := ⟨invocation.program, invocation.directory, tool?⟩
      let start : State := { files, parameters := invocation.arguments }
      let (outcome, s) := (((runAll runFuel is).run setting).run.run start).run
      let status := match outcome with
        | .ok () => .exited s.status
        | .error status => status
      { files := s.files, status, stdout := s.out, stderr := s.err }

end SymbolDocs.Shell
