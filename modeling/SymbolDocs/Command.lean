import SymbolDocs.Act

/-!
# Running tools

The program of a command is looked up from the directory in which the command is to run; a name
without a slash is searched for where the host searches. The output is taken in as a whole.
-/

namespace SymbolDocs

/-- What a tool has said and how it ended. -/
structure Output where
  status : ExitStatus
  stdout : ByteArray
  stderr : ByteArray

namespace Command

/-! ### Finding the program -/

/-- The directories of a search path. -/
def searchDirectories (searchPath : String) : List Path :=
  (searchPath.toList.splitOn ':').map fun s => ⟨String.ofList s⟩

/-- What a file does when it is run. -/
def load (host : Host) (files : FileTree) (directory : Place) (path : Path) :
    Except IoError Program := do
  match ← files.stat directory path with
  | .file content true =>
    match host.program? content with
    | some program => .ok program
    | none => .error .notAProgram
  | _ => .error .accessDenied

/-- The first program of the name in some directories. A file of the name that is no program is
reported only if there is no program further on. -/
def search (host : Host) (files : FileTree) (directory : Place) (name : String)
    (reported : IoError) : List Path → Except IoError (String × Program)
  | [] => .error reported
  | dir :: rest =>
    let path := if dir.text = "" then ⟨name⟩ else dir.entry name
    match load host files directory path with
    | .ok program => .ok (path.text, program)
    | .error .accessDenied => search host files directory name .accessDenied rest
    | .error .notAProgram => .error .notAProgram
    | .error _ => search host files directory name reported rest

/-- The program of a command, as it is found from a directory. -/
def find (c : Command) (host : Host) (files : FileTree) (directory : Place) :
    Except IoError (String × Program) :=
  if c.program.text = "" then .error .notFound
  else if c.program.hasSlash then do
    return (c.program.text, ← load host files directory c.program)
  else search host files directory c.program.text .notFound (searchDirectories host.searchPath)

/-- The directory in which a command runs. -/
def place (c : Command) (host : Host) (files : FileTree) : Except IoError Place :=
  match c.directory with
  | none => .ok host.directory
  | some dir => do
    let p ← files.resolve host.directory dir
    match ← files.entryAt p with
    | .directory => .ok p
    | _ => .error .notADirectory

/-- The command holds a text that no program can be given. -/
def hasNul (c : Command) : Bool :=
  c.program.hasNul || c.arguments.any fun a => a.toList.contains '\x00'

/-- What a command does. -/
def launch (c : Command) (host : Host) (files : FileTree) : Except IoError Completion :=
  if c.hasNul then .error .nulInCommand
  else do
    let directory ← c.place host files
    let (name, program) ← c.find host files directory
    return program ⟨name, c.arguments, directory⟩ files

/-! ### Running it -/

/-- Runs a command. -/
def run (c : Command) : Act Output := do
  Act.emit (.launch c)
  match c.launch (← read) (← Act.files) with
  | .error cause => Work.fail (.io ⟨.spawn c.program, cause⟩)
  | .ok completion =>
    modify fun w => { w with files := completion.files }
    return ⟨completion.status, completion.stdout, completion.stderr⟩

/-- Runs a command that has to end well. -/
def check (c : Command) : Act Output := do
  let output ← c.run
  if output.status.succeeded then return output
  Work.fail (.toolFailed c.line output.status (Text.decodeLossy output.stderr))

end Command

/-! ### Looking tools up -/

namespace Tool

/-- The name of the generator, if no other is set. -/
def generatorName : String := "symbolgraph-extract"

/-- The name of the snippet extractor, if no other is set. -/
def extractorName : String := "snippet-extract"

/-- The text of a component in a path. -/
def componentPath : Path.Component → Path
  | .root => ⟨"/"⟩
  | .here => ⟨"."⟩
  | .up => ⟨".."⟩
  | .name s => ⟨s⟩

/-- A path with more components after it. -/
def extend (p : Path) (components : List Path.Component) : Path :=
  components.foldl (fun p c => p.join (componentPath c)) p

/-- A path seen from the root, with `base` for the current directory. -/
def absolute (base : Place) (p : Path) : Path :=
  if p.isAbsolute then p
  else extend base.path (p.components.dropWhile (· = .here))

/-- A directory of a search path, in which a leading tilde is the home of the user. -/
def withoutTilde (home dir : Path) : Path :=
  match dir.components with
  | .name "~" :: rest => extend home rest
  | _ => dir

/-- A file that may be run. -/
def isExecutable (files : FileTree) (base : Place) (p : Path) : Bool :=
  match files.stat base p with
  | .ok (.file _ executable) => executable
  | _ => false

/-- Where a tool may be. -/
def candidates (host : Host) (name : Path) : List Path :=
  if 1 < name.components.length then [absolute host.directory name]
  else
    (Command.searchDirectories host.searchPath).map fun dir =>
      (withoutTilde host.home dir).join name

/-- The tool of a name. -/
def find (host : Host) (files : FileTree) (name : Path) : Option Path :=
  (candidates host name).find? (isExecutable files host.directory)

/-- The tool that is set, or the one of the default name. A tool that is set by a path is not looked
up. -/
def resolve (host : Host) (files : FileTree) (configured : Option Path) (defaultName : String) :
    Option Path :=
  match configured with
  | none => find host files ⟨defaultName⟩
  | some path => if 1 < path.components.length then some path else find host files path

end Tool

end SymbolDocs
