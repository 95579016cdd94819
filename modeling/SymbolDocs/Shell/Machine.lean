import SymbolDocs.Shell.Runner

/-!
# A small machine

A host whose programs are shell scripts and the few tools that scripts call. A tool is a file that
says which one it is.
-/

namespace SymbolDocs.Shell

/-! ### Tools -/

/-- The directory of a path, as text. -/
def dirname (path : String) : String :=
  match (Path.mk path).parent with
  | none => if path.toList.head? = some '/' then "/" else "."
  | some dir => if dir.text = "" then "." else dir.text

/-- The text of a cause without the number by which the system knows it. -/
def reason (cause : IoError) : String :=
  match cause with
  | .notFound => "No such file or directory"
  | .alreadyExists => "File exists"
  | .notADirectory => "Not a directory"
  | cause => cause.message

/-- Makes a directory with the directories above it. -/
def makeDirectory (base : Place) (path : String) (files : FileTree) :
    Except IoError Unit × FileTree :=
  if path = "" then (.error .notFound, files)
  else
    match (Edit.ensureDir base ⟨path⟩).apply files with
    | (.ok (), files) => (.ok (), files)
    | (.error failure, files) => (.error failure.cause, files)

/-- Makes directories, and complains about each that cannot be made. -/
def makeDirectories (invocation : Invocation) (files : FileTree) : Completion :=
  (invocation.arguments.filter (· ≠ "-p")).foldl
    (fun c path =>
      match makeDirectory invocation.directory path c.files with
      | (.ok (), files) => { c with files }
      | (.error cause, files) =>
        { c with
          files
          status := .exited 1
          stderr := c.stderr ++ ("mkdir: cannot create directory '" ++ path ++ "': " ++
            reason cause ++ "\n").toUTF8 })
    { files, status := .exited 0 }

/-- The tools, each with the content of its file. -/
def tools : List (String × Program) :=
  [("tool mkdir\n", makeDirectories),
   ("tool dirname\n", fun invocation files =>
      { files
        status := .exited 0
        stdout := (dirname (invocation.arguments.headD "") ++ "\n").toUTF8 })]

/-- The tool that a file is. -/
def tool? (content : ByteArray) : Option Program :=
  (Text.decode? content).bind fun name => tools.lookup name

/-! ### The machine -/

/-- How scripts begin. -/
def scriptMark : List Char := "#!/bin/sh\n".toList

/-- What a file does when it is run, on a machine that searches for programs in `searchPath`. -/
def program? (searchPath : String) (content : ByteArray) : Option Program :=
  let text := Text.decodeLossy content
  if scriptMark.isPrefixOf text.toList then
    let find (files : FileTree) (directory : Place) (name : String) : Option Program :=
      let host : Host := { directory, home := ⟨"/"⟩, searchPath, program? := tool? }
      match (Command.mk ⟨name⟩ [] none).find host files directory with
      | .ok (_, program) => some program
      | .error _ => none
    some (program find text)
  else tool? content

/-- Where programs are searched for, if nothing else is said. -/
def searchPath : String := "/usr/local/bin:/usr/bin:/bin"

/-- A machine seen from a directory. -/
def machine (directory : Place) (home : Path) (searchPath : String) : Host :=
  { directory, home, searchPath, program? := program? searchPath }

/-- The files of a machine that has nothing but its tools. -/
def startFiles : FileTree :=
  FileTree.empty
    |>.putAt ["tmp"] .directory
    |>.putAt ["usr"] .directory
    |>.putAt ["usr", "local"] .directory
    |>.putAt ["usr", "local", "bin"] .directory
    |>.putAt ["usr", "bin"] .directory
    |>.putAt ["usr", "bin", "dirname"] (.file "tool dirname\n".toUTF8 true)
    |>.putAt ["usr", "bin", "mkdir"] (.file "tool mkdir\n".toUTF8 true)
    |>.putAt ["bin"] (.link ⟨"usr/bin"⟩)

end SymbolDocs.Shell
