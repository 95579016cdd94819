import SymbolDocs.CommandLine
import SymbolDocs.Shell.Machine

/-!
# The program

Runs the command line on a small machine that holds one package. The manifest of the package is read
from the standard input.
-/

namespace SymbolDocs

/-- Where the package is. -/
def packagePlace : Place := ["package"]

/-- The files of a machine with a package that has the given manifest. -/
def filesWith (manifest : String) : FileTree :=
  (Shell.startFiles.putAt packagePlace .directory).putAt (packagePlace ++ [manifestName])
    (.file manifest.toUTF8 false)

/-- The text of a stream up to its end, after what was read already. -/
partial def readAll (input : IO.FS.Stream) (done : String) : IO String := do
  let line ← input.getLine
  if line.isEmpty then return done
  readAll input (done ++ line)

end SymbolDocs

/-- Runs the command line with the arguments of the program. -/
def main (arguments : List String) : IO UInt32 := do
  let manifest ← SymbolDocs.readAll (← IO.getStdin) ""
  let host := SymbolDocs.Shell.machine SymbolDocs.packagePlace ⟨"/"⟩ SymbolDocs.Shell.searchPath
  let (transcript, _) :=
    SymbolDocs.CommandLine.invoke host (SymbolDocs.filesWith manifest) arguments
  (← IO.getStdout).putStr transcript.stdout
  (← IO.getStderr).putStr transcript.stderr
  return transcript.exitCode.toUInt32
