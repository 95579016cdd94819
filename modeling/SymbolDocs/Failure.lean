import SymbolDocs.FileTree.Edit
import SymbolDocs.Manifest.Reader
import SymbolDocs.Selection.Error

/-!
# Failures

Why a piece of work failed: a cause, and what the work was for, from the outside to the inside.
-/

namespace SymbolDocs

/-- How a program ended. -/
inductive ExitStatus
  | exited (code : Nat)
  | killed
deriving DecidableEq, Repr, Inhabited

namespace ExitStatus

/-- The program ended well. -/
def succeeded : ExitStatus → Bool
  | .exited code => code = 0
  | .killed => false

/-- How messages show a status. -/
def shown : ExitStatus → String
  | .exited code => "Some(" ++ toString code ++ ")"
  | .killed => "None"

end ExitStatus

/-- The cause of a failure. -/
inductive Cause
  | io (failure : IoFailure)
  | toml (fault : Toml.Fault)
  | manifest (fault : ManifestFault)
  | selection (error : SelectionError)
  /-- No manifest lies in the directory or above it. -/
  | noManifest (start : Path)
  | diagnostic (d : Diagnostic)
  /-- A tool ended badly. -/
  | toolFailed (command : String) (status : ExitStatus) (stderr : String)
  /-- The path of a snippet graph does not end in a name. -/
  | noFileName (path : Path)
  /-- A cause that is known by its text only. -/
  | told (message : String)

/-- The name of manifests. -/
def manifestName : String := "Graphdoc.toml"

namespace Cause

/-- The text of a cause. -/
def message : Cause → String
  | .io failure => failure.message
  | .toml fault => fault.message
  | .manifest fault => fault.message
  | .selection error => error.message
  | .noManifest start =>
    "could not find `" ++ manifestName ++ "` in `" ++ start.text ++ "` or any parent directory"
  | .diagnostic d => d.format false
  | .toolFailed command status stderr =>
    "`" ++ command ++ "` failed with exit code " ++ status.shown ++ "\n" ++ stderr
  | .noFileName path => "snippet graph path has no file name: " ++ path.text
  | .told message => message

/-- The cause of an error in reading a manifest. -/
def ofReadError : Manifest.ReadError → Cause
  | .toml fault => .toml fault
  | .invalid fault => .manifest fault

end Cause

/-- A failed piece of work. -/
structure Failure where
  context : List String := []
  cause : Cause

namespace Failure

/-- The failure as a part of greater work. -/
def inside (f : Failure) (work : String) : Failure :=
  { f with context := work :: f.context }

/-- The text of a failure, from the outside to the inside. -/
def message (f : Failure) : String :=
  ": ".intercalate (f.context ++ [f.cause.message])

end Failure

end SymbolDocs
