import SymbolDocs.Path

/-!
# Commands

A command names a program, its arguments, and the directory in which it is to run.
-/

namespace SymbolDocs

/-- A call of a tool. -/
structure Command where
  program : Path
  arguments : List String := []
  directory : Option Path := none
deriving DecidableEq, Repr

namespace Command

/-- The command as one line. -/
def line (c : Command) : String :=
  " ".intercalate (c.program.text :: c.arguments)

end Command

end SymbolDocs
