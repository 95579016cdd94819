import SymbolDocs.Path
import SymbolDocs.Target

/-!
# The scratch directory

Where a run puts what it makes. The directories of a target carry its name and its identifier, so
that targets worked on at the same time do not meet.
-/

namespace SymbolDocs

/-- A scratch directory. -/
structure Scratch where
  dir : Path
deriving DecidableEq, Repr, Inhabited

namespace Scratch

/-- Beside the copied snippet graph, the copy of a target's own graphs. -/
def targetCopyName : String := "target-symbol-graphs"

/-- All symbol graphs. -/
def symbolGraphs (s : Scratch) : Path :=
  s.dir.entry "symbol-graphs"

/-- The graphs that the generator makes of a target. -/
def targetGraphs (s : Scratch) (target : Target) : Path :=
  (s.symbolGraphs.entry "targets").entry target.dirName

/-- The graphs that the extractor makes of snippets. -/
def snippetGraphs (s : Scratch) : Path :=
  s.symbolGraphs.entry "snippet-symbol-graphs"

/-- The graph of a package's snippets. -/
def snippetGraph (s : Scratch) (packageName : String) : Path :=
  s.snippetGraphs.entry (packageName ++ "-snippets.symbols.json")

/-- A target's graphs together with the snippet graph. -/
def unified (s : Scratch) (target : Target) : Path :=
  (s.symbolGraphs.entry "unified-symbol-graphs").entry target.dirName

/-- The archives, unless another place is asked for. -/
def docs (s : Scratch) : Path :=
  s.dir.entry "docs"

/-- The documentation plan. -/
def plan (s : Scratch) : Path :=
  s.dir.entry "docs-plan.json"

end Scratch

end SymbolDocs
