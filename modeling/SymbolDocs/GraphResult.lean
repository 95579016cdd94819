import SymbolDocs.Path

/-!
# Results of symbol graph generation

What a target's documentation reads: the generator's directory as it is, or a directory that holds a
copy of it beside the graph of the package's snippets.
-/

namespace SymbolDocs

/-- Where the symbol graphs of a target are. -/
inductive GraphResult
  | single (dir : Path)
  | unified (unifiedDir targetGraphsDir : Path) (snippetGraph : Option Path)
deriving DecidableEq, Repr, Inhabited

namespace GraphResult

/-- The one directory to be read. -/
def inputDir : GraphResult → Path
  | .single dir => dir
  | .unified dir _ _ => dir

/-- The copied snippet graph, if there is one. -/
def snippetGraph : GraphResult → Option Path
  | .single _ => none
  | .unified _ _ snippetGraph => snippetGraph

end GraphResult

end SymbolDocs
