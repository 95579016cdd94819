import SymbolDocs.Extractor
import SymbolDocs.GraphResult

/-!
# Unified symbol graphs

The documentation compiler reads one directory. If there is a snippet graph, a target gets a unified
directory that holds a copy of its own graphs and a copy of the snippet graph, and nothing else;
what is copied stays as it is. Without a snippet graph the generator's directory is read as it is.
-/

namespace SymbolDocs.Unifier

/-- Where the copy of a target's graphs goes. -/
def graphsCopy (scratch : Scratch) (target : Target) : Path :=
  (scratch.unified target).entry Scratch.targetCopyName

/-- Empties the unified directory of a target. -/
def reset (scratch : Scratch) (target : Target) : Act Unit :=
  Act.edit fun base => Edit.resetDir base (scratch.unified target)

/-- Copies a target's own graphs into its unified directory. -/
def copyGraphs (scratch : Scratch) (target : Target) (graphs : Path) : Act Unit :=
  Act.edit fun base => Edit.copyTree base graphs (graphsCopy scratch target)

/-- Copies a snippet graph into the unified directory of a target, under its own name. -/
def copySnippet (scratch : Scratch) (target : Target) (graph : Path) : Act Path :=
  match graph.fileName with
  | none => Work.fail (.noFileName graph)
  | some name => do
    let copy := (scratch.unified target).entry name
    Act.edit fun base => Edit.copyFile base graph copy
    return copy

/-- Makes the unified directory of a target. -/
def merge (scratch : Scratch) (target : Target) (graphs snippetGraph : Path) : Act GraphResult := do
  Act.log .debug ("unifying symbol graphs for `" ++ target.name ++ "` into " ++
    (scratch.unified target).text)
  reset scratch target
  copyGraphs scratch target graphs
  let copy ← copySnippet scratch target snippetGraph
  return .unified (scratch.unified target) (graphsCopy scratch target) (some copy)

/-- The directory that the documentation of a target reads. -/
def unify (scratch : Scratch) (extractor : Option Extractor) (package : Package) (target : Target)
    (graphs : Path) : Job GraphResult := do
  match extractor with
  | none => return .single graphs
  | some extractor =>
    match ← extractor.ask package target with
    | none => return .single graphs
    | some snippetGraph => merge scratch target graphs snippetGraph

end SymbolDocs.Unifier
