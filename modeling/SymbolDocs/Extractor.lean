import SymbolDocs.Command
import SymbolDocs.Scratch
import SymbolDocs.Session

/-!
# Snippet extractors

An extractor makes a graph of a package's snippets and answers where it is, if there is one. The
external program is run at most once for each package name: an answer is kept and given again. A
graph from an earlier run never passes for a new one, because it is removed before the program
starts.
-/

namespace SymbolDocs

/-- Answers where the snippet graph is that goes with a target. -/
structure Extractor where
  answer : Package → Target → Act (Option Path)
  /-- An answer is kept for the other targets of a package. -/
  keeps : Bool := false

namespace Extractor

/-- The snippet files of a package. -/
def sources (directory : String) (package : Package) : Act (List Path) :=
  return (← Act.files).listFiles (← Act.here) (package.root.entry directory)

/-- How the external program is called. -/
def command (program : Path) (package : Package) (output : Path) (sources : List Path) :
    Command where
  program
  arguments :=
    ["--output", output.text, "--module-name", package.name] ++ sources.map Path.text
  directory := some package.root

/-- Makes the graph of a package's snippets. -/
def extract (program : Path) (directory : String) (scratch : Scratch) (package : Package) :
    Act (Option Path) := do
  let files ← sources directory package
  if files.isEmpty then
    Act.log .debug ("no snippets found for `" ++ package.name ++ "`")
    return none
  let output := scratch.snippetGraph package.name
  Act.edit fun base => do
    Edit.ensureDir base scratch.snippetGraphs
    Edit.removeFile base output
  Act.log .info
    ("Extracting " ++ toString files.length ++ " snippet(s) for `" ++ package.name ++ "`")
  let _ ← Work.inside ("failed to extract snippets for `" ++ package.name ++ "`")
    (command program package output files).check
  if (← Act.files).isFile (← Act.here) output then return some output
  Act.log .debug ("snippet extractor produced no output for `" ++ package.name ++ "`")
  return none

/-- The external program as an extractor. -/
def ofProgram (program : Path) (directory : String) (scratch : Scratch) : Extractor where
  answer package _ := extract program directory scratch package
  keeps := true

/-- An extractor that knows its answer. -/
def answering (graph : Option Path) : Extractor where
  answer _ _ := return graph

/-- An extractor that fails. -/
def failing (message : String) : Extractor where
  answer _ _ := Work.fail (.told message)

/-- The answer for a target, kept if the extractor keeps its answers. A failure is not kept: the
next target tries again. -/
def ask (extractor : Extractor) (package : Package) (target : Target) : Job (Option Path) := do
  if !extractor.keeps then extractor.answer package target
  else
    match (← get).snippetGraphs.lookup package.name with
    | some kept =>
      Act.log .debug
        ("reusing snippet graph of `" ++ package.name ++ "` for `" ++ target.name ++ "`")
      return kept
    | none =>
      let graph ← extractor.answer package target
      modify fun s => { s with snippetGraphs := (package.name, graph) :: s.snippetGraphs }
      return graph

end Extractor

end SymbolDocs
