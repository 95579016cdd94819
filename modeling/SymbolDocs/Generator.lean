import SymbolDocs.Command
import SymbolDocs.GraphOptions
import SymbolDocs.Scratch

/-!
# Symbol graph generators

A generator makes the symbol graphs of a target and answers in which directory they are. The one
that is used for documentation is an external program: it is started in the package's directory,
with a directory to write to that has just been emptied.
-/

namespace SymbolDocs

/-- Makes the symbol graphs of a target. -/
abbrev Generator := Package → Target → GraphOptions → Act Path

namespace Generator

/-- How the external program is called. -/
def command (program : Path) (capabilities : Capabilities) (package : Package) (target : Target)
    (options : GraphOptions) (outputDir : Path) : Command where
  program
  arguments :=
    ["--package-path", package.root.text, "--target", target.name,
     "--output-dir", outputDir.text] ++ options.arguments capabilities
  directory := some package.root

/-- The external program as a generator. -/
def ofProgram (program : Path) (scratch : Scratch) (capabilities : Capabilities) : Generator :=
  fun package target options => do
    let dir := scratch.targetGraphs target
    Act.edit fun base => Edit.resetDir base dir
    let _ ← Work.inside ("failed to generate symbol graphs for `" ++ target.name ++ "`")
      (command program capabilities package target options dir).check
    return dir

end Generator

end SymbolDocs
