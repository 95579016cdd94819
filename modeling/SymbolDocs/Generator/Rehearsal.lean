import SymbolDocs.Generator

/-!
# Rehearsed generators

A generator that does what it is told to do for each target, to try out what happens around it.
-/

namespace SymbolDocs.Generator

/-- What a rehearsed generator does for a target. -/
inductive Cue
  /-- It fails. -/
  | fail (message : String)
  /-- A defect shows. -/
  | crash (message : String)
  /-- It names a directory and leaves it alone. -/
  | name
  /-- It writes files with these paths into its directory. -/
  | write (files : List (Path × String))
  /-- It writes one file with the target's name. -/
  | module

/-- The files that a target gets if nothing else is said. -/
def usualFiles (target : Target) : List (Path × String) :=
  [(⟨target.name ++ ".symbols.json"⟩, "\x7b\"module\":\"" ++ target.name ++ "\"\x7d")]

/-- Writes files into a directory. -/
def deliver (dir : Path) (files : List (Path × String)) : Act Path := do
  Act.edit fun base => do
    Edit.ensureDir base dir
    files.forM fun (path, text) => Edit.writeText base (dir.join path) text
  return dir

/-- A generator that puts its directories beside each other below `root`. -/
def rehearsed (root : Path) (cue : String → Cue) : Generator := fun _ target _ =>
  let dir := root.entry target.dirName
  match cue target.name with
  | .fail message => Work.fail (.told message)
  | .crash message => throw (.crashed message)
  | .name => return dir
  | .write files => deliver dir files
  | .module => deliver dir (usualFiles target)

end SymbolDocs.Generator
