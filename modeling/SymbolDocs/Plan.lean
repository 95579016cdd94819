import SymbolDocs.ArchiveLayout
import SymbolDocs.GraphOptions
import SymbolDocs.GraphResult
import SymbolDocs.Json

/-!
# Documentation plans

A plan tells the documentation compiler, for each requested target in the order of the request,
which directory to read and which archive to write. It is kept as JSON. What a plan does not have is
left out of the text, except that the snippet graph of a unified result is written as `null`.
-/

namespace SymbolDocs

/-- What a plan says about one requested target. -/
structure PlannedTarget where
  name : String
  id : String
  options : GraphOptions
  symbolGraphDir : Path
  snippetGraph : Option Path
  archiveDir : Path
  symbolGraphs : GraphResult
deriving DecidableEq, Repr

/-- A documentation plan. -/
structure Plan where
  package : String
  targets : List PlannedTarget := []
  combinedArchive : Option Path := none
deriving DecidableEq, Repr

/-- The entry for a target. -/
def PlannedTarget.of (layout : ArchiveLayout) (target : Target) (options : GraphOptions)
    (result : GraphResult) : PlannedTarget where
  name := target.name
  id := target.id
  options
  symbolGraphDir := result.inputDir
  snippetGraph := result.snippetGraph
  archiveDir := layout.archive target
  symbolGraphs := result

namespace Plan

/-- A plan for a package, with no entries yet. -/
def start (package : Package) (layout : ArchiveLayout) : Plan where
  package := package.name
  combinedArchive := layout.combined

/-! ### The text of a plan -/

/-- A path as a text. -/
def pathJson (p : Path) : Json :=
  .text p.text

/-- A field that is left out if it has no value. -/
def optionalField (key : String) : Option Path → List (String × Json)
  | none => []
  | some p => [(key, pathJson p)]

/-- Options as an object. -/
def optionsJson (o : GraphOptions) : Json :=
  .object
    [("minimum_access_level", .text o.minimumAccessLevel.name),
     ("include_synthesized", .boolean o.includeSynthesized),
     ("include_extension_blocks", .boolean o.includeExtensionBlocks)]

/-- A result as an object that begins with its kind. -/
def resultJson : GraphResult → Json
  | .single dir => .object [("kind", .text "single"), ("dir", pathJson dir)]
  | .unified dir graphs snippetGraph =>
    .object
      [("kind", .text "unified"), ("unified_dir", pathJson dir),
       ("target_graphs_dir", pathJson graphs),
       ("snippet_graph", (snippetGraph.map pathJson).getD .null)]

/-- An entry as an object. -/
def entryJson (e : PlannedTarget) : Json :=
  .object
    ([("name", .text e.name), ("id", .text e.id), ("options", optionsJson e.options),
      ("symbol_graph_dir", pathJson e.symbolGraphDir)] ++
     optionalField "snippet_graph" e.snippetGraph ++
     [("archive_dir", pathJson e.archiveDir), ("symbol_graphs", resultJson e.symbolGraphs)])

/-- A plan as an object. -/
def json (p : Plan) : Json :=
  .object
    ([("package", .text p.package), ("targets", .array (p.targets.map entryJson))] ++
     optionalField "combined_archive_dir" p.combinedArchive)

/-- The text of a plan. -/
def text (p : Plan) : String :=
  p.json.pretty

end Plan

end SymbolDocs
