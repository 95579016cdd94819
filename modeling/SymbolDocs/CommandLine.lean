import SymbolDocs.Batch
import SymbolDocs.Command
import SymbolDocs.CommandLine.Arguments
import SymbolDocs.CommandLine.Transcript
import SymbolDocs.Config.Load

/-!
# The command line

Two tasks are done on a workspace: to list what can be documented, and to document a selection. What
is wrong with the selection is reported before settings are read or tools are looked up. A task that
fails ends with the number one and says why; arguments that are not understood end with two.
-/

namespace SymbolDocs.CommandLine

/-- The name and version of the program. -/
def title : String := "graphdoc 0.1.0"

/-- Opens the workspace of the manifest that is asked for, or of the nearest one. -/
def openWorkspace (manifest : Option Path) : Act Workspace := do
  let path ← match manifest with
    | some path => pure path
    | none => Workspace.findManifest (← Act.here).path
  Act.log .debug ("using manifest " ++ path.text)
  Workspace.load path

/-! ### Listing targets -/

/-- Lines as a text. -/
def lines (ls : List String) : String :=
  String.join (ls.map (· ++ "\n"))

/-- The lines about the targets of a package. -/
def targetLines (package : Package) : List String :=
  match package.documentable with
  | [] => ["    (none)"]
  | targets => targets.map fun t => "    " ++ t.name ++ " (" ++ t.kind.name ++ ")"

/-- The line about a product. -/
def productLine (package : Package) (product : Product) : String :=
  match package.documentableMembers product with
  | [] => "    " ++ product.name ++ " (no documentable targets)"
  | members => "    " ++ product.name ++ ": " ++ ", ".intercalate (members.map Target.name)

/-- The lines about the products of a package, if it has any. -/
def productLines (package : Package) : List String :=
  match package.products with
  | [] => []
  | products => ["", "Products:"] ++ products.map (productLine package)

/-- What can be documented in a package. -/
def overview (package : Package) : String :=
  lines ([toString package, "", "Documentable targets:"] ++ targetLines package ++
    productLines package)

/-- Lists what can be documented. -/
def listTargets (manifest : Option Path) : Act Unit := do
  let ws ← openWorkspace manifest
  Act.emit (.out (overview ws.package))

/-! ### Tools -/

/-- What is said if there is no generator. A setting that names it is pointed at. -/
def missingGenerator (ws : Workspace) (configured : Option Path) (settingsThere : Bool) :
    Diagnostic where
  message := "symbol graph generator `" ++ (configured.map Path.text).getD Tool.generatorName ++
    "` not found"
  suggestions :=
    ["Install `symbolgraph-extract` or set `generator.program` in .graphdoc/config.toml"]
  location := if configured.isSome && settingsThere then some ws.config else none

/-- What is said if there are snippets and no extractor. -/
def missingExtractor (directory : Path) : Diagnostic where
  severity := .warning
  message := "snippet extractor `" ++ Tool.extractorName ++ "` not found, snippets are skipped"
  suggestions := ["Install it, set `snippets.extractor`, or pass --no-snippets"]
  location := some directory

/-- The generator that the settings name, or the usual one. -/
def findGenerator (ws : Workspace) (config : Config) : Act Path := do
  let files ← Act.files
  match Tool.resolve (← read) files config.generator Tool.generatorName with
  | some program => return program
  | none =>
    Work.fail (.diagnostic
      (missingGenerator ws config.generator (files.isFile (← Act.here) ws.config)))

/-- The extractor that the settings name, or the usual one, if snippets are wanted. -/
def findExtractor (ws : Workspace) (config : Config) (wanted colour : Bool) :
    Act (Option Extractor) := do
  if !wanted || !config.snippetsEnabled then return none
  let files ← Act.files
  match Tool.resolve (← read) files config.extractor Tool.extractorName with
  | some program => return some (Extractor.ofProgram program config.snippetsIn ws.scratch)
  | none =>
    if (← Extractor.sources config.snippetsIn ws.package).isEmpty then
      Act.log .debug "snippet extractor not found, skipping snippets"
    else
      Act.emit (.err ((missingExtractor (ws.root.entry config.snippetsIn)).format colour))
    return none

/-! ### Documenting -/

/-- The line about an entry of a plan. -/
def finishedLine (entry : PlannedTarget) : String :=
  "    Finished `" ++ entry.name ++ "` -> " ++ entry.symbolGraphDir.text ++ "\n"

/-- Tells about a plan: as it is kept, or in lines for the user. -/
def announce (ws : Workspace) (plan : Plan) (emitPlan : Bool) : Act Unit := do
  if emitPlan then Act.emit (.out (plan.text ++ "\n"))
  else
    for entry in plan.targets do
      Act.emit (.err (finishedLine entry))
    Act.emit (.err ("        Plan " ++ ws.scratch.plan.text ++ "\n"))

/-- What is asked of a generator that is able to do this and that. -/
def GenerateOptions.request (options : GenerateOptions) (capabilities : Capabilities) :
    Request where
  selection := options.selection
  overrides := options.overrides
  capabilities
  outputPath := options.outputPath
  combined := options.combined

/-- Documents a selection. -/
def generate (manifest : Option Path) (colour : Bool) (options : GenerateOptions) : Act Unit := do
  let ws ← openWorkspace manifest
  let _ ← Batch.select ws.package options.selection
  let config ← Config.loadLayers (some (Config.userFile (← read).home)) ws.config
  let program ← findGenerator ws config
  Act.log .debug ("using generator " ++ program.text)
  let extractor ← findExtractor ws config options.snippets colour
  let generator := Generator.ofProgram program ws.scratch config.capabilities
  let plan ← (Batch.run ws generator extractor (options.request config.capabilities)).toAct
  announce ws plan options.emitPlan

/-! ### The whole -/

/-- Does what the arguments ask for. The scripts for completion are left to others. -/
def perform (a : Arguments) : Act Unit :=
  match a.task with
  | .generate options => generate a.manifest a.colour options
  | .targets => listTargets a.manifest
  | .completions => return ()

/-- What is said about a failure. -/
def report (display : Display) (failure : Failure) : String :=
  match failure.cause with
  | .selection error => error.diagnostic.format display.colour
  | .diagnostic d => d.format display.colour
  | .noManifest start =>
    ({ message := Cause.message (.noManifest start)
       suggestions := ["Create a Graphdoc.toml describing the package targets"] :
      Diagnostic}).format display.colour
  | _ =>
    "error: " ++ failure.message ++ "\n" ++
      (if display.verbose then ""
       else "\nhelp: Run `graphdoc --verbose generate` for more details\n")

/-- The number that a run ends with. -/
def exitCode : Except Halt Unit → Nat
  | .ok () => 0
  | .error (.failed _) => 1
  | .error (.crashed _) => 101

/-- What is said at the end of a run. -/
def farewell (display : Display) : Except Halt Unit → String
  | .ok () => ""
  | .error (.failed failure) => report display failure
  | .error (.crashed message) => message ++ "\n"

/-- The transcript of a run. -/
def transcript (display : Display) (outcome : Except Halt Unit) (emissions : List Emission) :
    Transcript where
  exitCode := exitCode outcome
  stdout := Display.stdout emissions
  stderr := display.stderr emissions ++ farewell display outcome

/-- Runs the command line on a host with files; answers what there is to see and the files left. -/
def invoke (host : Host) (files : FileTree) (arguments : List String) : Transcript × FileTree :=
  match Arguments.parse arguments with
  | .error .misuse => ({ exitCode := 2 }, files)
  | .error .helpAsked => ({ exitCode := 0 }, files)
  | .error .versionAsked => ({ exitCode := 0, stdout := title ++ "\n" }, files)
  | .ok a =>
    let (outcome, world) := (perform a).perform host { files }
    (transcript { verbose := a.verbose, colour := a.colour } outcome world.emissions, world.files)

end SymbolDocs.CommandLine
