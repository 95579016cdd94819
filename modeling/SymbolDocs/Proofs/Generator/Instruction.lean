import SymbolDocs.Proofs.Batch.Pass
import SymbolDocs.Proofs.Workspace.Arguments

/-! # What a generator's program is told

The arguments of a command are read back from the left to the right: what stands after a flag that
has a value is its value, whatever it looks like (`Reading.read`). Read so, the arguments for a target
say where the package is, which target is meant, where to write, and all options but one: a generator
that has no notion of extension blocks is told nothing about them, and what it is not told to include
it leaves out (`GraphOptions.told`, `read_command`). -/

namespace SymbolDocs

namespace GraphOptions

/-- The options as a generator learns of them. -/
def told (options : GraphOptions) (capabilities : Capabilities) : GraphOptions :=
  { options with
    includeExtensionBlocks := capabilities.extensionBlocks && options.includeExtensionBlocks }

/-- The options are learnt as they are, unless extension blocks are wanted and cannot be asked for. -/
theorem told_eq_iff {options : GraphOptions} {capabilities : Capabilities} :
    options.told capabilities = options ↔
      capabilities.extensionBlocks = true ∨ options.includeExtensionBlocks = false := by
  obtain ⟨level, synthesized, blocks⟩ := options
  simp only [told, mk.injEq, true_and]
  cases capabilities.extensionBlocks <;> cases blocks <;> simp

end GraphOptions

/-- What the arguments of a generator's program say. -/
structure Instruction where
  packagePath : String
  target : String
  outputDir : String
  options : GraphOptions
deriving DecidableEq, Repr

/-- What has been read of some arguments. -/
structure Reading where
  packagePath : Option String := none
  target : Option String := none
  outputDir : Option String := none
  level : Option AccessLevel := none
  skipsSynthesized : Bool := false
  emitsExtensionBlocks : Bool := false

namespace Reading

/-- A flag without a value is read. -/
def withSwitch? (r : Reading) (flag : String) : Option Reading :=
  if flag = "--skip-synthesized-members" then some { r with skipsSynthesized := true }
  else if flag = "--emit-extension-block-symbols" then some { r with emitsExtensionBlocks := true }
  else if flag = "--omit-extension-block-symbols" then some { r with emitsExtensionBlocks := false }
  else none

/-- A flag is read with its value. -/
def withValue? (r : Reading) (flag value : String) : Option Reading :=
  if flag = "--package-path" then some { r with packagePath := some value }
  else if flag = "--target" then some { r with target := some value }
  else if flag = "--output-dir" then some { r with outputDir := some value }
  else if flag = "--minimum-access-level" then
    (AccessLevel.ofName? value).map fun level => { r with level := some level }
  else none

/-- Reads arguments from the left to the right. -/
def read (r : Reading) : List String → Option Reading
  | [] => some r
  | flag :: rest =>
    match r.withSwitch? flag with
    | some r => r.read rest
    | none =>
      match rest with
      | [] => none
      | value :: rest => (r.withValue? flag value).bind fun r => r.read rest

/-- The instruction, if nothing is missing. -/
def instruction? (r : Reading) : Option Instruction := do
  return {
    packagePath := ← r.packagePath
    target := ← r.target
    outputDir := ← r.outputDir
    options :=
      { minimumAccessLevel := ← r.level
        includeSynthesized := !r.skipsSynthesized
        includeExtensionBlocks := r.emitsExtensionBlocks } }

variable {r r' : Reading} {flag value : String} {rest : List String}

theorem read_value (hflag : r.withSwitch? flag = none) (h : r.withValue? flag value = some r') :
    r.read (flag :: value :: rest) = r'.read rest := by
  rw [read.eq_def]
  simp only [hflag, h, Option.bind_some]

end Reading

namespace Instruction

/-- What some arguments say, if a generator can read them. -/
def read (arguments : List String) : Option Instruction :=
  (Reading.read {} arguments).bind Reading.instruction?

/-- What is told about a target of a workspace. -/
def about (ws : Workspace) (request : Request) (target : Target) : Instruction where
  packagePath := ws.root.text
  target := target.name
  outputDir := (ws.scratch.targetGraphs target).text
  options := (GraphOptions.settle target ws.package request.overrides request.capabilities).told
    request.capabilities

end Instruction

theorem AccessLevel.ofName?_name (level : AccessLevel) : ofName? level.name = some level := by
  cases level <;> decide

/-- What is left to read when the level has been read. -/
theorem GraphOptions.read_switches (options : GraphOptions) (capabilities : Capabilities)
    (r : Reading) (hskips : r.skipsSynthesized = false) (hemits : r.emitsExtensionBlocks = false) :
    r.read ((if options.includeSynthesized then [] else ["--skip-synthesized-members"]) ++
      (if capabilities.extensionBlocks then
        [if options.includeExtensionBlocks then "--emit-extension-block-symbols"
         else "--omit-extension-block-symbols"]
      else [])) =
      some { r with
        skipsSynthesized := !options.includeSynthesized
        emitsExtensionBlocks := (options.told capabilities).includeExtensionBlocks } := by
  obtain ⟨level, synthesized, blocks⟩ := options
  obtain ⟨path, target, dir, level', skips, emits⟩ := r
  cases hskips
  cases hemits
  unfold told
  cases synthesized <;> cases capabilities.extensionBlocks <;> cases blocks <;> rfl

/-- **What the program is told**, read back from its arguments. Neither the path of the package nor the
name of the target is taken for a flag. -/
theorem Generator.read_command (program : Path) (capabilities : Capabilities) (package : Package)
    (target : Target) (options : GraphOptions) (dir : Path) :
    Instruction.read (command program capabilities package target options dir).arguments =
      some ⟨package.root.text, target.name, dir.text, options.told capabilities⟩ := by
  have hlevel : ∀ r : Reading, r.withValue? "--minimum-access-level"
      options.minimumAccessLevel.name =
        some { r with level := some options.minimumAccessLevel } := by
    intro r
    simp [Reading.withValue?, AccessLevel.ofName?_name]
  unfold Instruction.read command GraphOptions.arguments
  simp only [List.cons_append, List.nil_append]
  rw [Reading.read_value rfl rfl, Reading.read_value rfl rfl, Reading.read_value rfl rfl,
    Reading.read_value rfl (hlevel _), GraphOptions.read_switches _ _ _ rfl rfl]
  simp [Reading.instruction?, GraphOptions.told]

end SymbolDocs
