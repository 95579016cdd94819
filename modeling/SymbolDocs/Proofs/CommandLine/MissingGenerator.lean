import SymbolDocs.Proofs.Batch.Causes
import SymbolDocs.Proofs.CommandLine.Refused
import SymbolDocs.Proofs.Config.Precedence
import SymbolDocs.Proofs.Workspace.Arguments

/-! # The generator that is not found

Documenting a selection looks for the generator when the workspace is open, the selection is accepted
and the settings are read (`perform_generate_selected`). It is the only thing that fails with a
diagnostic (`fails_documentWith`), which names what was looked for. The settings do not tell where
they come from, so the diagnostic points at the project's file whenever it is there. -/

namespace SymbolDocs.CommandLine

open Work Batch

variable {manifest : Option Path} {colour : Bool} {options : GenerateOptions} {host : Host}
  {w w' : World} {ws : Workspace} {config : Config}

/-! ### The parts of the command -/

/-- Reading a workspace fails for the manifest's sake. -/
theorem fails_openWorkspace (manifest : Option Path) :
    FailsWith Cause.Undiagnosed (openWorkspace manifest) := by
  have hload : ∀ path, FailsWith Cause.Undiagnosed (Workspace.load path) := by
    intro path
    unfold Workspace.load Workspace.loadPackage Workspace.loadManifest
    have hparse : ∀ e, Cause.Undiagnosed (.ofReadError e) := by
      rintro (fault | fault) <;> trivial
    refine FailsWith.bind (FailsWith.bind ?_ fun _ => .ofExcept (fun _ => trivial) _) fun _ => .pure _
    exact (Act.fails_readText (fun _ => trivial) _ _).bind fun _ => (FailsWith.ofExcept hparse _).inside _
  unfold openWorkspace
  rcases manifest with _ | path
  · refine Act.fails_here.bind fun here => FailsWith.bind ?_ fun path =>
      (Act.fails_log _ _).bind fun _ => hload path
    unfold Workspace.findManifest
    refine Act.fails_files.bind fun _ => Act.fails_here.bind fun _ => ?_
    split
    · exact .pure _
    · exact .fail trivial
  · exact (FailsWith.pure path).bind fun path => (Act.fails_log _ _).bind fun _ => hload path

theorem perform_findGenerator (ws : Workspace) (config : Config) (host : Host) (w : World) :
    (findGenerator ws config).perform host w =
      match Tool.resolve host w.files config.generator Tool.generatorName with
      | some program => (.ok program, w)
      | none => (.error (.failed { cause := .diagnostic (missingGenerator ws config.generator
          (w.files.isFile host.directory ws.config)) }), w) := by
  unfold findGenerator
  rw [perform_bind, Act.perform_files]
  simp only
  rw [perform_bind, perform_read]
  simp only
  rcases Tool.resolve host w.files config.generator Tool.generatorName with _ | program <;> rfl

/-- The extractor that is found is the external program, and a missing one is no failure. -/
theorem findExtractor_cases (ws : Workspace) (config : Config) (wanted colour : Bool) (host : Host)
    (w : World) :
    ∃ extractor, ((findExtractor ws config wanted colour).perform host w).1 = .ok extractor ∧
      ∀ x, extractor = some x → ∃ program, x = .ofProgram program config.snippetsIn ws.scratch := by
  unfold findExtractor
  split_ifs
  · exact ⟨none, rfl, nofun⟩
  rw [perform_bind, Act.perform_files]
  simp only
  rw [perform_bind, perform_read]
  simp only
  rcases Tool.resolve host w.files config.extractor Tool.extractorName with _ | program
  swap
  · exact ⟨_, rfl, fun x hx => ⟨program, (Option.some.inj hx).symm⟩⟩
  refine ⟨none, ?_, nofun⟩
  simp only
  rw [perform_bind, Extractor.perform_sources]
  simp only
  split_ifs <;> rfl

/-- What is left to be done once there is a generator. -/
def documentWith (ws : Workspace) (config : Config) (colour : Bool) (options : GenerateOptions)
    (program : Path) : Act Unit := do
  Act.log .debug ("using generator " ++ program.text)
  let extractor ← findExtractor ws config options.snippets colour
  let generator := Generator.ofProgram program ws.scratch config.capabilities
  let plan ← (Batch.run ws generator extractor (options.request config.capabilities)).toAct
  announce ws plan options.emitPlan

/-- Once there is a generator, no diagnostic is the outcome. -/
theorem fails_documentWith (ws : Workspace) (config : Config) (colour : Bool)
    (options : GenerateOptions) (program : Path) :
    FailsWith Cause.Undiagnosed (documentWith ws config colour options program) := by
  unfold documentWith
  refine (Act.fails_log _ _).bind fun _ => fun host w failure he => ?_
  obtain ⟨extractor, hfound, hprogram⟩ :=
    findExtractor_cases ws config options.snippets colour host w
  rw [perform_bind] at he
  rcases hx : (findExtractor ws config options.snippets colour).perform host w with ⟨o, w1⟩
  rw [hx] at he hfound
  obtain rfl : o = .ok extractor := hfound
  refine FailsWith.bind (Job.fails_toAct ?_) (fun plan => ?_) host w1 failure he
  · refine fails_run (fun _ => trivial) (fun _ => trivial) (fun _ => trivial)
      (fun target options => ?_) (fun target x hx => ?_) _
    · exact Generator.fails_ofProgram (fun _ => trivial) (fun _ _ _ => trivial) _ _ _ _ _ _
    · obtain ⟨program, rfl⟩ := hprogram x hx
      exact Extractor.fails_extract (fun _ => trivial) (fun _ _ _ => trivial) _ _ _ _
  · unfold announce
    split_ifs
    · exact Act.fails_emit _
    · exact (FailsWith.forIn (fun _ _ => (Act.fails_emit _).bind fun _ => .pure _) _ _).bind
        fun _ => Act.fails_emit _

/-! ### The lookup of the generator -/

/-- When the selection is accepted, the settings are read and the generator is looked for. -/
theorem perform_generate_selected {requested : List Target}
    (hopen : (openWorkspace manifest).perform host w = (.ok ws, w'))
    (hselect : options.selection.resolveOrDefault ws.package = .ok requested) (colour : Bool) :
    ∃ path config ofUser ofProject, usedManifest manifest host w.files = some path ∧
      Config.Layered w.files host.directory (some (Config.userFile host.home)) ws.config config
        ofUser ofProject ∧
      (generate manifest colour options).perform host w =
        (findGenerator ws config >>= documentWith ws config colour options).perform host
          { w with emissions := w.emissions ++
              refusalEvents path ws.package options.selection ++ ofUser ++ ofProject } := by
  obtain ⟨path, hused, rfl⟩ := openWorkspace_ok hopen
  obtain ⟨config, ofUser, ofProject, hload, hlayered⟩ :=
    Config.perform_loadLayers (some (Config.userFile host.home)) ws.config host
      { w with emissions := w.emissions ++ refusalEvents path ws.package options.selection }
  have htold : w.emissions ++ [manifestEvent path] ++ (Selection.expansionLines ws.package
      options.selection.products).map (.event .debug) =
      w.emissions ++ refusalEvents path ws.package options.selection := by
    simp [refusalEvents, expansionEvents]
  refine ⟨path, config, ofUser, ofProject, hused, hlayered, ?_⟩
  unfold generate
  rw [perform_bind, hopen]
  simp only
  rw [perform_bind, perform_select, hselect]
  simp only [Except.mapError, htold]
  rw [perform_bind, perform_read]
  simp only
  rw [perform_bind, hload]
  rfl

/-- **The report that there is no generator.** Documenting a selection fails with a diagnostic only
when the workspace is open, the selection is accepted, and the tool that the settings name, or the
usual one if they name none, is not found; the files are left as they are, and no command is started.
The diagnostic names the tool that was looked for.

It points at the project's settings just if they are a file and a tool is set. Then either this file
sets the tool that was looked for, or it sets none, be it silent about it or broken, and the user's
file is the one that sets it. -/
theorem generate_diagnosed {failure : Failure} {d : Diagnostic}
    (h : (generate manifest colour options).perform host w = (.error (.failed failure), w'))
    (hd : failure.cause = .diagnostic d) :
    ∃ ws opened requested config path ofUser ofProject,
      ((openWorkspace manifest).perform host w = (.ok ws, opened) ∧
        options.selection.resolveOrDefault ws.package = .ok requested ∧
        Config.Layered w.files host.directory (some (Config.userFile host.home)) ws.config config
          ofUser ofProject ∧
        Tool.resolve host w.files config.generator Tool.generatorName = none ∧
        w' = { w with emissions := w.emissions ++
          refusalEvents path ws.package options.selection ++ ofUser ++ ofProject }) ∧
      d.message = "symbol graph generator `" ++
        (config.generator.map Path.text).getD "symbolgraph-extract" ++ "` not found" ∧
      (∀ location, d.location = some location ↔ location = ws.config ∧
        w.files.isFile host.directory ws.config = true ∧ config.generator ≠ none) ∧
      ∀ location, d.location = some location → ∃ program, config.generator = some program ∧
        (Config.Sets w.files host.directory location .generator program ∨
          (∀ other, ¬ Config.Sets w.files host.directory location .generator other) ∧
          Config.Sets w.files host.directory (Config.userFile host.home) .generator program) := by
  rcases hopen : (openWorkspace manifest).perform host w with ⟨halt | ws, opened⟩
  · unfold generate at h
    rw [perform_bind, hopen] at h
    cases h
    have := fails_openWorkspace manifest host w failure (by rw [hopen])
    rw [hd] at this
    exact this.elim
  rcases hselect : options.selection.resolveOrDefault ws.package with e | requested
  · obtain ⟨path, -, hgenerate⟩ := perform_generate_of_error hopen hselect colour
    rw [hgenerate] at h
    cases h
    cases hd
  obtain ⟨path, config, ofUser, ofProject, -, hlayered, hgenerate⟩ :=
    perform_generate_selected hopen hselect colour
  rw [hgenerate, perform_bind, perform_findGenerator] at h
  simp only at h
  rcases hresolve : Tool.resolve host w.files config.generator Tool.generatorName with _ | program
  swap
  · -- what comes after the lookup fails for other causes
    rw [hresolve] at h
    have := fails_documentWith ws config colour options program host _ failure
      (congrArg Prod.fst h)
    rw [hd] at this
    exact this.elim
  rw [hresolve] at h
  cases h
  cases hd
  have hlocation : ∀ location, (missingGenerator ws config.generator
      (w.files.isFile host.directory ws.config)).location = some location ↔ location = ws.config ∧
        w.files.isFile host.directory ws.config = true ∧ config.generator ≠ none := by
    intro location
    unfold missingGenerator
    rcases config.generator with _ | program <;>
      rcases w.files.isFile host.directory ws.config <;> simp [eq_comm]
  refine ⟨ws, opened, requested, config, path, ofUser, ofProject,
    ⟨rfl, hselect, hlayered, hresolve, rfl⟩, rfl, hlocation, fun location hl => ?_⟩
  obtain ⟨rfl, -, hset⟩ := (hlocation location).mp hl
  obtain ⟨program, hprogram⟩ := Option.ne_none_iff_exists'.mp hset
  refine ⟨program, hprogram, ?_⟩
  rcases (hlayered.get .generator program).mp hprogram with hs | ⟨hnone, _, ⟨⟩, hs⟩
  · exact .inl hs
  · exact .inr ⟨hnone, hs⟩

/-- The diagnostic with which work has failed. -/
def diagnosed? : Except Halt Unit → Option Diagnostic
  | .error (.failed ⟨_, .diagnostic d⟩) => some d
  | _ => none

theorem diagnosed?_eq_some {o : Except Halt Unit} {d : Diagnostic} (h : diagnosed? o = some d) :
    ∃ failure, o = .error (.failed failure) ∧ failure.cause = .diagnostic d := by
  rcases o with (⟨context, cause⟩ | message) | ⟨⟩
  · cases cause <;> cases h
    exact ⟨_, rfl, rfl⟩
  · cases h
  · cases h

/-- A host whose user has a home, and on which nothing is a program. -/
def homeHost : Host :=
  { bareHost with home := ⟨"/h"⟩ }

/-- The small package, with settings of the project that name no generator, while those of the user
do. -/
def layeredFiles : FileTree :=
  let home := (smallFiles.put [] "h" .directory).put ["h"] ".graphdoc" .directory
  let user := home.put ["h", ".graphdoc"] "config.toml"
    (.file (Text.encode "generator.program = 'g'") false)
  (user.put [] ".graphdoc" .directory).put [".graphdoc"] "config.toml"
    (.file (Text.encode "build.jobs = 2") false)

/-- The report points at the settings of the project, which do not name the generator. -/
theorem generate_diagnosed_elsewhere : ∃ failure d w' program,
    (generate (some ⟨"Graphdoc.toml"⟩) false {}).perform homeHost { files := layeredFiles } =
      (.error (.failed failure), w') ∧
    failure.cause = .diagnostic d ∧
    d.message = "symbol graph generator `" ++ Path.text program ++ "` not found" ∧
    d.location = some ⟨"./.graphdoc/config.toml"⟩ ∧
    (∀ other, ¬ Config.Sets layeredFiles [] ⟨"./.graphdoc/config.toml"⟩ .generator other) ∧
    Config.Sets layeredFiles [] ⟨"/h/.graphdoc/config.toml"⟩ .generator program := by
  rcases hrun : (generate (some ⟨"Graphdoc.toml"⟩) false {}).perform homeHost
    { files := layeredFiles } with ⟨o, w'⟩
  have hd : diagnosed? o = some (missingGenerator smallWorkspace (some ⟨"g"⟩) true) := by
    rw [show o = _ from (congrArg Prod.fst hrun).symm]
    decide +kernel
  obtain ⟨failure, rfl, hcause⟩ := diagnosed?_eq_some hd
  obtain ⟨ws, opened, requested, config, path, ofUser, ofProject, -, hmessage, -, hpoints⟩ :=
    generate_diagnosed hrun hcause
  have hproject : Config.Holds layeredFiles [] ⟨"./.graphdoc/config.toml"⟩ { jobs := some 2 } :=
    Config.loaded_eq_ok_iff.mp (eq_ok_of_toOption (by decide +kernel))
  have hnone : ∀ other,
      ¬ Config.Sets layeredFiles [] ⟨"./.graphdoc/config.toml"⟩ .generator other := by
    intro other hs
    cases (Config.Sets.iff_get hproject).mp hs
  obtain ⟨program, hprogram, hs | ⟨-, hs⟩⟩ := hpoints ⟨"./.graphdoc/config.toml"⟩ (by decide +kernel)
  · exact absurd hs (hnone program)
  · exact ⟨failure, _, w', program, rfl, hcause, by rw [hmessage, hprogram]; rfl, by decide +kernel,
      hnone, hs⟩

end SymbolDocs.CommandLine
