import SymbolDocs.Proofs.Batch.Draft
import SymbolDocs.Proofs.Batch.Success
import SymbolDocs.Proofs.CommandLine.Messages
import SymbolDocs.Proofs.CommandLine.MissingGenerator
import SymbolDocs.Proofs.Workspace.Nearest

/-! # How documenting ends

Documenting a selection drafts a plan, keeps it, and then tells about it (`generate_eq_draft`).
Drafting does not crash and says nothing that could pass for what is told about a plan, so that the
number at the end, the two outputs and the file of the plan go together (`generate_exits`). -/

namespace SymbolDocs

open Work

namespace CommandLine

open Batch

/-! ### The command up to its plan -/

/-- Opens the workspace, finds the tools, and makes what the documentation of a selection needs;
answers the plan for it. -/
def draft (manifest : Option Path) (colour : Bool) (options : GenerateOptions) :
    Act (Workspace × Plan) := do
  let ws ← openWorkspace manifest
  let _ ← Batch.select ws.package options.selection
  let config ← Config.loadLayers (some (Config.userFile (← read).home)) ws.config
  let program ← findGenerator ws config
  Act.log .debug ("using generator " ++ program.text)
  let extractor ← findExtractor ws config options.snippets colour
  let generator := Generator.ofProgram program ws.scratch config.capabilities
  let plan ← (Batch.draft ws generator extractor (options.request config.capabilities)).toAct
  return (ws, plan)

/-- **Documenting a selection is to draft a plan, to keep it and to tell about it.** -/
theorem generate_eq_draft (manifest : Option Path) (colour : Bool) (options : GenerateOptions) :
    generate manifest colour options = (do
      let (ws, plan) ← draft manifest colour options
      announce ws (← Batch.keep ws plan) options.emitPlan) := by
  unfold generate draft
  simp only [run_eq_draft, Job.toAct_bind, bind_assoc, pure_bind]

/-- The extractor that is found is the external program, and looking for it only tells that it is
missing. -/
theorem perform_findExtractor_bind {β : Type} (ws : Workspace) (config : Config)
    (wanted colour : Bool) (f : Option Extractor → Act β) (host : Host) (w : World) :
    ∃ extractor w', (findExtractor ws config wanted colour >>= f).perform host w =
        (f extractor).perform host w' ∧
      (∀ d, Adds (Aside d) w.emissions w'.emissions) ∧
      ∀ x, extractor = some x → ∃ program, x = .ofProgram program config.snippetsIn ws.scratch := by
  obtain ⟨extractor, hfound, hprogram⟩ := findExtractor_cases ws config wanted colour host w
  have htells : ∀ d, Act.Tells (Aside d) (findExtractor ws config wanted colour) := by
    intro d
    unfold findExtractor
    split_ifs
    · exact Act.Tells.pure _
    refine Act.Tells.files.bind fun files => Act.Tells.read.bind fun host => ?_
    rcases Tool.resolve host files config.extractor Tool.extractorName with _ | program
    swap
    · exact Act.Tells.pure _
    refine Act.Tells.bind (fun _ w => .refl _ w.emissions) fun sources => ?_
    split_ifs
    · exact (Act.Tells.log (aside_event d _ _)).bind fun _ => Act.Tells.pure _
    · exact (Act.Tells.emit (aside_diagnostic d _ _)).bind fun _ => Act.Tells.pure _
  refine ⟨extractor, ((findExtractor ws config wanted colour).perform host w).2, ?_,
    fun d => htells d host w, hprogram⟩
  rw [perform_bind]
  rcases hx : (findExtractor ws config wanted colour).perform host w with ⟨o, w'⟩
  rw [hx] at hfound
  obtain rfl : o = .ok extractor := hfound
  rfl

/-! ### Nothing crashes before there is a plan -/

theorem sturdy_openWorkspace (manifest : Option Path) : Act.Sturdy (openWorkspace manifest) := by
  have hload : ∀ path, Act.Sturdy (Workspace.load path) := by
    intro path
    unfold Workspace.load Workspace.loadPackage Workspace.loadManifest
    refine Sturdy.bind (Sturdy.bind ?_ fun _ => .ofExcept _ _) fun _ => .pure _
    exact (Act.sturdy_readText _ _).bind fun _ => (Sturdy.ofExcept _ _).inside _
  unfold openWorkspace
  rcases manifest with _ | path
  · refine Act.sturdy_here.bind fun here => Sturdy.bind ?_ fun path =>
      (Act.sturdy_log _ _).bind fun _ => hload path
    intro host w _
    rw [Workspace.perform_findManifest]
    rcases Workspace.firstManifest w.files host.directory here.path.ancestors with _ | path <;>
      exact ⟨rfl, trivial⟩
  · exact (Sturdy.pure path).bind fun path => (Act.sturdy_log _ _).bind fun _ => hload path

theorem sturdy_findGenerator (ws : Workspace) (config : Config) :
    Act.Sturdy (findGenerator ws config) := by
  intro host w _
  rw [perform_findGenerator]
  rcases Tool.resolve host w.files config.generator Tool.generatorName with _ | program <;>
    exact ⟨rfl, trivial⟩

theorem sturdy_loadLayers (user : Option Path) (project : Path) :
    Act.Sturdy (Config.loadLayers user project) := by
  intro host w _
  obtain ⟨config, ofUser, ofProject, hload, -⟩ := Config.perform_loadLayers user project host w
  rw [hload]
  exact ⟨rfl, trivial⟩

/-- **The command does not crash before it has a plan.** -/
theorem sturdy_draft (manifest : Option Path) (colour : Bool) (options : GenerateOptions) :
    Act.Sturdy (draft manifest colour options) := by
  unfold draft
  refine (sturdy_openWorkspace manifest).bind fun ws => (sturdy_select _ _).bind fun _ => ?_
  refine Sturdy.read.bind fun host => (sturdy_loadLayers _ _).bind fun config => ?_
  refine (sturdy_findGenerator ws config).bind fun program => (Act.sturdy_log _ _).bind fun _ => ?_
  intro host w hw
  obtain ⟨extractor, w', hrun, -, hprogram⟩ :=
    perform_findExtractor_bind ws config options.snippets colour _ host w
  rw [hrun]
  refine Sturdy.bind (Job.sturdy_toAct (Batch.sturdy_draft ⟨fun target options => ?_,
    fun target x hx => ?_⟩ _)) (fun _ => .pure _) host w' trivial
  · exact Generator.sturdy_ofProgram _ _ _ _ _ _
  · obtain ⟨program, rfl⟩ := hprogram x hx
    exact Extractor.sturdy_extract _ _ _ _

/-! ### What is told before there is a plan -/

theorem tells_openWorkspace (d : Display) (manifest : Option Path) :
    Act.Tells (Aside d) (openWorkspace manifest) := by
  have hload : ∀ path, Act.Tells (Aside d) (Workspace.load path) := by
    intro path host w
    rw [Workspace.perform_load_snd]
    exact .refl _ w.emissions
  unfold openWorkspace
  rcases manifest with _ | path
  · refine Act.Tells.here.bind fun here => Act.Tells.bind ?_ fun path =>
      (Act.Tells.log (aside_event d _ _)).bind fun _ => hload path
    intro host w
    rw [Workspace.perform_findManifest]
    rcases Workspace.firstManifest w.files host.directory here.path.ancestors with _ | path <;>
      exact .refl _ w.emissions
  · exact (Act.Tells.pure path).bind fun path =>
      (Act.Tells.log (aside_event d _ _)).bind fun _ => hload path

theorem tells_findGenerator (d : Display) (ws : Workspace) (config : Config) :
    Act.Tells (Aside d) (findGenerator ws config) := by
  intro host w
  rw [perform_findGenerator]
  rcases Tool.resolve host w.files config.generator Tool.generatorName with _ | program <;>
    exact .refl _ w.emissions

theorem tells_loadLayers (d : Display) (user : Option Path) (project : Path) :
    Act.Tells (Aside d) (Config.loadLayers user project) := by
  intro host w
  obtain ⟨config, ofUser, ofProject, hload, hlayered⟩ :=
    Config.perform_loadLayers user project host w
  have hevents : ∀ {path es}, Config.Tells w.files host.directory path es →
      ∀ e ∈ es, Aside d e := by
    intro path es htells e he
    by_cases hbroken : Config.Broken w.files host.directory path
    · obtain ⟨failure, -, rfl⟩ := htells.1 hbroken
      obtain rfl := List.mem_singleton.mp he
      exact aside_event d _ _
    · rw [htells.2 hbroken] at he
      cases he
  have huser : ∀ e ∈ ofUser, Aside d e := by
    rcases user with _ | path
    · rw [hlayered.nowhere rfl]
      exact fun _ he => by cases he
    · exact hevents (hlayered.ofUser path rfl)
  rw [hload]
  exact (Adds.append huser).trans (Adds.append (hevents hlayered.ofProject))

/-- **Before it has a plan, the command tells nothing that is told about one.** -/
theorem tells_draft (d : Display) (manifest : Option Path) (colour : Bool)
    (options : GenerateOptions) : Act.Tells (Aside d) (draft manifest colour options) := by
  unfold draft
  refine (tells_openWorkspace d manifest).bind fun ws =>
    (tells_select (aside_event d _) _ _).bind fun _ => ?_
  refine Act.Tells.read.bind fun host => (tells_loadLayers d _ _).bind fun config => ?_
  refine (tells_findGenerator d ws config).bind fun program =>
    (Act.Tells.log (aside_event d _ _)).bind fun _ => ?_
  intro host w
  obtain ⟨extractor, w', hrun, hadds, hprogram⟩ :=
    perform_findExtractor_bind ws config options.snippets colour _ host w
  rw [hrun]
  refine (hadds d).trans (Act.Tells.bind (Job.Tells.toAct (Batch.tells_draft (aside_event d)
    ⟨fun target options => ?_, fun target x hx => ?_⟩ _)) (fun _ => Act.Tells.pure _) host w')
  · refine Generator.tells_ofProgram.imp ?_
    rintro _ rfl
    exact aside_launch d _
  · obtain ⟨program, rfl⟩ := hprogram x hx
    exact fun host v => Extractor.extract_adds (fun _ => aside_event d _ _)
      (fun _ => aside_event d _ _) (aside_launch d _)

/-! ### The run -/

/-- A run of the command comes to a plan for a workspace, and writes it: what it has told by then,
and what files it leaves. -/
structure Writes (host : Host) (files : FileTree) (manifest : Option Path) (colour : Bool)
    (options : GenerateOptions) (ws : Workspace) (plan : Plan) (told : World) (left : FileTree) :
    Prop where
  drafted : (draft manifest colour options).perform host { files } = (.ok (ws, plan), told)
  written : (Edit.writeText host.directory ws.scratch.plan plan.text).apply told.files =
    (.ok ⟨⟩, left)

section Run

variable {host : Host} {files left : FileTree} {manifest : Option Path} {colour : Bool}
  {options : GenerateOptions} {ws : Workspace} {plan : Plan} {told : World}

/-- A run that writes its plan succeeds, and tells about the plan in the end. -/
theorem Writes.perform (h : Writes host files manifest colour options ws plan told left) :
    (generate manifest colour options).perform host { files } =
      (.ok ⟨⟩, ⟨left, told.emissions ++ [documentedEvent plan] ++
        announcement ws plan options.emitPlan⟩) := by
  rw [generate_eq_draft, perform_bind, h.drafted]
  simp only
  rw [perform_bind, perform_keep, h.written]
  simp only
  rw [perform_announce]

theorem Writes.asides (h : Writes host files manifest colour options ws plan told left)
    (d : Display) : ∀ e ∈ told.emissions ++ [documentedEvent plan], Aside d e := by
  have htells := tells_draft d manifest colour options host { files }
  rw [h.drafted] at htells
  intro e he
  rcases List.mem_append.mp he with he | he
  · exact (htells.mem he).resolve_left List.not_mem_nil
  · rw [List.mem_singleton.mp he]
    exact aside_event d _ _

theorem Writes.stdout (h : Writes host files manifest colour options ws plan told left) :
    Display.stdout (told.emissions ++ [documentedEvent plan] ++
      announcement ws plan options.emitPlan) =
      if options.emitPlan then plan.text ++ "\n" else "" := by
  rw [stdout_append, stdout_asides (h.asides {}), stdout_announcement, String.empty_append]

theorem Writes.filter_messages (h : Writes host files manifest colour options ws plan told left)
    (d : Display) : (messages d (.ok ⟨⟩) (told.emissions ++ [documentedEvent plan] ++
      announcement ws plan options.emitPlan)).filter isFinished =
      if options.emitPlan then [] else plan.targets.map finishedLine := by
  unfold messages
  rw [List.map_append, List.filter_append, List.filter_append, filter_asides (h.asides d),
    filter_announcement, List.nil_append]
  exact List.append_nil _

/-- A run that does not write a plan fails, and what it has told is not about a plan. -/
theorem fails_of_not_writes (d : Display)
    (h : ¬ ∃ ws plan told left, Writes host files manifest colour options ws plan told left) :
    ∃ failure w, (generate manifest colour options).perform host { files } =
        (.error (.failed failure), w) ∧ ∀ e ∈ w.emissions, Aside d e := by
  have hsturdy := (sturdy_draft manifest colour options host { files } trivial).1
  have htells := tells_draft d manifest colour options host { files }
  rw [generate_eq_draft, perform_bind]
  rcases hdraft : (draft manifest colour options).perform host { files } with
    ⟨(failure | message) | ⟨ws, plan⟩, told⟩ <;> rw [hdraft] at hsturdy htells
  · exact ⟨failure, told, rfl, fun e he => (htells.mem he).resolve_left List.not_mem_nil⟩
  · cases hsturdy
  simp only
  rw [perform_bind, perform_keep]
  rcases hwrite : (Edit.writeText host.directory ws.scratch.plan plan.text).apply told.files with
    ⟨e | ⟨⟩, left⟩
  · exact ⟨_, _, rfl, fun e he => (htells.mem he).resolve_left List.not_mem_nil⟩
  · exact absurd ⟨ws, plan, told, left, hdraft, hwrite⟩ h

end Run

section Invoke

variable {arguments : List String} {a : Arguments} {options : GenerateOptions} {host : Host}
  {files left : FileTree} {ws : Workspace} {plan : Plan} {told : World}

/-- How the output is to look. -/
def Arguments.display (a : Arguments) : Display where
  verbose := a.verbose
  colour := a.colour

/-- What a run says on the second output, message by message. -/
def spoken (host : Host) (files : FileTree) (a : Arguments) : List String :=
  let (outcome, w) := (perform a).perform host { files }
  messages a.display outcome w.emissions

/-- What is seen of a run that has written a plan: the plan itself if it is asked for, and otherwise
a message for each of its entries and one about its file, after all else. -/
structure ShowsPlan (d : Display) (options : GenerateOptions) (ws : Workspace) (plan : Plan)
    (told : World) (shown : Transcript) (said : List String) : Prop where
  stdout : shown.stdout = if options.emitPlan then plan.text ++ "\n" else ""
  stderr : shown.stderr = d.stderr (told.emissions ++ [documentedEvent plan]) ++
    if options.emitPlan then "" else String.join (plan.targets.map finishedLine) ++ planLine ws
  finished : said.filter isFinished =
    if options.emitPlan then [] else plan.targets.map finishedLine

theorem invoke_generate {outcome : Except Halt Unit} {w : World}
    (hparse : Arguments.parse arguments = .ok a) (htask : a.task = .generate options)
    (hrun : (generate a.manifest a.colour options).perform host { files } = (outcome, w)) :
    invoke host files arguments = (transcript a.display outcome w.emissions, w.files) ∧
      spoken host files a = messages a.display outcome w.emissions := by
  have hperform : (perform a).perform host { files } = (outcome, w) := by
    unfold perform
    rw [htask]
    exact hrun
  unfold invoke spoken
  rw [hparse]
  simp only
  rw [hperform]
  exact ⟨rfl, rfl⟩

variable (hparse : Arguments.parse arguments = .ok a) (htask : a.task = .generate options)
include hparse htask

theorem Writes.invoke (h : Writes host files a.manifest a.colour options ws plan told left) :
    (invoke host files arguments).1.exitCode = 0 ∧ (invoke host files arguments).2 = left ∧
      ShowsPlan a.display options ws plan told (invoke host files arguments).1
        (spoken host files a) := by
  obtain ⟨hshown, hspoken⟩ := invoke_generate hparse htask h.perform
  rw [hshown, hspoken]
  refine ⟨rfl, rfl, h.stdout, ?_, h.filter_messages _⟩
  rw [← stderr_announcement, ← stderr_append]
  exact String.append_empty

theorem invoke_of_not_writes (h : ¬ ∃ ws plan told left,
      Writes host files a.manifest a.colour options ws plan told left) :
    (invoke host files arguments).1.exitCode = 1 ∧ (invoke host files arguments).1.stdout = "" ∧
      (spoken host files a).filter isFinished = [] := by
  obtain ⟨failure, w, hrun, hasides⟩ := fails_of_not_writes a.display h
  obtain ⟨hshown, hspoken⟩ := invoke_generate hparse htask hrun
  rw [hshown, hspoken]
  exact ⟨rfl, stdout_asides hasides, filter_messages_of_failed failure hasides⟩

end Invoke

/-- **How documenting ends.** The command drafts a plan, keeps it and tells about it. It ends with
zero or one, and with zero just if it has written the plan that it has drafted.
* If it has, the file of the plan holds its text. If the plan is asked for, the first output is this
  text and a newline, and no message is about a finished target; if not, the first output is empty,
  and the messages about finished targets are those about the entries of the plan, one for each
  entry, in the order of the plan.
* If it has not, the first output is empty, and no message is about a finished target.
The second output is made of the messages. -/
theorem generate_exits {arguments : List String} {a : Arguments} {options : GenerateOptions}
    (hparse : Arguments.parse arguments = .ok a) (htask : a.task = .generate options)
    (host : Host) (files : FileTree) :
    (generate a.manifest a.colour options = do
      let (ws, plan) ← draft a.manifest a.colour options
      announce ws (← Batch.keep ws plan) options.emitPlan) ∧
    ((invoke host files arguments).1.exitCode = 0 ∨ (invoke host files arguments).1.exitCode = 1) ∧
    ((invoke host files arguments).1.exitCode = 0 ↔ ∃ ws plan told left,
      Writes host files a.manifest a.colour options ws plan told left) ∧
    (∀ ws plan told left, Writes host files a.manifest a.colour options ws plan told left →
      (invoke host files arguments).2 = left ∧
      left.read host.directory ws.scratch.plan = .ok plan.text.toUTF8 ∧
      ShowsPlan a.display options ws plan told (invoke host files arguments).1
        (spoken host files a)) ∧
    ((invoke host files arguments).1.exitCode ≠ 0 →
      (invoke host files arguments).1.stdout = "" ∧ (spoken host files a).filter isFinished = []) ∧
    (invoke host files arguments).1.stderr = String.join (spoken host files a) := by
  have hstderr : (invoke host files arguments).1.stderr = String.join (spoken host files a) := by
    obtain ⟨hshown, hspoken⟩ := invoke_generate hparse htask (Prod.eta _).symm
    rw [hshown, hspoken, stderr_transcript]
  have hkept : ∀ ws plan told left, Writes host files a.manifest a.colour options ws plan told left →
      (invoke host files arguments).2 = left ∧
      left.read host.directory ws.scratch.plan = .ok plan.text.toUTF8 ∧
      ShowsPlan a.display options ws plan told (invoke host files arguments).1
        (spoken host files a) := fun ws plan told left h =>
    let ⟨_, hleft, hshows⟩ := h.invoke hparse htask
    ⟨hleft, read_of_writeText h.written, hshows⟩
  refine ⟨generate_eq_draft a.manifest a.colour options, ?_⟩
  by_cases hwrites : ∃ ws plan told left,
    Writes host files a.manifest a.colour options ws plan told left
  · obtain ⟨ws, plan, told, left, h⟩ := hwrites
    have hzero := (h.invoke hparse htask).1
    exact ⟨.inl hzero, ⟨fun _ => ⟨ws, plan, told, left, h⟩, fun _ => hzero⟩, hkept,
      fun hne => absurd hzero hne, hstderr⟩
  · obtain ⟨hone, hquiet⟩ := invoke_of_not_writes hparse htask hwrites
    refine ⟨.inr hone, ⟨fun hzero => ?_, fun h => absurd h hwrites⟩, hkept, fun _ => hquiet, hstderr⟩
    rw [hone] at hzero
    cases hzero

/-- A host on which every program says something, ends, and does nothing else. -/
def sayingHost (said : String) (status : ExitStatus) : Host :=
  { bareHost with
    searchPath := "/"
    program? := fun _ => some fun _ files => { files, status, stderr := said.toUTF8 } }

/-- A manifest that declares two targets. -/
def pairText : String :=
  smallText ++ "\n[[targets]]\nname=\"b\"\nkind=\"lib\"\nid=\"i\""

/-- A directory with a manifest and a generator. -/
def equippedFiles (text : String) : FileTree :=
  (FileTree.empty.put [] manifestName (.file (Text.encode text) false)).put []
    Tool.generatorName (.file .empty true)

/-- Arguments that ask for all targets. -/
def allArguments (emitPlan : Bool) : List String :=
  ["--no-color", "--manifest-path", "Graphdoc.toml", "generate"] ++
    if emitPlan then ["--emit-plan"] else []

/-- What these arguments ask for. -/
def allTask (emitPlan : Bool) : Arguments where
  colour := false
  manifest := some ⟨"Graphdoc.toml"⟩
  task := .generate { emitPlan }

theorem parse_allArguments (emitPlan : Bool) :
    Arguments.parse (allArguments emitPlan) = .ok (allTask emitPlan) := by
  cases emitPlan <;> rfl

/-- A host on which the generator fails, and says something that looks like what is said about a
finished target. -/
def failingHost : Host :=
  sayingHost "    Finished `dev` profile" (.exited 101)

theorem complaint_failingHost :
    complaint? ((generate (allTask false).manifest (allTask false).colour {}).perform failingHost
      { files := equippedFiles smallText }).1 = some "    Finished `dev` profile" := by
  decide +kernel

/-- Two targets are documented, and one message tells so of each, in the order of the plan. The plan
is shown instead if it is asked for. If the generator fails no message tells of a target, whatever
the generator says. -/
theorem generate_exits_pair :
    ((invoke (sayingHost "" (.exited 0)) (equippedFiles pairText) (allArguments false)).1 =
        { exitCode := 0
          stderr := " INFO Documenting 2 target(s): a, b\n" ++
            "    Finished `a` -> ./.graphdoc/symbol-graphs/targets/a-i\n" ++
            "    Finished `b` -> ./.graphdoc/symbol-graphs/targets/b-i\n" ++
            "        Plan ./.graphdoc/docs-plan.json\n" } ∧
      ∃ ws plan told left,
        Writes (sayingHost "" (.exited 0)) (equippedFiles pairText) (allTask false).manifest false
          {} ws plan told left ∧
        left.read [] ws.scratch.plan = .ok plan.text.toUTF8 ∧
        (spoken (sayingHost "" (.exited 0)) (equippedFiles pairText) (allTask false)).filter
          isFinished = plan.targets.map finishedLine) ∧
    (∃ ws plan told left,
      Writes (sayingHost "" (.exited 0)) (equippedFiles smallText) (allTask true).manifest false
        { emitPlan := true } ws plan told left ∧
      (invoke (sayingHost "" (.exited 0)) (equippedFiles smallText) (allArguments true)).1.stdout =
        plan.text ++ "\n" ∧
      (spoken (sayingHost "" (.exited 0)) (equippedFiles smallText) (allTask true)).filter
        isFinished = []) ∧
    (invoke failingHost (equippedFiles smallText) (allArguments false)).1.exitCode = 1 ∧
      (invoke failingHost (equippedFiles smallText) (allArguments false)).1.stdout = "" ∧
      (spoken failingHost (equippedFiles smallText) (allTask false)).filter isFinished = [] := by
  have hshown : (invoke (sayingHost "" (.exited 0)) (equippedFiles pairText)
      (allArguments false)).1 =
      { exitCode := 0
        stderr := " INFO Documenting 2 target(s): a, b\n" ++
          "    Finished `a` -> ./.graphdoc/symbol-graphs/targets/a-i\n" ++
          "    Finished `b` -> ./.graphdoc/symbol-graphs/targets/b-i\n" ++
          "        Plan ./.graphdoc/docs-plan.json\n" } := by decide +kernel
  have hemitted : (invoke (sayingHost "" (.exited 0)) (equippedFiles smallText)
      (allArguments true)).1.exitCode = 0 := by decide +kernel
  have hfailed : (invoke failingHost (equippedFiles smallText)
      (allArguments false)).1.exitCode = 1 := by
    obtain ⟨hinvoke, -⟩ := invoke_generate (parse_allArguments false) rfl (Prod.eta _).symm
    rw [hinvoke]
    exact (transcript_quotes complaint_failingHost _).1
  refine ⟨⟨hshown, ?_⟩, ?_, hfailed, ?_⟩
  · obtain ⟨-, -, hiff, hwritten, -⟩ := generate_exits (parse_allArguments false) rfl
      (sayingHost "" (.exited 0)) (equippedFiles pairText)
    obtain ⟨ws, plan, told, left, hwrites⟩ := hiff.mp (congrArg Transcript.exitCode hshown)
    obtain ⟨-, hread, hshows⟩ := hwritten ws plan told left hwrites
    exact ⟨ws, plan, told, left, hwrites, hread, hshows.finished⟩
  · obtain ⟨-, -, hiff, hwritten, -⟩ := generate_exits (parse_allArguments true) rfl
      (sayingHost "" (.exited 0)) (equippedFiles smallText)
    obtain ⟨ws, plan, told, left, hwrites⟩ := hiff.mp hemitted
    obtain ⟨-, -, hshows⟩ := hwritten ws plan told left hwrites
    exact ⟨ws, plan, told, left, hwrites, hshows.stdout, hshows.finished⟩
  · obtain ⟨-, -, -, -, hquiet, -⟩ := generate_exits (parse_allArguments false) rfl
      failingHost (equippedFiles smallText)
    exact hquiet fun hzero => by cases hzero.symm.trans hfailed

/-- The generator fails and says something that looks like what is said about a finished target, and
a line of the second output looks so too, although the command has failed: it is quoted. -/
theorem quoted_as_finished : isFinished "    Finished `dev` profile" = true ∧
    (invoke failingHost (equippedFiles smallText) (allArguments false)).1.exitCode = 1 ∧
    ∃ before after,
      (invoke failingHost (equippedFiles smallText) (allArguments false)).1.stderr =
        before ++ "\n" ++ "    Finished `dev` profile" ++ "\n" ++ after := by
  obtain ⟨hinvoke, -⟩ := invoke_generate (parse_allArguments false) rfl (Prod.eta _).symm
  rw [hinvoke]
  exact ⟨by decide +kernel, transcript_quotes complaint_failingHost _⟩

end CommandLine

end SymbolDocs
