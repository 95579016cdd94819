import SymbolDocs.Proofs.Batch.Contents
import SymbolDocs.Proofs.Batch.Failure
import SymbolDocs.Proofs.Package.Lookup

/-! # Options in layers

What counts for an option is the uppermost layer that says something about it (`uppermost`): what is
asked for in the run, what the manifest says about the target, what it says about the package, and
what holds if nobody says anything. Each option has layers of its own (`GraphOptions.Follows`), and
what the manifest says about other targets is in none of them.

A wish about extension blocks that the generator cannot fulfil is not a layer. A batch warns of it,
once for each target on which it works (`refusals`), and it warns of nothing else (`run_layered`). -/

namespace SymbolDocs

/-! ### Layers -/

/-- What the uppermost layer says that says something, or else what is built in. -/
def uppermost {α : Type} (layers : List (Option α)) (builtin : α) : α :=
  (layers.findSome? id).getD builtin

/-- One wish above settings that are filled up from others. -/
theorem getD_orElse_eq_uppermost {α : Type} (wish setting fallback : Option α) (builtin : α) :
    wish.getD ((setting <|> fallback).getD builtin) =
      uppermost [wish, setting, fallback] builtin := by
  cases wish <;> cases setting <;> cases fallback <;> rfl

theorem TargetKind.defaultAccessLevel_eq (kind : TargetKind) : kind.defaultAccessLevel =
    if kind = .sourceModule .executable then .internalLevel else .publicLevel := by
  rcases kind with (_ | _ | _) | _ | _ | _ <;> rfl

namespace GraphOptions

/-- **The options follow the layers** for a target that a manifest declares. -/
structure Follows (o : GraphOptions) (m : Manifest) (spec : TargetSpec) (overrides : Overrides)
    (capabilities : Capabilities) : Prop where
  accessLevel : o.minimumAccessLevel =
    uppermost [overrides.minimumAccessLevel, spec.settings.minimumAccessLevel,
      m.settings.minimumAccessLevel]
      (if spec.kind = .sourceModule .executable then .internalLevel else .publicLevel)
  /-- Synthesized members can be asked away, but not asked for. -/
  synthesized : o.includeSynthesized =
    uppermost [if overrides.skipSynthesized then some false else none,
      spec.settings.includeSynthesized, m.settings.includeSynthesized] true
  /-- Without the ability to treat extension blocks, what is asked for does not count. -/
  extensionBlocks : o.includeExtensionBlocks =
    uppermost [if capabilities.extensionBlocks then overrides.extensionBlocks else none,
      spec.settings.includeExtensionBlocks, m.settings.includeExtensionBlocks] false

/-- The options that are settled for a target follow the layers. -/
theorem follows_settle {m : Manifest} {spec : TargetSpec} {packageName : String} {target : Target}
    {package : Package} (hspec : spec.Describes packageName target)
    (hsettings : package.settings = m.settings) (overrides : Overrides)
    (capabilities : Capabilities) :
    (settle target package overrides capabilities).Follows m spec overrides capabilities := by
  have hstandard : standard target package =
      ⟨(spec.settings.minimumAccessLevel <|> m.settings.minimumAccessLevel).getD
          spec.kind.defaultAccessLevel,
        (spec.settings.includeSynthesized <|> m.settings.includeSynthesized).getD true,
        (spec.settings.includeExtensionBlocks <|> m.settings.includeExtensionBlocks).getD false⟩ := by
    unfold standard GraphSettings.orElse
    rw [hspec.settings, hspec.kind, hsettings]
  unfold settle
  rw [hstandard]
  constructor
  · rw [← TargetKind.defaultAccessLevel_eq]
    exact getD_orElse_eq_uppermost ..
  · rcases overrides.skipSynthesized with _ | _
    · exact getD_orElse_eq_uppermost none ..
    · rfl
  · rcases capabilities.extensionBlocks with _ | _
    · exact getD_orElse_eq_uppermost none ..
    · exact getD_orElse_eq_uppermost ..

/-- The layers leave no choice. -/
theorem Follows.unique {o o' : GraphOptions} {m : Manifest} {spec : TargetSpec}
    {overrides : Overrides} {capabilities : Capabilities}
    (h : o.Follows m spec overrides capabilities) (h' : o'.Follows m spec overrides capabilities) :
    o = o' := by
  rcases o with ⟨access, synthesized, blocks⟩
  rcases o' with ⟨access', synthesized', blocks'⟩
  obtain rfl : access = access' := h.accessLevel.trans h'.accessLevel.symm
  obtain rfl : synthesized = synthesized' := h.synthesized.trans h'.synthesized.symm
  obtain rfl : blocks = blocks' := h.extensionBlocks.trans h'.extensionBlocks.symm
  rfl

/-- The warning tells which target it is about. -/
theorem name_eq_of_refusal_eq {included : Bool} {t u : Target}
    (h : refusal t included = refusal u included) : t.name = u.name := by
  unfold refusal at h
  simpa using h

end GraphOptions

/-- An event about something that is left aside. -/
def Emission.isWarning : Emission → Bool
  | .event .warn _ => true
  | _ => false

namespace Batch

variable {host : Host} {s s' : Session} {ws : Workspace} {generator : Generator}
  {extractor : Option Extractor} {request : Request} {requested : List Target}

/-! ### The warnings -/

/-- The warnings about a wish that the generator cannot fulfil, one for each target. -/
def refusals (request : Request) (targets : List Target) : List Emission :=
  match request.capabilities.extensionBlocks, request.overrides.extensionBlocks with
  | false, some included => targets.map fun t => .event .warn (GraphOptions.refusal t included)
  | _, _ => []

theorem refusals_nil (request : Request) : refusals request [] = [] := by
  unfold refusals
  split <;> rfl

theorem refusals_cons (request : Request) (target : Target) (targets : List Target) :
    refusals request (target :: targets) = refusals request [target] ++ refusals request targets := by
  unfold refusals
  split <;> rfl

/-- No two targets are warned about in the same words. -/
theorem refusals_nodup (request : Request) {targets : List Target}
    (h : (targets.map Target.name).Nodup) : (refusals request targets).Nodup := by
  unfold refusals
  split
  · refine (List.Nodup.of_map _ h).map_on fun t ht u hu heq => ?_
    have hname : t.name = u.name := GraphOptions.name_eq_of_refusal_eq (Emission.event.inj heq).2
    exact List.inj_on_of_nodup_map h ht hu hname
  · exact List.nodup_nil

/-- What is told when options are settled: the warning, if there is one, and a detail. -/
theorem settledEvents_eq (package : Package) (request : Request) (target : Target) :
    settledEvents package request target = refusals request [target] ++
      [.event .debug ((GraphOptions.settle target package request.overrides
        request.capabilities).summary target)] := by
  unfold settledEvents refusals Overrides.refused
  rcases request.capabilities.extensionBlocks with _ | _
  · rcases request.overrides.extensionBlocks with _ | _ <;> rfl
  · rfl

/-- **Certain warnings are told, and no others**: so it is for every filter that lets only warnings
through, and none of those that the generator and the extractor tell themselves. -/
def Warns (generator : Generator) (extractor : Option Extractor) (package : Package)
    (warnings before after : List Emission) : Prop :=
  ∀ p : Emission → Bool, (∀ e, p e = true → e.isWarning = true) →
    Tools (Act.Tells fun e => p e = false) generator extractor package →
    after.filter p = before.filter p ++ warnings.filter p

theorem passes_only_warnings {p : Emission → Bool} (hp : ∀ e, p e = true → e.isWarning = true)
    {e : Emission} (he : e.isWarning = false) : p e = false := by
  rcases hpe : p e with _ | _
  · rfl
  · have hwarning : e.isWarning = true := hp e hpe
    rw [he] at hwarning
    cases hwarning

namespace Warns

variable {package : Package} {ds es a b c : List Emission}

theorem trans (h1 : Warns generator extractor package ds a b)
    (h2 : Warns generator extractor package es b c) :
    Warns generator extractor package (ds ++ es) a c := by
  intro p hp htools
  rw [h2 p hp htools, h1 p hp htools, List.filter_append, List.append_assoc]

theorem of_adds (h : Adds (fun e => e.isWarning = false) a b) :
    Warns generator extractor package [] a b := by
  intro p hp _
  have hadds : Adds (fun e => p e = false) a b := h.imp fun _ he => passes_only_warnings hp he
  rw [hadds.filter_eq, List.filter_nil, List.append_nil]

end Warns

/-- The pipeline of a target warns of what is left aside for this target, whether it succeeds or
not. -/
theorem warns_work {o : Target × Except Halt TargetDocs}
    (h : Ends host (documentTarget ws.scratch generator extractor ws.package request) s o s') :
    Warns generator extractor ws.package (refusals request [o.1]) s.emissions s'.emissions := by
  intro p hp htools
  have hdebug (text : String) : p (.event .debug text) = false := passes_only_warnings hp rfl
  unfold Ends at h
  rw [perform_documentTarget] at h
  have hrest : Adds (fun e => p e = false) (settled ws.package request o.1 s).emissions
      s'.emissions := by
    refine Job.Tells.adds ?_ h
    refine (Coordinator.tells_generate hdebug (htools.generates o.1 _)).bind fun graphs => ?_
    refine (Unifier.tells_unify hdebug (htools.extracts o.1) ws.scratch graphs).bind fun _ => ?_
    exact Job.Tells.pure _
  have hsettled : (settledEvents ws.package request o.1).filter p =
      (refusals request [o.1]).filter p := by
    rw [settledEvents_eq, List.filter_append, List.filter_cons_of_neg (by simp [hdebug]),
      List.filter_nil, List.append_nil]
  rw [hrest.filter_eq, settled, List.filter_append, hsettled]

/-- So the pipelines warn of what is left aside for each of their targets. -/
theorem warns_chain : ∀ {outcomes : List (Target × Except Halt TargetDocs)} {s s' : Session},
    Chain (Ends host (documentTarget ws.scratch generator extractor ws.package request)) s outcomes
      s' →
    Warns generator extractor ws.package (refusals request (outcomes.map Prod.fst)) s.emissions
      s'.emissions
  | [], s, _, .nil _ => refusals_nil request ▸ .of_adds (.refl _ s.emissions)
  | o :: outcomes, _, _, .cons h hrest =>
    refusals_cons request o.1 (outcomes.map Prod.fst) ▸ (warns_work h).trans (warns_chain hrest)

/-- The external programs do not warn of anything. -/
theorem quiet_programs (programs : Programs) (ws : Workspace) :
    Tools (Act.Tells fun e => e.isWarning = false) (programs.symbols ws) (programs.snippets ws)
      ws.package where
  generates _ _ := Generator.tells_ofProgram.imp fun e he => by rw [he]; rfl
  extracts _ x hx := by
    obtain ⟨program, -, rfl⟩ := Option.map_eq_some_iff.mp hx
    exact fun host w => Extractor.extract_adds (fun _ => rfl) (fun _ => rfl) rfl

/-! ### The batch -/

/-- The targets on which a batch works: the distinct ones that the selection stands for, unless it is
refused or there is no scratch directory. -/
inductive WorksOn (ws : Workspace) (request : Request) (base : Place) (t : FileTree) :
    List Target → Prop
  | refused {e : SelectionError} (hselect : request.selection.resolveOrDefault ws.package = .error e) :
    WorksOn ws request base t []
  | stopped {requested : List Target} {e : IoFailure} {u : FileTree}
    (hselect : request.selection.resolveOrDefault ws.package = .ok requested)
    (hscratch : (Edit.makeChain base (.createScratch ws.scratch.dir)
      ws.scratch.dir.ancestors).apply t = (.error e, u)) :
    WorksOn ws request base t []
  | started {requested distinct : List Target} {files : FileTree}
    (hselect : request.selection.resolveOrDefault ws.package = .ok requested)
    (hscratch : MakesScratch ws base t files) (hfirst : FirstOccurrences requested distinct) :
    WorksOn ws request base t distinct

/-- The entries of a plan follow the layers, each for its own target. -/
theorem entries_follow {m : Manifest} {root : Path} {plan : Plan}
    (hpackage : m.toPackage root = .ok ws.package)
    (hrun : (run ws generator extractor request).perform host s = (.ok plan, s')) :
    ∃ requested, request.selection.resolveOrDefault ws.package = .ok requested ∧
      List.Forall₂ (fun target e => ∃ spec ∈ m.targets, spec.Describes m.package.name target ∧
        (spec.kind = .sourceModule .library ∨ spec.kind = .sourceModule .executable) ∧
        e.name = spec.name ∧ e.id = target.id ∧
        e.options.Follows m spec request.overrides request.capabilities) requested
          plan.targets := by
  obtain ⟨requested, files, documented, last, hselect, -, hfirst, hchain, rfl, -⟩ :=
    run_documented hrun
  obtain ⟨passes, hmade, rfl⟩ := passes_of_ends hchain
  rw [map_fst_docs] at hfirst
  have hsettled := hmade.forall_mem fun _ _ _ hpass => hpass.options
  refine ⟨requested, hselect, ?_⟩
  refine (describes_planFor ws request hfirst).imp fun target e hdescribes => ?_
  obtain ⟨p, hp, rfl, hoptions, -⟩ := hdescribes.made
  have hrequested : p.target ∈ requested := (hfirst.mem_iff _).mp (List.mem_map_of_mem hp)
  obtain ⟨hmem, hdocumentable⟩ := Selection.documentable_of_resolveOrDefault hselect hrequested
  rw [(Manifest.toPackage_ok hpackage).1] at hmem
  obtain ⟨spec, hspec, htarget⟩ := List.mem_map.mp hmem
  have hdescribed : spec.Describes m.package.name p.target :=
    htarget ▸ spec.describes_target m.package.name
  have hkind := Target.isDocumentable_iff_kind.mp hdocumentable
  rw [hdescribed.kind] at hkind
  refine ⟨spec, hspec, hdescribed, hkind, hdescribes.name.trans hdescribed.name, hdescribes.id, ?_⟩
  rw [hoptions, hsettled p hp]
  exact GraphOptions.follows_settle hdescribed (Manifest.describes_of_toPackage hpackage).settings
    request.overrides request.capabilities

/-- **Options in layers, and what is warned of.** In the plan of a batch, the options of each entry are
the ones that follow the layers for the target of the entry, as the manifest declares it. A batch
warns, in the order of the targets and once for each target on which it works, that a wish about
extension blocks is left aside; it does so if there is such a wish and the generator has no notion of
extension blocks, and otherwise it warns of nothing. -/
theorem run_layered {text : String} {m : Manifest} {root : Path} {outcome : Except Halt Plan}
    (hparse : Manifest.parse text = .ok m) (hpackage : m.toPackage root = .ok ws.package)
    (hrun : (run ws generator extractor request).perform host s = (outcome, s')) :
    ∃ distinct, WorksOn ws request host.directory s.files distinct ∧
      (∀ plan, outcome = .ok plan → ∃ requested,
        request.selection.resolveOrDefault ws.package = .ok requested ∧
        FirstOccurrences requested distinct ∧
        List.Forall₂ (fun target e => ∃ spec ∈ m.targets, spec.Describes m.package.name target ∧
          (spec.kind = .sourceModule .library ∨ spec.kind = .sourceModule .executable) ∧
          e.name = spec.name ∧ e.id = target.id ∧
          e.options.Follows m spec request.overrides request.capabilities) requested plan.targets) ∧
      (refusals request distinct).Nodup ∧
      Warns generator extractor ws.package (refusals request distinct) s.emissions s'.emissions := by
  rcases hselect : request.selection.resolveOrDefault ws.package with e | requested
  · -- the selection is refused
    rw [perform_run_of_error hselect] at hrun
    obtain ⟨rfl, rfl⟩ := Prod.mk.inj hrun
    refine ⟨[], .refused hselect, nofun, refusals_nodup request List.nodup_nil, ?_⟩
    rw [refusals_nil]
    refine .of_adds (.append fun e he => ?_)
    obtain ⟨line, -, rfl⟩ := List.mem_map.mp he
    rfl
  have hprepared (files : FileTree) : Warns generator extractor ws.package [] s.emissions
      (prepared ws request requested files s).emissions :=
    .of_adds (adds_prepared (fun _ => rfl) (fun _ => rfl) ws request requested files s)
  rcases hscratch : (Edit.makeChain host.directory (.createScratch ws.scratch.dir)
    ws.scratch.dir.ancestors).apply s.files with ⟨e | ⟨⟩, files⟩
  · -- there is no scratch directory
    rw [perform_run_stopped generator extractor hselect hscratch] at hrun
    obtain ⟨rfl, rfl⟩ := Prod.mk.inj hrun
    refine ⟨[], .stopped hselect hscratch, nofun, refusals_nodup request List.nodup_nil, ?_⟩
    rw [refusals_nil]
    exact hprepared files
  obtain ⟨outcomes, last, hchain, hfirst, hends⟩ := perform_run generator extractor hselect hscratch
  refine ⟨outcomes.map Prod.fst, .started hselect hscratch hfirst, fun plan hplan => ?_,
    refusals_nodup request (names_nodup_of_selected hparse hpackage hselect hfirst), ?_⟩
  · subst hplan
    obtain ⟨requested', hselect', hentries⟩ := entries_follow hpackage hrun
    cases hselect.symm.trans hselect'
    exact ⟨requested, rfl, hfirst, hentries⟩
  · rw [hends] at hrun
    have hconclude : Warns generator extractor ws.package [] last.emissions s'.emissions :=
      .of_adds ((tells_conclude (fun _ => rfl) (fun _ => rfl) ws request requested
        (outcomes.map labelled)).adds hrun)
    have hall := (hprepared files).trans ((warns_chain hchain).trans hconclude)
    rwa [List.nil_append, List.append_nil] at hall

/-- A manifest that says something about each option, but not in the same places. -/
def layeredText : String :=
  "package.name=\"p\"\n" ++
  "symbol-graph.include-synthesized=false\n" ++
  "[[targets]]\nname=\"a\"\nkind=\"exe\"\nid=\"i\"\n" ++
  "symbol-graph.minimum-access-level=\"private\"\n" ++
  "[[targets]]\nname=\"b\"\nkind=\"lib\"\nid=\"j\"\n" ++
  "symbol-graph.include-extension-blocks=true"

/-- The manifest that `layeredText` spells. -/
def layeredManifest : Manifest where
  package := { name := "p" }
  settings := { includeSynthesized := some false }
  targets := [
    { name := "a", kind := .sourceModule .executable, id := some "i"
      settings := { minimumAccessLevel := some .privateLevel } },
    { name := "b", kind := .sourceModule .library, id := some "j"
      settings := { includeExtensionBlocks := some true } }]

theorem parse_layeredText : Manifest.parse layeredText = .ok layeredManifest :=
  Manifest.parse_of_spells (.append (.append (.append (.append (.append .literal .literal) .literal)
    .literal) .literal) .literal) (by decide +kernel)

/-- The workspace of that manifest. -/
def layeredWorkspace : Workspace where
  package := { smallPackage with
    root := ⟨"/"⟩
    targets := layeredManifest.buildTargets
    settings := layeredManifest.settings }

/-- A batch for that workspace, with a program that has no notion of extension blocks. They are asked
for, and so is one of the targets twice. -/
def layeredRun : Except Halt Plan × Session :=
  (run layeredWorkspace (Programs.symbols ⟨⟨"/t"⟩, ⟨false⟩, none⟩ layeredWorkspace)
    (Programs.snippets ⟨⟨"/t"⟩, ⟨false⟩, none⟩ layeredWorkspace)
    { selection := { targets := ["b", "a", "b"] }
      overrides := { extensionBlocks := some true }
      capabilities := ⟨false⟩ }).perform (writerHost "x".toUTF8 "") { files := toolFiles }

/-- What a plan says about a target then. -/
def layeredEntry (name : String) : String × GraphOptions :=
  (name, if name = "a" then ⟨.privateLevel, false, false⟩ else ⟨.publicLevel, false, true⟩)

/-- The target `b` is planned twice, and each target is warned about once. -/
theorem run_layered_pair : ∃ plan s', layeredRun = (.ok plan, s') ∧
    plan.targets.map (fun e => (e.name, e.options)) = ["b", "a", "b"].map layeredEntry ∧
    s'.emissions.filter Emission.isWarning =
      ["b", "a"].map fun name => .event .warn ("`--include-extended-types` is not supported by the" ++
        " installed symbol graph generator; ignoring it for `" ++ name ++ "`") := by
  have hpackage : layeredManifest.toPackage ⟨"/"⟩ = .ok layeredWorkspace.package :=
    eq_ok_of_toOption (by decide +kernel)
  have hok : layeredRun.1.toBool = true := by decide +kernel
  rcases hrun : layeredRun with ⟨halt | plan, s'⟩
  · rw [hrun] at hok
    cases hok
  obtain ⟨distinct, -, hplan, -, hwarns⟩ := run_layered parse_layeredText hpackage hrun
  obtain ⟨requested, hselect, hfirst, hentries⟩ := hplan plan rfl
  have hresolve : ({ targets := ["b", "a", "b"] } : Selection).resolveOrDefault
      layeredWorkspace.package = .ok
        (["b", "a", "b"].filterMap layeredWorkspace.package.target?) :=
    eq_ok_of_toOption (by decide +kernel)
  cases hselect.symm.trans hresolve
  refine ⟨plan, s', rfl, ?_, ?_⟩
  · have hplanned : List.Forall₂ (· = ·)
        ((["b", "a", "b"].filterMap layeredWorkspace.package.target?).map
          fun target => layeredEntry target.name)
        (plan.targets.map fun e => (e.name, e.options)) := by
      refine List.forall₂_map_left_iff.mpr (List.forall₂_map_right_iff.mpr ?_)
      refine hentries.imp fun target e => ?_
      rintro ⟨spec, hspec, hdescribes, -, hname, -, hfollows⟩
      rw [hname, hdescribes.name]
      obtain rfl | rfl : spec = layeredManifest.targets[0] ∨ spec = layeredManifest.targets[1] := by
        simpa [layeredManifest] using hspec
      · exact congrArg (Prod.mk _) (GraphOptions.Follows.unique ⟨rfl, rfl, rfl⟩ hfollows)
      · exact congrArg (Prod.mk _) (GraphOptions.Follows.unique ⟨rfl, rfl, rfl⟩ hfollows)
    rw [List.forall₂_eq_eq_eq] at hplanned
    exact hplanned.symm.trans (by decide +kernel)
  · rw [hfirst.unique (FirstOccurrences.eraseDups _)] at hwarns
    exact (hwarns _ (fun _ h => h) (quiet_programs ..)).trans (by decide +kernel)

end Batch

end SymbolDocs
