import SymbolDocs.Proofs.Batch.Contents
import SymbolDocs.Proofs.Batch.Telling
import SymbolDocs.Proofs.Generator.Instruction

/-! # What the generator's program is told in a batch

A batch tells which commands it starts. Of these, the ones that read as an instruction for a generator
are those of its generator, one for each distinct target (`instructs_work`), unless the extractor
starts such a command too. What an entry of the plan says about the options is what the program was
told, but for extension blocks that the program could not be told to include (`run_told`). -/

namespace SymbolDocs

/-- The arguments of a command that is started. -/
def Emission.arguments? : Emission → Option (List String)
  | .launch c => some c.arguments
  | .event _ _ | .out _ | .err _ => none

/-- The instruction of a command that is started, if a generator can read its arguments. -/
def Emission.instruction? (e : Emission) : Option Instruction :=
  e.arguments?.bind Instruction.read

/-- Some emissions, followed by others with certain instructions among them. -/
def Instructs (instructions : List Instruction) (before after : List Emission) : Prop :=
  ∃ es, after = before ++ es ∧ es.filterMap Emission.instruction? = instructions

namespace Instructs

variable {is js : List Instruction} {a b c : List Emission}

theorem trans (h1 : Instructs is a b) (h2 : Instructs js b c) : Instructs (is ++ js) a c := by
  obtain ⟨ds, rfl, rfl⟩ := h1
  obtain ⟨es, rfl, rfl⟩ := h2
  exact ⟨ds ++ es, by rw [List.append_assoc], by rw [List.filterMap_append]⟩

theorem of_adds (h : Adds (fun e => e.instruction? = none) a b) : Instructs [] a b := by
  obtain ⟨es, rfl, hes⟩ := h
  exact ⟨es, rfl, List.filterMap_eq_nil_iff.mpr hes⟩

end Instructs

theorem lenient_instruction : Lenient fun e => e.instruction? = none :=
  fun _ _ _ => rfl

/-! ### Commands -/

theorem Command.check_emissions (c : Command) (host : Host) (w : World) :
    (c.check.perform host w).2.emissions = w.emissions ++ [.launch c] := by
  unfold check
  rw [Work.perform_bind, perform_run]
  rcases c.launch host w.files with cause | done
  · rfl
  · simp only
    split_ifs <;> rfl

/-- A generator that has succeeded has started its program once. -/
theorem Generator.emissions_ofProgram {host : Host} {w w' : World} {program : Path}
    {scratch : Scratch} {capabilities : Capabilities} {package : Package} {target : Target}
    {options : GraphOptions} {dir : Path}
    (h : (ofProgram program scratch capabilities package target options).perform host w =
      (.ok dir, w')) :
    w'.emissions = w.emissions ++
      [.launch (command program capabilities package target options (scratch.targetGraphs target))]
    := by
  unfold ofProgram at h
  obtain ⟨_, w1, h1, h⟩ := Work.perform_bind_ok h
  obtain ⟨_, w2, h2, h⟩ := Work.perform_bind_ok h
  obtain ⟨u, -, hw1⟩ := Act.perform_edit_ok h1
  rw [Work.perform_pure] at h
  obtain ⟨-, rfl⟩ := Prod.mk.inj h
  rw [Work.perform_inside] at h2
  have hemissions := Command.check_emissions (command program capabilities package target options
    (scratch.targetGraphs target)) host w1
  rwa [show _ = w2 from congrArg Prod.snd h2, show w1.emissions = w.emissions by rw [hw1]]
    at hemissions

/-- What the extractor's program is told does not read as an instruction for a generator. -/
theorem Extractor.read_command (program : Path) (package : Package) (output : Path)
    (sources : List Path) :
    Instruction.read (command program package output sources).arguments = none := rfl

theorem Extractor.tells_ofProgram (program : Path) (directory : String) (scratch : Scratch)
    (package : Package) (target : Target) :
    ((ofProgram program directory scratch).answer package target).Tells
      fun e => e.instruction? = none :=
  fun host w => extract_adds (fun _ => rfl) (fun _ => rfl)
    (read_command program package (scratch.snippetGraph package.name)
      (w.files.listFiles host.directory (package.root.entry directory)))

namespace Batch

section Work

variable {host : Host} {ws : Workspace} {program : Path} {extractor : Option Extractor}
  {request : Request} {s s' : Session}

/-- **The work on a target tells the program once what it is to do.** -/
theorem instructs_work
    (hextractor : ∀ e, extractor = some e → ∀ x,
      (e.answer ws.package x).Tells fun e => e.instruction? = none)
    {target : Target} {docs : TargetDocs}
    (h : (documentTarget ws.scratch (.ofProgram program ws.scratch request.capabilities) extractor
      ws.package request target).perform host s = (.ok docs, s')) :
    Instructs [.about ws request target] s.emissions s'.emissions := by
  rw [perform_documentTarget] at h
  obtain ⟨graphs, s1, hgen, h⟩ := Work.perform_bind_ok h
  obtain ⟨result, s2, hunify, h⟩ := Work.perform_bind_ok h
  rw [Work.perform_pure] at h
  obtain ⟨-, rfl⟩ := Prod.mk.inj h
  rw [Coordinator.perform_generate _ _ _ _ (Coordinator.generate_ok hgen)] at hgen
  rcases hcall : (Generator.ofProgram program ws.scratch request.capabilities ws.package target
      (GraphOptions.settle target ws.package request.overrides request.capabilities)).perform host
        (Coordinator.announced target (settled ws.package request target s).toWorld) with
    ⟨halt | dir, w⟩ <;> rw [hcall] at hgen <;> cases hgen
  have hsettled : Instructs [] s.emissions (settled ws.package request target s).emissions := by
    refine .of_adds (.append fun e he => ?_)
    simp only [settledEvents, List.mem_append, List.mem_map, List.mem_singleton] at he
    obtain ⟨_, -, rfl⟩ | rfl := he <;> rfl
  have hannounced : Instructs [] (settled ws.package request target s).emissions
      (Coordinator.announced target (settled ws.package request target s).toWorld).emissions :=
    .of_adds (.append fun e he => by rw [List.mem_singleton.mp he]; rfl)
  have hread : (Emission.launch (Generator.command program request.capabilities ws.package target
      (GraphOptions.settle target ws.package request.overrides request.capabilities)
      (ws.scratch.targetGraphs target))).instruction? = some (.about ws request target) :=
    Generator.read_command ..
  have hcalled : Instructs [.about ws request target]
      (Coordinator.announced target (settled ws.package request target s).toWorld).emissions
      w.emissions :=
    ⟨_, Generator.emissions_ofProgram hcall, by rw [List.filterMap_cons_some hread]; rfl⟩
  have hacknowledged : Instructs [] w.emissions (Coordinator.acknowledged target graphs w).emissions :=
    .of_adds (.append fun e he => by rw [List.mem_singleton.mp he]; rfl)
  have hunified := Instructs.of_adds ((Unifier.tells_unify lenient_instruction.debug
    (fun e he => hextractor e he target) ws.scratch graphs).adds hunify)
  exact hsettled.trans (hannounced.trans (hcalled.trans (hacknowledged.trans hunified)))

theorem instructs_chain
    (hextractor : ∀ e, extractor = some e → ∀ x,
      (e.answer ws.package x).Tells fun e => e.instruction? = none) :
    ∀ {documented : List (Target × TargetDocs)} {s s' : Session},
      Chain (Ends host (documentTarget ws.scratch
        (.ofProgram program ws.scratch request.capabilities) extractor ws.package request)) s
        (documented.map kept) s' →
      Instructs ((documented.map Prod.fst).map (.about ws request)) s.emissions s'.emissions
  | [], _, _, .nil s => .of_adds (.refl _ s.emissions)
  | _ :: _, _, _, .cons h hrest =>
    (instructs_work hextractor h).trans (instructs_chain hextractor hrest)

theorem instructs_prepared (requested : List Target) (files : FileTree) (s : Session) :
    Instructs [] s.emissions (prepared ws request requested files s).emissions :=
  .of_adds (adds_prepared (fun _ => rfl) (fun _ => rfl) ws request requested files s)

theorem instructs_conclude {requested : List Target}
    {outcomes : List (Target × Except Halt TargetDocs)} {plan : Plan}
    (h : (conclude ws request requested outcomes).perform host s = (.ok plan, s')) :
    Instructs [] s.emissions s'.emissions := by
  rw [perform_conclude] at h
  rcases hgather : (gather outcomes).perform host s.toWorld with ⟨halt | documented, w⟩ <;>
    rw [hgather] at h
  · cases h
  obtain ⟨-, rfl⟩ := gather_ok hgather
  simp only at h
  rcases hwrite : (Edit.writeText host.directory ws.scratch.plan
    (planFor ws request requested documented).text).apply s.files with ⟨e | ⟨⟩, u⟩ <;>
    rw [hwrite] at h <;> cases h
  exact .of_adds (.append fun e he => by rw [List.mem_singleton.mp he]; rfl)

end Work

/-! ### The batch -/

/-- An instruction about one of some targets without namesakes is known by the name. -/
theorem filter_about (ws : Workspace) (request : Request) {targets : List Target} {x : Target}
    (hnodup : (targets.map Target.name).Nodup) (hx : x ∈ targets) :
    (targets.map (Instruction.about ws request)).filter (fun i => i.target = x.name) =
      [.about ws request x] := by
  have hone : targets.filter (fun t => t.name = x.name) = [x] := by
    refine List.perm_singleton.mp ((List.perm_ext_iff_of_nodup
      ((List.Nodup.of_map _ hnodup).filter _) (List.nodup_singleton x)).mpr fun t => ?_)
    rw [List.mem_filter, List.mem_singleton, decide_eq_true_eq]
    refine ⟨fun ⟨ht, hname⟩ => List.inj_on_of_nodup_map hnodup ht hx hname, ?_⟩
    rintro rfl
    exact ⟨hx, rfl⟩
  rw [List.filter_map, Function.comp_def]
  exact congrArg (List.map _) hone

/-- **What the program was told**: a batch that succeeds, with an external program for its generator,
has told the program once about each distinct target that is asked for. Read back from the arguments,
what it was told about the target of an entry is the path of the package, the name in the entry, the
directory for the graphs of the target, and the options in the entry; of these, extension blocks are
told only to a generator that has a notion of them. So the options that were told are those in the
entry, unless the generator has none and the entry includes extension blocks. -/
theorem run_told {text : String} {m : Manifest} {root : Path} {ws : Workspace} {host : Host}
    {program : Path} {extractor : Option Extractor} {request : Request} {s s' : Session} {plan : Plan}
    (hparse : Manifest.parse text = .ok m) (hpackage : m.toPackage root = .ok ws.package)
    (hextractor : ∀ e, extractor = some e → ∀ x,
      (e.answer ws.package x).Tells fun e => e.instruction? = none)
    (h : (run ws (.ofProgram program ws.scratch request.capabilities) extractor request).perform host
      s = (.ok plan, s')) :
    ∃ requested distinct new told,
      request.selection.resolveOrDefault ws.package = .ok requested ∧
      FirstOccurrences requested distinct ∧
      s'.emissions = s.emissions ++ new ∧ new.filterMap Emission.instruction? = told ∧
      told.map Instruction.target = distinct.map Target.name ∧
      List.Forall₂ (fun target e => e.name = target.name ∧ e.id = target.id ∧
        ∃ i, told.filter (fun i => i.target = e.name) = [i] ∧ i.packagePath = ws.root.text ∧
          i.outputDir = (ws.scratch.targetGraphs target).text ∧
          i.options = e.options.told request.capabilities ∧
          (i.options = e.options ↔ request.capabilities.extensionBlocks = true ∨
            e.options.includeExtensionBlocks = false)) requested plan.targets := by
  obtain ⟨requested, files, documented, last, hselect, -, hfirst, hchain, hplan, hconclude⟩ :=
    run_documented h
  obtain ⟨new, hnew, htold⟩ := (instructs_prepared requested files s).trans
    ((instructs_chain hextractor hchain).trans (instructs_conclude hconclude))
  have hnames : ((documented.map Prod.fst).map Target.name).Nodup :=
    names_nodup_of_selected hparse hpackage hselect hfirst
  rw [List.nil_append, List.append_nil] at htold
  refine ⟨requested, documented.map Prod.fst, new, _, hselect, hfirst, hnew, htold, ?_, ?_⟩
  · simp [Instruction.about, Function.comp_def]
  obtain ⟨passes, hmade, rfl⟩ := passes_of_ends hchain
  rw [map_fst_docs] at hfirst hnames ⊢
  have hsettled := hmade.forall_mem fun _ _ _ hpass => hpass.options
  rw [hplan]
  refine (describes_planFor ws request hfirst).imp fun target e hdescribes =>
    ⟨hdescribes.name, hdescribes.id, ?_⟩
  obtain ⟨p, hp, rfl, hoptions, -⟩ := hdescribes.made
  have htold : (Instruction.about ws request p.target).options =
      e.options.told request.capabilities := by
    rw [hoptions, hsettled p hp, Instruction.about]
  refine ⟨.about ws request p.target, ?_, rfl, rfl, htold, ?_⟩
  · rw [hdescribes.name]
    exact filter_about ws request hnames (List.mem_map_of_mem hp)
  · rw [htold]
    exact GraphOptions.told_eq_iff

/-- A manifest that declares one target and includes extension blocks. -/
def blocksText (name : String) : String :=
  "package.name=\"p\"\nsymbol-graph.include-extension-blocks=true\n[[targets]]\nname=\"" ++ name ++
    "\"\nkind=\"lib\"\nid=\"i\""

/-- The package of that manifest. -/
def blocksPackage (name : String) : Package :=
  { smallPackage with
    root := ⟨"/"⟩
    targets := [{ name, id := "i", kind := .sourceModule .library }]
    settings := { includeExtensionBlocks := some true } }

/-- The workspace of that package. -/
def blocksWorkspace (name : String) : Workspace :=
  ⟨blocksPackage name⟩

/-- A batch for that workspace, in which a program is the generator and the extractor. -/
def blocksRun (name : String) (capabilities : Capabilities) : Except Halt Plan × Session :=
  (run (blocksWorkspace name) (.ofProgram ⟨"/t"⟩ (blocksWorkspace name).scratch capabilities)
    (some (.ofProgram ⟨"/t"⟩ "Snippets" (blocksWorkspace name).scratch)) { capabilities }).perform
      (writerHost "x".toUTF8 "") { files := toolFiles }

/-- A target whose name looks like a flag: all its options are told. -/
theorem run_told_flag : ∃ plan s' e i,
    blocksRun "--skip-synthesized-members" {} = (.ok plan, s') ∧ plan.targets = [e] ∧
    s'.emissions.filterMap Emission.instruction? = [i] ∧
    e.name = "--skip-synthesized-members" ∧ i.target = e.name ∧ i.options = e.options := by
  have htext : Spells (blocksText "--skip-synthesized-members") _ :=
    .append (.append .literal .literal) .literal
  obtain ⟨m, hparse, hpackage⟩ : ∃ m, Manifest.parse (blocksText "--skip-synthesized-members") =
      .ok m ∧ m.toPackage ⟨"/"⟩ = .ok (blocksPackage "--skip-synthesized-members") :=
    Manifest.package_of_spells htext (by decide +kernel)
  have hok : (blocksRun "--skip-synthesized-members" {}).1.toBool = true := by decide +kernel
  rcases hrun : blocksRun "--skip-synthesized-members" {} with ⟨halt | plan, s'⟩
  · rw [hrun] at hok
    cases hok
  obtain ⟨requested, distinct, new, told, hselect, hfirst, hnew, htold, hnames, hentries⟩ :=
    @run_told _ m ⟨"/"⟩ (blocksWorkspace "--skip-synthesized-members") (writerHost "x".toUTF8 "")
      ⟨"/t"⟩ _ {} _ s' plan hparse hpackage
      (fun e he x => by cases he; exact Extractor.tells_ofProgram _ _ _ _ x) hrun
  have hresolve : ({} : Selection).resolveOrDefault
      (blocksPackage "--skip-synthesized-members") =
        .ok [⟨"--skip-synthesized-members", "i", .sourceModule .library, {}⟩] :=
    eq_ok_of_toOption (by decide +kernel)
  cases hselect.symm.trans hresolve
  rw [hfirst.eq_singleton fun _ => List.mem_singleton] at hnames
  obtain ⟨i, rfl, hname⟩ := List.map_eq_singleton_iff.mp hnames
  obtain ⟨e, entries, ⟨hentry, -, j, hj, -, -, -, hoptions⟩, hnil, htargets⟩ :=
    List.forall₂_cons_left_iff.mp hentries
  cases hnil
  have hij : i = j := by simpa [hname, hentry] using hj
  exact ⟨plan, s', e, i, rfl, htargets, hnew ▸ htold, hentry, hname.trans hentry.symm,
    hij ▸ hoptions.mpr (.inl rfl)⟩

/-- A program without a notion of extension blocks is not told to include them, and the entry says
that they are included. -/
theorem told_without_blocks : ∃ m plan s' e i,
    Manifest.parse (blocksText "a") = .ok m ∧ m.toPackage ⟨"/"⟩ = .ok (blocksPackage "a") ∧
    blocksRun "a" ⟨false⟩ = (.ok plan, s') ∧ plan.targets = [e] ∧
    s'.emissions.filterMap Emission.instruction? = [i] ∧ i.target = e.name ∧
    e.options = ⟨.publicLevel, true, true⟩ ∧ i.options = ⟨.publicLevel, true, false⟩ ∧
    ∀ arguments ∈ s'.emissions.filterMap Emission.arguments?,
      "--emit-extension-block-symbols" ∉ arguments := by
  have htext : Spells (blocksText "a") _ := .append (.append .literal .literal) .literal
  obtain ⟨m, hparse, hpackage⟩ : ∃ m, Manifest.parse (blocksText "a") = .ok m ∧
      m.toPackage ⟨"/"⟩ = .ok (blocksPackage "a") :=
    Manifest.package_of_spells htext (by decide +kernel)
  obtain ⟨hplanned, htold⟩ : (blocksRun "a" ⟨false⟩).1.toOption.map
      (fun plan => plan.targets.map fun e => (e.name, e.options)) =
        some [("a", ⟨.publicLevel, true, true⟩)] ∧
      (blocksRun "a" ⟨false⟩).2.emissions.filterMap Emission.arguments? =
        [["--package-path", "/", "--target", "a",
          "--output-dir", "/.graphdoc/symbol-graphs/targets/a-i",
          "--minimum-access-level", "public"]] := by decide +kernel
  rcases hrun : blocksRun "a" ⟨false⟩ with ⟨halt | plan, s'⟩ <;> rw [hrun] at hplanned htold
  · cases hplanned
  obtain ⟨e, htargets, he⟩ := List.map_eq_singleton_iff.mp (Option.some.inj hplanned)
  obtain ⟨hname, hoptions⟩ := Prod.mk.inj he
  refine ⟨m, plan, s', e, ⟨"/", "a", "/.graphdoc/symbol-graphs/targets/a-i", ⟨.publicLevel, true,
    false⟩⟩, hparse, hpackage, rfl, htargets, ?_, hname.symm, hoptions, rfl, ?_⟩
  · rw [show Emission.instruction? = fun e => e.arguments?.bind Instruction.read from rfl,
      ← List.filterMap_filterMap, htold]
    rfl
  · rw [htold]
    decide

end Batch

end SymbolDocs
