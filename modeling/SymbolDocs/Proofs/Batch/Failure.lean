import SymbolDocs.Proofs.Batch.Shelter
import SymbolDocs.Proofs.Batch.Telling

/-! # A batch in which targets fail

The outcome is the first failure, and every failure is told, in the order of the targets
(`perform_conclude_of_failures`). No plan is written then. Whether the plan from before is still
there depends on where the pipelines work: names that go up, or links, can lead them to it
(`LosesPlan`). -/

namespace SymbolDocs

open FileTree Work

/-- An event of the highest importance. -/
def Emission.isError : Emission → Bool
  | .event .error _ => true
  | _ => false

/-- An event that is told without being asked for. -/
def Emission.isTold : Emission → Bool
  | .event .debug _ => false
  | _ => true

namespace Batch

/-- The targets that have failed, each with its failure. -/
def failing {α : Type} (outcomes : List (Target × Except Halt α)) : List (Target × Failure) :=
  outcomes.filterMap fun
    | (target, .error (.failed failure)) => some (target, failure)
    | _ => none

/-- The failure of a target as it is told. -/
def told (x : Target × Failure) : Failure :=
  x.2.inside (purpose x.1)

/-- What the generator and the extractor do has a property, whatever the target. -/
structure Tools (Q : ∀ {α : Type}, Act α → Prop) (generator : Generator)
    (extractor : Option Extractor) (package : Package) : Prop where
  generates : ∀ target options, Q (generator package target options)
  extracts : ∀ target x, extractor = some x → Q (x.answer package target)

/-! ### What is told -/

theorem failures_labelled {α : Type} : ∀ outcomes : List (Target × Except Halt α),
    failures (outcomes.map labelled) = (failing outcomes).map told
  | [] => rfl
  | (_, .ok _) :: outcomes => failures_labelled outcomes
  | (_, .error (.crashed _)) :: outcomes => failures_labelled outcomes
  | (target, .error (.failed failure)) :: outcomes =>
    congrArg (failure.inside (purpose target) :: ·) (failures_labelled outcomes)

theorem firstCrash_labelled {α : Type} : ∀ {outcomes : List (Target × Except Halt α)},
    (∀ o ∈ outcomes, Halt.isCrash o.2 = false) → firstCrash (outcomes.map labelled) = none
  | [], _ => rfl
  | o :: outcomes, h => by
    have ih := firstCrash_labelled fun x hx => h x (List.mem_cons_of_mem o hx)
    have hcrash := h o (List.mem_cons_self ..)
    rcases o with ⟨target, (failure | message) | a⟩
    · exact ih
    · cases hcrash
    · exact ih

section Run

variable {host : Host} {s s' : Session} {ws : Workspace} {generator : Generator}
  {extractor : Option Extractor} {request : Request} {requested : List Target}

/-- If there are failures, they are told, the first one is the outcome, and nothing is written. -/
theorem perform_conclude_of_failures {outcomes : List (Target × Except Halt TargetDocs)}
    {first : Failure} {rest : List Failure} (hcrash : firstCrash outcomes = none)
    (hfailures : failures outcomes = first :: rest) :
    (conclude ws request requested outcomes).perform host s =
      (.error (.failed first),
        { s with emissions := s.emissions ++ errorEvents (first :: rest) }) := by
  unfold conclude
  rw [perform_bind, Job.perform_liftM, perform_gather outcomes s.toWorld hcrash, hfailures]

/-! ### What the pipelines leave -/

theorem prepared_adds (ws : Workspace) (request : Request) (requested : List Target)
    (files : FileTree) (s : Session) :
    Adds (fun e => e.isError = false) s.emissions
      (prepared ws request requested files s).emissions :=
  adds_prepared (fun _ => rfl) (fun _ => rfl) ws request requested files s

/-- If the generator and the extractor tell no errors, there are none before all pipelines have
ended. -/
theorem pipelines_adds {outcomes : List (Target × Except Halt TargetDocs)}
    (htools : Tools (Act.Tells fun e => e.isError = false) generator extractor ws.package)
    (h : Chain (Ends host (documentTarget ws.scratch generator extractor ws.package request)) s
      outcomes s') :
    Adds (fun e => e.isError = false) s.emissions s'.emissions := by
  have hlenient : Lenient fun e => e.isError = false := by
    intro level text hlevel
    rcases level with _ | _ | _ | _
    · exact absurd rfl hlevel
    · rfl
    · rfl
    · rfl
  exact adds_chain (fun target => tells_documentTarget hlenient (htools.generates target)
    (htools.extracts target) ws.scratch request) h

/-- If the generator and the extractor leave the scratch directory and the plan alone, so do the
pipelines of all targets without slashes. -/
theorem sheltered_pipelines {d : Place} {plan : Option Entry}
    {outcomes : List (Target × Except Halt TargetDocs)}
    (htools : Tools (Act.Spares ws.scratch d) generator extractor ws.package)
    (hslashless : ∀ o ∈ outcomes, o.1.Slashless)
    (h : Chain (Ends host (documentTarget ws.scratch generator extractor ws.package request)) s
      outcomes s')
    (hs : Sheltered host.directory ws.scratch d plan s.files) :
    Sheltered host.directory ws.scratch d plan s'.files := by
  refine h.preserves (I := fun s1 => Sheltered host.directory ws.scratch d plan s1.files) ?_ hs
  intro s1 o s2 ho hends hs1
  have hsheltered := sheltered_documentTarget request (endsInName_scratch ws)
    (hslashless o ho) (htools.generates o.1) (htools.extracts o.1) hs1
  rw [hends] at hsheltered
  exact hsheltered

theorem lstat_plan {base d : Place} {t : FileTree} (h : t.Leads base ws.scratch.dir d) :
    (t.lstat base ws.scratch.plan).toOption = t.get? (d ++ ["docs-plan.json"]) :=
  lstat_entry (endsInName_scratch ws) h.resolve (by decide) (by decide)

/-! ### The batch -/

/-- **A batch in which targets fail**: the pipelines of all distinct targets are made, each from
where the one before has ended, in the order of the first occurrences. If one of them has failed and
none has crashed, the outcome is the first failure in this order, with the purpose of the work on
the target in front of what it says itself; for each target that has failed there is one event about
an error, after everything that the pipelines have told; and the files are as the last pipeline has
left them. So the entry of the plan is what it was, if none of the pipelines has changed it. -/
theorem run_failing (generator : Generator) (extractor : Option Extractor) {text : String}
    {m : Manifest} {root : Path} {files : FileTree}
    (hparse : Manifest.parse text = .ok m) (hpackage : m.toPackage root = .ok ws.package)
    (hselect : request.selection.resolveOrDefault ws.package = .ok requested)
    (hscratch : MakesScratch ws host.directory s.files files) :
    ∃ outcomes s1, Chain (Ends host
        (documentTarget ws.scratch generator extractor ws.package request))
        (prepared ws request requested files s) outcomes s1 ∧
      FirstOccurrences requested (outcomes.map Prod.fst) ∧
      (outcomes.map fun o => o.1.name).Nodup ∧
      ((∀ o ∈ outcomes, Halt.isCrash o.2 = false) →
        ∀ first rest, failing outcomes = first :: rest →
        ∃ s', (run ws generator extractor request).perform host s =
            (.error (.failed (told first)), s') ∧
          s'.emissions = s1.emissions ++ errorEvents ((first :: rest).map told) ∧
          s'.files = s1.files ∧
          (Tools (Act.Tells fun e => e.isError = false) generator extractor ws.package →
            s'.emissions.filter Emission.isError = s.emissions.filter Emission.isError ++
              errorEvents ((first :: rest).map told)) ∧
          (∀ d, Anchored host.directory ws.scratch d s.files →
            (∀ target ∈ requested, target.Slashless) →
            Tools (Act.Spares ws.scratch d) generator extractor ws.package →
            (s'.files.lstat host.directory ws.scratch.plan).toOption =
              (s.files.lstat host.directory ws.scratch.plan).toOption)) := by
  obtain ⟨outcomes, s1, hchain, hfirst, hrun⟩ := perform_run generator extractor hselect hscratch
  refine ⟨outcomes, s1, hchain, hfirst, ?_, fun hcrash first rest hfailing => ?_⟩
  · rw [show (outcomes.map fun o => o.1.name) = (outcomes.map Prod.fst).map Target.name by simp]
    exact names_nodup_of_selected hparse hpackage hselect hfirst
  have hfailures : failures (outcomes.map labelled) = told first :: rest.map told := by
    rw [failures_labelled, hfailing, List.map_cons]
  rw [hrun, perform_conclude_of_failures (firstCrash_labelled hcrash) hfailures]
  refine ⟨_, rfl, rfl, rfl, fun htools => ?_, fun d hanchored hslashless htools => ?_⟩
  · have hadds := (prepared_adds ws request requested files s).trans (pipelines_adds htools hchain)
    have herrors : (errorEvents ((first :: rest).map told)).filter Emission.isError =
        errorEvents ((first :: rest).map told) := by
      refine List.filter_eq_self.mpr fun e he => ?_
      obtain ⟨failure, -, rfl⟩ := List.mem_map.mp he
      rfl
    change (s1.emissions ++ errorEvents ((first :: rest).map told)).filter _ = _
    rw [List.filter_append, hadds.filter_eq, herrors]
  · have hsheltered := sheltered_pipelines htools
      (fun o ho => hslashless o.1 ((hfirst.mem_iff o.1).mp (List.mem_map_of_mem ho))) hchain
      (sheltered_of_makesScratch hanchored hscratch)
    change (s1.files.lstat host.directory ws.scratch.plan).toOption = _
    rw [lstat_plan hsheltered.leads, lstat_plan hanchored.leads, hsheltered.kept]

end Run

/-! ### Targets that fail in turn -/

/-- A generator that tells which targets it has made, and fails for some. -/
def refusing (names : List String) : Generator := fun _ target _ =>
  if target.name ∈ names then Work.fail (.told ("no " ++ target.name))
  else do
    Act.log .info ("made " ++ target.name)
    return ⟨target.name⟩

section Refusing

variable {names : List String} {scratch : Scratch} {package : Package} {request : Request}
  {host : Host}

/-- The work on a target fails just if the generator does. -/
theorem perform_refusing (target : Target) {s : Session} (hfree : s.lock.held = false) :
    ∃ outcome s', (documentTarget scratch (refusing names) none package request target).perform host
        s = (outcome, s') ∧ s'.lock.held = false ∧
      (target.name ∈ names ∧ outcome = .error (.failed { cause := .told ("no " ++ target.name) }) ∨
        target.name ∉ names ∧ ∃ docs, outcome = .ok docs) := by
  have hsettled : (settled package request target s).lock.held = false := hfree
  rw [perform_documentTarget, perform_bind, Coordinator.perform_generate _ _ _ _ hsettled]
  unfold refusing
  split_ifs with hname
  · exact ⟨_, _, rfl, rfl, .inl ⟨hname, rfl⟩⟩
  · exact ⟨_, _, rfl, rfl, .inr ⟨hname, _, rfl⟩⟩

/-- The targets that fail are those that the generator fails for. -/
theorem failing_refusing {outcomes : List (Target × Except Halt TargetDocs)} {s s' : Session}
    (h : Chain (Ends host (documentTarget scratch (refusing names) none package request)) s
      outcomes s') (hfree : s.lock.held = false) :
    (∀ o ∈ outcomes, Halt.isCrash o.2 = false) ∧ failing outcomes =
      ((outcomes.map Prod.fst).filter fun x => x.name ∈ names).map fun x =>
        (x, { cause := .told ("no " ++ x.name) }) := by
  induction h with
  | nil s => exact ⟨fun _ h => (List.not_mem_nil h).elim, rfl⟩
  | @cons s s1 s' o outcomes hends hrest ih =>
    obtain ⟨target, outcome⟩ := o
    obtain ⟨outcome', s2, hrun, hfree2, hfails⟩ :=
      @perform_refusing names scratch package request host target s hfree
    obtain ⟨rfl, rfl⟩ : outcome' = outcome ∧ s2 = s1 :=
      Prod.mk.inj (Eq.trans (Eq.symm hrun) hends)
    obtain ⟨hcrash, hfailing⟩ := ih hfree2
    rcases hfails with ⟨hname, rfl⟩ | ⟨hname, docs, rfl⟩
    · refine ⟨List.forall_mem_cons.mpr ⟨rfl, hcrash⟩, ?_⟩
      rw [List.map_cons, List.filter_cons_of_pos (by simpa using hname), List.map_cons, ← hfailing]
      rfl
    · refine ⟨List.forall_mem_cons.mpr ⟨rfl, hcrash⟩, ?_⟩
      rw [List.map_cons, List.filter_cons_of_neg (by simpa using hname), ← hfailing]
      rfl

theorem tools_refusing {Q : ∀ {α : Type}, Act α → Prop}
    (hfail : ∀ target : Target, Q (Work.fail (.told ("no " ++ target.name)) : Act Path))
    (hmake : ∀ target : Target, Q (do
      Act.log .info ("made " ++ target.name)
      return ⟨target.name⟩ : Act Path)) : Tools Q (refusing names) none package where
  generates := fun target options => by
    unfold refusing
    split_ifs
    · exact hfail target
    · exact hmake target
  extracts := fun _ _ h => by cases h

end Refusing

/-- A manifest that declares four targets. -/
def quadText : String :=
  "package.name=\"p\"\n" ++
  "[[targets]]\nname=\"a\"\nkind=\"lib\"\nid=\"i\"\n" ++
  "[[targets]]\nname=\"b\"\nkind=\"lib\"\nid=\"i\"\n" ++
  "[[targets]]\nname=\"c\"\nkind=\"lib\"\nid=\"i\"\n" ++
  "[[targets]]\nname=\"d\"\nkind=\"lib\"\nid=\"i\""

/-- The package of this manifest. -/
def quadPackage : Package :=
  { smallPackage with
    targets := ["a", "b", "c", "d"].map fun name => ⟨name, "i", .sourceModule .library, {}⟩ }

/-- A scratch directory with a plan from before. -/
def plannedBefore : FileTree :=
  (FileTree.empty.putAt [".graphdoc"] .directory).putAt [".graphdoc", "docs-plan.json"]
    (.file .empty false)

/-- All targets are asked for, one of them twice. -/
def allInTurn : Request :=
  { selection := { targets := ["c", "a", "c", "d", "b"] } }

/-- Two targets fail and two do not, in turn. -/
def refusedRun : Except Halt Plan × Session :=
  (run ⟨quadPackage⟩ (refusing ["c", "d"]) none allInTurn).perform bareHost
    { files := plannedBefore }

/-- The work goes on after a failure. In the end each failure is told once, in the order in which
the targets are asked for; the first one is the outcome, and the plan is the one from before. -/
theorem run_failing_in_turn : ∃ s',
    refusedRun = (.error (.failed ⟨["failed to document `c`"], .told "no c"⟩), s') ∧
    s'.emissions.filter Emission.isTold =
      [.event .info "Documenting 5 target(s): c, a, c, d, b", .event .info "made a",
        .event .info "made b", .event .error "failed to document `c`: no c",
        .event .error "failed to document `d`: no d"] ∧
    s'.emissions.filter Emission.isError =
      [.event .error "failed to document `c`: no c",
        .event .error "failed to document `d`: no d"] ∧
    (s'.files.lstat [] ⟨".graphdoc/docs-plan.json"⟩).toOption = some (.file .empty false) := by
  have htext : Spells quadText _ :=
    .append (.append (.append (.append .literal .literal) .literal) .literal) .literal
  obtain ⟨m, hm, hpackage⟩ : ∃ m, Manifest.parse quadText = .ok m ∧
      m.toPackage ⟨""⟩ = .ok (⟨quadPackage⟩ : Workspace).package :=
    Manifest.package_of_spells htext (by decide +kernel)
  have hresolve : allInTurn.selection.resolveOrDefault quadPackage =
      .ok (["c", "a", "c", "d", "b"].map fun name => ⟨name, "i", .sourceModule .library, {}⟩) :=
    eq_ok_of_toOption (by decide +kernel)
  have hdir : (⟨quadPackage⟩ : Workspace).scratch.dir = ⟨".graphdoc"⟩ := by decide +kernel
  have hplan : (⟨quadPackage⟩ : Workspace).scratch.plan = ⟨".graphdoc/docs-plan.json"⟩ := by
    decide +kernel
  have htold : refusedRun.2.emissions.filter Emission.isTold =
      [.event .info "Documenting 5 target(s): c, a, c, d, b", .event .info "made a",
        .event .info "made b", .event .error "failed to document `c`: no c",
        .event .error "failed to document `d`: no d"] := by decide +kernel
  have hscratch : ∃ files, MakesScratch ⟨quadPackage⟩ bareHost.directory plannedBefore files := by
    have hmade : (((Edit.makeChain [] (.createScratch ⟨".graphdoc"⟩)
      (⟨".graphdoc"⟩ : Path).ancestors).apply plannedBefore).1.toOption) = some () := by
      decide +kernel
    unfold MakesScratch
    rw [hdir]
    exact ⟨_, Prod.ext (eq_ok_of_toOption hmade) rfl⟩
  obtain ⟨files, hfiles⟩ := hscratch
  obtain ⟨outcomes, s1, hchain, hfirst, -, h⟩ := run_failing (s := { files := plannedBefore })
    (refusing ["c", "d"]) none hm hpackage hresolve hfiles
  obtain ⟨hcrash, hfailing⟩ := failing_refusing hchain rfl
  rw [hfirst.unique (.eraseDups _)] at hfailing
  obtain ⟨s', hrun, -, -, herrors, hkept⟩ := h hcrash _ _ hfailing
  have hanchored : Anchored [] (⟨quadPackage⟩ : Workspace).scratch [".graphdoc"] plannedBefore :=
    ⟨hdir ▸ leads_of_isName (by decide) (by decide) (get?_nil _)
      (plain_of_directory (by decide +kernel)), plain_of_none (by decide +kernel),
      plain_of_none (by decide +kernel)⟩
  rw [refusedRun, hrun] at htold
  refine ⟨s', hrun, htold, ?_, ?_⟩
  · refine herrors (tools_refusing (fun _ => Act.Tells.fail _) fun _ =>
      Act.Tells.bind (Act.Tells.log ?_) fun _ => Act.Tells.pure _)
    rfl
  · have hsame := hkept [".graphdoc"] hanchored (by simp [Target.Slashless])
      (tools_refusing (fun _ _ _ _ h => h) fun _ _ _ _ h => h)
    rw [hplan] at hsame
    exact hsame.trans (by decide +kernel)

/-! ### A plan that is lost -/

/-- A manifest that declares one target, with the identifier `plan.json`. -/
def plannedText (name : String) : String :=
  "package.name=\"p\"\n[[targets]]\nname=\"" ++ name ++ "\"\nkind=\"lib\"\nid=\"plan.json\""

/-- The package of that manifest. -/
def plannedPackage (name : String) : Package :=
  { smallPackage with targets := [{ name, id := "plan.json", kind := .sourceModule .library }] }

/-- A scratch directory, with something in it where the unified directories are. -/
def scratchFiles (unified : Entry) : FileTree :=
  ((FileTree.empty.putAt [".graphdoc"] .directory).putAt [".graphdoc", "symbol-graphs"]
    .directory).putAt [".graphdoc", "symbol-graphs", "unified-symbol-graphs"] unified

/-- A batch in which the only target has no symbol graphs. -/
def graphless (name : String) (files : FileTree) : Except Halt Plan × Session :=
  (run ⟨plannedPackage name⟩ (fun _ _ _ => return ⟨"nowhere"⟩) (some (.answering (some ⟨"g"⟩)))
    {}).perform bareHost { files }

/-- What the work was for that has failed. -/
def context? {α : Type} : Except Halt α → Option (List String)
  | .error (.failed failure) => some failure.context
  | _ => none

/-- The target fails, and where the plan would be there is a directory afterwards. -/
def LosesPlan (name : String) (files : FileTree) : Prop :=
  ∃ m failure s', Manifest.parse (plannedText name) = .ok m ∧
    m.toPackage ⟨""⟩ = .ok (plannedPackage name) ∧
    graphless name files = (.error (.failed failure), s') ∧
    failure.context = ["failed to document `" ++ name ++ "`"] ∧
    (files.lstat [] ⟨".graphdoc/docs-plan.json"⟩).toOption = none ∧
    (s'.files.lstat [] ⟨".graphdoc/docs-plan.json"⟩).toOption = some .directory

theorem losesPlan_of_checks {name : String} {cs : List Char} {files : FileTree}
    (htext : Spells (plannedText name) cs)
    (hpackage : ((Manifest.ofChars? cs).bind fun m => (m.toPackage ⟨""⟩).toOption) =
      some (plannedPackage name))
    (hbefore : (files.lstat [] ⟨".graphdoc/docs-plan.json"⟩).toOption = none)
    (hafter : context? (graphless name files).1 = some ["failed to document `" ++ name ++ "`"] ∧
      ((graphless name files).2.files.lstat [] ⟨".graphdoc/docs-plan.json"⟩).toOption =
        some .directory) : LosesPlan name files := by
  obtain ⟨m, hm, hpackage⟩ := Manifest.package_of_spells htext hpackage
  obtain ⟨hcontext, hafter⟩ := hafter
  rcases hrun : graphless name files with ⟨(failure | message) | plan, s'⟩ <;>
    rw [hrun] at hcontext hafter
  · exact ⟨m, failure, s', hm, hpackage, hrun, Option.some.inj hcontext, hbefore, hafter⟩
  · cases hcontext
  · cases hcontext

/-- A name that goes up leads a failing pipeline to the plan, and so does a link, though neither the
generator nor the extractor changes a file. -/
theorem loses_plan : LosesPlan "../../docs" (scratchFiles .directory) ∧
    LosesPlan "docs" (scratchFiles (.link ⟨".."⟩)) :=
  ⟨losesPlan_of_checks (.append (.append .literal .literal) .literal) (by decide +kernel)
      (by decide +kernel) (by decide +kernel),
    losesPlan_of_checks (.append (.append .literal .literal) .literal) (by decide +kernel)
      (by decide +kernel) (by decide +kernel)⟩

end Batch

end SymbolDocs
