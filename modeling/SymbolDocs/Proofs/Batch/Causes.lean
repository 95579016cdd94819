import SymbolDocs.Proofs.Batch.Pass

/-! # Why work fails

Work that is put together fails for the causes for which its parts fail (`Work.FailsWith`). A batch
fails for causes of its own, for those of the generator and for those of the extractor, and none of
its own causes is a diagnostic (`fails_run`): diagnostics are made where tools are looked up. -/

namespace SymbolDocs

/-- A cause that is no diagnostic. -/
def Cause.Undiagnosed : Cause → Prop
  | .diagnostic _ => False
  | _ => True

namespace Work

/-- Work fails for certain causes only. -/
def FailsWith {σ α : Type} (P : Cause → Prop) (work : Work σ α) : Prop :=
  ∀ host s failure, (work.perform host s).1 = .error (.failed failure) → P failure.cause

namespace FailsWith

variable {σ α β : Type} {P : Cause → Prop}

theorem pure (a : α) : FailsWith P (Pure.pure a : Work σ α) := fun _ _ _ he => nomatch he

theorem get : FailsWith P (MonadState.get : Work σ σ) := fun _ _ _ he => nomatch he

theorem read : FailsWith P (MonadReader.read : Work σ Host) := fun _ _ _ he => nomatch he

theorem modify (f : σ → σ) : FailsWith P (modify f : Work σ PUnit) := fun _ _ _ he => nomatch he

theorem fail {cause : Cause} (h : P cause) : FailsWith P (Work.fail cause : Work σ α) := by
  intro host s failure he
  cases he
  exact h

theorem ofExcept {ε : Type} {cause : ε → Cause} (h : ∀ e, P (cause e)) (x : Except ε α) :
    FailsWith P (Work.ofExcept cause x : Work σ α) := by
  rcases x with e | a
  · exact fail (h e)
  · exact pure a

theorem bind {x : Work σ α} {f : α → Work σ β} (hx : FailsWith P x) (hf : ∀ a, FailsWith P (f a)) :
    FailsWith P (x >>= f) := by
  intro host s failure he
  rw [perform_bind] at he
  rcases h : x.perform host s with ⟨halt | a, s'⟩ <;> rw [h] at he
  · exact hx host s failure (by rw [h]; cases he; rfl)
  · exact hf a host s' failure he

theorem forIn {ι : Type} {f : ι → β → Work σ (ForInStep β)} (hf : ∀ i b, FailsWith P (f i b)) :
    ∀ (l : List ι) (b : β), FailsWith P (ForIn.forIn l b f)
  | [], b => pure b
  | i :: l, b => by
    rw [List.forIn_cons]
    refine (hf i b).bind fun step => ?_
    rcases step with b | b
    · exact pure b
    · exact forIn hf l b

/-- What work is for does not matter. -/
theorem inside (purpose : String) {x : Work σ α} (h : FailsWith P x) :
    FailsWith P (Work.inside purpose x) := by
  intro host s failure he
  rw [perform_inside] at he
  rcases hx : (x.perform host s).1 with (f | message) | a <;> rw [hx] at he <;> cases he
  exact h host s f hx

end FailsWith

end Work

open Work

variable {α : Type} {P : Cause → Prop}

namespace Act

theorem fails_emit (e : Emission) : FailsWith P (emit e) := fun _ _ _ he => nomatch he

theorem fails_log (level : Level) (text : String) : FailsWith P (log level text) :=
  fun _ _ _ he => nomatch he

theorem fails_files : FailsWith P files := fun _ _ _ he => nomatch he

theorem fails_here : FailsWith P here := fun _ _ _ he => nomatch he

variable (hio : ∀ e, P (.io e))
include hio

theorem fails_edit (work : Place → Edit α) : FailsWith P (edit work) := by
  unfold edit
  refine fails_here.bind fun _ => fails_files.bind fun _ => ?_
  exact (FailsWith.modify _).bind fun _ => .ofExcept hio _

theorem fails_readText (attempt : Attempt) (path : Path) : FailsWith P (readText attempt path) := by
  unfold readText
  refine fails_files.bind fun files => fails_here.bind fun base => ?_
  split
  · exact .fail (hio _)
  split
  · exact .pure _
  · exact .fail (hio _)

end Act

/-- An act fails for the same causes when it is a part of a job. -/
theorem Job.fails_act {act : Act α} (h : FailsWith P act) : FailsWith P (liftM act : Job α) := by
  intro host s failure he
  rw [perform_liftM] at he
  exact h host s.toWorld failure he

/-- A job fails for the same causes when it is an act. -/
theorem Job.fails_toAct {job : Job α} (h : FailsWith P job) : FailsWith P job.toAct :=
  fun host w failure he => h host { toWorld := w } failure he

/-! ### Tools -/

section Tools

variable (hio : ∀ e, P (.io e)) (htool : ∀ line status stderr, P (.toolFailed line status stderr))
include hio htool

theorem Command.fails_check (c : Command) : FailsWith P c.check := by
  have hrun : FailsWith P c.run := by
    unfold run
    refine (Act.fails_emit _).bind fun _ => FailsWith.read.bind fun host =>
      Act.fails_files.bind fun t => ?_
    rcases c.launch host t with cause | completion
    · exact .fail (hio _)
    · exact (FailsWith.modify _).bind fun _ => .pure _
  unfold check
  refine hrun.bind fun output => ?_
  split_ifs
  · exact .pure output
  · exact .fail (htool _ _ _)

theorem Generator.fails_ofProgram (program : Path) (scratch : Scratch) (capabilities : Capabilities)
    (package : Package) (target : Target) (options : GraphOptions) :
    FailsWith P (ofProgram program scratch capabilities package target options) := by
  unfold ofProgram
  refine (Act.fails_edit hio _).bind fun _ => ?_
  exact ((Command.fails_check hio htool _).inside _).bind fun _ => .pure _

theorem Extractor.fails_extract (program : Path) (directory : String) (scratch : Scratch)
    (package : Package) : FailsWith P (extract program directory scratch package) := by
  unfold extract sources
  refine FailsWith.bind (Act.fails_files.bind fun _ => Act.fails_here.bind fun _ => .pure _)
    fun files => ?_
  split_ifs
  · exact (Act.fails_log _ _).bind fun _ => .pure none
  refine (Act.fails_edit hio _).bind fun _ => (Act.fails_log _ _).bind fun _ => ?_
  refine ((Command.fails_check hio htool _).inside _).bind fun _ => ?_
  refine Act.fails_files.bind fun t => Act.fails_here.bind fun base => ?_
  split_ifs
  · exact .pure _
  · exact (Act.fails_log _ _).bind fun _ => .pure none

end Tools

/-! ### One target -/

theorem Coordinator.fails_generate {generator : Generator} {package : Package} {target : Target}
    {options : GraphOptions} (h : FailsWith P (generator package target options)) :
    FailsWith P (generate generator package target options) := by
  intro host s failure he
  by_cases hfree : s.lock.held = false
  · rw [perform_generate _ _ _ _ hfree] at he
    exact h host _ failure he
  · rw [perform_generate_of_held _ _ _ _ (by simpa using hfree)] at he
    cases he

theorem Extractor.fails_ask {extractor : Extractor} {package : Package} {target : Target}
    (h : FailsWith P (extractor.answer package target)) :
    FailsWith P (extractor.ask package target) := by
  unfold ask
  split_ifs
  · exact Job.fails_act h
  refine FailsWith.get.bind fun s => ?_
  rcases s.snippetGraphs.lookup package.name with _ | kept
  · exact (Job.fails_act h).bind fun graph => (FailsWith.modify _).bind fun _ => .pure graph
  · exact (Job.fails_act (Act.fails_log _ _)).bind fun _ => .pure kept

section Pipeline

variable (hio : ∀ e, P (.io e)) (hname : ∀ path, P (.noFileName path))
include hio hname

theorem Unifier.fails_merge (scratch : Scratch) (target : Target) (graphs snippetGraph : Path) :
    FailsWith P (merge scratch target graphs snippetGraph) := by
  have hcopy : FailsWith P (copySnippet scratch target snippetGraph) := by
    unfold copySnippet
    rcases snippetGraph.fileName with _ | name
    · exact .fail (hname _)
    · exact (Act.fails_edit hio _).bind fun _ => .pure _
  unfold merge
  refine (Act.fails_log _ _).bind fun _ => (Act.fails_edit hio _).bind fun _ => ?_
  exact (Act.fails_edit hio _).bind fun _ => hcopy.bind fun _ => .pure _

theorem Unifier.fails_unify {extractor : Option Extractor} {package : Package} {target : Target}
    (h : ∀ x, extractor = some x → FailsWith P (x.answer package target)) (scratch : Scratch)
    (graphs : Path) : FailsWith P (unify scratch extractor package target graphs) := by
  unfold unify
  rcases extractor with _ | extractor
  · exact .pure _
  refine (Extractor.fails_ask (h extractor rfl)).bind fun graph => ?_
  rcases graph with _ | graph
  · exact .pure _
  · exact Job.fails_act (fails_merge hio hname scratch target graphs graph)

namespace Batch

variable {generator : Generator} {extractor : Option Extractor} {package : Package}

theorem fails_documentTarget {target : Target}
    (hgenerator : ∀ options, FailsWith P (generator package target options))
    (hextractor : ∀ x, extractor = some x → FailsWith P (x.answer package target))
    (scratch : Scratch) (request : Request) :
    FailsWith P (documentTarget scratch generator extractor package request target) := by
  intro host s failure he
  rw [perform_documentTarget] at he
  refine FailsWith.bind (Coordinator.fails_generate (hgenerator _)) (fun graphs => ?_) host _ failure
    he
  exact (Unifier.fails_unify hio hname hextractor scratch graphs).bind fun _ => .pure _

omit hio hname in
/-- The failure that is passed on is one of the failures of the targets. -/
theorem fails_gather {β : Type} {outcomes : List (Target × Except Halt β)}
    (h : ∀ o ∈ outcomes, ∀ failure, o.2 = .error (.failed failure) → P failure.cause) :
    FailsWith P (gather outcomes) := by
  unfold gather
  rcases firstCrash outcomes with _ | message
  swap
  · exact fun host w failure he => by cases he
  refine (FailsWith.forIn (fun _ _ => (Act.fails_log _ _).bind fun _ => .pure _) _ _).bind fun _ => ?_
  rcases hf : failures outcomes with _ | ⟨first, rest⟩
  · exact .pure _
  intro host w failure he
  cases he
  obtain ⟨⟨target, outcome⟩, hmem, ho⟩ := List.mem_filterMap.mp
    (show first ∈ failures outcomes by rw [hf]; exact List.mem_cons_self ..)
  refine h _ hmem first ?_
  rcases outcome with (failure | message) | a <;> cases ho
  rfl

variable (hselection : ∀ e, P (.selection e))
include hselection

/-- **A batch fails because of the selection, of files or of a name, or because the generator or the
extractor fails.** -/
theorem fails_run {ws : Workspace}
    (hgenerator : ∀ target options, FailsWith P (generator ws.package target options))
    (hextractor : ∀ target x, extractor = some x → FailsWith P (x.answer ws.package target))
    (request : Request) : FailsWith P (run ws generator extractor request) := by
  intro host s failure he
  rcases hselect : request.selection.resolveOrDefault ws.package with e | requested
  · rw [perform_run_of_error hselect] at he
    cases he
    exact hselection e
  rcases hscratch : (Edit.makeChain host.directory (.createScratch ws.scratch.dir)
    ws.scratch.dir.ancestors).apply s.files with ⟨e | ⟨⟩, files⟩
  · rw [perform_run_stopped generator extractor hselect hscratch] at he
    cases he
    exact hio e
  obtain ⟨outcomes, s', hchain, -, hrun⟩ := perform_run generator extractor hselect hscratch
  rw [hrun] at he
  -- each pipeline fails for such a cause, and what comes after them passes it on
  have hends : ∀ o ∈ outcomes, ∀ failure, o.2 = .error (.failed failure) → P failure.cause :=
    hchain.forall_mem fun s1 o s2 ho failure hfailure => by
      refine fails_documentTarget hio hname (hgenerator o.1) (hextractor o.1) ws.scratch request
        host s1 failure ?_
      rw [ho, hfailure]
  refine FailsWith.bind (Job.fails_act (fails_gather fun o ho failure hfailure => ?_))
    (fun documented => ?_) host s' failure he
  · obtain ⟨o, hmem, rfl⟩ := List.mem_map.mp ho
    obtain ⟨target, (failure' | message) | a⟩ := o <;> cases hfailure
    exact hends _ hmem failure' rfl
  · refine (Job.fails_act (Act.fails_edit hio _)).bind fun _ => ?_
    exact (Job.fails_act (Act.fails_log _ _)).bind fun _ => .pure _

end Batch

end Pipeline

end SymbolDocs
