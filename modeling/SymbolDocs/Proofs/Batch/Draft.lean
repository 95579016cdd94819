import SymbolDocs.Proofs.Batch.Sturdy

/-! # A batch up to its plan

The plan is there before it is kept: a batch drafts it and then writes it (`run_eq_draft`). Drafting
does not crash (`sturdy_draft`), and tells events and the starts of commands only (`tells_draft`), if
that is so for the generator and the extractor. -/

namespace SymbolDocs

open Work

namespace Job

variable {α β : Type}

/-- An act at the end of a job is an act after the job. -/
theorem toAct_bind (job : Job α) (f : α → Act β) :
    (job >>= fun a => (liftM (f a) : Job β)).toAct = job.toAct >>= f := by
  funext host w
  change (job >>= fun a => (liftM (f a) : Job β)).toAct.perform host w =
    (job.toAct >>= f).perform host w
  have htoAct : ∀ {γ : Type} (x : Job γ), x.toAct.perform host w =
      ((x.perform host { toWorld := w }).1, (x.perform host { toWorld := w }).2.toWorld) :=
    fun _ => rfl
  rw [htoAct, perform_bind, perform_bind, htoAct]
  rcases job.perform host { toWorld := w } with ⟨halt | a, s⟩ <;> rfl

/-- What a job tells, it tells as an act. -/
theorem Tells.toAct {P : Emission → Prop} {job : Job α} (h : Tells P job) : Act.Tells P job.toAct :=
  fun host w => h host { toWorld := w }

/-- A job that starts with a free lock. -/
theorem sturdy_toAct {job : Job α} (h : Sturdy job) : Act.Sturdy job.toAct :=
  fun host w _ => ⟨(h host { toWorld := w } rfl).1, trivial⟩

end Job

namespace Batch

/-- Makes what the documentation of a selection needs, and answers the plan for it. -/
def draft (ws : Workspace) (generator : Generator) (extractor : Option Extractor)
    (request : Request) : Job Plan := do
  let requested ← select ws.package request.selection
  Act.log .info ("Documenting " ++ toString requested.length ++ " target(s): " ++
    ", ".intercalate (requested.map Target.name))
  ws.ensureScratch
  let outcomes ← workThrough
    (documentTarget ws.scratch generator extractor ws.package request) requested.eraseDups
  let documented ← gather outcomes
  return planFor ws request requested documented

/-- The event that tells how many targets are documented. -/
def documentedEvent (plan : Plan) : Emission :=
  .event .debug ("documented " ++ toString plan.targets.length ++ " target(s) in 0.00s")

/-- Keeps a plan, and tells about it. -/
def keep (ws : Workspace) (plan : Plan) : Act Plan := do
  Act.edit fun base => Edit.writeText base ws.scratch.plan plan.text
  Act.emit (documentedEvent plan)
  return plan

variable {ws : Workspace} {generator : Generator} {extractor : Option Extractor}
  {request : Request}

/-- **A batch drafts a plan, and then keeps it.** -/
theorem run_eq_draft (ws : Workspace) (generator : Generator) (extractor : Option Extractor)
    (request : Request) :
    run ws generator extractor request =
      draft ws generator extractor request >>= fun plan => (liftM (keep ws plan) : Job Plan) := by
  have hkeep : ∀ plan, (liftM (keep ws plan) : Job Plan) = do
      Act.edit fun base => Edit.writeText base ws.scratch.plan plan.text
      Act.log .debug ("documented " ++ toString plan.targets.length ++ " target(s) in 0.00s")
      return plan := fun plan => by
    unfold keep
    rw [Job.liftM_bind]
    refine bind_congr fun _ => ?_
    rw [Job.liftM_bind]
    rfl
  unfold run draft
  simp only [bind_assoc, pure_bind, hkeep, planFor]

theorem perform_keep (ws : Workspace) (plan : Plan) (host : Host) (w : World) :
    (keep ws plan).perform host w =
      match (Edit.writeText host.directory ws.scratch.plan plan.text).apply w.files with
      | (.error e, t) => (.error (.failed { cause := .io e }), { w with files := t })
      | (.ok _, t) => (.ok plan, ⟨t, w.emissions ++ [documentedEvent plan]⟩) := by
  unfold keep
  rw [perform_bind, Act.perform_edit]
  rcases (Edit.writeText host.directory ws.scratch.plan plan.text).apply w.files with
    ⟨e | ⟨⟩, t⟩ <;> rfl

/-! ### What drafting does -/

theorem sturdy_select (package : Package) (selection : Selection) :
    Act.Sturdy (select package selection) := by
  intro host w _
  rw [perform_select]
  refine ⟨?_, trivial⟩
  rcases selection.resolveOrDefault package with e | requested <;> rfl

theorem sturdy_gather {β : Type} {outcomes : List (Target × Except Halt β)}
    (h : firstCrash outcomes = none) : Act.Sturdy (gather outcomes) := by
  intro host w _
  rw [perform_gather outcomes w h]
  refine ⟨?_, trivial⟩
  rcases failures outcomes with _ | ⟨first, rest⟩ <;> rfl

/-- **Drafting a plan does not crash.** -/
theorem sturdy_draft (htools : Tools Act.Sturdy generator extractor ws.package)
    (request : Request) : Job.Sturdy (draft ws generator extractor request) := by
  unfold draft
  refine (Job.sturdy_act (sturdy_select _ _)).bind fun requested => ?_
  refine (Job.sturdy_act (Act.sturdy_log _ _)).bind fun _ => ?_
  refine (Job.sturdy_act (Act.sturdy_edit _)).bind fun _ => fun host s hs => ?_
  obtain ⟨outcomes, s', hrun, hcrash, hs'⟩ := workThrough_sturdy
    (fun target => sturdy_documentTarget htools target ws.scratch request) requested.eraseDups host hs
  rw [perform_bind, hrun]
  exact (Job.sturdy_act (sturdy_gather hcrash)).bind (fun _ => .pure _) host s' hs'

variable {P : Emission → Prop}

theorem tells_select (hdebug : ∀ text, P (.event .debug text)) (package : Package)
    (selection : Selection) : (select package selection).Tells P := by
  intro host w
  rw [perform_select]
  refine .append fun e he => ?_
  obtain ⟨line, -, rfl⟩ := List.mem_map.mp he
  exact hdebug line

theorem tells_workThrough {α : Type} {work : Target → Job α}
    (h : ∀ target, Job.Tells P (work target)) (targets : List Target) :
    Job.Tells P (workThrough work targets) := by
  intro host s
  obtain ⟨outcomes, s', hchain, -, hrun⟩ := perform_workThrough host work targets s
  rw [hrun]
  exact adds_chain h hchain

/-- **Drafting a plan tells events**, and what the generator and the extractor tell. -/
theorem tells_draft (hevent : ∀ level text, P (.event level text))
    (htools : Tools (Act.Tells P) generator extractor ws.package) (request : Request) :
    Job.Tells P (draft ws generator extractor request) := by
  unfold draft
  refine (Job.Tells.act (tells_select (hevent .debug) _ _)).bind fun requested => ?_
  refine (Job.Tells.act (Act.Tells.log (hevent _ _))).bind fun _ => ?_
  refine (Job.Tells.act (Act.Tells.edit _)).bind fun _ => ?_
  refine (tells_workThrough (fun target => ?_) _).bind fun outcomes => ?_
  · exact tells_documentTarget (fun level text _ => hevent level text) (htools.generates target)
      (htools.extracts target) ws.scratch request
  · exact (Job.Tells.act (tells_gather (hevent .error) outcomes)).bind fun _ => Job.Tells.pure _

end Batch

end SymbolDocs
