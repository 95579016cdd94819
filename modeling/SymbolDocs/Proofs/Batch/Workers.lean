import SymbolDocs.Proofs.Batch.Pass
import SymbolDocs.Proofs.Turns

/-! # Workers side by side

The targets of a batch can be worked on at the same time, each by a worker of its own. What a worker
does at a stretch, with no other worker doing anything in between, takes it from one stage to the
next (`Setting.step`): the generator is called with the generation lock held, the extractor is asked
with its answers locked, and the unified directory is emptied, gets the copy of the graphs, and gets
the copy of the snippet graph. A schedule says whose turn it is, turn by turn (`Setting.play`).

A worker that has had five turns has finished (`finished_of_count`), and a schedule in which each
worker has its turns one after the other is what a batch does (`play_inTurn`). -/

namespace SymbolDocs.Batch

open Work

/-- What the workers of a batch have in common. -/
structure Setting where
  host : Host
  ws : Workspace
  generator : Generator
  extractor : Option Extractor
  request : Request

/-- How far the work on a target has come. -/
inductive Stage
  | waiting
  | generated (options : GraphOptions) (graphs : Path)
  | extracted (options : GraphOptions) (graphs snippetGraph : Path)
  | emptied (options : GraphOptions) (graphs snippetGraph : Path)
  | copied (options : GraphOptions) (graphs snippetGraph : Path)
  | finished (outcome : Except Halt TargetDocs)

/-- What there is at a moment: the session that all workers share, and the stage of each. -/
structure Scene where
  session : Session
  stages : Target → Stage

namespace Stage

/-- How many turns there are at most before the work is finished. -/
def turns : Stage → Nat
  | waiting => 5
  | generated _ _ => 4
  | extracted _ _ _ => 3
  | emptied _ _ _ => 2
  | copied _ _ _ => 1
  | finished _ => 0

/-- The stage that comes of some work, however it has ended. -/
def after {α : Type} (next : α → Stage) : Except Halt α → Stage
  | .ok a => next a
  | .error halt => .finished (.error halt)

/-- The stage after the extractor has answered. -/
def asked (options : GraphOptions) (graphs : Path) : Option Path → Stage
  | none => .finished (.ok ⟨options, .single graphs⟩)
  | some snippetGraph => .extracted options graphs snippetGraph

theorem turns_le (stage : Stage) : stage.turns ≤ 5 := by
  cases stage <;> simp [turns]

theorem finished_of_turns {stage : Stage} (h : stage.turns = 0) :
    ∃ outcome, stage = .finished outcome := by
  cases stage with
  | finished outcome => exact ⟨outcome, rfl⟩
  | _ => simp [turns] at h

end Stage

namespace Setting

variable (c : Setting)

/-- The work on a target, all of it. -/
def work (target : Target) : Job TargetDocs :=
  documentTarget c.ws.scratch c.generator c.extractor c.ws.package c.request target

/-- The result for a target with a unified directory. -/
def unifiedDocs (target : Target) (options : GraphOptions) (copy : Path) : TargetDocs :=
  ⟨options, .unified (c.ws.scratch.unified target) (Unifier.graphsCopy c.ws.scratch target) (some copy)⟩

/-- What a worker does in one turn. -/
def turn (target : Target) : Stage → Job Stage
  | .waiting => do
    let options ← settle c.ws.package target c.request.overrides c.request.capabilities
    let graphs ← Coordinator.generate c.generator c.ws.package target options
    return .generated options graphs
  | .generated options graphs =>
    match c.extractor with
    | none => return .finished (.ok ⟨options, .single graphs⟩)
    | some extractor => do
      match ← extractor.ask c.ws.package target with
      | none => return .finished (.ok ⟨options, .single graphs⟩)
      | some snippetGraph => return .extracted options graphs snippetGraph
  | .extracted options graphs snippetGraph => do
    Act.log .debug ("unifying symbol graphs for `" ++ target.name ++ "` into " ++
      (c.ws.scratch.unified target).text)
    Unifier.reset c.ws.scratch target
    return .emptied options graphs snippetGraph
  | .emptied options graphs snippetGraph => do
    Unifier.copyGraphs c.ws.scratch target graphs
    return .copied options graphs snippetGraph
  | .copied options _ snippetGraph => do
    let copy ← Unifier.copySnippet c.ws.scratch target snippetGraph
    return .finished (.ok (c.unifiedDocs target options copy))
  | .finished outcome => return .finished outcome

/-- The stage after a turn, and the session. -/
def step (target : Target) (stage : Stage) (s : Session) : Stage × Session :=
  match (c.turn target stage).perform c.host s with
  | (.ok stage, s) => (stage, s)
  | (.error halt, s) => (.finished (.error halt), s)

/-- A worker has a turn. -/
def move (scene : Scene) (target : Target) : Scene where
  session := (c.step target (scene.stages target) scene.session).2
  stages := Function.update scene.stages target
    (c.step target (scene.stages target) scene.session).1

/-- Workers have their turns, in the order of a schedule. -/
def play (schedule : List Target) (scene : Scene) : Scene :=
  schedule.foldl c.move scene

/-- All workers wait. -/
def start (s : Session) : Scene where
  session := s
  stages := fun _ => .waiting

/-! ### A worker's turns -/

/-- What a worker has still to do. -/
def rest (target : Target) : Stage → Job TargetDocs
  | .waiting => c.work target
  | .generated options graphs => do
    let result ← Unifier.unify c.ws.scratch c.extractor c.ws.package target graphs
    return ⟨options, result⟩
  | .extracted options graphs snippetGraph => do
    let result ← Unifier.merge c.ws.scratch target graphs snippetGraph
    return ⟨options, result⟩
  | .emptied options graphs snippetGraph => do
    Unifier.copyGraphs c.ws.scratch target graphs
    let copy ← Unifier.copySnippet c.ws.scratch target snippetGraph
    return c.unifiedDocs target options copy
  | .copied options _ snippetGraph => do
    let copy ← Unifier.copySnippet c.ws.scratch target snippetGraph
    return c.unifiedDocs target options copy
  | .finished outcome => ofOutcome outcome

variable {c} {target : Target} {s : Session} {scene : Scene}

/-- A turn is some work, and the stage that comes of it. -/
theorem step_eq {α : Type} {stage : Stage} {job : Job α} {next : α → Stage}
    (h : c.turn target stage = job >>= fun a => pure (next a)) :
    c.step target stage s =
      (Stage.after next (job.perform c.host s).1, (job.perform c.host s).2) := by
  unfold step
  rw [h, perform_bind]
  rcases job.perform c.host s with ⟨_ | _, _⟩ <;> rfl

theorem turn_waiting (target : Target) :
    c.turn target .waiting = (do
      let options ← settle c.ws.package target c.request.overrides c.request.capabilities
      let graphs ← Coordinator.generate c.generator c.ws.package target options
      return (options, graphs) : Job (GraphOptions × Path)) >>= fun x => pure (.generated x.1 x.2) := by
  simp only [turn, bind_assoc, pure_bind]

theorem turn_generated {extractor : Extractor} (h : c.extractor = some extractor) (target : Target)
    (options : GraphOptions) (graphs : Path) :
    c.turn target (.generated options graphs) =
      extractor.ask c.ws.package target >>= fun answer => pure (.asked options graphs answer) := by
  unfold turn
  rw [h]
  refine bind_congr fun answer => ?_
  cases answer <;> rfl

theorem turn_extracted (target : Target) (options : GraphOptions) (graphs snippetGraph : Path) :
    c.turn target (.extracted options graphs snippetGraph) = (do
      Act.log .debug ("unifying symbol graphs for `" ++ target.name ++ "` into " ++
        (c.ws.scratch.unified target).text)
      Unifier.reset c.ws.scratch target : Job Unit) >>=
        fun _ => pure (.emptied options graphs snippetGraph) := by
  simp only [turn, bind_assoc]

theorem turn_emptied (target : Target) (options : GraphOptions) (graphs snippetGraph : Path) :
    c.turn target (.emptied options graphs snippetGraph) =
      (liftM (Unifier.copyGraphs c.ws.scratch target graphs) : Job Unit) >>=
        fun _ => pure (.copied options graphs snippetGraph) := rfl

theorem turn_copied (target : Target) (options : GraphOptions) (graphs snippetGraph : Path) :
    c.turn target (.copied options graphs snippetGraph) =
      (liftM (Unifier.copySnippet c.ws.scratch target snippetGraph) : Job Path) >>=
        fun copy => pure (.finished (.ok (c.unifiedDocs target options copy))) := rfl

/-- **After a turn there is left to do what comes next**: the work as a whole is what it was. -/
theorem perform_rest (target : Target) (stage : Stage) (s : Session) :
    (c.rest target stage).perform c.host s =
      (c.rest target (c.step target stage s).1).perform c.host (c.step target stage s).2 := by
  have key : ∀ {α : Type} {job : Job α} {next : α → Stage},
      c.turn target stage = job >>= (fun a => pure (next a)) →
      c.rest target stage = job >>= (fun a => c.rest target (next a)) →
      (c.rest target stage).perform c.host s =
        (c.rest target (c.step target stage s).1).perform c.host (c.step target stage s).2 := by
    intro α job next hturn hrest
    rw [step_eq hturn, hrest, perform_bind]
    rcases job.perform c.host s with ⟨_ | _, _⟩ <;> rfl
  cases stage with
  | waiting =>
    refine key (turn_waiting target) ?_
    simp only [rest, work, documentTarget, bind_assoc, pure_bind]
  | generated options graphs =>
    rcases hx : c.extractor with _ | extractor
    · refine @key _ (pure ()) (fun _ => .finished (.ok ⟨options, .single graphs⟩)) ?_ ?_
      · simp only [turn, hx, pure_bind]
      · simp only [rest, hx, Unifier.unify, pure_bind]
        rfl
    · refine key (turn_generated hx target options graphs) ?_
      simp only [rest, hx, Unifier.unify, bind_assoc]
      refine bind_congr fun answer => ?_
      rcases answer with _ | graph
      · rfl
      · rfl
  | extracted options graphs snippetGraph =>
    refine key (turn_extracted target options graphs snippetGraph) ?_
    simp only [rest, Unifier.merge, Job.liftM_bind, bind_assoc, Job.liftM_pure, pure_bind]
    rfl
  | emptied options graphs snippetGraph =>
    exact key (turn_emptied target options graphs snippetGraph) rfl
  | copied options graphs snippetGraph =>
    exact key (turn_copied target options graphs snippetGraph) rfl
  | finished outcome => rfl

/-- Each turn brings the end nearer. -/
theorem turns_step (target : Target) (stage : Stage) (s : Session) :
    (c.step target stage s).1.turns ≤ stage.turns - 1 := by
  have key : ∀ {α : Type} {job : Job α} {next : α → Stage},
      c.turn target stage = job >>= (fun a => pure (next a)) →
      (∀ a, (next a).turns ≤ stage.turns - 1) →
      (c.step target stage s).1.turns ≤ stage.turns - 1 := by
    intro α job next hturn hnext
    rw [step_eq hturn]
    rcases (job.perform c.host s).1 with halt | a
    · exact Nat.zero_le _
    · exact hnext a
  cases stage with
  | waiting => exact key (turn_waiting target) fun _ => Nat.le_refl 4
  | generated options graphs =>
    rcases hx : c.extractor with _ | extractor
    · exact @key _ (pure ()) (fun _ => .finished (.ok ⟨options, .single graphs⟩))
        (by simp only [turn, hx, pure_bind]) fun _ => Nat.zero_le _
    · refine key (turn_generated hx target options graphs) fun answer => ?_
      cases answer with
      | none => exact Nat.zero_le _
      | some graph => exact Nat.le_refl 3
  | extracted options graphs snippetGraph =>
    exact key (turn_extracted target options graphs snippetGraph) fun _ => Nat.le_refl 2
  | emptied options graphs snippetGraph =>
    exact key (turn_emptied target options graphs snippetGraph) fun _ => Nat.le_refl 1
  | copied options graphs snippetGraph =>
    exact key (turn_copied target options graphs snippetGraph) fun _ => Nat.zero_le _
  | finished outcome => exact Nat.zero_le _

/-! ### Schedules -/

theorem play_append (l m : List Target) (scene : Scene) :
    c.play (l ++ m) scene = c.play m (c.play l scene) :=
  List.foldl_append ..

/-- A turn changes the stage of the worker whose turn it is. -/
theorem move_stages_of_ne {x : Target} (h : x ≠ target) :
    (c.move scene target).stages x = scene.stages x :=
  Function.update_of_ne h ..

theorem move_stages_self :
    (c.move scene target).stages target =
      (c.step target (scene.stages target) scene.session).1 :=
  Function.update_self ..

theorem turns_play (x : Target) (l : List Target) (scene : Scene) :
    ((c.play l scene).stages x).turns ≤ (scene.stages x).turns - l.count x := by
  refine turns_foldl (fun _ => True) (fun scene : Scene => (scene.stages x).turns) (· == x)
    (fun scene y _ hy => ?_) (fun scene y _ hy => ?_) l scene trivial
  · obtain rfl : y = x := by simpa using hy
    rw [move_stages_self]
    exact ⟨trivial, turns_step y _ _⟩
  · have hxy : x ≠ y := fun h => by simp [h] at hy
    rw [move_stages_of_ne hxy]
    exact ⟨trivial, rfl⟩

/-- **A worker that has had five turns has finished.** -/
theorem finished_of_count {x : Target} {l : List Target} (h : 5 ≤ l.count x) (scene : Scene) :
    ∃ outcome, (c.play l scene).stages x = .finished outcome := by
  refine Stage.finished_of_turns ?_
  have hturns := turns_play (c := c) x l scene
  have hle := (scene.stages x).turns_le
  omega

end Setting

end SymbolDocs.Batch
