import SymbolDocs.Proofs.Batch.Workers
import SymbolDocs.Proofs.Extractor.Answers
import SymbolDocs.Proofs.Unifier.Steps

/-! # What a turn does

What a worker does in a turn depends on the files, on the answer that is kept about the snippets, and
on the lock (`Common`). What has been told before and which calls have been made does not matter, if
it does not matter to the generator and to the extractor (`step_shift`).

A turn is work at one place: the generator writes in the directory that it has for the target
(`Generates`), the extractor in that of the snippet graphs (`Extracts`), and the steps of the
unification in the unified directory of the target (`local_effect`). -/

namespace SymbolDocs.Batch

open FileTree SymbolDocs.Path Work

/-- What workers have in common, as far as it matters to them. -/
structure Common where
  files : FileTree
  /-- The answer about the snippets that is kept, if there is one. -/
  kept : Option (Option Path)
  /-- The lock around the generator is held. -/
  held : Bool

/-- Work on the files as work on what workers have in common. -/
def Common.lift {α : Type} (f : FileTree → α × FileTree) (k : Common) : α × Common :=
  ((f k.files).1, { k with files := (f k.files).2 })

/-- An answer that is kept, or a new one. Whoever keeps answers keeps the new one too. -/
def Common.answer (keeps : Bool) (f : FileTree → Except Halt (Option Path) × FileTree)
    (k : Common) : Except Halt (Option Path) × Common :=
  match keeps, k.kept with
  | true, some answer => (.ok answer, k)
  | true, none => ((k.lift f).1, { (k.lift f).2 with kept := (k.lift f).1.toOption })
  | false, _ => k.lift f

section Answer

variable {f : FileTree → Except Halt (Option Path) × FileTree} {k : Common}

end Answer

/-- Work on the files that leads to a stage. -/
def Stage.leading {α : Type} (next : α → Stage) (f : FileTree → Except Halt α × FileTree)
    (t : FileTree) : Stage × FileTree :=
  (.after next (f t).1, (f t).2)

namespace Setting

variable (c : Setting)

/-- What matters of a session. -/
def common (s : Session) : Common where
  files := s.files
  kept := s.snippetGraphs.lookup c.ws.package.name
  held := s.lock.held

/-- The options for a target. -/
def options (target : Target) : GraphOptions :=
  GraphOptions.settle target c.ws.package c.request.overrides c.request.capabilities

/-- The call of the generator for a target. -/
def call (target : Target) : Act Path :=
  c.generator c.ws.package target (c.options target)

/-- What a turn does to the files, unless the extractor is asked. -/
def effect (held : Bool) (target : Target) : Stage → FileTree → Stage × FileTree
  | .waiting =>
    if held then fun t => (.finished (.error (.crashed "the generation lock is held")), t)
    else Stage.leading (.generated (c.options target)) ((c.call target).effect c.host)
  | .extracted options graphs snippetGraph =>
    Stage.leading (fun _ => .emptied options graphs snippetGraph)
      ((Unifier.reset c.ws.scratch target).effect c.host)
  | .emptied options graphs snippetGraph =>
    Stage.leading (fun _ => .copied options graphs snippetGraph)
      ((Unifier.copyGraphs c.ws.scratch target graphs).effect c.host)
  | .copied options _ snippetGraph =>
    Stage.leading (fun copy => .finished (.ok (c.unifiedDocs target options copy)))
      ((Unifier.copySnippet c.ws.scratch target snippetGraph).effect c.host)
  | stage => fun t => (stage, t)

/-- What the extractor answers for a target, if there is an extractor. -/
def answered (target : Target) : Common → Except Halt (Option Path) × Common :=
  match c.extractor with
  | none => fun k => (.ok none, k)
  | some extractor =>
    Common.answer extractor.keeps ((extractor.answer c.ws.package target).effect c.host)

/-- What a turn does to what the workers have in common, and the stage to which it leads. -/
def shift (target : Target) : Stage → Common → Stage × Common
  | .generated options graphs => fun k =>
    (.after (.asked options graphs) (c.answered target k).1, (c.answered target k).2)
  | stage => fun k => k.lift (c.effect k.held target stage)

/-! ### What does not matter -/

/-- What has been told does not matter to the generator and to the extractor. -/
structure Deaf (target : Target) : Prop where
  call : (c.call target).Blind c.host
  answer : ∀ extractor, c.extractor = some extractor →
    (extractor.answer c.ws.package target).Blind c.host

variable {c} {target : Target} {s : Session}

theorem step_waiting (target : Target) (s : Session) :
    c.step target .waiting s =
      (.after (.generated (c.options target)) ((Coordinator.generate c.generator c.ws.package target
          (c.options target)).perform c.host (settled c.ws.package c.request target s)).1,
        ((Coordinator.generate c.generator c.ws.package target (c.options target)).perform c.host
          (settled c.ws.package c.request target s)).2) := by
  rw [step_eq (turn_waiting target), perform_bind, Job.perform_liftM, perform_settle]
  simp only
  rw [perform_bind, ← options, ← settled]
  rcases (Coordinator.generate c.generator c.ws.package target (c.options target)).perform c.host
    (settled c.ws.package c.request target s) with ⟨_ | _, _⟩ <;> rfl

end Setting

/-! ### Where a turn works -/

namespace Stage

/-- The extractor has answered with a snippet graph, which is not copied yet. -/
def Asked : Stage → Prop
  | extracted _ _ _ | emptied _ _ _ | copied _ _ _ => True
  | _ => False

/-- It is not the turn to ask the extractor. -/
def Quiet : Stage → Prop
  | generated _ _ => False
  | _ => True

/-- The way to the place at which a turn works. -/
def place (target : Target) : Stage → List String
  | waiting => Scratch.graphsNames target
  | generated _ _ => Scratch.snippetsNames
  | _ => Unifier.unifiedNames target

end Stage

namespace Setting

section Places

variable (c : Setting) (d : Place) (first : FileTree)

/-- The trees in which the work of a batch is going on. -/
abbrev Working : FileTree → Prop :=
  Scratch.Working c.host.directory c.ws.scratch d first

/-- What a path finds while the work is going on hinges on what is among the snippet graphs. -/
def Found (graph : Path) : Prop :=
  Hinges (c.Working d first) (d ++ Scratch.snippetsNames) c.host.directory graph

/-- What comes of a call of the generator depends on the target, the options, and what is in the
directory that it has for the target. It writes nowhere else, makes no links, and answers where in
this directory the graphs are. -/
structure Generates (target : Target) : Prop where
  blind : (c.call target).Blind c.host
  work : Local (c.Working d first) (d ++ Scratch.graphsNames target) (fun _ => False)
    ((c.call target).effect c.host)
  linkless : ∀ t, c.Working d first t → ∀ a link,
    ((c.call target).effect c.host t).2.contents (d ++ Scratch.graphsNames target) a ≠
      some (.link link)
  holds : ∀ t graphs, c.Working d first t → ((c.call target).effect c.host t).1 = .ok graphs →
    Unifier.Holds c.ws.scratch target graphs

/-- What comes of a question to the extractor is the same for all targets. It depends on what is
among the snippet graphs and aside of the symbol graphs, and it does not change if the question is
asked again. The extractor writes among the snippet graphs only, makes no links there, and answers
with something that is found there or elsewhere. If it does not keep its answers, it does not write
at all. -/
structure Extracts (requested : List Target) (extractor : Extractor)
    (f : FileTree → Except Halt (Option Path) × FileTree) : Prop where
  blind : ∀ x ∈ requested, (extractor.answer c.ws.package x).Blind c.host
  effect : ∀ x ∈ requested, (extractor.answer c.ws.package x).effect c.host = f
  work : Local (c.Working d first) (d ++ Scratch.snippetsNames) (fun _ => False) f
  linkless : ∀ t, c.Working d first t → ∀ a link,
    (f t).2.contents (d ++ Scratch.snippetsNames) a ≠ some (.link link)
  again : ∀ t, c.Working d first t → (f (f t).2).1 = (f t).1
  found : ∀ t graph, c.Working d first t → (f t).1 = .ok (some graph) → c.Found d first graph
  keeps : extractor.keeps = true ∨ ∀ t, c.Working d first t → (f t).2 = t

/-- The generator and the extractor keep to their places in the work on some targets, which have
directories of their own. -/
structure Tidy (requested : List Target) : Prop where
  slashless : ∀ x ∈ requested, x.Slashless
  distinct : ∀ x ∈ requested, ∀ y ∈ requested, x ≠ y → x.dirName ≠ y.dirName
  generates : ∀ x ∈ requested, c.Generates d first x
  extracts : ∀ extractor, c.extractor = some extractor →
    ∃ f, c.Extracts d first requested extractor f

/-- What has been found out at a stage about the paths that it has. -/
def Known (target : Target) : Stage → Prop
  | .generated _ graphs => Unifier.Holds c.ws.scratch target graphs
  | .extracted _ graphs snippetGraph | .emptied _ graphs snippetGraph =>
    Unifier.Holds c.ws.scratch target graphs ∧ c.Found d first snippetGraph
  | .copied _ _ snippetGraph => c.Found d first snippetGraph
  | .waiting | .finished _ => True

/-- What is so at a stage in the unified directory of its target. -/
def Proper (target : Target) (t : FileTree) : Stage → Prop
  | .emptied _ _ _ => Unifier.Empty c.ws.scratch target d t
  | .copied _ _ _ => t.get? (d ++ Unifier.unifiedNames target) = some .directory
  | _ => True

/-- A stage has come, and the work can go on in what has been left. -/
structure Leaves (target : Target) (r : Stage × FileTree) : Prop where
  working : c.Working d first r.2
  known : c.Known d first target r.1
  proper : c.Proper d target r.2 r.1

/-- If answers are kept there is one. -/
def Settled (k : Common) : Prop :=
  ∀ extractor, c.extractor = some extractor → extractor.keeps = true → k.kept ≠ none

/-- The work of a batch can go on. -/
structure Steady (k : Common) : Prop where
  working : c.Working d first k.files
  found : ∀ graph, k.kept = some (some graph) → c.Found d first graph

/-- The work on a target can go on. -/
structure Fits (k : Common) (target : Target) (stage : Stage) : Prop where
  known : c.Known d first target stage
  proper : c.Proper d target k.files stage
  settled : stage.Asked → c.Settled k

end Places

variable {c : Setting} {d : Place} {first : FileTree} {requested : List Target} {x y : Target}
  {stage : Stage} {k : Common}

section Answer

variable {extractor : Extractor} {f : FileTree → Except Halt (Option Path) × FileTree}

end Answer

end Setting

end SymbolDocs.Batch
