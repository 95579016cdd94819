import SymbolDocs.Generator
import SymbolDocs.Session

/-!
# Coordinated generation

Generators share state outside of them, so only one call may be in progress. A lock is held during
each call and is free after it, however the call ends; a lock whose holder has crashed is taken like
any other. The calls are kept in the order in which the lock was taken.
-/

namespace SymbolDocs

namespace Lock

/-- The lock in the hands of a worker, if it is free. A crash of an earlier holder is no hindrance.
-/
def acquire? (lock : Lock) : Option Lock :=
  if lock.held then none else some { lock with held := true }

/-- The lock after its holder is done. -/
def release (lock : Lock) (crashed : Bool) : Lock where
  held := false
  poisoned := lock.poisoned || crashed

end Lock

namespace Coordinator

/-- Takes the lock. A single worker always finds it free. -/
def take : Job Unit := do
  match (← get).lock.acquire? with
  | some lock => modify fun s => { s with lock }
  | none => throw (.crashed "the generation lock is held")

/-- Does a job with the lock held. -/
def exclusively {α : Type} (job : Job α) : Job α := do
  take
  let outcome ← Work.attempt job
  modify fun s => { s with lock := s.lock.release (Halt.isCrash outcome) }
  Work.ofOutcome outcome

/-- One call of the generator, as it is made by whoever holds the lock. -/
def call (generator : Generator) (package : Package) (target : Target) (options : GraphOptions) :
    Job Path := do
  modify fun s => { s with calls := s.calls ++ [⟨target, options⟩] }
  generator package target options

/-- Generates the symbol graphs of a target. -/
def generate (generator : Generator) (package : Package) (target : Target)
    (options : GraphOptions) : Job Path :=
  exclusively do
    Act.log .debug ("generating symbol graphs for `" ++ target.name ++ "`")
    let dir ← call generator package target options
    Act.log .debug ("symbol graphs for `" ++ target.name ++ "` written to " ++ dir.text)
    return dir

end Coordinator

end SymbolDocs
