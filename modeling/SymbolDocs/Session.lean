import SymbolDocs.Act
import SymbolDocs.GraphOptions

/-!
# Sessions

While targets are worked on, it is remembered which calls of the generator were made and which
snippet graphs there are already, and a lock keeps the calls apart. Acts know nothing of it: done as
a part of a job they change the world only.
-/

namespace SymbolDocs

/-- A call of the generator. -/
structure GeneratorCall where
  target : Target
  options : GraphOptions
deriving DecidableEq, Repr

/-- A lock that workers take one at a time. -/
structure Lock where
  held : Bool := false
  /-- A holder has crashed. -/
  poisoned : Bool := false
deriving DecidableEq, Repr, Inhabited

/-- The world, and what is remembered. -/
structure Session extends World where
  /-- The calls of the generator so far. -/
  calls : List GeneratorCall := []
  /-- The snippet graphs that are kept, by the names of the packages. -/
  snippetGraphs : List (String × Option Path) := []
  /-- The lock around the generator. -/
  lock : Lock := {}

/-- Work within a session. -/
abbrev Job := Work Session

namespace Job

variable {α : Type}

/-- An act as a part of a job. -/
def ofAct (act : Act α) : Job α := fun host session =>
  let (outcome, world) := act.perform host session.toWorld
  (outcome, { session with toWorld := world })

instance (priority := low) : MonadLift Act Job := ⟨ofAct⟩

/-- A job as an act: nothing is remembered from before, and nothing afterwards. -/
def toAct (job : Job α) : Act α := fun host world =>
  let (outcome, session) := job.perform host { toWorld := world }
  (outcome, session.toWorld)

end Job

end SymbolDocs
