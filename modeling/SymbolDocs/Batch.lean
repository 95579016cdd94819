import SymbolDocs.Coordinator
import SymbolDocs.Plan
import SymbolDocs.Selection
import SymbolDocs.Unifier
import SymbolDocs.Workspace

/-!
# Documenting a selection

For each target that is asked for, options are settled, symbol graphs are generated and unified with
those of the snippets. A target that is asked for more than once is worked on once. A failure does
not keep the other targets from being worked on; it is told at the end, and the first one is the
outcome of the whole. If nothing fails, the results go into a plan, once for each request. Work
takes no time here, and the log says so.
-/

namespace SymbolDocs

/-- What is asked for in a run. -/
structure Request where
  selection : Selection := {}
  overrides : Overrides := {}
  capabilities : Capabilities := {}
  outputPath : Option Path := none
  combined : Bool := false
deriving Repr, Inhabited

/-- What was made for a target. -/
structure TargetDocs where
  options : GraphOptions
  result : GraphResult
deriving DecidableEq, Repr

namespace Batch

/-- Settles the options for a target and tells about them. -/
def settle (package : Package) (target : Target) (overrides : Overrides)
    (capabilities : Capabilities) : Act GraphOptions := do
  let options := GraphOptions.settle target package overrides capabilities
  match overrides.refused capabilities with
  | some included => Act.log .warn (GraphOptions.refusal target included)
  | none => pure ()
  Act.log .debug (options.summary target)
  return options

/-- Makes what the documentation of a target needs. -/
def documentTarget (scratch : Scratch) (generator : Generator) (extractor : Option Extractor)
    (package : Package) (request : Request) (target : Target) : Job TargetDocs := do
  let options ← settle package target request.overrides request.capabilities
  let graphs ← Coordinator.generate generator package target options
  let result ← Unifier.unify scratch extractor package target graphs
  return { options, result }

/-- The targets that a selection stands for; each product that is expanded is told about. -/
def select (package : Package) (selection : Selection) : Act (List Target) := do
  for line in Selection.expansionLines package selection.products do
    Act.log .debug line
  Work.ofExcept .selection (selection.resolveOrDefault package)

/-- Works on some targets one after the other; each has its outcome. -/
def workThrough {α : Type} (work : Target → Job α) (targets : List Target) :
    Job (List (Target × Except Halt α)) :=
  targets.mapM fun target => do
    return (target, ← Work.attempt
      (Work.inside ("failed to document `" ++ target.name ++ "`") (work target)))

/-- The message of the first crash. -/
def firstCrash {α : Type} (outcomes : List (Target × Except Halt α)) : Option String :=
  outcomes.findSome? fun
    | (_, .error (.crashed message)) => some message
    | _ => none

/-- All failures. -/
def failures {α : Type} (outcomes : List (Target × Except Halt α)) : List Failure :=
  outcomes.filterMap fun
    | (_, .error (.failed failure)) => some failure
    | _ => none

/-- The results that there are. -/
def results {α : Type} (outcomes : List (Target × Except Halt α)) : List (Target × α) :=
  outcomes.filterMap fun
    | (target, .ok a) => some (target, a)
    | _ => none

/-- The results, if all went well. A crash is passed on before anything is told; otherwise all
failures are told and the first one is passed on. -/
def gather {α : Type} (outcomes : List (Target × Except Halt α)) : Act (List (Target × α)) := do
  match firstCrash outcomes with
  | some message => throw (.crashed message)
  | none => pure ()
  for failure in failures outcomes do
    Act.log .error failure.message
  match failures outcomes with
  | first :: _ => throw (.failed first)
  | [] => return results outcomes

/-- The plan for the requested targets. -/
def assemble (package : Package) (layout : ArchiveLayout) (requested : List Target)
    (documented : List (Target × TargetDocs)) : Plan :=
  { Plan.start package layout with
    targets := requested.filterMap fun target =>
      (documented.lookup target).map fun docs =>
        PlannedTarget.of layout target docs.options docs.result }

/-- Documents what is asked for, and keeps the plan. -/
def run (ws : Workspace) (generator : Generator) (extractor : Option Extractor)
    (request : Request) : Job Plan := do
  let package := ws.package
  let scratch := ws.scratch
  let requested ← select package request.selection
  Act.log .info ("Documenting " ++ toString requested.length ++ " target(s): " ++
    ", ".intercalate (requested.map Target.name))
  ws.ensureScratch
  let outcomes ← workThrough (documentTarget scratch generator extractor package request)
    requested.eraseDups
  let documented ← gather outcomes
  let layout := ArchiveLayout.plan scratch package requested.length request.outputPath
    request.combined
  let plan := assemble package layout requested documented
  Act.edit fun base => Edit.writeText base scratch.plan plan.text
  Act.log .debug ("documented " ++ toString plan.targets.length ++ " target(s) in 0.00s")
  return plan

end Batch

end SymbolDocs
