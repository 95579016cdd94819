import SymbolDocs.Proofs.Batch.Pipeline

/-! # One target's pass

A pipeline settles the options for its target, calls the generator with them, once, and unifies what
the generator answers. Whatever comes of it, the call is on record and the lock is free afterwards
(`perform_generate`); nothing else makes a call or touches the lock (`unify_keeps`). -/

namespace SymbolDocs

variable {host : Host} {s s' : Session}

open Work

/-! ### With the lock held -/

namespace Coordinator

/-- The session of a worker who has just taken the lock. -/
def taken (s : Session) : Session :=
  { s with lock := { s.lock with held := true } }

/-- The session after a holder of the lock is done. -/
def released (crashed : Bool) (s : Session) : Session :=
  { s with lock := s.lock.release crashed }

theorem perform_take (hfree : s.lock.held = false) : take.perform host s = (.ok ⟨⟩, taken s) := by
  unfold take
  rw [perform_bind, perform_get]
  simp only [Lock.acquire?, hfree, Bool.false_eq_true, if_false]
  rfl

theorem take_ok {a : Unit} (h : take.perform host s = (.ok a, s')) : s.lock.held = false := by
  unfold take at h
  rw [perform_bind, perform_get] at h
  by_cases hheld : s.lock.held = true
  · simp only [Lock.acquire?, hheld, if_true] at h
    cases h
  · simpa using hheld

theorem perform_exclusively {α : Type} (job : Job α) (hfree : s.lock.held = false) :
    (exclusively job).perform host s =
      ((job.perform host (taken s)).1,
        released (Halt.isCrash (job.perform host (taken s)).1) (job.perform host (taken s)).2) := by
  unfold exclusively
  rw [perform_bind, perform_take hfree]
  simp only
  rw [perform_bind, perform_attempt]
  simp only
  rw [perform_bind, perform_modify]
  simp only
  rw [perform_ofOutcome]
  rfl

/-! ### The call of the generator -/

/-- The world in which the generator is called for a target. -/
def announced (target : Target) (w : World) : World :=
  { w with
    emissions := w.emissions ++
      [.event .debug ("generating symbol graphs for `" ++ target.name ++ "`")] }

/-- The world after the generator has answered with a directory. -/
def acknowledged (target : Target) (dir : Path) (w : World) : World :=
  { w with
    emissions := w.emissions ++
      [.event .debug ("symbol graphs for `" ++ target.name ++ "` written to " ++ dir.text)] }

/-- The world after the generator has ended. -/
def received (target : Target) : Except Halt Path × World → World
  | (.ok dir, w) => acknowledged target dir w
  | (.error _, w) => w

@[simp] theorem received_files (target : Target) (r : Except Halt Path × World) :
    (received target r).files = r.2.files := by
  rcases r with ⟨_ | _, _⟩ <;> rfl

theorem perform_call (generator : Generator) (package : Package) (target : Target)
    (options : GraphOptions) (s : Session) :
    (call generator package target options).perform host s =
      (((generator package target options).perform host s.toWorld).1,
        { s with
          toWorld := ((generator package target options).perform host s.toWorld).2
          calls := s.calls ++ [⟨target, options⟩] }) := by
  unfold call
  rw [perform_bind, perform_modify]
  simp only
  rw [Job.perform_liftM]

theorem perform_told (generator : Generator) (package : Package) (target : Target)
    (options : GraphOptions) (s : Session) :
    (do
      Act.log .debug ("generating symbol graphs for `" ++ target.name ++ "`")
      let dir ← call generator package target options
      Act.log .debug ("symbol graphs for `" ++ target.name ++ "` written to " ++ dir.text)
      return dir : Job Path).perform host s =
      (((generator package target options).perform host (announced target s.toWorld)).1,
        { s with
          toWorld := received target
            ((generator package target options).perform host (announced target s.toWorld))
          calls := s.calls ++ [⟨target, options⟩] }) := by
  rw [perform_bind, Job.perform_liftM, Act.perform_log]
  simp only
  rw [perform_bind, perform_call]
  simp only
  rw [← announced]
  rcases (generator package target options).perform host (announced target s.toWorld) with
    ⟨halt | dir, w⟩
  · rfl
  · simp only
    rw [perform_bind, Job.perform_liftM, Act.perform_log]
    rfl

/-- **Coordinated generation**: the outcome is the generator's; the call is on record and the lock
is free, whatever the outcome. -/
theorem perform_generate (generator : Generator) (package : Package) (target : Target)
    (options : GraphOptions) (hfree : s.lock.held = false) :
    (generate generator package target options).perform host s =
      (((generator package target options).perform host (announced target s.toWorld)).1,
        { s with
          toWorld := received target
            ((generator package target options).perform host (announced target s.toWorld))
          calls := s.calls ++ [⟨target, options⟩]
          lock := s.lock.release (Halt.isCrash ((generator package target options).perform host
            (announced target s.toWorld)).1) }) := by
  unfold generate
  rw [perform_exclusively _ hfree, perform_told]
  rfl

/-- A lock that is held ends the call before it has begun. -/
theorem perform_generate_of_held (generator : Generator) (package : Package) (target : Target)
    (options : GraphOptions) (hheld : s.lock.held = true) :
    (generate generator package target options).perform host s =
      (.error (.crashed "the generation lock is held"), s) := by
  have htake : take.perform host s = (.error (.crashed "the generation lock is held"), s) := by
    unfold take
    rw [perform_bind, perform_get]
    simp only [Lock.acquire?, hheld, if_true]
    rfl
  unfold generate exclusively
  rw [perform_bind, htake]

theorem generate_ok {generator : Generator} {package : Package} {target : Target}
    {options : GraphOptions} {dir : Path}
    (h : (generate generator package target options).perform host s = (.ok dir, s')) :
    s.lock.held = false := by
  unfold generate exclusively at h
  obtain ⟨_, _, h1, -⟩ := perform_bind_ok h
  exact take_ok h1

end Coordinator

/-! ### Unification -/

namespace Extractor

theorem ask_keeps (host : Host) (s : Session) (extractor : Extractor) (package : Package)
    (target : Target) :
    ((extractor.ask package target).perform host s).2.calls = s.calls ∧
    ((extractor.ask package target).perform host s).2.lock = s.lock := by
  unfold ask
  by_cases hk : extractor.keeps = true
  · simp only [hk, Bool.not_true, Bool.false_eq_true, if_false]
    rw [perform_bind, perform_get]
    simp only
    rcases s.snippetGraphs.lookup package.name with _ | kept
    · simp only
      rw [perform_bind, Job.perform_liftM]
      rcases (extractor.answer package target).perform host s.toWorld with ⟨_ | _, w⟩
      · exact ⟨rfl, rfl⟩
      · exact ⟨rfl, rfl⟩
    · simp only
      rw [perform_bind, Job.perform_liftM, Act.perform_log]
      exact ⟨rfl, rfl⟩
  · simp only [hk, Bool.not_false, if_true]
    rw [Job.perform_liftM]
    exact ⟨rfl, rfl⟩

end Extractor

namespace Unifier

/-- Unification makes no call of the generator and leaves the lock alone. -/
theorem unify_keeps (host : Host) (s : Session) (scratch : Scratch) (extractor : Option Extractor)
    (package : Package) (target : Target) (graphs : Path) :
    ((unify scratch extractor package target graphs).perform host s).2.calls = s.calls ∧
    ((unify scratch extractor package target graphs).perform host s).2.lock = s.lock := by
  unfold unify
  rcases extractor with _ | extractor
  · exact ⟨rfl, rfl⟩
  · simp only
    obtain ⟨h1, h2⟩ := extractor.ask_keeps host s package target
    rw [perform_bind]
    rcases hask : (extractor.ask package target).perform host s with ⟨_ | _ | graph, s1⟩ <;>
      rw [hask] at h1 h2
    · exact ⟨h1, h2⟩
    · exact ⟨h1, h2⟩
    · simp only
      rw [Job.perform_liftM]
      exact ⟨h1, h2⟩

end Unifier

/-! ### The pipeline -/

namespace Batch

/-- What is told when the options for a target are settled. -/
def settledEvents (package : Package) (request : Request) (target : Target) : List Emission :=
  (request.overrides.refused request.capabilities).toList.map
      (fun included => .event .warn (GraphOptions.refusal target included)) ++
    [.event .debug ((GraphOptions.settle target package request.overrides
      request.capabilities).summary target)]

theorem perform_settle (package : Package) (request : Request) (target : Target) (w : World) :
    (settle package target request.overrides request.capabilities).perform host w =
      (.ok (GraphOptions.settle target package request.overrides request.capabilities),
        { w with emissions := w.emissions ++ settledEvents package request target }) := by
  unfold settle settledEvents
  simp only
  rcases request.overrides.refused request.capabilities with _ | included
  · simp [Except.map]
  · simp [perform_bind, Except.map]

/-- The session in which the generator is called for a target. -/
def settled (package : Package) (request : Request) (target : Target) (s : Session) : Session :=
  { s with emissions := s.emissions ++ settledEvents package request target }

theorem perform_documentTarget (scratch : Scratch) (generator : Generator)
    (extractor : Option Extractor) (package : Package) (request : Request) (target : Target) :
    (documentTarget scratch generator extractor package request target).perform host s =
      (do
        let graphs ← Coordinator.generate generator package target
          (GraphOptions.settle target package request.overrides request.capabilities)
        let result ← Unifier.unify scratch extractor package target graphs
        return ⟨GraphOptions.settle target package request.overrides request.capabilities, result⟩ :
          Job TargetDocs).perform host (settled package request target s) := by
  unfold documentTarget
  rw [perform_bind, Job.perform_liftM, perform_settle]
  rfl

/-- What a pipeline makes for its target. -/
structure Pass where
  target : Target
  options : GraphOptions
  /-- The generator's answer. -/
  graphs : Path
  /-- What came of the unification. -/
  result : GraphResult

/-- The call that is made in a pass. -/
def Pass.call (p : Pass) : GeneratorCall :=
  ⟨p.target, p.options⟩

/-- A pass is made, from one session to another: with the options that are settled for its target
the generator is called once, and what it answers is unified. -/
structure Made (host : Host) (ws : Workspace) (generator : Generator) (extractor : Option Extractor)
    (request : Request) (s : Session) (p : Pass) (s' : Session) : Prop where
  options : p.options =
    GraphOptions.settle p.target ws.package request.overrides request.capabilities
  calls : s'.calls = s.calls ++ [p.call]
  generated : ∃ before after unifying, before.files = s.files ∧
    (generator ws.package p.target p.options).perform host before = (.ok p.graphs, after) ∧
    unifying.files = after.files ∧ unifying.snippetGraphs = s.snippetGraphs ∧
    (Unifier.unify ws.scratch extractor ws.package p.target p.graphs).perform host unifying =
      (.ok p.result, s')

theorem documentTarget_ok {ws : Workspace} {generator : Generator} {extractor : Option Extractor}
    {request : Request} {target : Target} {docs : TargetDocs}
    (h : (documentTarget ws.scratch generator extractor ws.package request target).perform host s =
      (.ok docs, s')) :
    ∃ graphs, Made host ws generator extractor request s
      ⟨target, docs.options, graphs, docs.result⟩ s' := by
  rw [perform_documentTarget] at h
  obtain ⟨graphs, s1, hgen, h⟩ := perform_bind_ok h
  obtain ⟨result, s2, hunify, h⟩ := perform_bind_ok h
  rw [perform_pure] at h
  obtain ⟨hdocs, rfl⟩ := Prod.mk.inj h
  cases hdocs
  have hfree := Coordinator.generate_ok hgen
  have hcalls := (Unifier.unify_keeps host s1 ws.scratch extractor ws.package target graphs).1
  rw [hunify] at hcalls
  rw [Coordinator.perform_generate _ _ _ _ hfree] at hgen
  obtain ⟨hgraphs, rfl⟩ := Prod.mk.inj hgen
  refine ⟨graphs, rfl, hcalls, _, _, _, ?_, Prod.ext hgraphs rfl, ?_, ?_, hunify⟩
  · rfl
  · simp
  · rfl

end Batch

end SymbolDocs
