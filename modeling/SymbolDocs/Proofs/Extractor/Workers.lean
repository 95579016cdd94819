import SymbolDocs.Proofs.Extractor.Answers
import SymbolDocs.Proofs.Turns

/-! # Workers that share an extractor

Any number of workers ask one extractor, each a question of its own, and share a lock around the
answers. Whoever gets the lock looks for an answer that is kept, extracts the snippets if there is
none, keeps the answer, and releases the lock (`Team.step`). Turns of different workers come in any
order, each on a host of its own, and in between anything may happen to everything but the answers
(`Team.play`). A worker that asks several questions, one after the other, counts as several.

* `Team.Steps`: what a turn can come to; all else follows from it.
* `Team.perform_rest`: a step of an extraction leaves to do what comes next; so a worker that has its
  turns one after the other does what asking the extractor is (`Team.ask_in_turns`).
* `Team.Orderly`: what holds at every moment. Nobody looks for an answer that is kept, and the program has
  ended well for a package only if there is an answer, or if the one who is inside is about to keep
  one. `Team.orderly_turn` is the step, and `Team.orderly_play` the run.
* `answers_kept`: what has been answered is answered again, to questions one after the other and to
  workers side by side, and the program ends well at most once for a package. -/

namespace SymbolDocs.Extractor

open Work

/-! ### Extractions step by step -/

/-- How far an extraction has come. -/
inductive Stage
  /-- The snippets are not listed yet. -/
  | searching
  /-- There are snippets, and there is no room for their graph yet. -/
  | clearing (sources : List Path)
  /-- There is room for the graph. -/
  | announcing (sources : List Path)
  /-- The program is called. -/
  | running (sources : List Path)
  /-- The program has ended well, and its graph is not looked for yet. -/
  | looking

namespace Stage

/-- How many steps there are at most until the extraction has ended. -/
def turns : Stage → Nat
  | searching => 5
  | clearing _ => 4
  | announcing _ => 3
  | running _ => 2
  | looking => 1

theorem turns_pos (stage : Stage) : 0 < stage.turns := by
  cases stage <;> simp [turns]

/-- The program was called in a step, and it has ended well. -/
def exited {α : Type} : Stage → Except Halt α → Bool
  | running _, .ok _ => true
  | _, _ => false

end Stage

/-- Workers with an extractor that has a program, each with a question to ask. -/
structure Team (ι : Type) where
  program : Path
  directory : String
  scratch : Scratch
  package : ι → Package
  target : ι → Target

namespace Team

variable {ι : Type} (team : Team ι)

/-- The extractor that the workers share. -/
def extractor : Extractor :=
  ofProgram team.program team.directory team.scratch

/-- The name under which an answer for a worker is kept. -/
def name (x : ι) : String :=
  (team.package x).name

/-- Where the program is told to make the graph. -/
def output (x : ι) : Path :=
  team.scratch.snippetGraph (team.name x)

/-- A step of an extraction, to the next stage or to the answer. -/
def advance (x : ι) : Stage → Act (Stage ⊕ Option Path)
  | .searching => do
    let files ← sources team.directory (team.package x)
    if files.isEmpty then
      Act.log .debug ("no snippets found for `" ++ team.name x ++ "`")
      return .inr none
    return .inl (.clearing files)
  | .clearing files => do
    Act.edit (makeRoom team.scratch (team.name x))
    return .inl (.announcing files)
  | .announcing files => do
    Act.log .info
      ("Extracting " ++ toString files.length ++ " snippet(s) for `" ++ team.name x ++ "`")
    return .inl (.running files)
  | .running files => do
    let _ ← Work.inside ("failed to extract snippets for `" ++ team.name x ++ "`")
      (command team.program (team.package x) (team.output x) files).check
    return .inl .looking
  | .looking => return .inr (← found (team.package x) (team.output x))

/-- What there is still to do of an extraction. -/
def rest (x : ι) : Stage → Act (Option Path)
  | .searching => extract team.program team.directory team.scratch (team.package x)
  | .clearing files => do
    Act.edit (makeRoom team.scratch (team.name x))
    runFor (team.package x) (team.output x) files.length
      (command team.program (team.package x) (team.output x) files)
  | .announcing files =>
    runFor (team.package x) (team.output x) files.length
      (command team.program (team.package x) (team.output x) files)
  | .running files => do
    let _ ← Work.inside ("failed to extract snippets for `" ++ team.name x ++ "`")
      (command team.program (team.package x) (team.output x) files).check
    found (team.package x) (team.output x)
  | .looking => found (team.package x) (team.output x)

/-- **After a step there is left to do what comes next.** -/
theorem rest_eq (x : ι) (stage : Stage) :
    team.rest x stage = team.advance x stage >>= Sum.elim (team.rest x) pure := by
  cases stage with
  | searching =>
    simp only [rest, advance, extract, bind_assoc]
    refine bind_congr fun files => ?_
    split_ifs
    · simp only [bind_assoc, pure_bind]
      rfl
    · simp only [pure_bind]
      rfl
  | clearing files =>
    simp only [rest, advance, bind_assoc, pure_bind, Sum.elim_inl]
  | announcing files =>
    simp only [rest, advance, bind_assoc, pure_bind, Sum.elim_inl]
    rfl
  | running files =>
    simp only [rest, advance, bind_assoc, pure_bind, Sum.elim_inl]
  | looking =>
    simp only [rest, advance, bind_assoc, pure_bind, Sum.elim_inr, bind_pure]

theorem perform_rest (x : ι) (stage : Stage) (host : Host) (w : World) :
    (team.rest x stage).perform host w =
      match (team.advance x stage).perform host w with
      | (.ok (.inl next), w') => (team.rest x next).perform host w'
      | (.ok (.inr answer), w') => (.ok answer, w')
      | (.error halt, w') => (.error halt, w') := by
  rw [rest_eq, perform_bind]
  rcases (team.advance x stage).perform host w with ⟨_ | _ | _, _⟩ <;> rfl

/-- Looking for the graph has an outcome, whatever is found. -/
theorem advance_looking (x : ι) (host : Host) (w : World) :
    ∃ answer, ((team.advance x .looking).perform host w).1 = .ok (.inr answer) := by
  obtain ⟨hfound, -⟩ := perform_found host w (team.package x) (team.output x)
  refine ⟨if w.files.isFile host.directory (team.output x) then some (team.output x) else none, ?_⟩
  simp only [advance]
  rw [perform_bind]
  rcases hw : (found (team.package x) (team.output x)).perform host w with ⟨_ | answer, w'⟩ <;>
    rw [hw] at hfound <;> cases hfound
  rfl

end Team

/-! ### Turns -/

/-- How far a worker has come with its question. -/
inductive Phase
  /-- The lock around the answers is not taken yet. -/
  | waiting
  /-- The lock is taken, and no answer is looked up yet. -/
  | admitted
  /-- There is no answer that is kept, and the snippets are being extracted. -/
  | working (stage : Stage)
  /-- The extraction has ended, and the answer is not kept yet. -/
  | answered (outcome : Except Halt (Option Path))
  /-- The lock is not released yet. -/
  | leaving (outcome : Except Halt (Option Path))
  /-- The outcome is handed back. -/
  | finished (outcome : Except Halt (Option Path))

namespace Phase

/-- The worker has the lock. -/
def inside : Phase → Bool
  | waiting | finished _ => false
  | admitted | working _ | answered _ | leaving _ => true

/-- The worker has found no answer that is kept. -/
def asking : Phase → Bool
  | working _ | answered _ => true
  | _ => false

/-- The extraction cannot fail any more. -/
def due : Phase → Bool
  | working .looking | answered (.ok _) => true
  | _ => false

/-- What the worker hands back, if that is known. -/
def outcome? : Phase → Option (Except Halt (Option Path))
  | leaving outcome | finished outcome => some outcome
  | _ => none

/-- The worker has been given an answer, or has still to look for one that is kept. -/
def Served (r : Option Path) : Phase → Prop
  | waiting | admitted => True
  | leaving outcome | finished outcome => outcome = .ok r
  | working _ | answered _ => False

/-- How many turns there are at most until the outcome is handed back, if the lock is free. -/
def turns : Phase → Nat
  | waiting => 9
  | admitted => 8
  | working stage => stage.turns + 2
  | answered _ => 2
  | leaving _ => 1
  | finished _ => 0

theorem inside_of_asking {phase : Phase} (h : phase.asking = true) : phase.inside = true := by
  cases phase <;> first | rfl | cases h

theorem inside_of_due {phase : Phase} (h : phase.due = true) : phase.inside = true := by
  cases phase <;> first | rfl | cases h

theorem turns_le_of_inside {phase : Phase} (h : phase.inside = true) : phase.turns ≤ 8 := by
  cases phase with
  | working stage => cases stage <;> simp [turns, Stage.turns]
  | _ => simp_all [inside, turns]

theorem finished_of_turns {phase : Phase} (h : phase.turns = 0) :
    ∃ outcome, phase = .finished outcome := by
  cases phase with
  | finished outcome => exact ⟨outcome, rfl⟩
  | _ => simp [turns] at h

/-- The phase that comes of a step of an extraction. -/
def after : Except Halt (Stage ⊕ Option Path) → Phase
  | .ok (.inl stage) => working stage
  | .ok (.inr answer) => answered (.ok answer)
  | .error halt => answered (.error halt)

end Phase

/-- What a turn leaves. -/
structure Turn where
  phase : Phase
  lock : Lock
  session : Session
  /-- The program has ended well in this turn. -/
  exited : Bool := false

/-- The session after an answer was given that is kept. -/
def reused (s : Session) (package : Package) (target : Target) : Session :=
  { s with
    emissions := s.emissions ++ [.event .debug ("reusing snippet graph of `" ++ package.name ++
      "` for `" ++ target.name ++ "`")] }

namespace Team

variable {ι : Type} (team : Team ι) (host : Host) (x : ι)

/-- A worker's turn. -/
def step (phase : Phase) (lock : Lock) (s : Session) : Turn :=
  match phase with
  | .waiting =>
    match lock.acquire? with
    | none => ⟨.waiting, lock, s, false⟩
    | some taken => ⟨.admitted, taken, s, false⟩
  | .admitted =>
    match s.snippetGraphs.lookup (team.name x) with
    | some answer => ⟨.leaving (.ok answer), lock, reused s (team.package x) (team.target x), false⟩
    | none => ⟨.working .searching, lock, s, false⟩
  | .working stage =>
    let done := (team.advance x stage).perform host s.toWorld
    ⟨.after done.1, lock, { s with toWorld := done.2 }, stage.exited done.1⟩
  | .answered outcome =>
    ⟨.leaving outcome, lock,
      { s with snippetGraphs := keep (team.name x) s.snippetGraphs outcome }, false⟩
  | .leaving outcome => ⟨.finished outcome, lock.release (Halt.isCrash outcome), s, false⟩
  | .finished outcome => ⟨.finished outcome, lock, s, false⟩

/-- What a turn can come to. -/
inductive Steps (lock : Lock) (s : Session) : Phase → Turn → Prop
  | wait (hheld : lock.held = true) : Steps lock s .waiting ⟨.waiting, lock, s, false⟩
  | enter (hfree : lock.held = false) :
    Steps lock s .waiting ⟨.admitted, { lock with held := true }, s, false⟩
  | reuse {r : Option Path} (hkept : s.snippetGraphs.lookup (team.name x) = some r) :
    Steps lock s .admitted
      ⟨.leaving (.ok r), lock, reused s (team.package x) (team.target x), false⟩
  | search (hnone : s.snippetGraphs.lookup (team.name x) = none) :
    Steps lock s .admitted ⟨.working .searching, lock, s, false⟩
  | proceed {stage next : Stage} {w : World} (hturns : next.turns < stage.turns)
    (h : (team.advance x stage).perform host s.toWorld = (.ok (.inl next), w)) :
    Steps lock s (.working stage) ⟨.working next, lock, { s with toWorld := w }, false⟩
  | exit {files : List Path} {w : World}
    (h : (team.advance x (.running files)).perform host s.toWorld = (.ok (.inl .looking), w)) :
    Steps lock s (.working (.running files))
      ⟨.working .looking, lock, { s with toWorld := w }, true⟩
  | answer {stage : Stage} {r : Option Path} {w : World}
    (h : (team.advance x stage).perform host s.toWorld = (.ok (.inr r), w)) :
    Steps lock s (.working stage) ⟨.answered (.ok r), lock, { s with toWorld := w }, false⟩
  | fail {stage : Stage} {halt : Halt} {w : World} (hstage : stage ≠ .looking)
    (h : (team.advance x stage).perform host s.toWorld = (.error halt, w)) :
    Steps lock s (.working stage) ⟨.answered (.error halt), lock, { s with toWorld := w }, false⟩
  | keep {outcome : Except Halt (Option Path)} :
    Steps lock s (.answered outcome) ⟨.leaving outcome, lock,
      { s with snippetGraphs := keep (team.name x) s.snippetGraphs outcome }, false⟩
  | leave {outcome : Except Halt (Option Path)} :
    Steps lock s (.leaving outcome)
      ⟨.finished outcome, lock.release (Halt.isCrash outcome), s, false⟩
  | finish {outcome : Except Halt (Option Path)} :
    Steps lock s (.finished outcome) ⟨.finished outcome, lock, s, false⟩

section Step

variable {team host x} {phase : Phase} {stage : Stage} {lock : Lock} {s : Session}
  {r : Option Path}

/-- What a step of an extraction leads to: the program is called last, and its graph is looked for
if it has ended well. -/
theorem advance_next {next : Stage} {w w' : World}
    (h : (team.advance x stage).perform host w = (.ok (.inl next), w')) :
    (∃ files, stage = .running files) ∧ next = .looking ∨
      (∀ files, stage ≠ .running files) ∧ next.turns < stage.turns := by
  cases stage with
  | searching =>
    simp only [advance] at h
    rw [perform_bind, perform_sources] at h
    simp only at h
    split_ifs at h
    · cases h
    · cases h
      exact .inr ⟨nofun, Nat.lt_succ_self 4⟩
  | clearing files =>
    obtain ⟨_, _, -, h⟩ := perform_bind_ok h
    cases h
    exact .inr ⟨nofun, Nat.lt_succ_self 3⟩
  | announcing files =>
    cases h
    exact .inr ⟨nofun, Nat.lt_succ_self 2⟩
  | running files =>
    obtain ⟨_, _, -, h⟩ := perform_bind_ok h
    cases h
    exact .inl ⟨⟨files, rfl⟩, rfl⟩
  | looking =>
    obtain ⟨answer, hanswer⟩ := team.advance_looking x host w
    rw [h] at hanswer
    cases hanswer

theorem advance_answer {w w' : World}
    (h : (team.advance x stage).perform host w = (.ok (.inr r), w')) :
    ∀ files, stage ≠ .running files := by
  rintro files rfl
  obtain ⟨_, _, -, h⟩ := perform_bind_ok h
  cases h

theorem exited_of_not_running {α : Type} (h : ∀ files, stage ≠ .running files)
    (outcome : Except Halt α) : stage.exited outcome = false := by
  cases stage with
  | running files => exact absurd rfl (h files)
  | _ => rfl

theorem steps_working (team : Team ι) (host : Host) (x : ι) (stage : Stage) (lock : Lock)
    (s : Session) :
    team.Steps host x lock s (.working stage) (team.step host x (.working stage) lock s) := by
  have hstep : team.step host x (.working stage) lock s =
      ⟨.after ((team.advance x stage).perform host s.toWorld).1, lock,
        { s with toWorld := ((team.advance x stage).perform host s.toWorld).2 },
        stage.exited ((team.advance x stage).perform host s.toWorld).1⟩ := rfl
  rcases h : (team.advance x stage).perform host s.toWorld with ⟨halt | next | r, w⟩ <;>
    rw [h] at hstep
  · have hlooking : stage ≠ .looking := by
      rintro rfl
      obtain ⟨answer, hanswer⟩ := team.advance_looking x host s.toWorld
      rw [h] at hanswer
      cases hanswer
    rw [hstep, show stage.exited (.error halt) = false by cases stage <;> rfl]
    exact .fail hlooking h
  · rcases advance_next h with ⟨⟨files, rfl⟩, rfl⟩ | ⟨hrunning, hturns⟩
    · exact hstep ▸ .exit h
    · rw [hstep, exited_of_not_running hrunning]
      exact .proceed hturns h
  · rw [hstep, exited_of_not_running (advance_answer h)]
    exact .answer h

/-- **A turn comes to one of these.** -/
theorem steps_step (team : Team ι) (host : Host) (x : ι) (phase : Phase) (lock : Lock)
    (s : Session) : team.Steps host x lock s phase (team.step host x phase lock s) := by
  cases phase with
  | waiting =>
    by_cases hheld : lock.held = true
    · have hstep : team.step host x .waiting lock s = ⟨.waiting, lock, s, false⟩ := by
        simp [step, Lock.acquire?, hheld]
      exact hstep ▸ .wait hheld
    · have hstep : team.step host x .waiting lock s =
          ⟨.admitted, { lock with held := true }, s, false⟩ := by
        simp [step, Lock.acquire?, hheld]
      exact hstep ▸ .enter (by simpa using hheld)
  | admitted =>
    rcases hkept : s.snippetGraphs.lookup (team.name x) with _ | r
    · have hstep : team.step host x .admitted lock s = ⟨.working .searching, lock, s, false⟩ := by
        simp only [step, hkept]
      exact hstep ▸ .search hkept
    · have hstep : team.step host x .admitted lock s =
          ⟨.leaving (.ok r), lock, reused s (team.package x) (team.target x), false⟩ := by
        simp only [step, hkept]
      exact hstep ▸ .reuse hkept
  | working stage => exact steps_working team host x stage lock s
  | answered outcome => exact .keep
  | leaving outcome => exact .leave
  | finished outcome => exact .finish

/-! #### What a turn does about the lock and the answers -/

variable {t : Turn}

theorem Steps.passes (h : team.Steps host x lock s phase t) :
    lock.Passes t.lock phase.inside t.phase.inside := by
  cases h with
  | enter hfree => exact .inr (.inl ⟨hfree, rfl, rfl⟩)
  | leave => exact .inr (.inr ⟨rfl, rfl, rfl⟩)
  | _ => exact .inl ⟨rfl, rfl⟩

theorem Steps.answers (h : team.Steps host x lock s phase t) :
    t.session.snippetGraphs = s.snippetGraphs ∨
      ∃ r, phase = .answered (.ok r) ∧
        t.session.snippetGraphs = (team.name x, r) :: s.snippetGraphs := by
  cases h with
  | @keep outcome =>
    cases outcome with
    | error halt => exact .inl rfl
    | ok r => exact .inr ⟨r, rfl, rfl⟩
  | _ => exact .inl rfl

/-- Whoever has found no answer goes on without one. -/
theorem Steps.asking (h : team.Steps host x lock s phase t)
    (hfresh : phase.asking = true → s.snippetGraphs.lookup (team.name x) = none)
    (hasking : t.phase.asking = true) : t.session.snippetGraphs.lookup (team.name x) = none := by
  cases h with
  | search hnone => exact hnone
  | proceed | exit | answer | fail => exact hfresh rfl
  | _ => cases hasking

/-- An answer that is handed back is kept. -/
theorem Steps.given (h : team.Steps host x lock s phase t)
    (hgiven : phase.outcome? = some (.ok r) → s.snippetGraphs.lookup (team.name x) = some r)
    (houtcome : t.phase.outcome? = some (.ok r)) :
    t.session.snippetGraphs.lookup (team.name x) = some r := by
  cases h with
  | reuse hkept =>
    cases houtcome
    exact hkept
  | keep =>
    cases houtcome
    exact List.lookup_cons_self
  | leave | finish => exact hgiven houtcome
  | _ => cases houtcome

/-- When the program has ended well, its graph is looked for. -/
theorem Steps.due_of_exited (h : team.Steps host x lock s phase t) (hexited : t.exited = true) :
    phase.asking = true ∧ phase.due = false ∧ t.phase.due = true := by
  cases h with
  | exit => exact ⟨rfl, rfl, rfl⟩
  | _ => cases hexited

/-- An extraction that cannot fail any more comes to an answer that is kept. -/
theorem Steps.due (h : team.Steps host x lock s phase t) (hdue : phase.due = true) :
    t.phase.due = true ∨ ∃ r, t.session.snippetGraphs.lookup (team.name x) = some r := by
  cases h with
  | @proceed stage next _ hturns =>
    cases stage with
    | looking => exact absurd next.turns_pos (by simpa [Stage.turns] using hturns)
    | _ => cases hdue
  | answer => exact .inl rfl
  | @fail stage _ _ hstage =>
    cases stage with
    | looking => exact absurd rfl hstage
    | _ => cases hdue
  | @keep outcome =>
    cases outcome with
    | error halt => cases hdue
    | ok r => exact .inr ⟨r, List.lookup_cons_self⟩
  | _ => cases hdue

/-- Each turn of a worker that has the lock brings it nearer to the end. -/
theorem Steps.turns (h : team.Steps host x lock s phase t) (hphase : phase ≠ .waiting) :
    t.phase ≠ .waiting ∧ t.phase.turns ≤ phase.turns - 1 := by
  cases h with
  | wait | enter => exact absurd rfl hphase
  | proceed hturns =>
    refine ⟨nofun, ?_⟩
    simp only [Phase.turns]
    omega
  | @answer stage | @fail stage =>
    refine ⟨nofun, ?_⟩
    have hpos := stage.turns_pos
    simp only [Phase.turns]
    omega
  | _ => exact ⟨nofun, by simp [Phase.turns, Stage.turns]⟩

/-- If an answer is kept for a worker that waits, it is given this answer, and nothing else is done. -/
theorem Steps.served (h : team.Steps host x lock s phase t)
    (hkept : s.snippetGraphs.lookup (team.name x) = some r) (hserved : phase.Served r) :
    t.phase.Served r ∧
      (t.session = s ∨ t.session = reused s (team.package x) (team.target x)) ∧
      t.exited = false := by
  cases h with
  | wait | enter => exact ⟨trivial, .inl rfl, rfl⟩
  | reuse hkept' =>
    rw [hkept] at hkept'
    cases hkept'
    exact ⟨rfl, .inr rfl, rfl⟩
  | search hnone =>
    rw [hkept] at hnone
    cases hnone
  | leave | finish => exact ⟨hserved, .inl rfl, rfl⟩
  | _ => exact absurd hserved id

/-! #### What a worker comes to -/

/-- What a worker comes to from a phase, if there are no others, and the session that is left. -/
def result (team : Team ι) (host : Host) (x : ι) (s : Session) :
    Phase → Except Halt (Option Path) × Session
  | .waiting | .admitted => (team.extractor.ask (team.package x) (team.target x)).perform host s
  | .working stage =>
    (((team.rest x stage).perform host s.toWorld).1,
      { s with
        toWorld := ((team.rest x stage).perform host s.toWorld).2
        snippetGraphs := keep (team.name x) s.snippetGraphs
          ((team.rest x stage).perform host s.toWorld).1 })
  | .answered outcome =>
    (outcome, { s with snippetGraphs := keep (team.name x) s.snippetGraphs outcome })
  | .leaving outcome | .finished outcome => (outcome, s)

/-- **After a turn there is left to come to what there was.** -/
theorem Steps.result (h : team.Steps host x lock s phase t) :
    team.result host x t.session t.phase = team.result host x s phase := by
  have hask : ∀ s : Session, (team.extractor.ask (team.package x) (team.target x)).perform host s =
      team.extractor.reply s.snippetGraphs ⟨host, s, team.package x, team.target x⟩ := fun _ => rfl
  cases h with
  | reuse hkept =>
    simp only [Team.result]
    rw [hask, reply_of_kept rfl hkept]
    rfl
  | search hnone =>
    simp only [Team.result]
    rw [hask, reply_of_new rfl hnone]
    rfl
  | @proceed stage _ _ _ h | @answer stage _ _ h | @fail stage _ _ _ h =>
    simp only [Team.result]
    rw [team.perform_rest x stage, h]
  | @exit files _ h =>
    simp only [Team.result]
    rw [team.perform_rest x (.running files), h]
  | _ => rfl

end Step

end Team

/-! ### Workers side by side -/

/-- What there is at a moment. -/
structure Scene (ι : Type) where
  session : Session
  /-- The lock around the answers. -/
  lock : Lock := {}
  phases : ι → Phase
  /-- The packages for which the program has ended well, in this order. -/
  exits : List String := []

/-- What happens next. -/
inductive Move (ι : Type)
  /-- A worker has a turn, on a host as it is then. -/
  | turn (x : ι) (host : Host)
  /-- All but the answers is changed by somebody else. -/
  | elsewhere (change : Session → Session)

/-- The move is a turn of a worker. -/
def Move.isTurnOf {ι : Type} [DecidableEq ι] (x : ι) : Move ι → Bool
  | .turn y _ => y = x
  | .elsewhere _ => false

namespace Team

variable {ι : Type} (team : Team ι)

/-- All workers wait. -/
def start (ι : Type) (s : Session) : Scene ι where
  session := s
  phases _ := .waiting

/-- What holds at every moment. -/
structure Orderly (scene : Scene ι) : Prop where
  /-- Whoever is inside has the lock, and is alone. -/
  guards : scene.lock.Guards fun x => (scene.phases x).inside
  /-- Whoever has found no answer goes on while none is kept. -/
  fresh : ∀ x, (scene.phases x).asking = true →
    scene.session.snippetGraphs.lookup (team.name x) = none
  /-- An answer that is handed back is kept. -/
  given : ∀ x r, (scene.phases x).outcome? = some (.ok r) →
    scene.session.snippetGraphs.lookup (team.name x) = some r
  /-- The program has ended well at most once for a package. -/
  once : scene.exits.Nodup
  /-- If it has, there is an answer, or one is about to be kept. -/
  due : ∀ name ∈ scene.exits, (∃ r, scene.session.snippetGraphs.lookup name = some r) ∨
    ∃ x, team.name x = name ∧ (scene.phases x).due = true

section Moments

variable {team} {scene : Scene ι} {x : ι}

theorem orderly_start (s : Session) : team.Orderly (start ι s) where
  guards := ⟨by simp [start, Phase.inside], by simp [start, Phase.inside]⟩
  fresh := nofun
  given := nofun
  once := List.nodup_nil
  due := nofun

/-- The program has not ended well for a package while somebody extracts its snippets. -/
theorem not_mem_exits (h : team.Orderly scene) (hasking : (scene.phases x).asking = true)
    (hdue : (scene.phases x).due = false) : team.name x ∉ scene.exits := by
  intro hmem
  rcases h.due _ hmem with ⟨r, hr⟩ | ⟨y, -, hy⟩
  · rw [h.fresh x hasking] at hr
    cases hr
  · obtain rfl : y = x :=
      h.guards.alone y x (Phase.inside_of_due hy) (Phase.inside_of_asking hasking)
    rw [hdue] at hy
    cases hy

end Moments

variable [DecidableEq ι]

/-- The scene after a move. -/
def move (scene : Scene ι) : Move ι → Scene ι
  | .turn x host =>
    let next := team.step host x (scene.phases x) scene.lock scene.session
    { session := next.session
      lock := next.lock
      phases := Function.update scene.phases x next.phase
      exits := scene.exits ++ if next.exited then [team.name x] else [] }
  | .elsewhere change =>
    { scene with
      session := { change scene.session with snippetGraphs := scene.session.snippetGraphs } }

/-- The scene after some moves. -/
def play (moves : List (Move ι)) (scene : Scene ι) : Scene ι :=
  moves.foldl team.move scene

variable {team} {scene : Scene ι} {x y : ι} {name : String} {r : Option Path}

theorem phases_turn_self (host : Host) :
    (team.move scene (.turn x host)).phases x =
      (team.step host x (scene.phases x) scene.lock scene.session).phase :=
  Function.update_self ..

theorem phases_turn_of_ne (host : Host) (h : y ≠ x) :
    (team.move scene (.turn x host)).phases y = scene.phases y :=
  Function.update_of_ne h ..

theorem guards_turn (h : team.Orderly scene) (x : ι) (host : Host) :
    (team.move scene (.turn x host)).lock.Guards
      fun y => ((team.move scene (.turn x host)).phases y).inside := by
  have hinside : (fun y => ((team.move scene (.turn x host)).phases y).inside) =
      Function.update (fun y => (scene.phases y).inside) x
        (team.step host x (scene.phases x) scene.lock scene.session).phase.inside :=
    funext fun y => Function.apply_update (fun _ => Phase.inside) scene.phases x _ y
  rw [hinside]
  exact h.guards.update (team.steps_step host x _ scene.lock scene.session).passes

/-- A turn changes the answers only if it keeps the first one for a package. -/
theorem answers_turn (h : team.Orderly scene) (x : ι) (host : Host) :
    (team.move scene (.turn x host)).session.snippetGraphs = scene.session.snippetGraphs ∨
      ∃ r, scene.phases x = .answered (.ok r) ∧
        scene.session.snippetGraphs.lookup (team.name x) = none ∧
        (team.move scene (.turn x host)).session.snippetGraphs =
          (team.name x, r) :: scene.session.snippetGraphs := by
  rcases (team.steps_step host x _ scene.lock scene.session).answers with hsame | ⟨r, hphase, hnew⟩
  · exact .inl hsame
  · exact .inr ⟨r, hphase, h.fresh x (by rw [hphase]; rfl), hnew⟩

/-- An answer that is kept stays. -/
theorem lookup_move (h : team.Orderly scene)
    (hkept : scene.session.snippetGraphs.lookup name = some r) :
    ∀ m, (team.move scene m).session.snippetGraphs.lookup name = some r
  | .turn x host => by
    rcases answers_turn h x host with hsame | ⟨answer, -, hnone, hnew⟩
    · rw [hsame, hkept]
    · rw [hnew]
      exact lookup_cons_of_none hnone hkept
  | .elsewhere _ => hkept

/-- While somebody else is inside, a turn leaves the answers alone. -/
theorem answers_turn_of_inside (h : team.Orderly scene) (host : Host) (hyx : y ≠ x)
    (hin : (scene.phases y).inside = true) :
    (team.move scene (.turn x host)).session.snippetGraphs = scene.session.snippetGraphs := by
  rcases answers_turn h x host with hsame | ⟨answer, hphase, -, -⟩
  · exact hsame
  · exact absurd (h.guards.alone y x hin (by rw [hphase]; rfl)) hyx

/-- **A turn keeps the order.** -/
theorem orderly_turn (h : team.Orderly scene) (x : ι) (host : Host) :
    team.Orderly (team.move scene (.turn x host)) := by
  have hsteps := team.steps_step host x (scene.phases x) scene.lock scene.session
  refine ⟨guards_turn h x host, fun y hy => ?_, fun y r hy => ?_, ?_, fun name hname => ?_⟩
  · by_cases hyx : y = x
    · subst hyx
      rw [phases_turn_self] at hy
      exact hsteps.asking (h.fresh y) hy
    · rw [phases_turn_of_ne host hyx] at hy
      rw [answers_turn_of_inside h host hyx (Phase.inside_of_asking hy)]
      exact h.fresh y hy
  · by_cases hyx : y = x
    · subst hyx
      rw [phases_turn_self] at hy
      exact hsteps.given (h.given y r) hy
    · rw [phases_turn_of_ne host hyx] at hy
      exact lookup_move h (h.given y r hy) (.turn x host)
  · change (scene.exits ++ ite _ _ _).Nodup
    split_ifs with hexited
    · obtain ⟨hasking, hdue, -⟩ := hsteps.due_of_exited hexited
      rw [← List.concat_eq_append]
      exact h.once.concat (not_mem_exits h hasking hdue)
    · rw [List.append_nil]
      exact h.once
  · rcases List.mem_append.mp hname with hname | hname
    · rcases h.due name hname with ⟨r, hr⟩ | ⟨y, rfl, hy⟩
      · exact .inl ⟨r, lookup_move h hr (.turn x host)⟩
      · by_cases hyx : y = x
        · subst hyx
          rcases hsteps.due hy with hdue | hkept
          · exact .inr ⟨y, rfl, by rw [phases_turn_self, hdue]⟩
          · exact .inl hkept
        · exact .inr ⟨y, rfl, by rw [phases_turn_of_ne host hyx, hy]⟩
    · split_ifs at hname with hexited
      · obtain rfl := List.mem_singleton.mp hname
        exact .inr ⟨x, rfl, by rw [phases_turn_self, (hsteps.due_of_exited hexited).2.2]⟩
      · cases hname

theorem orderly_move (h : team.Orderly scene) : ∀ m, team.Orderly (team.move scene m)
  | .turn x host => orderly_turn h x host
  | .elsewhere _ => ⟨h.guards, h.fresh, h.given, h.once, h.due⟩

/-- So do any moves, one after the other. -/
theorem orderly_play (h : team.Orderly scene) (moves : List (Move ι)) :
    team.Orderly (team.play moves scene) := by
  induction moves generalizing scene with
  | nil => exact h
  | cons m moves ih => exact ih (orderly_move h m)

/-! ### Ends -/

theorem phases_move_of_not (m : Move ι) (h : m.isTurnOf x = false) :
    (team.move scene m).phases x = scene.phases x := by
  cases m with
  | turn y host => exact phases_turn_of_ne host fun hxy => by simp [Move.isTurnOf, hxy] at h
  | elsewhere => rfl

/-- A worker that has got the lock has handed back its outcome after as many turns as it has still to
do, whatever happens in between. -/
theorem turns_play (moves : List (Move ι)) (h : scene.phases x ≠ .waiting) :
    ((team.play moves scene).phases x).turns ≤
      (scene.phases x).turns - moves.countP (Move.isTurnOf x) := by
  refine turns_foldl (fun scene : Scene ι => scene.phases x ≠ .waiting)
    (fun scene => (scene.phases x).turns) (Move.isTurnOf x) (fun scene m hphase hm => ?_)
    (fun scene m hphase hm => ?_) moves scene h
  · obtain ⟨host, rfl⟩ : ∃ host, m = .turn x host := by
      cases m with
      | turn y host => exact ⟨host, by simp_all [Move.isTurnOf]⟩
      | elsewhere => cases hm
    rw [phases_turn_self]
    exact (team.steps_step host x _ scene.lock scene.session).turns hphase
  · rw [phases_move_of_not m hm]
    exact ⟨hphase, rfl⟩

theorem finished_of_count {moves : List (Move ι)} (h : (scene.phases x).inside = true)
    (hcount : 8 ≤ moves.countP (Move.isTurnOf x)) :
    ∃ outcome, (team.play moves scene).phases x = .finished outcome := by
  have hwaiting : scene.phases x ≠ .waiting := fun hphase => by simp [hphase, Phase.inside] at h
  have hturns : ((team.play moves scene).phases x).turns ≤ _ := turns_play moves hwaiting
  have hle := Phase.turns_le_of_inside h
  exact Phase.finished_of_turns (by omega)

/-- A worker for which an answer is kept when it comes is given this answer in the end, and does
nothing else. -/
theorem served_play (h : team.Orderly scene)
    (hkept : scene.session.snippetGraphs.lookup (team.name x) = some r)
    (hserved : (scene.phases x).Served r) (moves : List (Move ι)) :
    ((team.play moves scene).phases x).Served r ∧
      (team.play moves scene).session.snippetGraphs.lookup (team.name x) = some r := by
  induction moves generalizing scene with
  | nil => exact ⟨hserved, hkept⟩
  | cons m moves ih =>
    refine ih (orderly_move h m) (lookup_move h hkept m) ?_
    cases m with
    | elsewhere => exact hserved
    | turn y host =>
      by_cases hxy : x = y
      · subst hxy
        rw [phases_turn_self]
        exact ((team.steps_step host x _ scene.lock scene.session).served hkept hserved).1
      · rw [phases_turn_of_ne host hxy]
        exact hserved

/-- What a turn of such a worker does. -/
theorem turn_of_served (host : Host)
    (hkept : scene.session.snippetGraphs.lookup (team.name x) = some r)
    (hserved : (scene.phases x).Served r) :
    (team.move scene (.turn x host)).exits = scene.exits ∧
      ((team.move scene (.turn x host)).session = scene.session ∨
        (team.move scene (.turn x host)).session =
          reused scene.session (team.package x) (team.target x)) := by
  obtain ⟨-, hsession, hexited⟩ :=
    (team.steps_step host x _ scene.lock scene.session).served hkept hserved
  refine ⟨?_, hsession⟩
  simp only [move, hexited, Bool.false_eq_true, if_false, List.append_nil]

/-! ### Turn by turn and at one go -/

theorem result_play (host : Host) (x : ι) : ∀ (n : Nat) (scene : Scene ι),
    team.result host x (team.play (List.replicate n (.turn x host)) scene).session
        ((team.play (List.replicate n (.turn x host)) scene).phases x) =
      team.result host x scene.session (scene.phases x)
  | 0, _ => rfl
  | n + 1, scene => by
    have hsteps := team.steps_step host x (scene.phases x) scene.lock scene.session
    refine (result_play host x n (team.move scene (.turn x host))).trans ?_
    rw [phases_turn_self]
    exact hsteps.result

/-- A worker that has its turns one after the other does what asking the extractor is. -/
theorem ask_in_turns (host : Host) (hwaiting : scene.phases x = .waiting)
    (hfree : scene.lock.held = false) :
    let asked := (team.extractor.ask (team.package x) (team.target x)).perform host scene.session
    (team.play (List.replicate 9 (.turn x host)) scene).phases x = .finished asked.1 ∧
      (team.play (List.replicate 9 (.turn x host)) scene).session = asked.2 := by
  have hadmitted : (team.move scene (.turn x host)).phases x = .admitted := by
    rw [phases_turn_self, hwaiting]
    simp [step, Lock.acquire?, hfree]
  have hfirst : team.play (List.replicate 9 (.turn x host)) scene =
      team.play (List.replicate 8 (.turn x host)) (team.move scene (.turn x host)) :=
    List.foldl_cons ..
  obtain ⟨outcome, houtcome⟩ : ∃ outcome,
      (team.play (List.replicate 9 (.turn x host)) scene).phases x = .finished outcome := by
    rw [hfirst]
    exact finished_of_count (by rw [hadmitted]; rfl) (by simp [Move.isTurnOf])
  have hresult := team.result_play host x 9 scene
  rw [houtcome, hwaiting] at hresult
  have hasked : (team.extractor.ask (team.package x) (team.target x)).perform host scene.session =
      (outcome, (team.play (List.replicate 9 (.turn x host)) scene).session) := hresult.symm
  rw [houtcome, hasked]
  exact ⟨rfl, rfl⟩

end Team

/-! ### One after the other and side by side -/

/-- **What has been answered is answered again.** If questions are asked one after the other,
* an answer for a package is given once more to every later question for it, and nothing is done for
  it, whatever has become of the files and of the program;
* as long as there is none, each question for the package makes the extractor try;
* a failure is not kept, and a question makes no difference for other packages;
* so the program ends well at most once for a package.

It is the same if workers ask at the same time, whatever else happens between their turns:
* one of them is inside at most, and it has left after eight turns;
* what a turn changes about the answers is that the first one for a package is kept;
* once there is an answer, whoever asks for the package later is given it, and nothing else is done;
* the program has ended well at most once for a package;
* turns one after the other are a question. -/
theorem answers_kept {ι : Type} [DecidableEq ι] (team : Team ι) (history : List Question)
    (q : Question) (s : Session) (moves : List (Move ι)) :
    let x := team.extractor
    let scene := team.play moves (Team.start ι s)
    (∀ r, x.Answered history q.package.name r →
      x.reply (x.memory history) q = (.ok r,
        { q.session with
          emissions := q.session.emissions ++ [.event .debug ("reusing snippet graph of `" ++
            q.package.name ++ "` for `" ++ q.target.name ++ "`")]
          snippetGraphs := x.memory history })) ∧
    ((∀ r, ¬x.Answered history q.package.name r) →
      ((x.reply (x.memory history) q).1, (x.reply (x.memory history) q).2.toWorld) =
        (extract team.program team.directory team.scratch q.package).perform q.host
          q.session.toWorld) ∧
    (∀ halt, (x.reply (x.memory history) q).1 = .error halt →
      x.memory (history ++ [q]) = x.memory history) ∧
    (∀ name, name ≠ q.package.name →
      (x.memory (history ++ [q])).lookup name = (x.memory history).lookup name) ∧
    (∀ earlier a later, history = earlier ++ a :: later → a.package.name = q.package.name →
      Exits team.program team.directory team.scratch (x.memory earlier) a →
      ¬Exits team.program team.directory team.scratch (x.memory history) q) ∧
    (∀ y z, (scene.phases y).inside = true → (scene.phases z).inside = true → y = z) ∧
    (∀ y, (scene.phases y).inside = true → ∀ more : List (Move ι),
      8 ≤ more.countP (Move.isTurnOf y) →
      ∃ outcome, (team.play more scene).phases y = .finished outcome) ∧
    (∀ y host, (team.move scene (.turn y host)).session.snippetGraphs =
        scene.session.snippetGraphs ∨
      ∃ r, scene.phases y = .answered (.ok r) ∧
        scene.session.snippetGraphs.lookup (team.name y) = none ∧
        (team.move scene (.turn y host)).session.snippetGraphs =
          (team.name y, r) :: scene.session.snippetGraphs) ∧
    (∀ y z r, scene.phases y = .finished (.ok r) → team.name z = team.name y →
      scene.phases z = .waiting → ∀ (more : List (Move ι)) host,
      let later := team.play more scene
      let next := team.move later (.turn z host)
      (later.phases z).Served r ∧ next.exits = later.exits ∧
        (next.session = later.session ∨
          next.session = reused later.session (team.package z) (team.target z))) ∧
    scene.exits.Nodup ∧
    ∀ y host, scene.phases y = .waiting → scene.lock.held = false →
      let asked := (x.ask (team.package y) (team.target y)).perform host scene.session
      (team.play (List.replicate 9 (.turn y host)) scene).phases y = .finished asked.1 ∧
        (team.play (List.replicate 9 (.turn y host)) scene).session = asked.2 := by
  intro x scene
  have hx : x.keeps = true := rfl
  have horderly : team.Orderly scene := Team.orderly_play (Team.orderly_start s) moves
  refine ⟨fun r h => reply_of_kept hx ((lookup_memory_iff hx).mpr h), extract_of_unanswered,
    fun halt h => ?_, fun name h => ?_, fun earlier a later hsplit hname ha => ?_,
    horderly.guards.alone, fun y hin more => Team.finished_of_count hin,
    fun y host => Team.answers_turn horderly y host,
    fun y z r hy hname hz more host => ?_, horderly.once, fun y host => Team.ask_in_turns host⟩
  · rw [memory_concat, kept_of_error hx h]
  · rw [memory_concat, lookup_of_ne hx h]
  · subst hsplit
    exact not_exits_again hname ha
  · have hkept : scene.session.snippetGraphs.lookup (team.name z) = some r :=
      hname ▸ horderly.given y r (by rw [hy]; rfl)
    obtain ⟨hserved, hlater⟩ := Team.served_play horderly hkept (by rw [hz]; trivial) more
    exact ⟨hserved, Team.turn_of_served host hlater hserved⟩

/-- Three workers ask for the same package. For the first nothing can be run. Then there is a program,
and the second extracts the snippets while the third waits. In the end everything is gone, and the
third has the answer of the second. -/
example :
    let team : Team (Fin 3) :=
      ⟨⟨"/t"⟩, "Snippets", ⟨⟨"/.graphdoc"⟩⟩, fun _ => { smallPackage with root := ⟨"/"⟩ },
        fun _ => { name := "a", id := "i", kind := .sourceModule .library }⟩
    let files := (FileTree.empty.putAt ["t"] (.file .empty true)).putAt ["Snippets"] .directory
      |>.putAt ["Snippets", "s"] (.file .empty false)
    let able := writerHost .empty ""
    let scene := team.play
      (List.replicate 9 (Move.turn 0 bareHost) ++ List.replicate 5 (Move.turn 1 able) ++
        [Move.turn 2 able] ++ List.replicate 4 (Move.turn 1 able) ++
        [Move.elsewhere fun _ => { files := .empty }] ++ List.replicate 9 (Move.turn 2 bareHost))
      (Team.start _ { files })
    let given := fun x => (scene.phases x).outcome?.map Except.toOption
    given 0 = some none ∧
      given 1 = some (some (some
        ⟨"/.graphdoc/symbol-graphs/snippet-symbol-graphs/p-snippets.symbols.json"⟩)) ∧
      given 2 = given 1 ∧ scene.exits = ["p"] := by
  decide +kernel

end SymbolDocs.Extractor
