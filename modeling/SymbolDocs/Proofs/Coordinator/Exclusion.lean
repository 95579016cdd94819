import SymbolDocs.Proofs.Batch.Pass
import SymbolDocs.Proofs.Turns

/-! # One call of a generator at a time

Any number of workers, each with an order to call a generator of its own, share one lock. An order
goes through four turns (`Order.step`): the lock is taken, the generator is called, it ends, the lock
is released; while another worker has the lock, a turn is spent waiting. Turns of different workers
come in any order, and in between anything may happen to the world (`play`). A worker that orders
several calls, one after the other, counts as several.

* `Orderly`: what holds at every moment. The lock is held just while a worker is inside, and there
  is one inside at most; each worker has done what its phase says, and no more (`Done`).
* `Order.step_inside`: a step leaves who is inside as it is, or enters with the free lock, or leaves
  with the lock released. `orderly_move` follows, and `orderly_play` from it.
* `finished_of_count`: a worker that is inside has left after three turns, whatever its generator
  answers and whatever the others do; so nobody waits for a lock that stays held
  (`admitted_of_waiting`). -/

namespace SymbolDocs.Coordinator

open Work

/-! ### Orders -/

/-- An order to call a generator. -/
structure Order where
  generator : Generator
  package : Package
  target : Target
  options : GraphOptions

namespace Order

/-- What the generator does when it is called as ordered. -/
def act (o : Order) : Act Path :=
  o.generator o.package o.target o.options

/-- The call as it is remembered. -/
def call (o : Order) : GeneratorCall :=
  ⟨o.target, o.options⟩

end Order

/-- How far an order has come. -/
inductive Phase
  /-- The lock has not been taken yet. -/
  | waiting
  /-- The lock is taken, and the generator not yet called. -/
  | admitted
  /-- The call is in progress. -/
  | calling
  /-- The generator has ended, and the lock is not yet released. -/
  | returned (outcome : Except Halt Path)
  /-- The outcome is handed back. -/
  | finished (outcome : Except Halt Path)

namespace Phase

/-- The worker has the lock. -/
def inside : Phase → Bool
  | .waiting | .finished _ => false
  | .admitted | .calling | .returned _ => true

/-- How many turns there are until the outcome is handed back, if the lock is free. -/
def turns : Phase → Nat
  | .waiting => 4
  | .admitted => 3
  | .calling => 2
  | .returned _ => 1
  | .finished _ => 0

theorem turns_le_of_inside {phase : Phase} (h : phase.inside = true) : phase.turns ≤ 3 := by
  cases phase <;> simp_all [inside, turns]

theorem finished_of_turns {phase : Phase} (h : phase.turns = 0) :
    ∃ outcome, phase = .finished outcome := by
  cases phase with
  | finished outcome => exact ⟨outcome, rfl⟩
  | _ => simp [turns] at h

end Phase

/-- What a worker does that counts. -/
inductive Event
  /-- A generator is called as an order says. -/
  | called (order : Order)
  /-- The generator has ended; its work was done in a world, with an outcome. -/
  | answered (before : World) (outcome : Except Halt Path)
  /-- An outcome is handed back. -/
  | handed (outcome : Except Halt Path)

/-- The call that is begun with an event. -/
def Event.call? : Event → Option GeneratorCall
  | .called order => some order.call
  | .answered _ _ | .handed _ => none

/-- What a turn leaves. -/
structure Turn where
  phase : Phase
  session : Session
  event : Option Event := none

/-- A worker's turn. -/
def Order.step (host : Host) (o : Order) : Phase → Session → Turn
  | .waiting, s =>
    match s.lock.acquire? with
    | none => ⟨.waiting, s, none⟩
    | some lock => ⟨.admitted, { s with lock }, none⟩
  | .admitted, s =>
    ⟨.calling, { s with toWorld := announced o.target s.toWorld, calls := s.calls ++ [o.call] },
      some (.called o)⟩
  | .calling, s =>
    ⟨.returned (o.act.perform host s.toWorld).1,
      { s with toWorld := received o.target (o.act.perform host s.toWorld) },
      some (.answered s.toWorld (o.act.perform host s.toWorld).1)⟩
  | .returned outcome, s =>
    ⟨.finished outcome, released (Halt.isCrash outcome) s, some (.handed outcome)⟩
  | .finished outcome, s => ⟨.finished outcome, s, none⟩

/-- What a worker has done by the time it is in a phase: before it has the lock, and before it calls,
nothing; then its own generator is called as ordered; what the generator has answered is handed
back. -/
def Done (host : Host) (o : Order) : Phase → List Event → Prop
  | .waiting, events | .admitted, events => events = []
  | .calling, events => events = [.called o]
  | .returned outcome, events => ∃ before, (o.act.perform host before).1 = outcome ∧
      events = [.called o, .answered before outcome]
  | .finished outcome, events => ∃ before, (o.act.perform host before).1 = outcome ∧
      events = [.called o, .answered before outcome, .handed outcome]

section Step

variable {host : Host} {o : Order} {phase : Phase} {s : Session}

theorem step_waiting (hfree : s.lock.held = false) :
    o.step host .waiting s = ⟨.admitted, taken s, none⟩ := by
  simp [Order.step, Lock.acquire?, hfree, taken]

theorem step_waiting_of_held (hheld : s.lock.held = true) :
    o.step host .waiting s = ⟨.waiting, s, none⟩ := by
  simp [Order.step, Lock.acquire?, hheld]

/-- **A step and the lock**: who is inside stays inside and who is not stays outside, with the lock
as it was; or the free lock is taken; or it is released. -/
theorem Order.step_inside (host : Host) (o : Order) (phase : Phase) (s : Session) :
    s.lock.Passes (o.step host phase s).session.lock phase.inside
      (o.step host phase s).phase.inside := by
  cases phase with
  | waiting =>
    by_cases hheld : s.lock.held = true
    · rw [step_waiting_of_held hheld]
      exact .inl ⟨rfl, rfl⟩
    · rw [step_waiting (by simpa using hheld)]
      exact .inr (.inl ⟨by simpa using hheld, rfl, rfl⟩)
  | admitted => exact .inl ⟨rfl, rfl⟩
  | calling => exact .inl ⟨rfl, rfl⟩
  | returned outcome => exact .inr (.inr ⟨rfl, rfl, rfl⟩)
  | finished outcome => exact .inl ⟨rfl, rfl⟩

/-- A step adds to what the worker has done just what its new phase says. -/
theorem Done.step {events : List Event} (h : Done host o phase events) (s : Session) :
    Done host o (o.step host phase s).phase (events ++ (o.step host phase s).event.toList) := by
  cases phase with
  | waiting =>
    by_cases hheld : s.lock.held = true
    · rw [step_waiting_of_held hheld]
      simpa [Done] using h
    · rw [step_waiting (by simpa using hheld)]
      simpa [Done] using h
  | admitted =>
    have hnil : events = [] := h
    simp [Order.step, Done, hnil]
  | calling =>
    have hcalled : events = [.called o] := h
    exact ⟨s.toWorld, rfl, by simp [Order.step, hcalled]⟩
  | returned outcome =>
    obtain ⟨before, houtcome, hevents⟩ := h
    exact ⟨before, houtcome, by simp [Order.step, hevents]⟩
  | finished outcome => simpa [Order.step, Done] using h

/-- The calls that are remembered are those that have begun. -/
theorem Order.step_calls (host : Host) (o : Order) (phase : Phase) (s : Session) :
    (o.step host phase s).session.calls =
      s.calls ++ (o.step host phase s).event.toList.filterMap Event.call? := by
  cases phase with
  | waiting =>
    by_cases hheld : s.lock.held = true
    · simp [step_waiting_of_held hheld]
    · simp [step_waiting (by simpa using hheld : s.lock.held = false), taken]
  | _ => simp [Order.step, Event.call?, released]

/-- Each turn of a worker that has got the lock brings it nearer to the end. -/
theorem Order.step_turns (host : Host) (o : Order) (s : Session) (h : phase ≠ .waiting) :
    (o.step host phase s).phase ≠ .waiting ∧
      (o.step host phase s).phase.turns = phase.turns - 1 := by
  cases phase with
  | waiting => exact absurd rfl h
  | _ => simp [Order.step, Phase.turns]

end Step

/-! ### Workers side by side -/

/-- What there is at a moment: the session that all workers share, the phase of each, and what they
have done so far. -/
structure Scene (ι : Type) where
  session : Session
  phases : ι → Phase
  trace : List (ι × Event) := []

/-- What a worker has done so far. -/
def Scene.history {ι : Type} [DecidableEq ι] (scene : Scene ι) (x : ι) : List Event :=
  (scene.trace.filter fun e => e.1 = x).map Prod.snd

/-- What happens next. -/
inductive Move (ι : Type)
  /-- A worker has a turn. -/
  | turn (x : ι)
  /-- The world is changed by somebody else. -/
  | elsewhere (change : World → World)

/-- The move is a turn of a worker. -/
def Move.isTurnOf {ι : Type} [DecidableEq ι] (x : ι) : Move ι → Bool
  | .turn y => y = x
  | .elsewhere _ => false

variable {ι : Type} [DecidableEq ι] (host : Host) (orders : ι → Order)

/-- The scene after a move. -/
def move (scene : Scene ι) : Move ι → Scene ι
  | .turn x =>
    let next := (orders x).step host (scene.phases x) scene.session
    { session := next.session
      phases := Function.update scene.phases x next.phase
      trace := scene.trace ++ next.event.toList.map fun event => (x, event) }
  | .elsewhere change =>
    { scene with session := { scene.session with toWorld := change scene.session.toWorld } }

/-- The scene after some moves. -/
def play (moves : List (Move ι)) (scene : Scene ι) : Scene ι :=
  moves.foldl (move host orders) scene

/-- All workers wait. -/
def start (ι : Type) (s : Session) : Scene ι where
  session := s
  phases _ := .waiting

/-- What holds at every moment, if the session was `s` in the beginning. -/
structure Orderly (s : Session) (scene : Scene ι) : Prop where
  /-- The lock is held just while a worker is inside. -/
  held : scene.session.lock.held = true ↔ ∃ x, (scene.phases x).inside = true
  /-- There is one worker inside at most. -/
  alone : ∀ x y, (scene.phases x).inside = true → (scene.phases y).inside = true → x = y
  /-- Each worker has done what its phase says. -/
  done : ∀ x, Done host (orders x) (scene.phases x) (scene.history x)
  /-- The calls are remembered in their order. -/
  calls : scene.session.calls = s.calls ++ scene.trace.filterMap fun e => e.2.call?

variable {host orders} {s : Session} {scene : Scene ι} {x y : ι}

theorem play_append (l m : List (Move ι)) (scene : Scene ι) :
    play host orders (l ++ m) scene = play host orders m (play host orders l scene) :=
  List.foldl_append ..

theorem phases_turn_self :
    (move host orders scene (.turn x)).phases x =
      ((orders x).step host (scene.phases x) scene.session).phase :=
  Function.update_self ..

theorem phases_turn_of_ne (h : y ≠ x) :
    (move host orders scene (.turn x)).phases y = scene.phases y :=
  Function.update_of_ne h ..

theorem history_turn_self :
    (move host orders scene (.turn x)).history x = scene.history x ++
      ((orders x).step host (scene.phases x) scene.session).event.toList := by
  simp [Scene.history, move, List.filter_map, Function.comp_def]

theorem history_turn_of_ne (h : y ≠ x) :
    (move host orders scene (.turn x)).history y = scene.history y := by
  simp [Scene.history, move, List.filter_map, Function.comp_def, h.symm]

/-! ### What holds at every moment -/

theorem orderly_start (hfree : s.lock.held = false) : Orderly host orders s (start ι s) where
  held := by simp [start, hfree, Phase.inside]
  alone := by simp [start, Phase.inside]
  done _ := rfl
  calls := by simp [start]

theorem Orderly.guards (h : Orderly host orders s scene) :
    scene.session.lock.Guards fun y => (scene.phases y).inside :=
  ⟨h.held, h.alone⟩

theorem guards_turn (h : Orderly host orders s scene) (x : ι) :
    (move host orders scene (.turn x)).session.lock.Guards
      fun y => ((move host orders scene (.turn x)).phases y).inside := by
  have hinside : (fun y => ((move host orders scene (.turn x)).phases y).inside) =
      Function.update (fun y => (scene.phases y).inside) x
        ((orders x).step host (scene.phases x) scene.session).phase.inside :=
    funext fun y => Function.apply_update (fun _ => Phase.inside) scene.phases x _ y
  rw [hinside]
  exact h.guards.update ((orders x).step_inside host (scene.phases x) scene.session)

/-- A move keeps the order. -/
theorem orderly_move (h : Orderly host orders s scene) :
    ∀ m, Orderly host orders s (move host orders scene m)
  | .turn x => by
    refine ⟨(guards_turn h x).held, (guards_turn h x).alone, fun y => ?_, ?_⟩
    · by_cases hyx : y = x
      · subst hyx
        rw [phases_turn_self, history_turn_self]
        exact (h.done y).step scene.session
      · rw [phases_turn_of_ne hyx, history_turn_of_ne hyx]
        exact h.done y
    · change ((orders x).step host (scene.phases x) scene.session).session.calls = _
      rw [Order.step_calls, h.calls, List.append_assoc]
      simp [move, List.filterMap_map]
  | .elsewhere _ => ⟨h.held, h.alone, h.done, h.calls⟩

/-- So do any moves, one after the other. -/
theorem orderly_play (h : Orderly host orders s scene) (moves : List (Move ι)) :
    Orderly host orders s (play host orders moves scene) := by
  induction moves generalizing scene with
  | nil => exact h
  | cons m moves ih => exact ih (orderly_move h m)

/-! ### The lock comes free -/

theorem phases_move_of_not (m : Move ι) (h : m.isTurnOf x = false) :
    (move host orders scene m).phases x = scene.phases x := by
  cases m with
  | turn y => exact phases_turn_of_ne fun hxy => by simp [Move.isTurnOf, hxy] at h
  | elsewhere => rfl

/-- A worker that has got the lock is done after as many turns as it has still to do, whatever
happens in between. -/
theorem turns_play (moves : List (Move ι)) (h : scene.phases x ≠ .waiting) :
    ((play host orders moves scene).phases x).turns ≤
      (scene.phases x).turns - moves.countP (Move.isTurnOf x) := by
  refine turns_foldl (fun scene : Scene ι => scene.phases x ≠ .waiting)
    (fun scene => (scene.phases x).turns) (Move.isTurnOf x) (fun scene m hphase hm => ?_)
    (fun scene m hphase hm => ?_) moves scene h
  · obtain ⟨rfl⟩ : m = .turn x := by
      cases m with
      | turn y => simpa [Move.isTurnOf] using hm
      | elsewhere => cases hm
    obtain ⟨hne, hturns⟩ := (orders x).step_turns host scene.session hphase
    rw [phases_turn_self]
    exact ⟨hne, Nat.le_of_eq hturns⟩
  · rw [phases_move_of_not m hm]
    exact ⟨hphase, rfl⟩

theorem finished_of_count {moves : List (Move ι)} (h : (scene.phases x).inside = true)
    (hcount : 3 ≤ moves.countP (Move.isTurnOf x)) :
    ∃ outcome, (play host orders moves scene).phases x = .finished outcome := by
  have hwaiting : scene.phases x ≠ .waiting := fun hphase => by simp [hphase, Phase.inside] at h
  have hturns : ((play host orders moves scene).phases x).turns ≤ _ := turns_play moves hwaiting
  have hle := Phase.turns_le_of_inside h
  exact Phase.finished_of_turns (by omega)

/-- A waiting worker gets the lock as soon as it is free, whatever the holders before have come to.
-/
theorem admitted_of_free (hwaiting : scene.phases y = .waiting)
    (hfree : scene.session.lock.held = false) :
    (move host orders scene (.turn y)).phases y = .admitted := by
  rw [phases_turn_self, hwaiting, step_waiting hfree]

theorem lock_turn_of_returned {outcome : Except Halt Path}
    (h : scene.phases x = .returned outcome) :
    (move host orders scene (.turn x)).phases x = .finished outcome ∧
      (move host orders scene (.turn x)).session.lock =
        ⟨false, scene.session.lock.poisoned || Halt.isCrash outcome⟩ := by
  rw [phases_turn_self]
  simp only [move, h]
  exact ⟨rfl, rfl⟩

theorem phases_play_of_not (moves : List (Move ι)) (h : ∀ m ∈ moves, m.isTurnOf x = false) :
    (play host orders moves scene).phases x = scene.phases x := by
  induction moves generalizing scene with
  | nil => rfl
  | cons m moves ih =>
    rw [List.forall_mem_cons] at h
    exact (ih h.2).trans (phases_move_of_not m h.1)

/-- Whoever is inside, three turns of its own set the lock free. -/
theorem free_of_turns (h : Orderly host orders s scene) (hin : (scene.phases x).inside = true) :
    (play host orders (List.replicate 3 (.turn x)) scene).session.lock.held = false := by
  have hafter := orderly_play h (List.replicate 3 (.turn x))
  obtain ⟨outcome, hdone⟩ : ∃ outcome,
      (play host orders (List.replicate 3 (.turn x)) scene).phases x = .finished outcome :=
    finished_of_count hin (by simp [Move.isTurnOf])
  by_contra hheld
  obtain ⟨z, hz⟩ := hafter.held.mp (by simpa using hheld)
  -- The others have had no turn, and none of them was inside.
  by_cases hzx : z = x
  · subst hzx
    rw [hdone] at hz
    cases hz
  · rw [phases_play_of_not] at hz
    · exact hzx (h.alone z x hz hin)
    · intro m hm
      simp [List.eq_of_mem_replicate hm, Move.isTurnOf, Ne.symm hzx]

/-- Nobody waits in vain: the one who is inside, if there is any, is out after three turns. -/
theorem admitted_of_waiting (h : Orderly host orders s scene)
    (hwaiting : scene.phases y = .waiting) :
    ∃ x n, n ≤ 3 ∧
      (play host orders (List.replicate n (.turn x) ++ [.turn y]) scene).phases y = .admitted := by
  by_cases hheld : scene.session.lock.held = true
  · obtain ⟨x, hin⟩ := h.held.mp hheld
    refine ⟨x, 3, Nat.le_refl 3, ?_⟩
    rw [play_append]
    refine admitted_of_free ?_ (free_of_turns h hin)
    rw [phases_play_of_not, hwaiting]
    intro m hm
    have hxy : x ≠ y := by
      rintro rfl
      simp [hwaiting, Phase.inside] at hin
    simp [List.eq_of_mem_replicate hm, Move.isTurnOf, hxy]
  · exact ⟨y, 0, by omega, admitted_of_free hwaiting (by simpa using hheld)⟩

/-! ### Turn by turn and at one go -/

/-- A worker that has its turns one after the other does what coordinated generation does. -/
theorem generate_in_turns (hwaiting : scene.phases x = .waiting)
    (hfree : scene.session.lock.held = false) :
    let call := (generate (orders x).generator (orders x).package (orders x).target
      (orders x).options).perform host scene.session
    (play host orders (List.replicate 4 (.turn x)) scene).phases x = .finished call.1 ∧
      (play host orders (List.replicate 4 (.turn x)) scene).session = call.2 := by
  simp only [List.replicate, play, List.foldl_cons, List.foldl_nil, move, Function.update_self,
    hwaiting, step_waiting hfree]
  rw [perform_generate _ _ _ _ hfree]
  exact ⟨rfl, rfl⟩

/-! ### Exclusion -/

/-- **One call at a time**: workers share a lock, free in the beginning, each with an order for a
generator of its own; they have their turns in any order, and anything may happen to the world in
between. At every moment
* one worker is inside at most, so that no two calls are ever in progress; a worker has called its
  own generator as ordered, once, when it has got that far, and hands back what that has answered;
* when a generator has ended, with a directory, a failure or a crash, the next turn releases the
  lock; after a crash it is marked and can be taken all the same;
* a worker that is inside is done after three more turns, whatever the others do, and whoever waits
  gets the lock in its turn once the holder has had these;
* turns one after the other are coordinated generation. -/
theorem generate_one_at_a_time (hfree : s.lock.held = false) (moves : List (Move ι)) :
    let scene := play host orders moves (start ι s)
    Orderly host orders s scene ∧
    (∀ x outcome, scene.phases x = .returned outcome →
      (move host orders scene (.turn x)).phases x = .finished outcome ∧
      (move host orders scene (.turn x)).session.lock =
        ⟨false, scene.session.lock.poisoned || Halt.isCrash outcome⟩) ∧
    (∀ y, scene.phases y = .waiting → scene.session.lock.held = false →
      (move host orders scene (.turn y)).phases y = .admitted) ∧
    (∀ x, (scene.phases x).inside = true → ∀ more : List (Move ι),
      3 ≤ more.countP (Move.isTurnOf x) →
      ∃ outcome, (play host orders more scene).phases x = .finished outcome) ∧
    (∀ y, scene.phases y = .waiting → ∃ x n, n ≤ 3 ∧
      (play host orders (List.replicate n (.turn x) ++ [.turn y]) scene).phases y = .admitted) ∧
    ∀ x, scene.phases x = .waiting → scene.session.lock.held = false →
      let call := (generate (orders x).generator (orders x).package (orders x).target
        (orders x).options).perform host scene.session
      (play host orders (List.replicate 4 (.turn x)) scene).phases x = .finished call.1 ∧
        (play host orders (List.replicate 4 (.turn x)) scene).session = call.2 := by
  have horderly : Orderly host orders s (play host orders moves (start ι s)) :=
    orderly_play (orderly_start hfree) moves
  exact ⟨horderly, fun x outcome => lock_turn_of_returned, fun y => admitted_of_free,
    fun x hin more => finished_of_count hin, fun y => admitted_of_waiting horderly,
    fun x => generate_in_turns⟩

/-- Three workers: one generator answers, one fails, one crashes. -/
def threeOrders (x : Fin 3) : Order where
  generator := fun _ _ _ =>
    match x with
    | 0 => return ⟨"graphs"⟩
    | 1 => Work.fail (.told "toolchain exploded")
    | 2 => throw (.crashed "index out of bounds")
  package := smallPackage
  target := { name := "a", id := "i", kind := .sourceModule .library }
  options := ⟨.publicLevel, true, false⟩

/-- The crash comes first, while both others wait; one of them takes the marked lock. -/
def threeMoves : List (Move (Fin 3)) :=
  [.turn 2, .turn 0, .turn 2, .turn 1, .elsewhere id, .turn 2, .turn 0, .turn 2,
    .turn 0, .turn 1, .turn 0, .turn 0, .turn 1, .turn 0, .turn 1, .turn 1, .turn 1, .turn 1]

theorem generate_one_at_a_time_three :
    let s : Session := { files := .empty }
    let scene := play bareHost threeOrders threeMoves (start (Fin 3) s)
    s.lock.held = false ∧
    (∀ x y, (scene.phases x).inside = true → (scene.phases y).inside = true → x = y) ∧
    scene.phases 0 = .finished (.ok ⟨"graphs"⟩) ∧
    scene.phases 1 = .finished (.error (.failed { cause := .told "toolchain exploded" })) ∧
    scene.phases 2 = .finished (.error (.crashed "index out of bounds")) ∧
    (∀ x, Done bareHost (threeOrders x) (scene.phases x) (scene.history x)) ∧
    scene.session.lock = ⟨false, true⟩ := by
  intro s scene
  have h := (@generate_one_at_a_time (Fin 3) _ bareHost threeOrders s rfl threeMoves).1
  exact ⟨rfl, h.alone, rfl, rfl, rfl, h.done, rfl⟩

end SymbolDocs.Coordinator
