import SymbolDocs.Proofs.Batch.Interleaving

/-! # What has been told is not heard

Two sessions match if they differ in nothing but what has been told (`Session.Matches`). Jobs that are
blind come to the same from both, and leave sessions that match (`Job.Blind`). The work on a target
is blind if its generator and its extractor are (`Setting.Deaf.blind_work`), and these are if they
are external programs (`deaf_of_programs`): a program sees files, and no log. -/

namespace SymbolDocs

open Work

/-- Two sessions that differ in nothing but what has been told. -/
structure Session.Matches (s s' : Session) : Prop where
  files : s.files = s'.files
  calls : s.calls = s'.calls
  snippetGraphs : s.snippetGraphs = s'.snippetGraphs
  lock : s.lock = s'.lock

namespace Act

variable {α : Type} {host : Host}

theorem Blind.files : Blind host files :=
  fun _ _ h => ⟨congrArg Except.ok h, h⟩

theorem Blind.here : Blind host here :=
  fun _ _ h => ⟨rfl, h⟩

theorem Blind.inside (purpose : String) {act : Act α} (hact : act.Blind host) :
    Blind host (Work.inside purpose act) := by
  intro w w' h
  obtain ⟨h1, h2⟩ := hact w w' h
  rw [perform_inside, perform_inside, h1]
  exact ⟨rfl, h2⟩

theorem Blind.ite {p : Prop} [Decidable p] {act act' : Act α} (h : act.Blind host)
    (h' : act'.Blind host) : Blind host (if p then act else act') := by
  split_ifs
  · exact h
  · exact h'

end Act

/-! ### Jobs -/

namespace Job

variable {α β : Type} {host : Host}

/-- What has been told makes no difference to a job. -/
def Blind (host : Host) (job : Job α) : Prop :=
  ∀ s s' : Session, s.Matches s' → (job.perform host s).1 = (job.perform host s').1 ∧
    (job.perform host s).2.Matches (job.perform host s').2

theorem Blind.pure (a : α) : Blind host (Pure.pure a : Job α) :=
  fun _ _ h => ⟨rfl, h⟩

theorem Blind.lift {act : Act α} (hact : act.Blind host) : Blind host (liftM act : Job α) := by
  intro s s' h
  obtain ⟨h1, h2⟩ := hact s.toWorld s'.toWorld h.files
  rw [perform_liftM, perform_liftM]
  exact ⟨h1, h2, h.calls, h.snippetGraphs, h.lock⟩

theorem Blind.bind {job : Job α} {f : α → Job β} (hjob : job.Blind host)
    (hf : ∀ a, (f a).Blind host) : Blind host (job >>= f) := by
  intro s s' h
  obtain ⟨h1, h2⟩ := hjob s s' h
  rw [perform_bind, perform_bind]
  rcases hs : job.perform host s with ⟨o, v⟩
  rcases hs' : job.perform host s' with ⟨o', v'⟩
  rw [hs, hs'] at h1 h2
  obtain rfl : o = o' := h1
  rcases o with halt | a
  · exact ⟨rfl, h2⟩
  · exact hf a v v' h2

end Job

/-! ### The work on a target -/

section Parts

variable {host : Host} {package : Package} {target : Target}

theorem Coordinator.blind_generate {generator : Generator} {options : GraphOptions}
    (h : (generator package target options).Blind host) :
    (generate generator package target options).Blind host := by
  intro s s' hmatch
  by_cases hheld : s.lock.held = true
  · rw [perform_generate_of_held _ _ _ _ hheld,
      perform_generate_of_held _ _ _ _ (hmatch.lock ▸ hheld)]
    exact ⟨rfl, hmatch⟩
  · have hfree : s.lock.held = false := by simpa using hheld
    obtain ⟨h1, h2⟩ := h (announced target s.toWorld) (announced target s'.toWorld) hmatch.files
    rw [perform_generate _ _ _ _ hfree, perform_generate _ _ _ _ (hmatch.lock ▸ hfree)]
    refine ⟨h1, ?_, ?_, hmatch.snippetGraphs, ?_⟩
    · simpa using h2
    · simp only [hmatch.calls]
    · simp only [hmatch.lock, h1]

theorem Extractor.blind_ask {extractor : Extractor}
    (h : (extractor.answer package target).Blind host) :
    (extractor.ask package target).Blind host := by
  unfold ask
  by_cases hk : extractor.keeps = true
  · simp only [hk, Bool.not_true, Bool.false_eq_true, if_false]
    intro s s' hmatch
    rw [perform_bind, perform_bind, perform_get, perform_get]
    simp only [← hmatch.snippetGraphs]
    rcases s.snippetGraphs.lookup package.name with _ | kept
    · refine (Job.Blind.bind (.lift h) fun graph => ?_) s s' hmatch
      -- what is kept from now on is the same
      intro t t' ht
      exact ⟨rfl, ht.files, ht.calls, congrArg ((package.name, graph) :: ·) ht.snippetGraphs, ht.lock⟩
    · exact (Job.Blind.bind (.lift (.log _ _)) fun _ => .pure kept) s s' hmatch
  · simp only [hk, Bool.not_false, if_true]
    exact .lift h

theorem Unifier.blind_merge (scratch : Scratch) (graphs snippetGraph : Path) :
    (merge scratch target graphs snippetGraph).Blind host :=
  (Act.Blind.log _ _).bind fun _ => blind_reset.bind fun _ => (blind_copyGraphs graphs).bind fun _ =>
    (blind_copySnippet snippetGraph).bind fun _ => .pure _

theorem Unifier.blind_unify (scratch : Scratch) {extractor : Option Extractor} (graphs : Path)
    (h : ∀ e, extractor = some e → (e.answer package target).Blind host) :
    (unify scratch extractor package target graphs).Blind host := by
  unfold unify
  rcases extractor with _ | extractor
  · exact .pure _
  · refine (extractor.blind_ask (h extractor rfl)).bind fun answer => ?_
    rcases answer with _ | snippetGraph
    · exact .pure _
    · exact .lift (blind_merge scratch graphs snippetGraph)

end Parts

namespace Batch

/-- The work on a target is blind if its generator and its extractor are. -/
theorem Setting.Deaf.blind_work {c : Setting} {target : Target} (h : c.Deaf target) :
    (c.work target).Blind c.host := by
  intro s s' hmatch
  unfold Setting.work
  rw [perform_documentTarget, perform_documentTarget]
  refine Job.Blind.bind (Coordinator.blind_generate h.call) (fun graphs =>
    (Unifier.blind_unify c.ws.scratch graphs h.answer).bind fun _ => .pure _) _ _ ?_
  exact ⟨hmatch.files, hmatch.calls, hmatch.snippetGraphs, hmatch.lock⟩

/-- From sessions that match, blind work on some targets has the same outcomes. -/
theorem ends_congr {α : Type} {host : Host} {work : Target → Job α} :
    ∀ {outcomes outcomes' : List (Target × Except Halt α)} {s s' t t' : Session},
      (∀ o ∈ outcomes, (work o.1).Blind host) → s.Matches s' →
      outcomes.map Prod.fst = outcomes'.map Prod.fst →
      Chain (Ends host work) s outcomes t → Chain (Ends host work) s' outcomes' t' →
      outcomes = outcomes' ∧ t.Matches t'
  | [], [], _, _, _, _, _, hmatch, _, .nil _, .nil _ => ⟨rfl, hmatch⟩
  | [], _ :: _, _, _, _, _, _, _, hfst, _, _ => by simp at hfst
  | _ :: _, [], _, _, _, _, _, _, hfst, _, _ => by simp at hfst
  | o :: outcomes, o' :: outcomes', s, s', t, t', hblind, hmatch, hfst, .cons h hrest,
      .cons h' hrest' => by
    rw [List.map_cons, List.map_cons, List.cons.injEq] at hfst
    obtain ⟨h1, h2⟩ := hblind o (by simp) s s' hmatch
    rw [h, hfst.1, h'] at h1 h2
    obtain ⟨rfl, hend⟩ := ends_congr (fun p hp => hblind p (List.mem_cons_of_mem o hp)) h2 hfst.2
      hrest hrest'
    exact ⟨by rw [Prod.ext hfst.1 h1], hend⟩

end Batch

/-! ### External programs -/

section Programs

variable {host : Host}

theorem Command.blind_check (c : Command) : c.check.Blind host := by
  refine Act.Blind.bind (fun w w' h => ?_) fun output => .ite (.pure output) (.fail _)
  rw [perform_run, perform_run, h]
  rcases c.launch host w'.files with cause | done <;> exact ⟨rfl, rfl⟩

theorem Generator.blind_ofProgram (program : Path) (scratch : Scratch) (capabilities : Capabilities)
    (package : Package) (target : Target) (options : GraphOptions) :
    (ofProgram program scratch capabilities package target options).Blind host :=
  (Act.Blind.edit _).bind fun _ => (Act.Blind.inside _ (Command.blind_check _)).bind fun _ => .pure _

theorem Extractor.blind_ofProgram (program : Path) (directory : String) (scratch : Scratch)
    (package : Package) (target : Target) :
    ((ofProgram program directory scratch).answer package target).Blind host := by
  have hsources : (sources directory package).Blind host :=
    Act.Blind.files.bind fun _ => Act.Blind.here.bind fun _ => .pure _
  refine Act.Blind.bind hsources fun files => .ite ?_ ?_
  · exact (Act.Blind.log _ _).bind fun _ => .pure none
  · refine (Act.Blind.edit _).bind fun _ => (Act.Blind.log _ _).bind fun _ =>
      (Act.Blind.inside _ (Command.blind_check _)).bind fun _ => Act.Blind.files.bind fun _ =>
        Act.Blind.here.bind fun _ => .ite (.pure _) ?_
    exact (Act.Blind.log _ _).bind fun _ => .pure none

/-- External programs do not hear what has been told. -/
theorem Batch.deaf_of_programs {c : Setting} {program extracting : Path} {directory : String}
    (hgenerator : c.generator = .ofProgram program c.ws.scratch c.request.capabilities)
    (hextractor : ∀ e, c.extractor = some e → e = .ofProgram extracting directory c.ws.scratch)
    (target : Target) : c.Deaf target where
  call := by
    rw [Setting.call, hgenerator]
    exact Generator.blind_ofProgram _ _ _ _ _ _
  answer := by
    intro e he
    rw [hextractor e he]
    exact Extractor.blind_ofProgram _ _ _ _ _

end Programs

end SymbolDocs
