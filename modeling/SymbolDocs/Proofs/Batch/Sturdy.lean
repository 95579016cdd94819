import SymbolDocs.Proofs.Batch.Failure

/-! # Work that does not crash

Whatever the programs on a host do, an act that runs them ends or fails. Only a lock that is taken
makes a job crash, and whoever works alone finds it free: the pipelines of a batch, one after the
other, do not crash, and they leave the lock free (`workThrough_sturdy`). -/

namespace SymbolDocs

namespace Work

/-- From a state with a property, work does not crash, and it leaves a state with the property. -/
def Sturdy {σ α : Type} (I : σ → Prop) (work : Work σ α) : Prop :=
  ∀ host s, I s → Halt.isCrash (work.perform host s).1 = false ∧ I (work.perform host s).2

namespace Sturdy

variable {σ α β : Type} {I : σ → Prop}

theorem pure (a : α) : Sturdy I (Pure.pure a : Work σ α) := fun _ _ hs => ⟨rfl, hs⟩

theorem get : Sturdy I (MonadState.get : Work σ σ) := fun _ _ hs => ⟨rfl, hs⟩

theorem read : Sturdy I (MonadReader.read : Work σ Host) := fun _ _ hs => ⟨rfl, hs⟩

theorem modify {f : σ → σ} (h : ∀ s, I s → I (f s)) : Sturdy I (modify f : Work σ PUnit) :=
  fun _ s hs => ⟨rfl, h s hs⟩

theorem fail (cause : Cause) : Sturdy I (Work.fail cause : Work σ α) := fun _ _ hs => ⟨rfl, hs⟩

theorem ofExcept {ε : Type} (cause : ε → Cause) (x : Except ε α) :
    Sturdy I (Work.ofExcept cause x : Work σ α) := by
  rcases x with e | a
  · exact fail _
  · exact pure a

theorem bind {x : Work σ α} {f : α → Work σ β} (hx : Sturdy I x) (hf : ∀ a, Sturdy I (f a)) :
    Sturdy I (x >>= f) := by
  intro host s hs
  obtain ⟨hcrash, hleft⟩ := hx host s hs
  rw [perform_bind]
  rcases h : x.perform host s with ⟨(failure | message) | a, s'⟩ <;> rw [h] at hcrash hleft
  · exact ⟨rfl, hleft⟩
  · cases hcrash
  · exact hf a host s' hleft

theorem inside (purpose : String) {x : Work σ α} (h : Sturdy I x) :
    Sturdy I (Work.inside purpose x) := by
  intro host s hs
  obtain ⟨hcrash, hleft⟩ := h host s hs
  rw [perform_inside]
  refine ⟨?_, hleft⟩
  rcases hx : (x.perform host s).1 with (failure | message) | a <;> rw [hx] at hcrash
  · rfl
  · cases hcrash
  · rfl

end Sturdy

end Work

open Work

variable {α : Type}

namespace Act

/-- An act that does not crash. -/
abbrev Sturdy (act : Act α) : Prop :=
  Work.Sturdy (fun _ => True) act

theorem sturdy_log (level : Level) (text : String) : Sturdy (log level text) :=
  .modify fun _ _ => trivial

theorem sturdy_files : Sturdy files := fun _ _ _ => ⟨rfl, trivial⟩

theorem sturdy_here : Sturdy here := fun _ _ _ => ⟨rfl, trivial⟩

theorem sturdy_edit (work : Place → Edit α) : Sturdy (edit work) := by
  unfold edit
  refine sturdy_here.bind fun _ => sturdy_files.bind fun _ => ?_
  exact (Work.Sturdy.modify fun _ _ => trivial).bind fun _ => .ofExcept _ _

theorem sturdy_readText (attempt : Attempt) (path : Path) : Sturdy (readText attempt path) := by
  unfold readText
  refine sturdy_files.bind fun files => sturdy_here.bind fun base => ?_
  split
  · exact .fail _
  split
  · exact .pure _
  · exact .fail _

end Act

/-! ### Tools -/

theorem Command.sturdy_check (c : Command) : Act.Sturdy c.check := by
  have hrun : Act.Sturdy c.run := by
    unfold run
    refine Work.Sturdy.bind (.modify fun _ _ => trivial) fun _ => Work.Sturdy.read.bind fun host =>
      Act.sturdy_files.bind fun t => ?_
    rcases c.launch host t with cause | completion
    · exact .fail _
    · exact (Work.Sturdy.modify fun _ _ => trivial).bind fun _ => .pure _
  unfold check
  refine hrun.bind fun output => ?_
  split_ifs
  · exact .pure output
  · exact .fail _

theorem Generator.sturdy_ofProgram (program : Path) (scratch : Scratch)
    (capabilities : Capabilities) (package : Package) (target : Target) (options : GraphOptions) :
    Act.Sturdy (ofProgram program scratch capabilities package target options) := by
  unfold ofProgram
  refine (Act.sturdy_edit _).bind fun _ => ?_
  exact ((Command.sturdy_check _).inside _).bind fun _ => .pure _

theorem Extractor.sturdy_sources (directory : String) (package : Package) :
    Act.Sturdy (sources directory package) :=
  Act.sturdy_files.bind fun _ => Act.sturdy_here.bind fun _ => .pure _

theorem Extractor.sturdy_extract (program : Path) (directory : String) (scratch : Scratch)
    (package : Package) : Act.Sturdy (extract program directory scratch package) := by
  unfold extract
  refine (sturdy_sources directory package).bind fun files => ?_
  split_ifs
  · exact (Act.sturdy_log _ _).bind fun _ => .pure none
  refine (Act.sturdy_edit _).bind fun _ => (Act.sturdy_log _ _).bind fun _ => ?_
  refine ((Command.sturdy_check _).inside _).bind fun _ => ?_
  refine Act.sturdy_files.bind fun t => Act.sturdy_here.bind fun base => ?_
  split_ifs
  · exact .pure _
  · exact (Act.sturdy_log _ _).bind fun _ => .pure none

/-! ### One target -/

/-- Nobody has the lock. -/
def Session.Free (s : Session) : Prop :=
  s.lock.held = false

namespace Job

/-- A job that does not crash and leaves the lock free, if it was free before. -/
abbrev Sturdy (job : Job α) : Prop :=
  Work.Sturdy Session.Free job

theorem sturdy_act {act : Act α} (h : Act.Sturdy act) : Sturdy (liftM act : Job α) := by
  intro host s hs
  rw [perform_liftM]
  exact ⟨(h host s.toWorld trivial).1, hs⟩

end Job

theorem Coordinator.sturdy_generate {generator : Generator} {package : Package} {target : Target}
    {options : GraphOptions} (h : Act.Sturdy (generator package target options)) :
    Job.Sturdy (generate generator package target options) := by
  intro host s hs
  rw [perform_generate _ _ _ _ hs]
  exact ⟨(h host _ trivial).1, rfl⟩

theorem Extractor.sturdy_ask {extractor : Extractor} {package : Package} {target : Target}
    (h : Act.Sturdy (extractor.answer package target)) :
    Job.Sturdy (extractor.ask package target) := by
  unfold ask
  split_ifs
  · exact Job.sturdy_act h
  refine Work.Sturdy.get.bind fun s => ?_
  rcases s.snippetGraphs.lookup package.name with _ | kept
  · exact (Job.sturdy_act h).bind fun graph => (Work.Sturdy.modify fun _ hs => hs).bind fun _ =>
      .pure graph
  · exact (Job.sturdy_act (Act.sturdy_log _ _)).bind fun _ => .pure kept

theorem Unifier.sturdy_merge (scratch : Scratch) (target : Target) (graphs snippetGraph : Path) :
    Act.Sturdy (merge scratch target graphs snippetGraph) := by
  have hcopy : Act.Sturdy (copySnippet scratch target snippetGraph) := by
    unfold copySnippet
    rcases snippetGraph.fileName with _ | name
    · exact .fail _
    · exact (Act.sturdy_edit _).bind fun _ => .pure _
  unfold merge
  refine (Act.sturdy_log _ _).bind fun _ => (Act.sturdy_edit _).bind fun _ => ?_
  exact (Act.sturdy_edit _).bind fun _ => hcopy.bind fun _ => .pure _

theorem Unifier.sturdy_unify {extractor : Option Extractor} {package : Package} {target : Target}
    (h : ∀ x, extractor = some x → Act.Sturdy (x.answer package target)) (scratch : Scratch)
    (graphs : Path) : Job.Sturdy (unify scratch extractor package target graphs) := by
  unfold unify
  rcases extractor with _ | extractor
  · exact .pure _
  refine (Extractor.sturdy_ask (h extractor rfl)).bind fun graph => ?_
  rcases graph with _ | graph
  · exact .pure _
  · exact Job.sturdy_act (sturdy_merge scratch target graphs graph)

namespace Batch

variable {generator : Generator} {extractor : Option Extractor} {package : Package}

theorem sturdy_documentTarget (htools : Tools Act.Sturdy generator extractor package)
    (target : Target) (scratch : Scratch) (request : Request) :
    Job.Sturdy (documentTarget scratch generator extractor package request target) := by
  have hsettle : Act.Sturdy (settle package target request.overrides request.capabilities) := by
    unfold settle
    rcases request.overrides.refused request.capabilities with _ | included
    · exact (Act.sturdy_log _ _).bind fun _ => .pure _
    · exact (Act.sturdy_log _ _).bind fun _ => (Act.sturdy_log _ _).bind fun _ => .pure _
  unfold documentTarget
  refine (Job.sturdy_act hsettle).bind fun options => ?_
  refine (Coordinator.sturdy_generate (htools.generates target options)).bind fun graphs => ?_
  exact (Unifier.sturdy_unify (htools.extracts target) scratch graphs).bind fun _ => .pure _

/-- **Pipelines that do not crash, one after the other**, have no crash among their outcomes, and
leave the lock free. -/
theorem workThrough_sturdy {work : Target → Job α} (h : ∀ target, Job.Sturdy (work target))
    (targets : List Target) (host : Host) {s : Session} (hs : s.Free) :
    ∃ outcomes s', (workThrough work targets).perform host s = (.ok outcomes, s') ∧
      firstCrash outcomes = none ∧ s'.Free := by
  obtain ⟨outcomes, s', hchain, -, hrun⟩ := perform_workThrough host work targets s
  have hinvariant : (∀ o ∈ outcomes, Halt.isCrash o.2 = false) ∧ s'.Free := by
    refine hchain.invariant (I := fun done a => (∀ o ∈ done, Halt.isCrash o.2 = false) ∧ a.Free)
      ⟨by simp, hs⟩ fun done o rest a b _ _ hends ⟨hdone, ha⟩ => ?_
    obtain ⟨hcrash, hb⟩ := h o.1 host a ha
    rw [hends] at hcrash hb
    refine ⟨fun x hx => ?_, hb⟩
    rcases List.mem_append.mp hx with hx | hx
    · exact hdone x hx
    · rw [List.mem_singleton.mp hx]
      exact hcrash
  exact ⟨outcomes.map labelled, s', hrun, firstCrash_labelled hinvariant.1, hinvariant.2⟩

end Batch

end SymbolDocs
