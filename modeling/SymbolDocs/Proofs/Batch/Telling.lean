import SymbolDocs.Proofs.Batch.Pipeline
import SymbolDocs.Proofs.Emissions

/-! # What a batch tells

Apart from what the generator and the extractor tell, a pipeline tells warnings and what is of less
importance (`tells_documentTarget`). Errors are told when all pipelines have ended
(`tells_conclude`). -/

namespace SymbolDocs

variable {P : Emission → Prop}

/-- A property of all events that are no errors. -/
def Lenient (P : Emission → Prop) : Prop :=
  ∀ level text, level ≠ .error → P (.event level text)

theorem Lenient.log (h : Lenient P) {level : Level} (text : String) (hlevel : level ≠ .error) :
    Act.Tells P (Act.log level text) :=
  Act.Tells.log (h level text hlevel)

theorem Lenient.debug (h : Lenient P) (text : String) : P (.event .debug text) :=
  h .debug text (by decide)

/-! ### Generation -/

section

-- Of their own, generation and unification tell details only.
variable (hdebug : ∀ text, P (.event .debug text))

namespace Coordinator

theorem tells_take : Job.Tells P take := by
  unfold take
  refine Job.Tells.get.bind fun s => ?_
  rcases s.lock.acquire? with _ | lock
  · exact Job.Tells.throw _
  · exact Job.Tells.modify fun _ => rfl

theorem tells_exclusively {α : Type} {job : Job α} (h : Job.Tells P job) :
    Job.Tells P (exclusively job) := by
  unfold exclusively
  refine tells_take.bind fun _ => h.attempt.bind fun outcome => ?_
  refine Job.Tells.bind (Job.Tells.modify ?_) fun _ => Job.Tells.ofOutcome outcome
  exact fun s => rfl

include hdebug in
theorem tells_generate {generator : Generator} {package : Package} {target : Target}
    {options : GraphOptions}
    (hgenerator : (generator package target options).Tells P) :
    Job.Tells P (generate generator package target options) := by
  unfold generate
  refine tells_exclusively ?_
  have hcall : Job.Tells P (call generator package target options) := by
    refine Job.Tells.bind (Job.Tells.modify ?_) fun _ => Job.Tells.act hgenerator
    exact fun s => rfl
  refine (Job.Tells.act (Act.Tells.log (hdebug _))).bind fun _ => hcall.bind fun dir => ?_
  exact (Job.Tells.act (Act.Tells.log (hdebug _))).bind fun _ => Job.Tells.pure dir

end Coordinator

/-! ### Unification -/

include hdebug in
theorem Extractor.tells_ask {extractor : Extractor} {package : Package} {target : Target}
    (hextractor : (extractor.answer package target).Tells P) :
    Job.Tells P (extractor.ask package target) := by
  unfold ask
  by_cases hk : extractor.keeps = true
  · simp only [hk, Bool.not_true, Bool.false_eq_true, if_false]
    refine Job.Tells.get.bind fun s => ?_
    rcases s.snippetGraphs.lookup package.name with _ | kept
    · refine (Job.Tells.act hextractor).bind fun graph => ?_
      refine Job.Tells.bind (Job.Tells.modify ?_) fun _ => Job.Tells.pure graph
      exact fun s => rfl
    · exact (Job.Tells.act (Act.Tells.log (hdebug _))).bind fun _ => Job.Tells.pure kept
  · simp only [hk, Bool.not_false, if_true]
    exact Job.Tells.act hextractor

namespace Unifier

theorem tells_copySnippet (scratch : Scratch) (target : Target) (graph : Path) :
    (copySnippet scratch target graph).Tells P := by
  unfold copySnippet
  rcases graph.fileName with _ | name
  · exact Act.Tells.fail _
  · exact (Act.Tells.edit _).bind fun _ => Act.Tells.pure _

include hdebug in
theorem tells_merge (scratch : Scratch) (target : Target)
    (graphs snippetGraph : Path) : (merge scratch target graphs snippetGraph).Tells P := by
  unfold merge
  refine (Act.Tells.log (hdebug _)).bind fun _ => (Act.Tells.edit _).bind fun _ => ?_
  refine (Act.Tells.edit _).bind fun _ => (tells_copySnippet scratch target snippetGraph).bind ?_
  exact fun _ => Act.Tells.pure _

include hdebug in
theorem tells_unify {extractor : Option Extractor} {package : Package} {target : Target}
    (hextractor : ∀ x, extractor = some x → (x.answer package target).Tells P)
    (scratch : Scratch) (graphs : Path) :
    Job.Tells P (unify scratch extractor package target graphs) := by
  unfold unify
  rcases extractor with _ | extractor
  · exact Job.Tells.pure _
  · refine (Extractor.tells_ask hdebug (hextractor extractor rfl)).bind fun graph => ?_
    rcases graph with _ | graph
    · exact Job.Tells.pure _
    · exact Job.Tells.act (tells_merge hdebug scratch target graphs graph)

end Unifier

end

/-! ### The pipeline -/

namespace Batch

theorem tells_settle (hP : Lenient P) (package : Package) (target : Target) (overrides : Overrides)
    (capabilities : Capabilities) : (settle package target overrides capabilities).Tells P := by
  unfold settle
  rcases overrides.refused capabilities with _ | included
  · exact (hP.log _ (by decide)).bind fun _ => Act.Tells.pure _
  · exact (hP.log _ (by decide)).bind fun _ => (hP.log _ (by decide)).bind fun _ => Act.Tells.pure _

/-- **A pipeline tells no errors** if the generator and the extractor do not. -/
theorem tells_documentTarget {generator : Generator} {extractor : Option Extractor}
    {package : Package} {target : Target} (hP : Lenient P)
    (hgenerator : ∀ options, (generator package target options).Tells P)
    (hextractor : ∀ x, extractor = some x → (x.answer package target).Tells P)
    (scratch : Scratch) (request : Request) :
    Job.Tells P (documentTarget scratch generator extractor package request target) := by
  unfold documentTarget
  refine (Job.Tells.act (tells_settle hP package target _ _)).bind fun options => ?_
  refine (Coordinator.tells_generate hP.debug (hgenerator options)).bind fun graphs => ?_
  exact (Unifier.tells_unify hP.debug hextractor scratch graphs).bind fun _ => Job.Tells.pure _

/-- What pipelines tell one after the other. -/
theorem adds_chain {α : Type} {work : Target → Job α} (h : ∀ target, Job.Tells P (work target))
    {host : Host} {outcomes : List (Target × Except Halt α)} {s s' : Session}
    (hchain : Chain (Ends host work) s outcomes s') : Adds P s.emissions s'.emissions := by
  refine hchain.preserves (I := fun a => Adds P s.emissions a.emissions) ?_ (.refl P s.emissions)
  exact fun a o b _ hends ha => ha.trans ((h o.1).adds hends)

/-! ### Before and after the pipelines -/

theorem adds_prepared (hdebug : ∀ text, P (.event .debug text))
    (hinfo : ∀ text, P (.event .info text)) (ws : Workspace) (request : Request)
    (requested : List Target) (files : FileTree) (s : Session) :
    Adds P s.emissions (prepared ws request requested files s).emissions := by
  refine (Adds.append fun e he => ?_).trans (Adds.append fun e he => ?_)
  · obtain ⟨line, -, rfl⟩ := List.mem_map.mp he
    exact hdebug line
  · obtain rfl := List.mem_singleton.mp he
    exact hinfo _

theorem tells_gather {α : Type} (herror : ∀ text, P (.event .error text))
    (outcomes : List (Target × Except Halt α)) : (gather outcomes).Tells P := by
  unfold gather
  rcases firstCrash outcomes with _ | message
  · refine (Act.Tells.forIn_log (fun _ => herror _) (failures outcomes)).bind fun _ => ?_
    rcases failures outcomes with _ | ⟨first, rest⟩
    · exact Act.Tells.pure _
    · exact Act.Tells.throw _
  · exact fun _ w => .refl P w.emissions

theorem tells_conclude (hdebug : ∀ text, P (.event .debug text))
    (herror : ∀ text, P (.event .error text)) (ws : Workspace) (request : Request)
    (requested : List Target) (outcomes : List (Target × Except Halt TargetDocs)) :
    Job.Tells P (conclude ws request requested outcomes) := by
  unfold conclude
  refine (Job.Tells.act (tells_gather herror outcomes)).bind fun documented => ?_
  refine (Job.Tells.act (Act.Tells.edit _)).bind fun _ => ?_
  exact (Job.Tells.act (Act.Tells.log (hdebug _))).bind fun _ => Job.Tells.pure _

end Batch

end SymbolDocs
