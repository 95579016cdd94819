import SymbolDocs.Batch
import SymbolDocs.Proofs.Batch.Occurrences
import SymbolDocs.Proofs.Performance
import SymbolDocs.Proofs.Selection.Names

/-! # The pipelines of a batch

A batch makes one pipeline after the other, each from the session that the one before has left
(`Chain`), whether that has failed or not (`perform_workThrough`). -/

namespace SymbolDocs

/-- Steps from one state to the next, one for each member of a list. -/
inductive Chain {σ ι : Type} (step : σ → ι → σ → Prop) : σ → List ι → σ → Prop
  | nil (s : σ) : Chain step s [] s
  | cons {s s' s'' : σ} {i : ι} {l : List ι} :
    step s i s' → Chain step s' l s'' → Chain step s (i :: l) s''

/-- What every step keeps, a chain of steps keeps. -/
theorem Chain.preserves {σ ι : Type} {step : σ → ι → σ → Prop} {I : σ → Prop} :
    ∀ {l : List ι} {s s' : σ}, (∀ s i s', i ∈ l → step s i s' → I s → I s') →
      Chain step s l s' → I s → I s'
  | [], _, _, _, .nil _, hs => hs
  | i :: _, _, _, hstep, .cons h hrest, hs =>
    hrest.preserves (fun s j s' hj => hstep s j s' (List.mem_cons_of_mem i hj))
      (hstep _ i _ (List.mem_cons_self ..) h hs)

theorem Chain.concat {σ ι : Type} {step : σ → ι → σ → Prop} {i : ι} :
    ∀ {l : List ι} {s s' s'' : σ}, Chain step s l s' → step s' i s'' → Chain step s (l ++ [i]) s''
  | [], _, _, _, .nil _, h => .cons h (.nil _)
  | _ :: _, _, _, _, .cons h hrest, hi => .cons h (hrest.concat hi)

/-- A chain of steps comes apart where its list does. -/
theorem Chain.split {σ ι : Type} {step : σ → ι → σ → Prop} :
    ∀ {l m : List ι} {s s'' : σ}, Chain step s (l ++ m) s'' →
      ∃ s', Chain step s l s' ∧ Chain step s' m s''
  | [], _, s, _, h => ⟨s, .nil s, h⟩
  | _ :: _, _, _, _, .cons h hrest =>
    let ⟨s', h1, h2⟩ := hrest.split
    ⟨s', .cons h h1, h2⟩

/-- An invariant that knows which steps have been made. -/
theorem Chain.invariant {σ ι : Type} {step : σ → ι → σ → Prop} {I : List ι → σ → Prop}
    {l : List ι} {s s' : σ} (h : Chain step s l s') (hs : I [] s)
    (hstep : ∀ done i rest a b, l = done ++ i :: rest → Chain step s done a → step a i b →
      I done a → I (done ++ [i]) b) : I l s' := by
  have key : ∀ {rest : List ι} {a b : σ}, Chain step a rest b → ∀ done, l = done ++ rest →
      Chain step s done a → I done a → I l b := by
    intro rest a b hrest
    induction hrest with
    | nil a =>
      intro done hl _ ha
      rw [hl, List.append_nil]
      exact ha
    | @cons a a' b i rest hi _ ih =>
      intro done hl hdone ha
      exact ih (done ++ [i]) (by simp [hl]) (hdone.concat hi) (hstep done i rest a a' hl hdone hi ha)
  exact key h [] rfl (.nil s) hs

/-- What a step says of its member holds for all members of a chain of steps. -/
theorem Chain.forall_mem {σ ι : Type} {step : σ → ι → σ → Prop} {P : ι → Prop}
    (hstep : ∀ s i s', step s i s' → P i) :
    ∀ {l : List ι} {s s' : σ}, Chain step s l s' → ∀ i ∈ l, P i
  | [], _, _, _, _, hi => (List.not_mem_nil hi).elim
  | _ :: _, s, _, .cons h hrest, i, hi => (List.mem_cons.mp hi).elim
      (fun hij => hij ▸ hstep s _ _ h) (hrest.forall_mem hstep i)

namespace Batch

variable {host : Host}

open Work

/-- The purpose of the work on a target. -/
def purpose (target : Target) : String :=
  "failed to document `" ++ target.name ++ "`"

/-- A pipeline is made and has an outcome. -/
def Ends {α : Type} (host : Host) (work : Target → Job α) (s : Session)
    (o : Target × Except Halt α) (s' : Session) : Prop :=
  (work o.1).perform host s = (o.2, s')

/-- An outcome as it is kept. -/
def labelled {α : Type} (o : Target × Except Halt α) : Target × Except Halt α :=
  (o.1, outcomeInside (purpose o.1) o.2)

theorem perform_workThrough (host : Host) {α : Type} (work : Target → Job α) :
    ∀ (targets : List Target) (s : Session), ∃ outcomes s',
      Chain (Ends host work) s outcomes s' ∧ outcomes.map Prod.fst = targets ∧
      (workThrough work targets).perform host s = (.ok (outcomes.map labelled), s')
  | [], s => ⟨[], s, .nil s, rfl, rfl⟩
  | target :: targets, s => by
    obtain ⟨outcomes, s', hchain, hfst, hrun⟩ :=
      perform_workThrough host work targets ((work target).perform host s).2
    refine ⟨(target, ((work target).perform host s).1) :: outcomes, s', .cons rfl hchain,
      by simp [hfst], ?_⟩
    unfold workThrough at hrun ⊢
    rw [List.mapM_cons, perform_bind, perform_bind, perform_attempt, perform_inside]
    simp only [perform_pure]
    rw [perform_bind, hrun]
    rfl

/-! ### Before and after the pipelines -/

@[simp] theorem perform_select (package : Package) (selection : Selection) (w : World) :
    (select package selection).perform host w =
      ((selection.resolveOrDefault package).mapError fun e => .failed { cause := .selection e },
        { w with emissions := w.emissions ++
            (Selection.expansionLines package selection.products).map (.event .debug) }) := by
  unfold select
  rw [perform_bind]
  rw [Act.perform_forIn_log]
  simp

/-- Distinct targets that are selected have distinct names. -/
theorem names_nodup_of_selected {text : String} {m : Manifest} {root : Path} {package : Package}
    {selection : Selection} {requested targets : List Target}
    (hparse : Manifest.parse text = .ok m) (hpackage : m.toPackage root = .ok package)
    (hselect : selection.resolveOrDefault package = .ok requested)
    (hfirst : FirstOccurrences requested targets) : (targets.map Target.name).Nodup := by
  have hmem : ∀ t ∈ targets, t ∈ package.targets := fun t ht =>
    Selection.mem_of_resolveOrDefault hselect ((hfirst.mem_iff t).mp ht)
  exact hfirst.nodup.map_on fun t ht u hu hname =>
    Manifest.eq_of_name_eq hparse hpackage (hmem t ht) (hmem u hu) hname

/-- The events that tell about failures. -/
def errorEvents (failures : List Failure) : List Emission :=
  failures.map fun failure => .event .error failure.message

theorem perform_gather {α : Type} (outcomes : List (Target × Except Halt α)) (w : World)
    (hcrash : firstCrash outcomes = none) :
    (gather outcomes).perform host w =
      match failures outcomes with
      | [] => (.ok (results outcomes), w)
      | first :: rest =>
        (.error (.failed first),
          { w with emissions := w.emissions ++ errorEvents (first :: rest) }) := by
  unfold gather
  rw [hcrash]
  simp only
  rw [perform_bind]
  rw [Act.perform_forIn_log]
  rcases failures outcomes with _ | ⟨first, rest⟩
  · simp
  · rfl

/-- What is told about the products of a selection. -/
def expansionEvents (package : Package) (selection : Selection) : List Emission :=
  (Selection.expansionLines package selection.products).map (.event .debug)

/-- The session in which the first pipeline starts: the selection has been told about, and the
scratch directory is there. -/
def prepared (ws : Workspace) (request : Request) (requested : List Target) (files : FileTree)
    (s : Session) : Session :=
  { s with
    files
    emissions := s.emissions ++
      (Selection.expansionLines ws.package request.selection.products).map (.event .debug) ++
      [.event .info ("Documenting " ++ toString requested.length ++ " target(s): " ++
        ", ".intercalate (requested.map Target.name))] }

/-- What is left to do after the pipelines. -/
def conclude (ws : Workspace) (request : Request) (requested : List Target)
    (outcomes : List (Target × Except Halt TargetDocs)) : Job Plan := do
  let documented ← gather outcomes
  let layout := ArchiveLayout.plan ws.scratch ws.package requested.length request.outputPath
    request.combined
  let plan := assemble ws.package layout requested documented
  Act.edit fun base => Edit.writeText base ws.scratch.plan plan.text
  Act.log .debug ("documented " ++ toString plan.targets.length ++ " target(s) in 0.00s")
  return plan

/-- The plan that is assembled for some requested targets. -/
def planFor (ws : Workspace) (request : Request) (requested : List Target)
    (documented : List (Target × TargetDocs)) : Plan :=
  assemble ws.package (ArchiveLayout.plan ws.scratch ws.package requested.length request.outputPath
    request.combined) requested documented

/-- What comes after the pipelines: unless something has failed, the plan is written. -/
theorem perform_conclude (ws : Workspace) (request : Request) (requested : List Target)
    (outcomes : List (Target × Except Halt TargetDocs)) (s : Session) :
    (conclude ws request requested outcomes).perform host s =
      match (gather outcomes).perform host s.toWorld with
      | (.error halt, w) => (.error halt, { s with toWorld := w })
      | (.ok documented, w) =>
        let plan := planFor ws request requested documented
        match (Edit.writeText host.directory ws.scratch.plan plan.text).apply w.files with
        | (.error e, u) =>
          (.error (.failed { cause := .io e }), { s with toWorld := { w with files := u } })
        | (.ok _, u) =>
          (.ok plan, { s with
            toWorld :=
              { files := u
                emissions := w.emissions ++ [.event .debug
                  ("documented " ++ toString plan.targets.length ++ " target(s) in 0.00s")] } }) := by
  unfold conclude
  rw [perform_bind, Job.perform_liftM]
  rcases (gather outcomes).perform host s.toWorld with ⟨halt | documented, w⟩
  · rfl
  · simp only
    rw [perform_bind, Job.perform_liftM, Act.perform_edit]
    simp only [← planFor.eq_def]
    rcases (Edit.writeText host.directory ws.scratch.plan
      (planFor ws request requested documented).text).apply w.files with ⟨e | ⟨⟩, u⟩ <;> rfl

/-- The scratch directory of a workspace is made in a tree. -/
def MakesScratch (ws : Workspace) (base : Place) (t u : FileTree) : Prop :=
  (Edit.makeChain base (.createScratch ws.scratch.dir) ws.scratch.dir.ancestors).apply t =
    (.ok ⟨⟩, u)

section Run

variable {ws : Workspace} {generator : Generator} {extractor : Option Extractor}
  {request : Request} {s : Session}

/-- A batch whose selection is refused ends at once. -/
theorem perform_run_of_error {e : SelectionError}
    (h : request.selection.resolveOrDefault ws.package = .error e) (generator : Generator)
    (extractor : Option Extractor) (host : Host) (s : Session) :
    (run ws generator extractor request).perform host s =
      (.error (.failed { cause := .selection e }),
        { s with emissions := s.emissions ++ expansionEvents ws.package request.selection }) := by
  unfold run
  rw [perform_bind, Job.perform_liftM, perform_select, h]
  rfl

/-- Otherwise it goes on to make the scratch directory. -/
theorem perform_run_selected (generator : Generator) (extractor : Option Extractor)
    {requested : List Target}
    (hselect : request.selection.resolveOrDefault ws.package = .ok requested) :
    (run ws generator extractor request).perform host s =
      (do
        ws.ensureScratch
        let outcomes ← workThrough (documentTarget ws.scratch generator extractor ws.package request)
          requested.eraseDups
        conclude ws request requested outcomes : Job Plan).perform host
        (prepared ws request requested s.files s) := by
  unfold run
  rw [perform_bind, Job.perform_liftM, perform_select, hselect]
  simp only [Except.mapError]
  rw [perform_bind, Job.perform_liftM, Act.perform_log]
  rfl

/-- Without a scratch directory there is nothing but the failure to make one. -/
theorem perform_run_stopped (generator : Generator) (extractor : Option Extractor)
    {requested : List Target} {e : IoFailure} {u : FileTree}
    (hselect : request.selection.resolveOrDefault ws.package = .ok requested)
    (hscratch : (Edit.makeChain host.directory (.createScratch ws.scratch.dir)
      ws.scratch.dir.ancestors).apply s.files = (.error e, u)) :
    (run ws generator extractor request).perform host s =
      (.error (.failed { cause := .io e }), prepared ws request requested u s) := by
  have hensure : (ws.ensureScratch).perform host (prepared ws request requested s.files s).toWorld =
      (.error (.failed { cause := .io e }), (prepared ws request requested u s).toWorld) := by
    unfold Workspace.ensureScratch
    rw [Act.perform_edit]
    simp only [prepared]
    rw [hscratch]
    rfl
  rw [perform_run_selected generator extractor hselect, perform_bind, Job.perform_liftM, hensure]
  rfl

/-- **A batch**: if the selection stands for some targets and the scratch directory can be made,
there is one pipeline for each distinct target, and what comes after them starts from where the last
one has ended. -/
theorem perform_run (generator : Generator) (extractor : Option Extractor)
    {requested : List Target} {files : FileTree}
    (hselect : request.selection.resolveOrDefault ws.package = .ok requested)
    (hscratch : MakesScratch ws host.directory s.files files) :
    ∃ outcomes s', Chain (Ends host
        (documentTarget ws.scratch generator extractor ws.package request))
        (prepared ws request requested files s) outcomes s' ∧
      FirstOccurrences requested (outcomes.map Prod.fst) ∧
      (run ws generator extractor request).perform host s =
        (conclude ws request requested (outcomes.map labelled)).perform host s' := by
  obtain ⟨outcomes, s', hchain, hfst, hrun⟩ := perform_workThrough host
    (documentTarget ws.scratch generator extractor ws.package request) requested.eraseDups
    (prepared ws request requested files s)
  refine ⟨outcomes, s', hchain, hfst ▸ FirstOccurrences.eraseDups requested, ?_⟩
  have hensure : (ws.ensureScratch).perform host (prepared ws request requested s.files s).toWorld =
      (.ok ⟨⟩, (prepared ws request requested files s).toWorld) := by
    unfold Workspace.ensureScratch
    rw [Act.perform_edit]
    simp only [prepared]
    rw [hscratch]
    rfl
  rw [perform_run_selected generator extractor hselect, perform_bind, Job.perform_liftM, hensure]
  simp only
  rw [perform_bind]
  erw [hrun]

/-- A batch that has succeeded has got past the selection and the scratch directory. -/
theorem run_prepared {plan : Plan} {s' : Session}
    (h : (run ws generator extractor request).perform host s = (.ok plan, s')) :
    ∃ requested files, request.selection.resolveOrDefault ws.package = .ok requested ∧
      MakesScratch ws host.directory s.files files := by
  rcases hselect : request.selection.resolveOrDefault ws.package with e | requested
  · rw [perform_run_of_error hselect] at h
    cases h
  rcases hscratch : (Edit.makeChain host.directory (.createScratch ws.scratch.dir)
    ws.scratch.dir.ancestors).apply s.files with ⟨e | ⟨⟩, files⟩
  · rw [perform_run_stopped generator extractor hselect hscratch] at h
    cases h
  · exact ⟨requested, files, rfl, hscratch⟩

end Run

end Batch

end SymbolDocs
