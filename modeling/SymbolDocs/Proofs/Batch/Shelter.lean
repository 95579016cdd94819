import SymbolDocs.Proofs.Batch.Pass
import SymbolDocs.Proofs.Scratch.Regions
import SymbolDocs.Proofs.Workspace.Arguments

/-! # What a pipeline leaves alone

The plan lies in the scratch directory, beside what pipelines work on. A pipeline leaves it alone if
the scratch directory is found whatever lies in it, if no link leads from where the unified
directories are to somewhere else, and if the name and the identifier of the target have no slash in
them (`sheltered_documentTarget`); what the generator and the extractor do is up to them (`Spares`).
-/

namespace SymbolDocs

open FileTree SymbolDocs.Path

variable {base d : Place} {scratch : Scratch} {target : Target} {t u : FileTree}

/-- The scratch directory is at `d`, whatever lies in it, and no link is on the way from there to
the unified directories. -/
structure Anchored (base : Place) (scratch : Scratch) (d : Place) (t : FileTree) : Prop where
  leads : t.Leads base scratch.dir d
  graphs : t.Plain (d ++ ["symbol-graphs"])
  unified : t.Plain (d ++ ["symbol-graphs", "unified-symbol-graphs"])

/-- Moreover, the scratch directory is there, with a certain plan or with none. -/
structure Sheltered (base : Place) (scratch : Scratch) (d : Place) (plan : Option Entry)
    (t : FileTree) : Prop extends Anchored base scratch d t where
  there : t.get? d = some .directory
  kept : t.get? (d ++ ["docs-plan.json"]) = plan

/-- An act that leaves the scratch directory and the plan where they are. -/
def Act.Spares {α : Type} (scratch : Scratch) (d : Place) (act : Act α) : Prop :=
  ∀ host w plan, Sheltered host.directory scratch d plan w.files →
    Sheltered host.directory scratch d plan (act.perform host w).2.files

variable {plan : Option Entry}

/-! ### Unification -/

theorem Sheltered.ready (h : Sheltered base scratch d plan t) (hends : scratch.dir.EndsInName)
    (htarget : target.Slashless) : Ready base scratch.dir d (Unifier.unifiedNames target) t where
  ends := hends
  areNames := Scratch.areNames_unifiedNames htarget
  ne := by simp [Unifier.unifiedNames]
  leads := h.leads
  there := h.there
  way := by
    intro a b hab ha hb
    rcases a with _ | ⟨x, _ | ⟨y, _ | ⟨z, a⟩⟩⟩
    · exact absurd rfl ha
    · obtain ⟨rfl, -⟩ := List.cons.inj hab
      exact h.graphs
    · obtain ⟨rfl, hab1⟩ := List.cons.inj hab
      obtain ⟨rfl, -⟩ := List.cons.inj hab1
      exact h.unified
    · have hlength := congrArg List.length hab
      have hpos := List.length_pos_of_ne_nil hb
      simp only [Unifier.unifiedNames, List.length_cons, List.length_nil, List.length_append]
        at hlength
      omega

theorem Sheltered.within (h : Sheltered base scratch d plan t)
    (hw : Within (d ++ Unifier.unifiedNames target) t u) : Sheltered base scratch d plan u where
  leads := h.leads.within h.there hw
  graphs := hw.plain h.graphs
  unified := hw.plain h.unified
  there := hw.directory_of_ne h.there (not_beneath (by simp [Unifier.unifiedNames]))
  kept := by
    rw [hw.eq_aside, h.kept]
    · rw [List.prefix_append_right_inj]
      simp [Unifier.unifiedNames]
    · rw [List.prefix_append_right_inj]
      simp [Unifier.unifiedNames]

section Pipeline

variable {host : Host} {s : Session}

theorem sheltered_ask {extractor : Extractor} {package : Package}
    (hspares : (extractor.answer package target).Spares scratch d)
    (h : Sheltered host.directory scratch d plan s.files) :
    Sheltered host.directory scratch d plan
      ((extractor.ask package target).perform host s).2.files := by
  have hanswer := hspares host s.toWorld plan h
  unfold Extractor.ask
  by_cases hk : extractor.keeps = true
  · simp only [hk, Bool.not_true, Bool.false_eq_true, if_false]
    rw [Work.perform_bind, Work.perform_get]
    simp only
    rcases s.snippetGraphs.lookup package.name with _ | kept
    · simp only
      rw [Work.perform_bind, Job.perform_liftM]
      rcases hx : (extractor.answer package target).perform host s.toWorld with ⟨_ | _, w⟩ <;>
        rw [hx] at hanswer
      · exact hanswer
      · exact hanswer
    · simp only
      rw [Work.perform_bind, Job.perform_liftM, Act.perform_log]
      exact h
  · simp only [hk, Bool.not_false, if_true]
    rw [Job.perform_liftM]
    exact hanswer

theorem sheltered_unify {extractor : Option Extractor} {package : Package} (graphs : Path)
    (hends : scratch.dir.EndsInName) (htarget : target.Slashless)
    (hspares : ∀ x, extractor = some x → (x.answer package target).Spares scratch d)
    (h : Sheltered host.directory scratch d plan s.files) :
    Sheltered host.directory scratch d plan
      ((Unifier.unify scratch extractor package target graphs).perform host s).2.files := by
  unfold Unifier.unify
  rcases extractor with _ | extractor
  · exact h
  simp only
  have hask := sheltered_ask (hspares extractor rfl) h
  rw [Work.perform_bind]
  rcases hx : (extractor.ask package target).perform host s with ⟨_ | _ | graph, s1⟩ <;>
    rw [hx] at hask
  · exact hask
  · exact hask
  · simp only
    rw [Job.perform_liftM]
    exact hask.within (Unifier.within_merge (hask.ready hends htarget) graphs graph)

/-! ### The pipeline -/

theorem sheltered_generate {generator : Generator} {package : Package} {options : GraphOptions}
    (hspares : (generator package target options).Spares scratch d)
    (h : Sheltered host.directory scratch d plan s.files) :
    Sheltered host.directory scratch d plan
      ((Coordinator.generate generator package target options).perform host s).2.files := by
  by_cases hfree : s.lock.held = false
  · rw [Coordinator.perform_generate _ _ _ _ hfree, Coordinator.received_files]
    exact hspares host (Coordinator.announced target s.toWorld) plan h
  · rw [Coordinator.perform_generate_of_held _ _ _ _ (by simpa using hfree)]
    exact h

/-- **A pipeline leaves the scratch directory and the plan alone** if the generator and the
extractor do. -/
theorem sheltered_documentTarget {generator : Generator} {extractor : Option Extractor}
    {package : Package} (request : Request) (hends : scratch.dir.EndsInName)
    (htarget : target.Slashless)
    (hgenerator : ∀ options, (generator package target options).Spares scratch d)
    (hextractor : ∀ x, extractor = some x → (x.answer package target).Spares scratch d)
    (h : Sheltered host.directory scratch d plan s.files) :
    Sheltered host.directory scratch d plan ((Batch.documentTarget scratch generator extractor
      package request target).perform host s).2.files := by
  rw [Batch.perform_documentTarget, Work.perform_bind]
  have hgenerate := sheltered_generate (hgenerator (GraphOptions.settle target package
    request.overrides request.capabilities)) (s := Batch.settled package request target s) h
  rcases hg : (Coordinator.generate generator package target (GraphOptions.settle target package
    request.overrides request.capabilities)).perform host (Batch.settled package request target s)
    with ⟨e | graphs, s1⟩ <;> rw [hg] at hgenerate
  · exact hgenerate
  simp only
  have hunify := sheltered_unify graphs hends htarget hextractor hgenerate
  rw [Work.perform_bind]
  rcases hu : (Unifier.unify scratch extractor package target graphs).perform host s1 with
    ⟨e | result, s2⟩ <;> rw [hu] at hunify
  · exact hunify
  · exact hunify

end Pipeline

/-! ### Before the pipelines -/

theorem endsInName_scratch (ws : Workspace) : ws.scratch.dir.EndsInName :=
  endsInName_entry _ (by decide)

/-- The scratch directory is there, or it is put where nothing is. -/
theorem eq_of_makesScratch {ws : Workspace} (h : t.Leads base ws.scratch.dir d)
    (hmake : Batch.MakesScratch ws base t u) :
    t.get? d = some .directory ∧ u = t ∨ t.get? d = none ∧ u = t.putAt d .directory := by
  have hends := endsInName_scratch ws
  unfold Batch.MakesScratch at hmake
  rw [show ws.scratch.dir.ancestors = ws.scratch.dir :: climb (ws.scratch.dir.segments.length + 1)
    ws.scratch.dir from rfl, Edit.apply_makeChain_cons _ hends.text_ne] at hmake
  rcases makeDir_of_resolve hends.endsInStep h.resolve with hex | ⟨hnone, hnew⟩
  · rw [hex] at hmake
    simp only at hmake
    split at hmake <;> cases hmake
    rename_i hdir
    exact .inl ⟨(isDir_of_resolve h.resolve).mp hdir, rfl⟩
  · rw [hnew] at hmake
    cases hmake
    exact .inr ⟨hnone, rfl⟩

/-- Making the scratch directory changes nothing else. -/
theorem makesScratch_cases {ws : Workspace} (h : t.Leads base ws.scratch.dir d)
    (hmake : Batch.MakesScratch ws base t u) :
    u.get? d = some .directory ∧ ∀ q, q ≠ d → u.get? q = t.get? q := by
  rcases eq_of_makesScratch h hmake with ⟨hthere, rfl⟩ | ⟨hnone, rfl⟩
  · exact ⟨hthere, fun _ _ => rfl⟩
  · refine ⟨get?_putAt_self (resolve_reachable h.resolve) (by simp [hnone]), fun q hq => ?_⟩
    exact get?_putAt_of_ne _ hq

/-- Once the scratch directory has been made, the plan is sheltered. -/
theorem sheltered_of_makesScratch {ws : Workspace} (h : Anchored base ws.scratch d t)
    (hmake : Batch.MakesScratch ws base t u) :
    Sheltered base ws.scratch d (t.get? (d ++ ["docs-plan.json"])) u := by
  obtain ⟨hthere, hsame⟩ := makesScratch_cases h.leads hmake
  have hentry : ∀ names : List String, names ≠ [] → u.get? (d ++ names) = t.get? (d ++ names) :=
    fun names hne => hsame _ (by simpa using hne)
  refine ⟨⟨h.leads.congr (fun q hq => hsame q ?_) (plain_of_directory hthere), ?_, ?_⟩, hthere,
    hentry _ (by simp)⟩
  · rintro rfl
    exact hq (List.prefix_refl _)
  · exact (plain_congr (hentry _ (by simp))).mpr h.graphs
  · exact (plain_congr (hentry _ (by simp))).mpr h.unified

end SymbolDocs
