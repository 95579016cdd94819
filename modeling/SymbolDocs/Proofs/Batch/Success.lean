import SymbolDocs.Proofs.Batch.Pass
import SymbolDocs.Proofs.FileTree.Applied
import SymbolDocs.Proofs.FileTree.Written

/-! # A batch that succeeds

Nothing has failed then (`gather_ok`), so there is a pass for each distinct target
(`passes_of_ends`), and every requested target finds what its own pass has made
(`describes_assemble`). The plan that is returned is the plan that is kept. -/

namespace SymbolDocs.Batch

open Work

variable {host : Host} {s s' : Session}

/-! ### Nothing has failed -/

/-- A result as an outcome. -/
def kept {α : Type} (r : Target × α) : Target × Except Halt α :=
  (r.1, .ok r.2)

theorem map_fst_kept {α : Type} (documented : List (Target × α)) :
    (documented.map kept).map Prod.fst = documented.map Prod.fst := by
  simp [kept, Function.comp_def]

theorem eq_map_kept {α : Type} : ∀ {outcomes : List (Target × Except Halt α)},
    firstCrash outcomes = none → failures outcomes = [] → outcomes = (results outcomes).map kept
  | [], _, _ => rfl
  | (target, .error (.failed failure)) :: outcomes, _, h => by
    simp [failures] at h
  | (target, .error (.crashed message)) :: outcomes, h, _ => by
    simp [firstCrash] at h
  | (target, .ok a) :: outcomes, h1, h2 => by
    have h1' : firstCrash outcomes = none := by simpa [firstCrash] using h1
    have h2' : failures outcomes = [] := by simpa [failures] using h2
    change _ = kept (target, a) :: (results outcomes).map kept
    rw [← eq_map_kept h1' h2']
    rfl

theorem gather_ok {α : Type} {outcomes : List (Target × Except Halt α)}
    {documented : List (Target × α)} {w w' : World}
    (h : (gather outcomes).perform host w = (.ok documented, w')) :
    outcomes = documented.map kept ∧ w' = w := by
  rcases hc : firstCrash outcomes with _ | message
  · rw [perform_gather outcomes w hc] at h
    rcases hf : failures outcomes with _ | ⟨first, rest⟩ <;> rw [hf] at h
    · simp only [Prod.mk.injEq, Except.ok.injEq] at h
      obtain ⟨rfl, rfl⟩ := h
      exact ⟨eq_map_kept hc hf, rfl⟩
    · simp at h
  · unfold gather at h
    rw [hc] at h
    cases h

theorem labelled_eq_kept {α : Type} {o : Target × Except Halt α} {r : Target × α}
    (h : labelled o = kept r) : o = kept r := by
  rcases o with ⟨target, (_ | _) | a⟩ <;> simp [labelled, kept, outcomeInside] at h ⊢
  exact h

theorem map_labelled_eq_map_kept {α : Type} : ∀ {outcomes : List (Target × Except Halt α)}
    {documented : List (Target × α)}, outcomes.map labelled = documented.map kept →
      outcomes = documented.map kept
  | [], [], _ => rfl
  | [], _ :: _, h => by simp at h
  | _ :: _, [], h => by simp at h
  | o :: outcomes, r :: documented, h => by
    rw [List.map_cons, List.map_cons, List.cons.injEq] at h
    rw [List.map_cons, labelled_eq_kept h.1, ← map_labelled_eq_map_kept h.2]

/-! ### The passes -/

variable {ws : Workspace} {generator : Generator} {extractor : Option Extractor}
  {request : Request}

/-- What a pass has made for its target. -/
def Pass.docs (p : Pass) : Target × TargetDocs :=
  (p.target, ⟨p.options, p.result⟩)

theorem passes_of_ends : ∀ {documented : List (Target × TargetDocs)} {s s' : Session},
    Chain (Ends host (documentTarget ws.scratch generator extractor ws.package request)) s
      (documented.map kept) s' →
    ∃ passes, Chain (Made host ws generator extractor request) s passes s' ∧
      passes.map Pass.docs = documented
  | [], s, s', h => by
    cases h
    exact ⟨[], .nil s, rfl⟩
  | (target, docs) :: documented, s, s', h => by
    rcases h with _ | ⟨hstep, hrest⟩
    obtain ⟨graphs, hmade⟩ := documentTarget_ok hstep
    obtain ⟨passes, hchain, rfl⟩ := passes_of_ends hrest
    exact ⟨⟨target, docs.options, graphs, docs.result⟩ :: passes, .cons hmade hchain, rfl⟩

theorem calls_of_made : ∀ {passes : List Pass} {s s' : Session},
    Chain (Made host ws generator extractor request) s passes s' →
      s'.calls = s.calls ++ passes.map Pass.call
  | [], s, s', h => by
    cases h
    simp
  | p :: passes, s, s', h => by
    rcases h with _ | ⟨hmade, hrest⟩
    rw [calls_of_made hrest, hmade.calls]
    simp

/-! ### The entries -/

/-- An entry of a plan is about a target, and holds what the pass of that target has made. -/
structure Describes (layout : ArchiveLayout) (passes : List Pass) (target : Target)
    (e : PlannedTarget) : Prop where
  name : e.name = target.name
  id : e.id = target.id
  archive : e.archiveDir = layout.archive target
  made : ∃ p ∈ passes, p.target = target ∧ e.options = p.options ∧
    e.symbolGraphDir = p.result.inputDir ∧ e.snippetGraph = p.result.snippetGraph ∧
    e.symbolGraphs = p.result

theorem lookup_docs {target : Target} : ∀ {passes : List Pass},
    target ∈ passes.map Pass.target → ∃ p ∈ passes, p.target = target ∧
      (passes.map Pass.docs).lookup target = some ⟨p.options, p.result⟩
  | [], h => by simp at h
  | p :: passes, h => by
    rw [List.map_cons, List.lookup_cons]
    by_cases hp : target = p.target
    · exact ⟨p, by simp, hp.symm, by simp [Pass.docs, hp]⟩
    · have h' : target ∈ passes.map Pass.target := by simpa [hp] using h
      obtain ⟨q, hq, htarget, hlookup⟩ := lookup_docs h'
      refine ⟨q, by simp [hq], htarget, ?_⟩
      have hne : (target == p.target) = false := by simpa using hp
      rw [Pass.docs, hne]
      exact hlookup

theorem describes_assemble (package : Package) (layout : ArchiveLayout) {passes : List Pass} :
    ∀ {requested : List Target}, (∀ target ∈ requested, target ∈ passes.map Pass.target) →
      List.Forall₂ (Describes layout passes) requested
        (assemble package layout requested (passes.map Pass.docs)).targets
  | [], _ => .nil
  | target :: requested, h => by
    obtain ⟨p, hp, htarget, hlookup⟩ := lookup_docs (h target (by simp))
    have ih := describes_assemble package layout fun t ht => h t (List.mem_cons_of_mem target ht)
    have hcons : (assemble package layout (target :: requested) (passes.map Pass.docs)).targets =
        PlannedTarget.of layout target p.options p.result ::
          (assemble package layout requested (passes.map Pass.docs)).targets := by
      simp [assemble, hlookup]
    rw [hcons]
    exact .cons ⟨rfl, rfl, rfl, p, hp, htarget, rfl, rfl, rfl, rfl⟩ ih

theorem map_fst_docs (passes : List Pass) :
    (passes.map Pass.docs).map Prod.fst = passes.map Pass.target := by
  simp [Pass.docs, Function.comp_def]

/-- The plan for some requested targets, if there is a pass for each distinct one. -/
theorem describes_planFor (ws : Workspace) (request : Request) {requested : List Target}
    {passes : List Pass} (hfirst : FirstOccurrences requested (passes.map Pass.target)) :
    List.Forall₂ (Describes (ArchiveLayout.plan ws.scratch ws.package requested.length
      request.outputPath request.combined) passes) requested
      (planFor ws request requested (passes.map Pass.docs)).targets :=
  describes_assemble _ _ fun target ht => (hfirst.mem_iff target).mpr ht

/-- Entries about one target are equal. -/
theorem Describes.unique {layout : ArchiveLayout} {passes : List Pass} {target : Target}
    {d e : PlannedTarget} (hnodup : (passes.map Pass.target).Nodup)
    (hd : Describes layout passes target d) (he : Describes layout passes target e) : d = e := by
  obtain ⟨dname, did, darchive, p, hp, hpt, d1, d2, d3, d4⟩ := hd
  obtain ⟨ename, eid, earchive, q, hq, hqt, e1, e2, e3, e4⟩ := he
  have hpq : p = q := List.inj_on_of_nodup_map hnodup hp hq (hpt.trans hqt.symm)
  subst hpq
  cases d
  cases e
  simp_all

/-! ### The plan that is kept -/

theorem read_of_writeText {base : Place} {path : Path} {text : String} {t u : FileTree} {a : Unit}
    (h : (Edit.writeText base path text).apply t = (.ok a, u)) :
    u.read base path = .ok text.toUTF8 := by
  unfold Edit.writeText at h
  simp only at h
  rcases hp : path.parent with _ | dir <;> rw [hp] at h
  · exact FileTree.read_of_write (Edit.apply_call_ok h)
  · obtain ⟨_, v, -, h⟩ := Edit.apply_bind_ok h
    exact FileTree.read_of_write (Edit.apply_call_ok h)

theorem conclude_ok {requested : List Target} {outcomes : List (Target × Except Halt TargetDocs)}
    {plan : Plan}
    (h : (conclude ws request requested outcomes).perform host s = (.ok plan, s')) :
    ∃ documented, outcomes = documented.map kept ∧ s'.calls = s.calls ∧
      plan = assemble ws.package (ArchiveLayout.plan ws.scratch ws.package requested.length
        request.outputPath request.combined) requested documented ∧
      s'.files.read host.directory ws.scratch.plan = .ok plan.text.toUTF8 := by
  unfold conclude at h
  obtain ⟨documented, s1, h1, h⟩ := perform_bind_ok h
  obtain ⟨w1, hgather, rfl⟩ := Job.perform_liftM_ok h1
  obtain ⟨hall, rfl⟩ := gather_ok hgather
  obtain ⟨_, s2, h2, h⟩ := perform_bind_ok h
  obtain ⟨w2, hedit, rfl⟩ := Job.perform_liftM_ok h2
  obtain ⟨u, hwrite, rfl⟩ := Act.perform_edit_ok hedit
  obtain ⟨_, s3, h3, h⟩ := perform_bind_ok h
  rw [Job.perform_liftM, Act.perform_log] at h3
  cases h3
  rw [perform_pure] at h
  cases h
  exact ⟨documented, hall, rfl, rfl, read_of_writeText hwrite⟩

/-! ### The batch -/

/-- A batch that has succeeded: the pipelines, none of which has failed, and what is left to do. -/
theorem run_documented {plan : Plan}
    (h : (run ws generator extractor request).perform host s = (.ok plan, s')) :
    ∃ requested files documented last,
      request.selection.resolveOrDefault ws.package = .ok requested ∧
      MakesScratch ws host.directory s.files files ∧
      FirstOccurrences requested (documented.map Prod.fst) ∧
      Chain (Ends host (documentTarget ws.scratch generator extractor ws.package request))
        (prepared ws request requested files s) (documented.map kept) last ∧
      plan = planFor ws request requested documented ∧
      (conclude ws request requested (documented.map kept)).perform host last = (.ok plan, s') := by
  obtain ⟨requested, files, hselect, hscratch⟩ := run_prepared h
  obtain ⟨outcomes, last, hchain, hfirst, hrun⟩ := perform_run generator extractor hselect hscratch
  rw [hrun] at h
  obtain ⟨documented, hall, -, hplan, -⟩ := conclude_ok h
  rw [hall] at h
  rw [map_labelled_eq_map_kept hall] at hchain hfirst
  exact ⟨requested, files, documented, last, hselect, hscratch, map_fst_kept documented ▸ hfirst,
    hchain, hplan, h⟩

theorem getElem?_eq_of_forall₂ {α β : Type} {R : α → β → Prop} {l : List α} {m : List β}
    (h : List.Forall₂ R l m) (hR : ∀ a b c, R a b → R a c → b = c) {i j : Nat}
    (hij : l[i]? = l[j]?) : m[i]? = m[j]? := by
  obtain ⟨hlength, hget⟩ := List.forall₂_iff_get.mp h
  by_cases hi : i < l.length
  · rw [List.getElem?_eq_getElem hi, eq_comm, List.getElem?_eq_some_iff] at hij
    obtain ⟨hj, hij⟩ := hij
    rw [List.getElem?_eq_getElem (hlength ▸ hi), List.getElem?_eq_getElem (hlength ▸ hj)]
    refine congrArg some (hR l[i] _ _ (hget i hi _) ?_)
    rw [← hij]
    exact hget j hj _
  · have hj : ¬ j < l.length := by
      intro hj
      rw [List.getElem?_eq_getElem hj, List.getElem?_eq_none_iff.mpr (by omega)] at hij
      cases hij
    rw [List.getElem?_eq_none_iff.mpr (by omega), List.getElem?_eq_none_iff.mpr (by omega)]

/-- **A batch that succeeds** has called the generator once for each distinct target that is asked
for, in the order of the first occurrences and with the options that are settled for the target. Its
plan has an entry for each target of the request, in the order of the request, with what the pass of
that target has made; and the file of the plan holds the text of this plan. -/
theorem run_ok {text : String} {m : Manifest} {root : Path} {plan : Plan}
    (hparse : Manifest.parse text = .ok m) (hpackage : m.toPackage root = .ok ws.package)
    (h : (run ws generator extractor request).perform host s = (.ok plan, s')) :
    ∃ (requested : List Target) (passes : List Pass) (layout : ArchiveLayout),
      request.selection.resolveOrDefault ws.package = .ok requested ∧
      layout = ArchiveLayout.plan ws.scratch ws.package requested.length request.outputPath
        request.combined ∧
      FirstOccurrences requested (passes.map Pass.target) ∧
      (passes.map fun p => p.target.name).Nodup ∧
      (∃ files s1, MakesScratch ws host.directory s.files files ∧
        Chain (Made host ws generator extractor request)
          (prepared ws request requested files s) passes s1) ∧
      s'.calls = s.calls ++ passes.map Pass.call ∧
      plan = { Plan.start ws.package layout with targets := plan.targets } ∧
      List.Forall₂ (Describes layout passes) requested plan.targets ∧
      (∀ i j : Nat, requested[i]? = requested[j]? → plan.targets[i]? = plan.targets[j]?) ∧
      s'.files.read host.directory ws.scratch.plan = .ok plan.text.toUTF8 := by
  obtain ⟨requested, files, hselect, hscratch⟩ := run_prepared h
  obtain ⟨outcomes, s1, hchain, hfirst, hrun⟩ := perform_run generator extractor
    hselect hscratch
  rw [hrun] at h
  obtain ⟨documented, hall, hcalls, hplan, hread⟩ := conclude_ok h
  rw [map_labelled_eq_map_kept hall] at hchain hfirst
  obtain ⟨passes, hmade, rfl⟩ := passes_of_ends hchain
  have htargets : ((passes.map Pass.docs).map kept).map Prod.fst = passes.map Pass.target := by
    simp [Pass.docs, kept, Function.comp_def]
  rw [htargets] at hfirst
  have hdescribes := describes_assemble ws.package (ArchiveLayout.plan ws.scratch ws.package
    requested.length request.outputPath request.combined)
    fun target ht => (hfirst.mem_iff target).mpr ht
  rw [← hplan] at hdescribes
  refine ⟨requested, passes, _, hselect, rfl, hfirst, ?_, ⟨files, s1, hscratch, hmade⟩,
    ?_, ?_, hdescribes,
    fun i j => getElem?_eq_of_forall₂ hdescribes fun _ _ _ => Describes.unique hfirst.nodup, hread⟩
  · rw [show (passes.map fun p => p.target.name) = (passes.map Pass.target).map Target.name by simp]
    exact names_nodup_of_selected hparse hpackage hselect hfirst
  · rw [hcalls, calls_of_made hmade]
    rfl
  · rw [hplan]
    rfl

/-- Asked for twice, the target of the small package is worked on once and planned twice. -/
theorem run_twice :
    ∃ plan s', (run ⟨smallPackage⟩ (fun _ _ _ => return ⟨"g"⟩) none
        { selection := { targets := ["a", "a"] } }).perform bareHost { files := .empty } =
          (.ok plan, s') ∧
      plan.targets.length = 2 ∧ plan.targets[0]? = plan.targets[1]? ∧ s'.calls.length = 1 ∧
      s'.files.read [] ⟨".graphdoc/docs-plan.json"⟩ = .ok plan.text.toUTF8 := by
  have hok : ((run ⟨smallPackage⟩ (fun _ _ _ => return ⟨"g"⟩) none
      { selection := { targets := ["a", "a"] } }).perform bareHost { files := .empty }).1.toBool =
        true := by decide +kernel
  have hresolve : ({ targets := ["a", "a"] } : Selection).resolveOrDefault smallPackage =
      .ok [⟨"a", "i", .sourceModule .library, {}⟩, ⟨"a", "i", .sourceModule .library, {}⟩] := by
    decide +kernel
  have hpath : (⟨smallPackage⟩ : Workspace).scratch.plan = ⟨".graphdoc/docs-plan.json"⟩ := by
    decide +kernel
  rcases hrun : (run ⟨smallPackage⟩ (fun _ _ _ => return ⟨"g"⟩) none
      { selection := { targets := ["a", "a"] } }).perform bareHost { files := .empty } with
    ⟨halt | plan, s'⟩
  · rw [hrun] at hok; cases hok
  obtain ⟨requested, passes, layout, hselect, -, hfirst, -, -, hcalls, -, hentries, hequal,
    hread⟩ := run_ok parse_smallText toPackage_smallManifest hrun
  cases hselect.symm.trans hresolve
  refine ⟨plan, s', rfl, hentries.length_eq.symm, hequal 0 1 rfl, ?_, hpath ▸ hread⟩
  rw [hcalls]
  have hone := congrArg List.length (hfirst.eq_singleton
    (a := ⟨"a", "i", .sourceModule .library, {}⟩) (by simp))
  rw [List.length_map] at hone
  simpa using hone

end SymbolDocs.Batch
