import SymbolDocs.Proofs.Batch.Success
import SymbolDocs.Proofs.Batch.Unheard

/-! # Targets that are asked for again

Two selections may stand for the same distinct targets, in the same order, and differ in how often
they ask for them. The work is the same then: the same calls of the generator, the same outcomes
(`works_alike`). What differs is the list from which the plan is assembled, and with it the layout of
the archives, which depends on the length of that list: an archive for which a path is asked is that
path if one target is asked for, and lies beneath the path if one target is asked for twice
(`ArchiveLayout.archive_eq_iff`).

So a target has the same entry in both plans but for the place of its archive (`run_repeated`). -/

namespace SymbolDocs

/-! ### Layouts for different counts -/

/-- When the archives of a target are the same in the layouts for two counts: always, unless a path is
asked for and there is no combined documentation. -/
theorem ArchiveLayout.archive_eq_iff (scratch : Scratch) (package : Package) (count count' : Nat)
    (outputPath : Option Path) (combined : Bool) (target : Target) :
    (plan scratch package count' outputPath combined).archive target =
        (plan scratch package count outputPath combined).archive target ↔
      ∀ path, outputPath = some path → combined = false →
        (count = 1 ↔ count' = 1) ∨ path = path.entry (archiveName target.name) := by
  rcases outputPath with _ | path
  · simp [plan, archive]
  cases combined with
  | true => simp [plan, archive]
  | false =>
    by_cases h1 : count = 1 <;> by_cases h2 : count' = 1 <;> simp [plan, archive, h1, h2, eq_comm]

/-! ### Texts that are written -/

theorem FileTree.write_cases (t : FileTree) (base : Place) (path : Path) :
    (∃ e, ∀ content, t.write base path content = .error e) ∨
      ∀ content, ∃ u, t.write base path content = .ok u := by
  unfold write
  rcases t.openForWriting base path with e | p
  · exact .inl ⟨e, fun _ => rfl⟩
  · refine .inr fun content => ?_
    simp only [bind, Except.bind]
    split <;> exact ⟨_, rfl⟩

/-- Whether a text can be written does not depend on the text. -/
theorem Edit.writeText_outcome (base : Place) (path : Path) (text text' : String) (t : FileTree) :
    ((writeText base path text).apply t).1 = ((writeText base path text').apply t).1 := by
  have hcall : ∀ u : FileTree,
      ((call (.writeFile path) fun v => v.write base path text.toUTF8).apply u).1 =
        ((call (.writeFile path) fun v => v.write base path text'.toUTF8).apply u).1 := by
    intro u
    rw [apply_call, apply_call]
    rcases u.write_cases base path with ⟨e, hall⟩ | hall
    · simp only [hall]
    · obtain ⟨v, hv⟩ := hall text.toUTF8
      obtain ⟨v', hv'⟩ := hall text'.toUTF8
      rw [hv, hv']
  unfold writeText
  rcases path.parent with _ | dir
  · exact hcall t
  · simp only
    rw [apply_bind, apply_bind]
    rcases (ensureDir base dir).apply t with ⟨e | ⟨⟩, u⟩
    · rfl
    · exact hcall u

namespace Batch

variable {host : Host} {ws : Workspace} {request : Request} {requested requested' : List Target}
  {s s' : Session}

/-! ### Before and after the pipelines -/

/-- Without a scratch directory there is nothing but the failure to make one. -/
theorem perform_run_of_scratch (generator : Generator) (extractor : Option Extractor)
    {e : IoFailure} {u : FileTree}
    (hselect : request.selection.resolveOrDefault ws.package = .ok requested)
    (hscratch : (Edit.makeChain host.directory (.createScratch ws.scratch.dir)
      ws.scratch.dir.ancestors).apply s.files = (.error e, u)) :
    ((run ws generator extractor request).perform host s).1 =
        .error (.failed { cause := .io e }) ∧
      ((run ws generator extractor request).perform host s).2.calls = s.calls := by
  rw [perform_run_stopped generator extractor hselect hscratch]
  exact ⟨rfl, rfl⟩

/-- A batch ends for two lists of requested targets in the same way, and each of the plans is
assembled from the same results. -/
theorem conclude_alike (host : Host) (ws : Workspace) (request : Request)
    (requested requested' : List Target) (outcomes : List (Target × Except Halt TargetDocs))
    (hmatch : s.Matches s') :
    let r := (conclude ws request requested outcomes).perform host s
    let r' := (conclude ws request requested' outcomes).perform host s'
    r.1.map (fun _ => ()) = r'.1.map (fun _ => ()) ∧ r.2.calls = r'.2.calls ∧
    ∀ plan plan', r.1 = .ok plan → r'.1 = .ok plan' → ∃ documented,
      outcomes = documented.map kept ∧ plan = planFor ws request requested documented ∧
      plan' = planFor ws request requested' documented ∧
      (Edit.writeText host.directory ws.scratch.plan plan.text).apply s.files =
        (.ok (), r.2.files) ∧
      (Edit.writeText host.directory ws.scratch.plan plan'.text).apply s.files =
        (.ok (), r'.2.files) := by
  have hblind := (blind_gather host outcomes s.toWorld s'.toWorld hmatch.files).1
  rw [perform_conclude, perform_conclude]
  rcases hs : (gather outcomes).perform host s.toWorld with ⟨halt | documented, w⟩ <;>
    rcases hs' : (gather outcomes).perform host s'.toWorld with ⟨halt' | documented', w'⟩ <;>
    rw [hs, hs'] at hblind
  · cases hblind
    exact ⟨rfl, hmatch.calls, nofun⟩
  · cases hblind
  · cases hblind
  cases hblind
  obtain ⟨hall, rfl⟩ := gather_ok hs
  obtain ⟨-, rfl⟩ := gather_ok hs'
  simp only [← hmatch.files]
  -- the one plan can be written just if the other can
  have houtcome := Edit.writeText_outcome host.directory ws.scratch.plan
    (planFor ws request requested documented).text (planFor ws request requested' documented).text
    s.files
  rcases hw : (Edit.writeText host.directory ws.scratch.plan
      (planFor ws request requested documented).text).apply s.files with ⟨e | ⟨⟩, u⟩ <;>
    rcases hw' : (Edit.writeText host.directory ws.scratch.plan
      (planFor ws request requested' documented).text).apply s.files with ⟨e' | ⟨⟩, u'⟩ <;>
    rw [hw, hw'] at houtcome
  · cases houtcome
    exact ⟨rfl, hmatch.calls, nofun⟩
  · cases houtcome
  · cases houtcome
  · refine ⟨rfl, hmatch.calls, ?_⟩
    rintro plan plan' ⟨⟩ ⟨⟩
    exact ⟨documented, hall, rfl, rfl, hw, hw'⟩

/-! ### Entries -/

theorem exists_getElem?_of_forall₂ {α β : Type} {R : α → β → Prop} {l : List α} {m : List β}
    (h : List.Forall₂ R l m) {i : Nat} {a : α} (ha : l[i]? = some a) :
    ∃ b, m[i]? = some b ∧ R a b := by
  obtain ⟨hlength, hget⟩ := List.forall₂_iff_get.mp h
  obtain ⟨hi, rfl⟩ := List.getElem?_eq_some_iff.mp ha
  exact ⟨m[i], List.getElem?_eq_getElem (hlength ▸ hi), hget i hi (hlength ▸ hi)⟩

/-- Two entries with what the same passes have made are equal but for the place of the archive. -/
theorem Describes.alike {layout layout' : ArchiveLayout} {passes : List Pass} {x : Target}
    {e e' : PlannedTarget} (hnodup : (passes.map Pass.target).Nodup)
    (he : Describes layout passes x e) (he' : Describes layout' passes x e') :
    e' = { e with archiveDir := e'.archiveDir } := by
  have hmoved : Describes layout passes x { e' with archiveDir := layout.archive x } :=
    ⟨he'.name, he'.id, rfl, he'.made⟩
  rw [he.unique hnodup hmoved]

/-- In two plans that are assembled from the same passes, the entries about a target are equal but for
the place of the archive, and this is the same just if the layouts agree on it. -/
theorem entries_alike (ws : Workspace) (request : Request) {passes : List Pass}
    (hfirst : FirstOccurrences requested (passes.map Pass.target))
    (hfirst' : FirstOccurrences requested' (passes.map Pass.target)) {i j : Nat} {x : Target}
    (hi : requested[i]? = some x) (hj : requested'[j]? = some x) :
    ∃ e e', (planFor ws request requested (passes.map Pass.docs)).targets[i]? = some e ∧
      (planFor ws request requested' (passes.map Pass.docs)).targets[j]? = some e' ∧
      e' = { e with archiveDir := e'.archiveDir } ∧
      (e'.archiveDir = e.archiveDir ↔
        ∀ path, request.outputPath = some path → request.combined = false →
          (requested.length = 1 ↔ requested'.length = 1) ∨
            path = path.entry (ArchiveLayout.archiveName x.name)) := by
  obtain ⟨e, he, hx⟩ := exists_getElem?_of_forall₂ (describes_planFor ws request hfirst) hi
  obtain ⟨e', he', hx'⟩ := exists_getElem?_of_forall₂ (describes_planFor ws request hfirst') hj
  refine ⟨e, e', he, he', hx.alike hfirst.nodup hx', ?_⟩
  rw [hx.archive, hx'.archive]
  exact ArchiveLayout.archive_eq_iff ..

/-! ### Two batches -/

/-- **The work is the same**: if a scratch directory can be made, the pipelines of the two batches have
the same outcomes and leave sessions that match. -/
theorem works_alike {c : Setting} {selection : Selection} {targets : List Target} {files : FileTree}
    (hselect : c.request.selection.resolveOrDefault c.ws.package = .ok requested)
    (hselect' : selection.resolveOrDefault c.ws.package = .ok requested')
    (hfirst : FirstOccurrences requested targets) (hfirst' : FirstOccurrences requested' targets)
    (hdeaf : ∀ x ∈ targets, c.Deaf x)
    (hscratch : MakesScratch c.ws c.host.directory s.files files) :
    ∃ outcomes t t', Chain (Ends c.host c.work) (prepared c.ws c.request requested files s) outcomes
        t ∧
      outcomes.map Prod.fst = targets ∧ t.Matches t' ∧
      (run c.ws c.generator c.extractor c.request).perform c.host s =
        (conclude c.ws c.request requested (outcomes.map labelled)).perform c.host t ∧
      (run c.ws c.generator c.extractor { c.request with selection }).perform c.host s =
        (conclude c.ws c.request requested' (outcomes.map labelled)).perform c.host t' := by
  have hagain : ({ c.request with selection } : Request).selection.resolveOrDefault c.ws.package =
    .ok requested' := hselect'
  obtain ⟨outcomes, t, hchain, hof, hr⟩ := perform_run c.generator c.extractor hselect hscratch
  obtain ⟨outcomes', t', hchain', hof', hr'⟩ := perform_run c.generator c.extractor hagain hscratch
  change Chain (Ends c.host c.work) _ outcomes t at hchain
  change Chain (Ends c.host c.work) _ outcomes' t' at hchain'
  have hmatch : (prepared c.ws c.request requested files s).Matches
      (prepared c.ws { c.request with selection } requested' files s) := ⟨rfl, rfl, rfl, rfl⟩
  have htargets := hof.unique hfirst
  obtain ⟨rfl, hends⟩ := ends_congr (fun o ho =>
    (hdeaf o.1 (htargets ▸ List.mem_map_of_mem ho)).blind_work) hmatch
    (htargets.trans (hfirst'.unique hof')) hchain hchain'
  exact ⟨outcomes, t, t', hchain, htargets, hends, hr, hr'⟩

/-- **Targets that are asked for again**: if two selections stand for the same distinct targets in the
same order, whatever the number of times, then two batches with these selections, started alike, both
succeed or fail in the same way, with the same calls of the generator, and they leave the files that
the one plan and the other leave when they are written over the same files. The plans agree on the
package and on the archive of combined documentation. An entry of the one and an entry of the other
about the same target are equal but for the place of the archive; and this place is the same just if
one of the following holds: no path is asked for; there is combined documentation; one target is asked
for in both selections or in neither; or the archive in the path is the path itself. -/
theorem run_repeated {c : Setting} {selection : Selection}
    {requested requested' targets : List Target} {s : Session}
    (hselect : c.request.selection.resolveOrDefault c.ws.package = .ok requested)
    (hselect' : selection.resolveOrDefault c.ws.package = .ok requested')
    (hfirst : FirstOccurrences requested targets) (hfirst' : FirstOccurrences requested' targets)
    (hdeaf : ∀ x ∈ targets, c.Deaf x) :
    let r := (run c.ws c.generator c.extractor c.request).perform c.host s
    let r' := (run c.ws c.generator c.extractor { c.request with selection }).perform c.host s
    r.1.map (fun _ => ()) = r'.1.map (fun _ => ()) ∧ r.2.calls = r'.2.calls ∧
    ∀ plan plan', r.1 = .ok plan → r'.1 = .ok plan' →
      plan'.package = plan.package ∧ plan'.combinedArchive = plan.combinedArchive ∧
      (∃ files,
        (Edit.writeText c.host.directory c.ws.scratch.plan plan.text).apply files =
          (.ok (), r.2.files) ∧
        (Edit.writeText c.host.directory c.ws.scratch.plan plan'.text).apply files =
          (.ok (), r'.2.files)) ∧
      plan.targets.length = requested.length ∧ plan'.targets.length = requested'.length ∧
      ∀ (i j : Nat) (x : Target), requested[i]? = some x → requested'[j]? = some x →
        ∃ e e', plan.targets[i]? = some e ∧ plan'.targets[j]? = some e' ∧
          e' = { e with archiveDir := e'.archiveDir } ∧
          (e'.archiveDir = e.archiveDir ↔
            ∀ path, c.request.outputPath = some path → c.request.combined = false →
              (requested.length = 1 ↔ requested'.length = 1) ∨
                path = path.entry (ArchiveLayout.archiveName x.name)) := by
  intro r r'
  rcases hscratch : (Edit.makeChain c.host.directory (.createScratch c.ws.scratch.dir)
    c.ws.scratch.dir.ancestors).apply s.files with ⟨e | ⟨⟩, files⟩
  · -- there is no scratch directory in either of them
    obtain ⟨hout, hcalls⟩ := perform_run_of_scratch c.generator c.extractor hselect hscratch
    have hagain : ({ c.request with selection } : Request).selection.resolveOrDefault c.ws.package =
      .ok requested' := hselect'
    obtain ⟨hout', hcalls'⟩ := perform_run_of_scratch c.generator c.extractor hagain hscratch
    refine ⟨by rw [hout, hout'], hcalls.trans hcalls'.symm, fun plan _ hplan => ?_⟩
    cases hout.symm.trans hplan
  obtain ⟨outcomes, t, t', hchain, htargets, hends, hr, hr'⟩ :=
    works_alike hselect hselect' hfirst hfirst' hdeaf hscratch
  obtain ⟨hout, hcalls, hplans⟩ := conclude_alike c.host c.ws c.request requested requested'
    (outcomes.map labelled) hends
  change r = _ at hr
  change r' = _ at hr'
  rw [hr, hr']
  refine ⟨hout, hcalls, fun plan plan' hplan hplan' => ?_⟩
  obtain ⟨documented, hall, rfl, rfl, hwrite, hwrite'⟩ := hplans plan plan' hplan hplan'
  rw [map_labelled_eq_map_kept hall] at hchain htargets
  obtain ⟨passes, -, rfl⟩ := passes_of_ends hchain
  rw [map_fst_kept, map_fst_docs] at htargets
  subst htargets
  exact ⟨rfl, rfl, ⟨t.files, hwrite, hwrite'⟩, (describes_planFor c.ws c.request hfirst).length_eq.symm,
    (describes_planFor c.ws c.request hfirst').length_eq.symm,
    fun i j x => entries_alike c.ws c.request hfirst hfirst'⟩

/-- The small package, with a program for its symbol graphs and a path for its archive. -/
def outSetting : Setting where
  host := writerHost "x".toUTF8 ""
  ws := toolWorkspace "/"
  generator := .ofProgram ⟨"/t"⟩ (toolWorkspace "/").scratch {}
  extractor := none
  request := { selection := { targets := ["a"] }, outputPath := some ⟨"out"⟩ }

/-- What comes of it if some targets are asked for. -/
def outRun (targets : List String) : Except Halt Plan × Session :=
  (run outSetting.ws outSetting.generator outSetting.extractor
    { outSetting.request with selection := { targets } }).perform outSetting.host
      { files := toolFiles }

/-- The archive of a target is at another place if the target is asked for twice. -/
theorem run_repeated_out : ∃ plan plan' e e',
    (outRun ["a"]).1 = .ok plan ∧ (outRun ["a", "a"]).1 = .ok plan' ∧
    plan.targets[0]? = some e ∧ plan'.targets[0]? = some e' ∧ plan'.targets.length = 2 ∧
    e' = { e with archiveDir := e'.archiveDir } ∧ e'.archiveDir ≠ e.archiveDir := by
  have hselect : outSetting.request.selection.resolveOrDefault outSetting.ws.package =
      .ok smallPackage.targets := eq_ok_of_toOption (by decide +kernel)
  have hselect' : ({ targets := ["a", "a"] } : Selection).resolveOrDefault outSetting.ws.package =
      .ok (smallPackage.targets ++ smallPackage.targets) := eq_ok_of_toOption (by decide +kernel)
  have hone : FirstOccurrences smallPackage.targets smallPackage.targets :=
    FirstOccurrences.eraseDups smallPackage.targets
  have htwice : FirstOccurrences (smallPackage.targets ++ smallPackage.targets)
      smallPackage.targets :=
    FirstOccurrences.eraseDups (smallPackage.targets ++ smallPackage.targets)
  obtain ⟨hout, -, hplans⟩ := @run_repeated outSetting { targets := ["a", "a"] } _ _ _
    { files := toolFiles } hselect hselect' hone htwice
    fun x _ => @deaf_of_programs outSetting ⟨"/t"⟩ ⟨"/t"⟩ "" rfl (fun e he => by cases he) x
  change (outRun ["a"]).1.map _ = (outRun ["a", "a"]).1.map _ at hout
  change ∀ plan plan', (outRun ["a"]).1 = .ok plan → (outRun ["a", "a"]).1 = .ok plan' → _ at hplans
  have hok : (outRun ["a"]).1.toBool = true := by decide +kernel
  rcases hrun : (outRun ["a"]).1 with halt | plan <;> rw [hrun] at hok hout
  · cases hok
  rcases hrun' : (outRun ["a", "a"]).1 with halt | plan' <;> rw [hrun'] at hout
  · cases hout
  obtain ⟨-, -, -, -, htwo, hentries⟩ := hplans plan plan' hrun hrun'
  obtain ⟨e, e', he, he', halike, hplace⟩ := hentries 0 0 _ rfl rfl
  refine ⟨plan, plan', e, e', rfl, rfl, he, he', htwo, halike, fun hsame => ?_⟩
  have hcases := hplace.mp hsame ⟨"out"⟩ rfl rfl
  revert hcases
  decide +kernel

end Batch

end SymbolDocs
