import SymbolDocs.Proofs.Batch.Contents

/-! # Plans that outlive their run

A run that fails leaves the plan of an earlier run where it is, but it may have emptied directories
that this plan names. What is sure is that it touches nothing but the directories of the targets
that it is asked for, and the snippet graphs (`run_failed`). So in any sequence of runs the plan of
the last one that has succeeded stays, and its entries stay true as long as no later run is asked
for their targets (`plan_outlives`). -/

namespace SymbolDocs.Batch

open FileTree SymbolDocs.Path Work

/-! ### Rounds -/

/-- A run that may be made in a workspace. -/
structure Round where
  host : Host
  programs : Programs
  request : Request

/-- A run is made on some files, whatever is remembered from before, and it ends. -/
def Ended (ws : Workspace) (t : FileTree) (r : Round × Except Halt Plan) (u : FileTree) : Prop :=
  ∃ s s' : Session, s.files = t ∧ s'.files = u ∧
    (run ws (r.1.programs.symbols ws) (r.1.programs.snippets ws) r.1.request).perform r.1.host s =
      (r.2, s')

/-- A run is asked for a target. -/
def Round.Asks (ws : Workspace) (r : Round) (target : Target) : Prop :=
  ∃ requested, r.request.selection.resolveOrDefault ws.package = .ok requested ∧
    target ∈ requested

/-- The run is made from a certain directory, and its programs write where they are told to. -/
structure Round.Fits (base : Place) (r : Round) : Prop where
  here : r.host.directory = base
  obey : r.programs.Obey r.host Beneath Inside

theorem Round.Fits.inside {base : Place} {r : Round} (h : r.Fits base) :
    r.programs.Obey r.host Inside Inside :=
  h.obey.imp (fun _ _ _ h => h.inside) fun _ _ _ h => h

variable {base d : Place} {ws : Workspace} {t u v : FileTree} {r : Round}

/-! ### What a run that fails leaves alone -/

/-- The scratch directory is laid out as before, and what is aside of what belongs to some targets
is the same in it. -/
structure Spares (base : Place) (ws : Workspace) (d : Place) (asked : Target → Prop)
    (t u : FileTree) : Prop where
  laid : Laid base ws d u
  there : t.get? d = some .directory → u.get? d = some .directory
  contents : ∀ names, names ≠ [] →
    (∀ target, asked target → ∀ part ∈ Scratch.partsOf target, Aside (d ++ names) (d ++ part)) →
    u.contents (d ++ names) = t.contents (d ++ names)

theorem Spares.refl {asked : Target → Prop} (h : Laid base ws d t) : Spares base ws d asked t t :=
  ⟨h, id, fun _ _ _ => rfl⟩

/-- Pipelines for some targets keep what does not belong to any of them. -/
theorem keeps_chain (hname : '/' ∉ ws.package.name.toList)
    (hnear : ws.root.isAbsolute = true ∨ ws.root.inner = []) (hfits : r.Fits base)
    {outcomes : List (Target × Except Halt TargetDocs)} {s s' : Session}
    (hslashless : ∀ o ∈ outcomes, o.1.Slashless)
    (h : Chain (Ends r.host (documentTarget ws.scratch (r.programs.symbols ws)
      (r.programs.snippets ws) ws.package r.request)) s outcomes s')
    (hlaid : LaidOut base ws d s.files) :
    Keeps base ws d ((outcomes.map Prod.fst).flatMap Scratch.partsOf) s.files s'.files := by
  refine h.preserves (I := fun m => Keeps base ws d _ s.files m.files)
    (fun a o b ho hends ha => ?_) (Keeps.refl hlaid)
  have hkeeps := keeps_documentTarget hname hnear hfits.inside (hslashless o ho) r.request
    (s := a) (d := d) (by rw [hfits.here]; exact ha.laidOut)
  rw [show (documentTarget ws.scratch (r.programs.symbols ws) (r.programs.snippets ws) ws.package
    r.request o.1).perform r.host a = (o.2, b) from hends, hfits.here] at hkeeps
  exact ha.trans (hkeeps.mono fun part hpart =>
    List.mem_flatMap.mpr ⟨o.1, List.mem_map_of_mem ho, hpart⟩)

/-- The scratch directory can be made, or nothing happens. -/
theorem makesScratch_or (h : Laid base ws d t) (attempt : Attempt) :
    (∃ v, (Edit.makeChain base attempt ws.scratch.dir.ancestors).apply t = (.ok ⟨⟩, v)) ∨
    ∃ failure, (Edit.makeChain base attempt ws.scratch.dir.ancestors).apply t =
      (.error failure, t) := by
  have hends := endsInName_scratch ws
  rw [show ws.scratch.dir.ancestors = ws.scratch.dir :: climb (ws.scratch.dir.segments.length + 1)
    ws.scratch.dir from rfl, Edit.apply_makeChain_cons _ hends.text_ne]
  rcases makeDir_of_resolve hends.endsInStep h.leads.resolve with hex | ⟨-, hnew⟩
  · rw [hex]
    simp only
    split_ifs
    · exact .inl ⟨t, rfl⟩
    · exact .inr ⟨_, rfl⟩
  · rw [hnew]
    exact .inl ⟨_, rfl⟩

/-- How a run goes: it ends before the pipelines and nothing happens, or the scratch directory is
made, there are pipelines for the targets, and the plan is put in its place or nothing more happens.
-/
theorem run_cases (hslashless : ∀ x ∈ ws.package.targets, x.Slashless)
    (hname : '/' ∉ ws.package.name.toList)
    (hnear : ws.root.isAbsolute = true ∨ ws.root.inner = []) (hfits : r.Fits base)
    (hlaid : Laid base ws d t) {outcome : Except Halt Plan} (h : Ended ws t (r, outcome) u) :
    (∃ halt, outcome = .error halt ∧ u = t) ∨
    ∃ requested files w, r.request.selection.resolveOrDefault ws.package = .ok requested ∧
      MakesScratch ws base t files ∧
      (∃ parts, (∀ part ∈ parts, ∃ target ∈ requested, part ∈ Scratch.partsOf target) ∧
        Keeps base ws d parts files w) ∧
      ((∃ halt, outcome = .error halt ∧ u = w) ∨ ∃ plan executable, outcome = .ok plan ∧
        Put (d ++ Scratch.planNames) (.file plan.text.toUTF8 executable) w u) := by
  obtain ⟨s, s', rfl, rfl, h⟩ := h
  simp only at h
  rcases hselect : r.request.selection.resolveOrDefault ws.package with e | requested
  · -- the selection fails
    rw [perform_run_of_error hselect] at h
    cases h
    exact .inl ⟨_, rfl, rfl⟩
  rw [← hfits.here] at hlaid
  rcases makesScratch_or hlaid (.createScratch ws.scratch.dir) with ⟨files, hmake⟩ | ⟨failure, hmake⟩
  swap
  · -- the scratch directory cannot be made
    rw [perform_run_stopped _ _ hselect hmake] at h
    cases h
    exact .inl ⟨_, rfl, rfl⟩
  have hscratch : MakesScratch ws r.host.directory s.files files := hmake
  obtain ⟨outcomes, last, hchain, hfirst, hrun⟩ := perform_run (r.programs.symbols ws)
    (r.programs.snippets ws) hselect hscratch
  rw [hrun] at h
  have hmem : ∀ o ∈ outcomes, o.1.Slashless := fun o ho => hslashless _
    (Selection.mem_of_resolveOrDefault hselect ((hfirst.mem_iff _).mp (List.mem_map_of_mem ho)))
  have hkeeps := keeps_chain hname hnear hfits hmem hchain
    (show LaidOut base ws d files from hfits.here ▸ (hlaid.made hscratch).1)
  refine .inr ⟨requested, files, last.files, rfl, hfits.here ▸ hscratch, ⟨_, ?_, hkeeps⟩, ?_⟩
  · intro part hpart
    obtain ⟨target, htarget, hpart⟩ := List.mem_flatMap.mp hpart
    exact ⟨target, (hfirst.mem_iff _).mp htarget, hpart⟩
  · have hlast : LaidOut r.host.directory ws d last.files := by
      rw [hfits.here]
      exact hkeeps.laidOut
    rcases hlast.conclude r.request requested (outcomes.map labelled) with
      ⟨plan, s'', executable, hok, hput⟩ | ⟨halt, s'', herror, hfiles⟩
    · rw [h] at hok
      cases hok
      exact .inr ⟨plan, executable, rfl, hput⟩
    · rw [h] at herror
      cases herror
      exact .inl ⟨halt, rfl, hfiles⟩

/-- **A run that fails** touches only what belongs to the targets that it is asked for. -/
theorem run_failed (hpackage : ws.package.Separate)
    (hnear : ws.root.isAbsolute = true ∨ ws.root.inner = []) (hfits : r.Fits base)
    (hlaid : Laid base ws d t) {halt : Halt} (h : Ended ws t (r, .error halt) u) :
    Spares base ws d (r.Asks ws) t u := by
  rcases run_cases hpackage.slashless hpackage.name hnear hfits hlaid h with ⟨-, -, rfl⟩ |
    ⟨requested, files, w, hselect, hscratch, ⟨parts, hparts, hkeeps⟩, hends⟩
  · exact .refl hlaid
  rcases hends with ⟨-, -, rfl⟩ | ⟨plan, executable, hok, hput⟩
  · obtain ⟨hmade, hsame⟩ := hlaid.made hscratch
    refine ⟨hkeeps.laidOut.toLaid, fun _ => hkeeps.laidOut.there, fun names hne haside => ?_⟩
    have hfiles : files.contents (d ++ names) = t.contents (d ++ names) :=
      funext fun a => hsame _ (by simp [hne])
    refine (hkeeps.contents _ fun part hpart => ?_).trans hfiles
    obtain ⟨target, htarget, hpart⟩ := hparts part hpart
    exact haside target ⟨requested, hselect, htarget⟩ part hpart
  · cases hok

/-! ### What a run that succeeds makes -/

/-- A directory of a target is where its path says. -/
structure Stands (ws : Workspace) (d : Place) (t : FileTree) (dir : Path) (target : Target)
    (names : List String) : Prop where
  kind : names = Scratch.graphsNames target ∨ names = Unifier.unifiedNames target
  path : dir = ws.scratch.dir.below names
  usable : dir.hasNul = false
  there : t.get? (d ++ names) = some .directory

namespace Stands

variable {dir : Path} {target other : Target} {names : List String}

theorem ne_nil (h : Stands ws d t dir target names) : names ≠ [] := by
  rcases h.kind with rfl | rfl
  · simp [Scratch.graphsNames]
  · simp [Unifier.unifiedNames]

theorem later (h : Stands ws d t dir target names)
    (hsame : u.contents (d ++ names) = t.contents (d ++ names)) :
    Stands ws d u dir target names where
  kind := h.kind
  path := h.path
  usable := h.usable
  there := by
    rw [← contents_nil, hsame, contents_nil]
    exact h.there

theorem resolve (h : Stands ws d t dir target names) (hlaid : LaidOut base ws d t)
    (hslashless : target.Slashless) : t.resolve base dir = .ok (d ++ names) := by
  have hready : Ready base ws.scratch.dir d names t := by
    rcases h.kind with rfl | rfl
    · exact hlaid.ready_graphs hslashless
    · exact hlaid.ready_unified hslashless
  have hnul := h.usable
  rw [h.path] at hnul ⊢
  exact resolve_of_directory hready.found (plain_of_directory h.there) hnul (dropLast_directory h.there)

theorem aside (h : Stands ws d t dir target names) (hother : target.dirName ≠ other.dirName) :
    ∀ part ∈ Scratch.partsOf other, Aside (d ++ names) (d ++ part) := by
  rcases h.kind with rfl | rfl
  · exact (Scratch.aside_parts hother).1
  · exact (Scratch.aside_parts hother).2

theorem aside_plan (h : Stands ws d t dir target names) :
    Aside (d ++ names) (d ++ Scratch.planNames) := by
  rcases h.kind with rfl | rfl
  · exact aside_append.mpr (Scratch.aside_graphs_plan target)
  · exact aside_append.mpr (Scratch.aside_unified_plan target)

end Stands

section Made

variable {host : Host} {programs : Programs} {request : Request} {a b : Session} {p : Pass}

/-- What the generator answers is a directory. -/
theorem generator_ok (hobeys : Tool.Obeys host programs.generator "--output-dir" Beneath)
    (hnear : ws.root.isAbsolute = true ∨ ws.root.inner = []) {target : Target}
    (hslashless : target.Slashless) {options : GraphOptions} {w w' : World} {dir : Path}
    (hlaid : LaidOut host.directory ws d w.files)
    (h : (programs.symbols ws ws.package target options).perform host w = (.ok dir, w')) :
    Stands ws d w'.files dir target (Scratch.graphsNames target) := by
  have hready := hlaid.ready_graphs hslashless
  have hdir := (Generator.ofProgram_ok h).1
  obtain ⟨t, done, hreset, hl, -, hfiles⟩ := Generator.ofProgram_launched h
  obtain ⟨hnul, -, hemptied⟩ := Edit.resetDir_ok hready.straight hreset
  have hwithin := (Edit.within_resetDir hready).1
  rw [show (Edit.resetDir host.directory (ws.scratch.dir.below (Scratch.graphsNames
    target))).apply w.files = (.ok ⟨⟩, t) from hreset] at hwithin
  have hbeneath := Generator.obeys_command hobeys hnear
    (Generator.resolve_targetGraphs (hready.within hwithin) hnul hemptied.there) hl
  refine ⟨.inl rfl, hdir, hdir ▸ hnul, ?_⟩
  rw [hfiles, (hbeneath _).resolve_right fun h => h.2 rfl, hemptied.there]

/-- **What a pass answers is a directory.** -/
theorem made_stands (hpackage : ws.package.Separate)
    (hnear : ws.root.isAbsolute = true ∨ ws.root.inner = [])
    (hobey : programs.Obey host Beneath Inside) (htarget : p.target ∈ ws.package.targets)
    (hlaid : LaidOut host.directory ws d a.files)
    (h : Made host ws (programs.symbols ws) (programs.snippets ws) request a p b) :
    ∃ names, Stands ws d b.files p.result.inputDir p.target names := by
  obtain ⟨-, -, before, after, unifying, hbefore, hgenerate, hunifying, -, hunify⟩ := h
  have hslashless := hpackage.slashless _ htarget
  have hgenerator := keeps_generator (hobey.imp (fun _ _ _ h => h.inside) fun _ _ _ h => h).generator
    hnear hslashless p.options (hbefore ▸ hlaid)
  rw [hgenerate] at hgenerator
  have hstands := generator_ok hobey.generator hnear hslashless (hbefore ▸ hlaid) hgenerate
  rw [← hunifying] at hstands hgenerator
  rcases unify_ok hunify with ⟨-, hresult, rfl⟩ | ⟨x, hx, answer, s1, hask, -, hrest⟩
  · rw [hresult]
    exact ⟨_, hstands⟩
  have hasked := keeps_ask p.target (hobey.extractor x hx) hnear hpackage.name x.2 hgenerator.laidOut
  rw [hask] at hasked
  rcases hrest with ⟨-, hresult, rfl⟩ | ⟨graph, -, hmerge⟩
  · rw [hresult]
    refine ⟨_, hstands.later (hasked.contents _ fun part hpart => ?_)⟩
    rw [List.mem_singleton.mp hpart]
    exact aside_append.mpr (Scratch.aside_graphs_snippets p.target)
  · obtain ⟨⟨copy, hresult⟩, hnul, hthere⟩ :=
      Unifier.merge_directory (hasked.laidOut.ready_unified hslashless) hmerge
    rw [hresult]
    exact ⟨_, .inr rfl, Unifier.unified_eq _ _, hnul, hthere⟩

end Made

/-- **A run that succeeds** puts its plan in its place, and each entry names a directory. -/
theorem run_succeeded (hpackage : ws.package.Separate)
    (hnear : ws.root.isAbsolute = true ∨ ws.root.inner = []) (hfits : r.Fits base)
    (hlaid : Laid base ws d t) {plan : Plan} (h : Ended ws t (r, .ok plan) u) :
    LaidOut base ws d u ∧
    (∃ executable, u.get? (d ++ Scratch.planNames) = some (.file plan.text.toUTF8 executable)) ∧
    ∀ e ∈ plan.targets, ∃ target ∈ ws.package.targets, e.name = target.name ∧
      ∃ names, Stands ws d u e.symbolGraphDir target names := by
  obtain ⟨s, s', rfl, rfl, h⟩ := h
  rw [← hfits.here] at hlaid
  obtain ⟨requested, files, passes, last, outcomes, hselect, hscratch, hfirst, hchain, hentries,
    hconclude⟩ := run_made h
  have hmem : ∀ p ∈ passes, p.target ∈ ws.package.targets := fun p hp =>
    Selection.mem_of_resolveOrDefault hselect ((hfirst.mem_iff _).mp (List.mem_map_of_mem hp))
  -- each pass leaves its directory, and those after it leave it alone
  have hinvariant : LaidOut r.host.directory ws d last.files ∧
      ∀ p ∈ passes, ∃ names, Stands ws d last.files p.result.inputDir p.target names := by
    refine hchain.invariant (I := fun done m => LaidOut r.host.directory ws d m.files ∧
      ∀ p ∈ done, ∃ names, Stands ws d m.files p.result.inputDir p.target names)
      ⟨(hlaid.made hscratch).1, fun p hp => by cases hp⟩ fun done p rest a b hl _ hmade ha => ?_
    have hp := hmem p (by simp [hl])
    have hkeeps := made_keeps hpackage hnear hfits.inside hp hmade ha.1
    refine ⟨hkeeps.laidOut, fun q hq => ?_⟩
    rcases List.mem_append.mp hq with hq | hq
    · obtain ⟨names, hstands⟩ := ha.2 q hq
      exact ⟨names, hstands.later (hkeeps.contents _ (hstands.aside
        (dirName_ne_of_before hpackage hmem hfirst.nodup hl hq)))⟩
    · rw [List.mem_singleton.mp hq]
      exact made_stands hpackage hnear hfits.obey hp ha.1 hmade
  obtain ⟨hlast, hstand⟩ := hinvariant
  rcases hlast.conclude r.request requested outcomes with
    ⟨plan', s'', executable, hok, hput⟩ | ⟨halt, s'', herror, -⟩
  swap
  · rw [hconclude] at herror
    cases herror
  rw [hconclude] at hok
  cases hok
  refine ⟨hfits.here ▸ hlast.put hput, ⟨executable, by rw [hput, if_pos rfl]⟩, fun e he => ?_⟩
  obtain ⟨i, hi, rfl⟩ := List.getElem_of_mem he
  have hdescribes := (List.forall₂_iff_get.mp hentries).2 i (hentries.length_eq ▸ hi) hi
  obtain ⟨p, hp, htarget, -, hdir, -, -⟩ := hdescribes.made
  obtain ⟨names, hstands⟩ := hstand p hp
  refine ⟨p.target, hmem p hp, htarget ▸ hdescribes.name, names, ?_⟩
  rw [List.get_eq_getElem] at hdir
  rw [hdir]
  exact hstands.later (hput.filled.agree hstands.aside_plan).contents.symm

/-! ### Sequences of runs -/


/-- Runs that fail spare what none of them is asked for. -/
theorem spares_chain (hpackage : ws.package.Separate)
    (hnear : ws.root.isAbsolute = true ∨ ws.root.inner = [])
    {later : List (Round × Except Halt Plan)} (hfits : ∀ x ∈ later, x.1.Fits base)
    (hfailed : ∀ x ∈ later, x.2.toBool = false) (hlaid : Laid base ws d t)
    (h : Chain (Ended ws) t later u) :
    Spares base ws d (fun target => ∃ x ∈ later, x.1.Asks ws target) t u := by
  refine h.preserves (I := Spares base ws d (fun target => ∃ x ∈ later, x.1.Asks ws target) t)
    (fun a x b hx hended ha => ?_) (Spares.refl hlaid)
  obtain ⟨r, halt | plan⟩ := x
  · have hspares := run_failed hpackage hnear (hfits _ hx) ha.laid hended
    refine ⟨hspares.laid, fun hd => hspares.there (ha.there hd), fun names hne haside => ?_⟩
    exact (hspares.contents names hne fun target hasks =>
      haside target ⟨_, hx, hasks⟩).trans (ha.contents names hne haside)
  · cases hfailed _ hx

theorem laid_chain (hpackage : ws.package.Separate)
    (hnear : ws.root.isAbsolute = true ∨ ws.root.inner = [])
    {rounds : List (Round × Except Halt Plan)} (hfits : ∀ x ∈ rounds, x.1.Fits base)
    (hlaid : Laid base ws d t) (h : Chain (Ended ws) t rounds u) : Laid base ws d u := by
  refine h.preserves (I := Laid base ws d) (fun a x b hx hended ha => ?_) hlaid
  obtain ⟨r, halt | plan⟩ := x
  · exact (run_failed hpackage hnear (hfits _ hx) ha hended).laid
  · exact (run_succeeded hpackage hnear (hfits _ hx) ha hended).1.toLaid

/-- **In any sequence of runs** in a workspace: if none succeeds, there is no new plan. Otherwise the
plan of the last one that has succeeded is there at the end. When it was written each of its entries
named a directory; and if no later run was asked for the target of the entry, the entry still names
this directory, and it is still the same. -/
theorem plan_outlives (hpackage : ws.package.Separate)
    (hnear : ws.root.isAbsolute = true ∨ ws.root.inner = [])
    {rounds : List (Round × Except Halt Plan)} (hfits : ∀ x ∈ rounds, x.1.Fits base)
    (hlaid : Laid base ws d t) (h : Chain (Ended ws) t rounds u) :
    ((∀ x ∈ rounds, x.2.toBool = false) →
      u.get? (d ++ Scratch.planNames) = t.get? (d ++ Scratch.planNames)) ∧
    ∀ earlier r plan later, rounds = earlier ++ (r, .ok plan) :: later →
      (∀ x ∈ later, x.2.toBool = false) →
      ∃ before after, Chain (Ended ws) t earlier before ∧ Ended ws before (r, .ok plan) after ∧
        Chain (Ended ws) after later u ∧
        u.read base ws.scratch.plan = .ok plan.text.toUTF8 ∧
        ∀ e ∈ plan.targets, ∃ place, after.resolve base e.symbolGraphDir = .ok place ∧
          after.get? place = some .directory ∧
          ((∀ x ∈ later, ∀ target, x.1.Asks ws target → target.name ≠ e.name) →
            u.resolve base e.symbolGraphDir = .ok place ∧
            u.contents place = after.contents place) := by
  refine ⟨fun hfailed => ?_, fun earlier r plan later hl hfailed => ?_⟩
  · have hsame := (spares_chain hpackage hnear hfits hfailed hlaid h).contents Scratch.planNames
      (by simp [Scratch.planNames]) fun target _ => Scratch.aside_plan_parts target
    simpa only [contents_nil] using congrFun hsame []
  subst hl
  obtain ⟨before, hearlier, hrest⟩ := h.split
  rcases hrest with _ | ⟨hended, hlater⟩
  rename_i after
  have hbefore := laid_chain hpackage hnear (fun x hx => hfits x (by simp [hx])) hlaid hearlier
  have hround : r.Fits base := hfits (r, .ok plan) (by simp)
  obtain ⟨hafter, ⟨executable, hfile⟩, hentries⟩ :=
    run_succeeded hpackage hnear hround hbefore hended
  have hspares := spares_chain hpackage hnear (fun x hx => hfits x (by simp [hx])) hfailed
    hafter.toLaid hlater
  have hlast : LaidOut base ws d u := ⟨hspares.laid, hspares.there hafter.there⟩
  refine ⟨before, after, hearlier, hended, hlater, ?_, fun e he => ?_⟩
  · have hsame := hspares.contents Scratch.planNames (by simp [Scratch.planNames])
      fun target _ => Scratch.aside_plan_parts target
    have hthere := congrFun hsame []
    rw [contents_nil, contents_nil, hfile] at hthere
    exact hlast.read_plan hthere
  · obtain ⟨target, htarget, hname, names, hstands⟩ := hentries e he
    refine ⟨_, hstands.resolve hafter (hpackage.slashless _ htarget), hstands.there,
      fun hothers => ?_⟩
    have hsame := hspares.contents names hstands.ne_nil ?_
    · exact ⟨(hstands.later hsame).resolve hlast (hpackage.slashless _ htarget), hsame⟩
    · rintro other ⟨x, hx, requested, hselect, hother⟩
      refine hstands.aside fun hdir => hothers x hx other ⟨requested, hselect, hother⟩ ?_
      have hmem := Selection.mem_of_resolveOrDefault hselect hother
      rw [hname, hpackage.distinct _ htarget _ hmem hdir]

/-- A run for one of the targets, with a program that fails for the second one. -/
def pairRound (name : String) : Round where
  host := writerHost "x".toUTF8 "b"
  programs := toolPrograms
  request := { selection := { targets := [name] } }

theorem fits_pairRound (name : String) : (pairRound name).Fits [] where
  here := rfl
  obey := ⟨(writer_obeys_directory _ _ _).imp fun _ _ _ h => h.1, fun x hx => by cases hx⟩

/-- How a run for one of the targets ends. -/
def pairRun (name : String) (t : FileTree) : Except Halt Plan × Session :=
  (run pairWorkspace (toolPrograms.symbols pairWorkspace) (toolPrograms.snippets pairWorkspace)
    (pairRound name).request).perform (pairRound name).host { files := t }

theorem laid_pairWorkspace : Laid [] pairWorkspace [".graphdoc"] toolFiles := by
  have hplain : ∀ q, [".graphdoc"] <+: q → toolFiles.Plain q := fun q hq =>
    plain_of_none (get?_eq_none_beneath (by decide +kernel) hq)
  exact ⟨leads_toolWorkspace (hplain _ (List.prefix_refl _)), fun way _ =>
    hplain _ (List.prefix_append _ way)⟩

/-- The first target is documented, and then the second one cannot be: the plan of the first run is
still there, and still true. -/
theorem plan_outlives_pair : ∃ plan t halt u,
    Ended pairWorkspace toolFiles (pairRound "a", .ok plan) t ∧
    Ended pairWorkspace t (pairRound "b", .error halt) u ∧
    u.read [] pairWorkspace.scratch.plan = .ok plan.text.toUTF8 ∧
    plan.targets.map PlannedTarget.name = ["a"] ∧
    ∀ e ∈ plan.targets, ∃ place, u.resolve [] e.symbolGraphDir = .ok place ∧
      u.contents place = t.contents place := by
  have hfirst : (pairRun "a" toolFiles).1.toOption.map (fun plan =>
      plan.targets.map PlannedTarget.name) = some ["a"] := by decide +kernel
  have hsecond : (pairRun "b" (pairRun "a" toolFiles).2.files).1.toBool = false := by
    decide +kernel
  have hresolve : (pairRound "b").request.selection.resolveOrDefault pairWorkspace.package =
      .ok [⟨"b", "i", .sourceModule .library, {}⟩] := by decide +kernel
  rcases h1 : pairRun "a" toolFiles with ⟨halt | plan, s1⟩ <;> rw [h1] at hfirst hsecond
  · cases hfirst
  rcases h2 : pairRun "b" s1.files with ⟨halt | plan', s2⟩ <;> rw [h2] at hsecond
  swap
  · cases hsecond
  have hnames : plan.targets.map PlannedTarget.name = ["a"] := Option.some.inj hfirst
  have hended1 : Ended pairWorkspace toolFiles (pairRound "a", .ok plan) s1.files :=
    ⟨{ files := toolFiles }, s1, rfl, rfl, h1⟩
  have hended2 : Ended pairWorkspace s1.files (pairRound "b", .error halt) s2.files :=
    ⟨{ files := s1.files }, s2, rfl, rfl, h2⟩
  have hfits : ∀ x ∈ [(pairRound "a", (.ok plan : Except Halt Plan)), (pairRound "b", .error halt)],
      x.1.Fits [] := by
    intro x hx
    rcases List.mem_pair.mp hx with rfl | rfl
    · exact fits_pairRound "a"
    · exact fits_pairRound "b"
  obtain ⟨-, hlast⟩ := plan_outlives separate_pairWorkspace (.inl (by decide)) hfits
    laid_pairWorkspace (.cons hended1 (.cons hended2 (.nil _)))
  obtain ⟨before, t, hnil, hended, hlater, hread, hentries⟩ :=
    hlast [] (pairRound "a") plan [(pairRound "b", .error halt)] rfl (by simp [Except.toBool])
  cases hnil
  rcases hlater with _ | ⟨hrefused, hrest⟩
  cases hrest
  refine ⟨plan, t, halt, s2.files, hended, hrefused, hread, hnames, fun e he => ?_⟩
  obtain ⟨place, -, -, hkept⟩ := hentries e he
  refine ⟨place, hkept ?_⟩
  have hname : e.name ∈ plan.targets.map PlannedTarget.name := List.mem_map_of_mem he
  rw [hnames, List.mem_singleton] at hname
  rintro x hx target ⟨requested, hselect, htarget⟩
  rw [List.mem_singleton.mp hx] at hselect
  cases hselect.symm.trans hresolve
  rw [List.mem_singleton.mp htarget, hname]
  decide

end SymbolDocs.Batch
