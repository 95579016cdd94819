import Mathlib.Data.List.Infix
import SymbolDocs.Proofs.Batch.Shelter
import SymbolDocs.Proofs.Extractor.Program
import SymbolDocs.Proofs.FileTree.Copied
import SymbolDocs.Proofs.Generator.Program

/-! # What a pipeline touches

The scratch directory of a workspace is laid out if it is found whatever lies in it and no link
leads elsewhere from where its parts are (`Laid`). If the programs write where they are told to, a
pipeline leaves it laid out, and changes nothing outside of the directories of its target and the
snippet graphs (`keeps_documentTarget`), whether it succeeds or not. -/

namespace SymbolDocs

open FileTree SymbolDocs.Path

/-! ### Targets and programs -/

/-- A package whose targets have directories of their own. -/
structure Package.Separate (package : Package) : Prop where
  slashless : ∀ x ∈ package.targets, x.Slashless
  distinct : ∀ x ∈ package.targets, ∀ y ∈ package.targets, x.dirName = y.dirName → x = y
  name : '/' ∉ package.name.toList

/-- The programs that a run uses: one for the symbol graphs, and perhaps one for the snippets in a
directory. -/
structure Programs where
  generator : Path
  capabilities : Capabilities
  extractor : Option (Path × String)

namespace Programs

/-- The generator that runs the program for the symbol graphs. -/
def symbols (programs : Programs) (ws : Workspace) : Generator :=
  Generator.ofProgram programs.generator ws.scratch programs.capabilities

/-- The extractor that runs the program for the snippets. -/
def snippets (programs : Programs) (ws : Workspace) : Option Extractor :=
  programs.extractor.map fun x => Extractor.ofProgram x.1 x.2 ws.scratch

/-- What the programs do to the directory and to the file that they are told. -/
structure Obey (programs : Programs) (host : Host) (Q R : Place → FileTree → FileTree → Prop) :
    Prop where
  generator : Tool.Obeys host programs.generator "--output-dir" Q
  extractor : ∀ x ∈ programs.extractor, Tool.Obeys host x.1 "--output" R

theorem Obey.imp {programs : Programs} {host : Host} {Q Q' R R' : Place → FileTree → FileTree → Prop}
    (h : programs.Obey host Q R) (hQ : ∀ p t u, Q p t u → Q' p t u)
    (hR : ∀ p t u, R p t u → R' p t u) : programs.Obey host Q' R' where
  generator := h.generator.imp hQ
  extractor := fun x hx => (h.extractor x hx).imp hR

end Programs

/-! ### The layout of a scratch directory -/

/-- The ways down to the parts of a scratch directory. -/
def Scratch.ways : List (List String) :=
  [["symbol-graphs"], ["symbol-graphs", "targets"], ["symbol-graphs", "unified-symbol-graphs"],
    Scratch.snippetsNames, Scratch.planNames]

variable {base d : Place} {ws : Workspace} {t u v : FileTree} {target : Target}

/-- The scratch directory is at `d`, whatever lies in it, and no link is where its parts are. -/
structure Laid (base : Place) (ws : Workspace) (d : Place) (t : FileTree) : Prop where
  leads : t.Leads base ws.scratch.dir d
  ways : ∀ way ∈ Scratch.ways, t.Plain (d ++ way)

/-- Moreover, the directory is there. -/
structure LaidOut (base : Place) (ws : Workspace) (d : Place) (t : FileTree) : Prop extends
    Laid base ws d t where
  there : t.get? d = some .directory

namespace LaidOut

theorem ready (h : LaidOut base ws d t) {names : List String} (hnames : AreNames names)
    (hne : names ≠ []) (hways : ∀ a ∈ names.dropLast.inits, a ≠ [] → a ∈ Scratch.ways) :
    Ready base ws.scratch.dir d names t where
  ends := endsInName_scratch ws
  areNames := hnames
  ne := hne
  leads := h.leads
  there := h.there
  way := by
    intro a b hab ha hb
    refine h.ways a (hways a ?_ ha)
    rw [hab, List.dropLast_append_of_ne_nil hb, List.mem_inits]
    exact List.prefix_append a _

theorem ready_graphs (h : LaidOut base ws d t) (htarget : target.Slashless) :
    Ready base ws.scratch.dir d (Scratch.graphsNames target) t :=
  h.ready (Scratch.areNames_graphsNames htarget) (by simp [Scratch.graphsNames])
    (show ∀ a ∈ ["symbol-graphs", "targets"].inits, a ≠ [] → a ∈ Scratch.ways by decide)

theorem ready_unified (h : LaidOut base ws d t) (htarget : target.Slashless) :
    Ready base ws.scratch.dir d (Unifier.unifiedNames target) t :=
  h.ready (Scratch.areNames_unifiedNames htarget) (by simp [Unifier.unifiedNames])
    (show ∀ a ∈ ["symbol-graphs", "unified-symbol-graphs"].inits, a ≠ [] → a ∈ Scratch.ways
      by decide)

theorem ready_plan (h : LaidOut base ws d t) :
    Ready base ws.scratch.dir d Scratch.planNames t :=
  h.ready Scratch.areNames_planNames (by simp [Scratch.planNames]) (by decide)

theorem roomy (h : LaidOut base ws d t) : Extractor.Roomy base ws.scratch d t where
  toReady := h.ready Scratch.areNames_snippetsNames (by simp [Scratch.snippetsNames]) (by decide)
  plain := h.ways _ (by decide)

theorem within (h : LaidOut base ws d t) {names : List String} (hne : names ≠ [])
    (hw : Within (d ++ names) t u) : LaidOut base ws d u where
  leads := h.leads.within h.there hw
  ways := fun way hway => hw.plain (h.ways way hway)
  there := hw.directory_of_ne h.there (not_beneath hne)

theorem inside (h : LaidOut base ws d t) {names : List String}
    (hnames : ∀ way ∈ [] :: Scratch.ways, ¬ names <+: way) (hi : Inside (d ++ names) t u) :
    LaidOut base ws d u := by
  have hsame : ∀ way ∈ [] :: Scratch.ways, u.get? (d ++ way) = t.get? (d ++ way) :=
    fun way hway => hi.get?_eq fun hpre =>
      hnames way hway (List.prefix_append_right_inj d |>.mp hpre)
  have hd : u.get? d = t.get? d := by simpa using hsame [] (by simp)
  refine ⟨⟨h.leads.congr (fun q hq => ?_) ((plain_congr hd).mpr h.leads.plain), fun way hway => ?_⟩,
    hd.trans h.there⟩
  · exact hi.get?_eq fun hpre => hq ((List.prefix_append d names).trans hpre)
  · exact (plain_congr (hsame way (List.mem_cons_of_mem _ hway))).mpr (h.ways way hway)

end LaidOut

/-! ### What is kept -/

/-- The scratch directory is still laid out, and what is aside of some parts of it is the same. -/
structure Keeps (base : Place) (ws : Workspace) (d : Place) (parts : List (List String))
    (t u : FileTree) : Prop where
  laidOut : LaidOut base ws d u
  contents : ∀ z, (∀ names ∈ parts, Aside z (d ++ names)) → u.contents z = t.contents z

/-- The parts of the scratch directory that the work on a target changes. -/
def Scratch.partsOf (target : Target) : List (List String) :=
  [graphsNames target, Unifier.unifiedNames target, snippetsNames]

namespace Keeps

variable {parts m : List (List String)}

theorem refl (h : LaidOut base ws d t) : Keeps base ws d parts t t :=
  ⟨h, fun _ _ => rfl⟩

theorem trans (h1 : Keeps base ws d parts t u) (h2 : Keeps base ws d parts u v) :
    Keeps base ws d parts t v :=
  ⟨h2.laidOut, fun z hz => (h2.contents z hz).trans (h1.contents z hz)⟩

theorem mono (h : Keeps base ws d parts t u) (hparts : parts ⊆ m) : Keeps base ws d m t u :=
  ⟨h.laidOut, fun z hz => h.contents z fun names hnames => hz names (hparts hnames)⟩

end Keeps

section Pipeline

variable {host : Host} {s : Session} {programs : Programs}

/-- The generator changes the directory of the target. -/
theorem keeps_generator (hobeys : Tool.Obeys host programs.generator "--output-dir" Inside)
    (hnear : ws.root.isAbsolute = true ∨ ws.root.inner = []) (htarget : target.Slashless)
    (options : GraphOptions) {w : World} (h : LaidOut host.directory ws d w.files) :
    Keeps host.directory ws d [Scratch.graphsNames target] w.files
      ((programs.symbols ws ws.package target options).perform host w).2.files := by
  obtain ⟨t, hwithin, hinside⟩ := Generator.inside_ofProgram programs.capabilities options hobeys
    hnear (h.ready_graphs htarget)
  have hlaid := h.within (by simp [Scratch.graphsNames]) hwithin
  refine ⟨hlaid.inside (fun way hway hpre => ?_) hinside, fun z hz => ?_⟩
  · have hlength : ∀ way ∈ [] :: Scratch.ways, way.length < 3 := by decide
    exact absurd hpre.length_le (by simpa [Scratch.graphsNames] using hlength way hway)
  · have hz := hz _ (List.mem_singleton_self _)
    exact (hinside.contents_eq hz).trans (hwithin.contents_eq hz)

/-- The extractor changes the snippet graphs. -/
theorem keeps_extract {program : Path} (hobeys : Tool.Obeys host program "--output" Inside)
    (hnear : ws.root.isAbsolute = true ∨ ws.root.inner = [])
    (hname : '/' ∉ ws.package.name.toList) (directory : String) {w : World}
    (h : LaidOut host.directory ws d w.files) :
    Keeps host.directory ws d [Scratch.snippetsNames] w.files
      ((Extractor.extract program directory ws.scratch ws.package).perform host w).2.files := by
  obtain ⟨t, hwithin, hrest⟩ := Extractor.inside_extract directory hobeys hnear hname h.roomy
  have hlaid := h.within (by simp [Scratch.snippetsNames]) hwithin
  rcases hrest with rfl | hinside
  · exact ⟨hlaid, fun z hz => hwithin.contents_eq (hz _ (List.mem_singleton_self _))⟩
  refine ⟨hlaid.inside (fun way hway hpre => ?_) hinside, fun z hz => ?_⟩
  · have hlength : ∀ way ∈ [] :: Scratch.ways, way.length < 3 := by decide
    exact absurd hpre.length_le (by simpa [Scratch.snippetsNames] using hlength way hway)
  · have hz := hz _ (List.mem_singleton_self _)
    refine (hinside.contents_eq ?_).trans (hwithin.contents_eq hz)
    rw [← List.append_assoc]
    exact (hz.symm.beneath (List.prefix_append _ _)).symm

/-- A unification changes the unified directory of the target. -/
theorem keeps_merge (htarget : target.Slashless) (graphs snippetGraph : Path) {w : World}
    (h : LaidOut host.directory ws d w.files) :
    Keeps host.directory ws d [Unifier.unifiedNames target] w.files
      ((Unifier.merge ws.scratch target graphs snippetGraph).perform host w).2.files := by
  have hwithin := Unifier.within_merge (h.ready_unified htarget) graphs snippetGraph
  exact ⟨h.within (by simp [Unifier.unifiedNames]) hwithin, fun z hz =>
    hwithin.contents_eq (hz _ (List.mem_singleton_self _))⟩

theorem keeps_generate (hobeys : Tool.Obeys host programs.generator "--output-dir" Inside)
    (hnear : ws.root.isAbsolute = true ∨ ws.root.inner = []) (htarget : target.Slashless)
    (options : GraphOptions) (h : LaidOut host.directory ws d s.files) :
    Keeps host.directory ws d [Scratch.graphsNames target] s.files ((Coordinator.generate
      (programs.symbols ws) ws.package target options).perform host s).2.files := by
  by_cases hfree : s.lock.held = false
  · rw [Coordinator.perform_generate _ _ _ _ hfree, Coordinator.received_files]
    exact keeps_generator hobeys hnear htarget options
      (w := Coordinator.announced target s.toWorld) h
  · rw [Coordinator.perform_generate_of_held _ _ _ _ (by simpa using hfree)]
    exact .refl h

theorem keeps_ask (target : Target) {program : Path} (hobeys : Tool.Obeys host program "--output" Inside)
    (hnear : ws.root.isAbsolute = true ∨ ws.root.inner = [])
    (hname : '/' ∉ ws.package.name.toList) (directory : String)
    (h : LaidOut host.directory ws d s.files) :
    Keeps host.directory ws d [Scratch.snippetsNames] s.files (((Extractor.ofProgram program
      directory ws.scratch).ask ws.package target).perform host s).2.files := by
  have hanswer := keeps_extract hobeys hnear hname directory (w := s.toWorld) h
  unfold Extractor.ask
  simp only [Extractor.ofProgram, Bool.not_true, Bool.false_eq_true, if_false]
  rw [Work.perform_bind, Work.perform_get]
  simp only
  rcases s.snippetGraphs.lookup ws.package.name with _ | kept
  · simp only
    rw [Work.perform_bind, Job.perform_liftM]
    rcases hx : (Extractor.extract program directory ws.scratch ws.package).perform host s.toWorld
      with ⟨_ | _, w⟩ <;> rw [hx] at hanswer
    · exact hanswer
    · exact hanswer
  · simp only
    rw [Work.perform_bind, Job.perform_liftM, Act.perform_log]
    exact .refl h

theorem keeps_unify (hobeys : ∀ x ∈ programs.extractor, Tool.Obeys host x.1 "--output" Inside)
    (hnear : ws.root.isAbsolute = true ∨ ws.root.inner = [])
    (hname : '/' ∉ ws.package.name.toList) (htarget : target.Slashless) (graphs : Path)
    (h : LaidOut host.directory ws d s.files) :
    Keeps host.directory ws d [Unifier.unifiedNames target, Scratch.snippetsNames] s.files
      ((Unifier.unify ws.scratch (programs.snippets ws) ws.package target graphs).perform
        host s).2.files := by
  unfold Unifier.unify Programs.snippets
  rcases hx : programs.extractor with _ | x
  · exact .refl h
  simp only [Option.map_some]
  have hask := (keeps_ask target (hobeys x hx) hnear hname x.2 h).mono
    (m := [Unifier.unifiedNames target, Scratch.snippetsNames]) (by simp)
  rw [Work.perform_bind]
  rcases ha : ((Extractor.ofProgram x.1 x.2 ws.scratch).ask ws.package target).perform host s with
    ⟨_ | _ | graph, s1⟩ <;> rw [ha] at hask
  · exact hask
  · exact hask
  · simp only
    rw [Job.perform_liftM]
    exact hask.trans ((keeps_merge htarget graphs graph hask.laidOut).mono (by simp))

/-- **A pipeline keeps what is not its target's**, however it ends. -/
theorem keeps_documentTarget (hname : '/' ∉ ws.package.name.toList)
    (hnear : ws.root.isAbsolute = true ∨ ws.root.inner = [])
    (hobey : programs.Obey host Inside Inside) (hslashless : target.Slashless)
    (request : Request) (h : LaidOut host.directory ws d s.files) :
    Keeps host.directory ws d (Scratch.partsOf target) s.files ((Batch.documentTarget ws.scratch
      (programs.symbols ws) (programs.snippets ws) ws.package request target).perform
        host s).2.files := by
  rw [Batch.perform_documentTarget, Work.perform_bind]
  have hgenerate := (keeps_generate hobey.generator hnear hslashless (GraphOptions.settle target
    ws.package request.overrides request.capabilities)
    (s := Batch.settled ws.package request target s) h).mono (m := Scratch.partsOf target)
    (by simp [Scratch.partsOf])
  rcases hg : (Coordinator.generate (programs.symbols ws) ws.package target (GraphOptions.settle
    target ws.package request.overrides request.capabilities)).perform host
    (Batch.settled ws.package request target s) with ⟨e | graphs, s1⟩ <;> rw [hg] at hgenerate
  · exact hgenerate
  simp only
  have hunify := (keeps_unify hobey.extractor hnear hname hslashless graphs
    hgenerate.laidOut).mono (m := Scratch.partsOf target) (by simp [Scratch.partsOf])
  rw [Work.perform_bind]
  rcases hu : (Unifier.unify ws.scratch (programs.snippets ws) ws.package target graphs).perform
    host s1 with ⟨e | result, s2⟩ <;> rw [hu] at hunify
  · exact hgenerate.trans hunify
  · exact hgenerate.trans hunify

end Pipeline

/-- The directories of another target are aside. -/
theorem Scratch.aside_parts {x y : Target} (h : x.dirName ≠ y.dirName) :
    (∀ names ∈ partsOf y, Aside (d ++ graphsNames x) (d ++ names)) ∧
      ∀ names ∈ partsOf y, Aside (d ++ Unifier.unifiedNames x) (d ++ names) := by
  simp only [partsOf, List.forall_mem_cons, aside_append]
  exact ⟨⟨aside_graphs h, aside_graphs_unified x y, aside_graphs_snippets x, by simp⟩,
    (aside_graphs_unified y x).symm, aside_unified h, aside_unified_snippets x, by simp⟩

theorem Scratch.aside_plan_parts (x : Target) :
    ∀ names ∈ partsOf x, Aside (d ++ planNames) (d ++ names) := by
  simp only [partsOf, List.forall_mem_cons, aside_append]
  exact ⟨(aside_graphs_plan x).symm, (aside_unified_plan x).symm,
    by simp [snippetsNames, planNames, aside_cons], by simp⟩

/-! ### Before and after the pipelines -/

/-- Making the scratch directory where it can be made lays it out. -/
theorem Laid.made (h : Laid base ws d t) (hmake : Batch.MakesScratch ws base t u) :
    LaidOut base ws d u ∧ ∀ q, q ≠ d → u.get? q = t.get? q := by
  obtain ⟨hthere, hsame⟩ := makesScratch_cases h.leads hmake
  refine ⟨⟨⟨h.leads.congr (fun q hq => hsame q ?_) (plain_of_directory hthere), fun way hway => ?_⟩,
    hthere⟩, hsame⟩
  · rintro rfl
    exact hq (List.prefix_refl _)
  · have hne : ∀ way ∈ Scratch.ways, way ≠ [] := by decide
    exact (plain_congr (hsame _ (by simpa using hne way hway))).mpr (h.ways way hway)

/-- A scratch directory without links has none when it has been made. -/
theorem FileTree.Clean.of_makesScratch (hleads : t.Leads base ws.scratch.dir d)
    (hlinkless : ∀ q, d <+: q → t.Plain q) (h : Batch.MakesScratch ws base t u) :
    Clean base ws.scratch.dir d u := by
  have hlaid : Laid base ws d t := ⟨hleads, fun way _ => hlinkless _ (List.prefix_append d way)⟩
  obtain ⟨hready, hsame⟩ := hlaid.made h
  refine ⟨endsInName_scratch ws, hready.leads, hready.there, fun q hq => ?_⟩
  by_cases hqd : q = d
  · rw [hqd]
    exact plain_of_directory hready.there
  · exact (plain_congr (hsame q hqd)).mpr (hlinkless q hq)

theorem FileTree.Clean.laidOut (h : Clean base ws.scratch.dir d t) : LaidOut base ws d t where
  leads := h.leads
  ways := fun way _ => h.plain way
  there := h.there

namespace LaidOut

theorem hasNul (h : LaidOut base ws d t) : ws.scratch.dir.hasNul = false :=
  (exists_walk h.leads.resolve h.there).2.1

/-- A scratch directory that is there is left alone. -/
theorem apply_makeChain (h : LaidOut base ws d t) (attempt : Attempt) :
    (Edit.makeChain base attempt ws.scratch.dir.ancestors).apply t = (.ok ⟨⟩, t) := by
  have hthere : t.get? (d ++ []) = some .directory := by
    rw [List.append_nil]
    exact h.there
  obtain ⟨u, hu, hreached⟩ := Edit.apply_makeChain (c := []) (endsInName_scratch ws).endsInStep
    attempt areNames_nil (List.prefix_refl _) h.hasNul
    (fun v hv => (h.leads.within h.there hv).resolve) (.inl h.there)
    (fun q hq _ => .inr (directory_above hthere hq)) (.inr hthere) (ws.scratch.dir.segments.length + 1)
    (Nat.zero_le _)
  have hsame : u = t := ext_get? fun q => by
    rw [hreached q]
    split_ifs with hq
    · exact (directory_above hthere hq).symm
    · rfl
  rwa [hsame] at hu

/-- What lies in the place of the plan is read under its path. -/
theorem read_plan (h : LaidOut base ws d t) {content : ByteArray} {executable : Bool}
    (hfile : t.get? (d ++ Scratch.planNames) = some (.file content executable)) :
    t.read base ws.scratch.plan = .ok content := by
  have hwalk := exists_walk h.leads.resolve h.there
  have hnul := hasNul_below hwalk.2.1 Scratch.areNames_planNames fun name hname => by
    rw [List.mem_singleton.mp hname]
    decide
  have hs := stat_of_exists h.ready_plan.found hnul hfile fun _ he => by cases he
  unfold FileTree.read
  rw [Scratch.plan_eq, hs]
  rfl

/-- A text is put in the place of the plan, or nothing happens. -/
theorem writeText (h : LaidOut base ws d t) (text : String) :
    (∃ u x, (Edit.writeText base ws.scratch.plan text).apply t = (.ok ⟨⟩, u) ∧
      Put (d ++ Scratch.planNames) (.file text.toUTF8 x) t u) ∨
    ∃ failure, (Edit.writeText base ws.scratch.plan text).apply t = (.error failure, t) := by
  have hparent : ws.scratch.plan.parent = some ws.scratch.dir :=
    parent_entry (endsInName_scratch ws).endsInStep (by decide)
  have hready := h.ready_plan
  unfold Edit.writeText
  rw [hparent]
  simp only
  rw [Edit.apply_bind, Edit.ensureDir, h.apply_makeChain]
  simp only
  rw [Edit.apply_call]
  rcases hw : t.write base ws.scratch.plan text.toUTF8 with cause | u
  · exact .inr ⟨_, rfl⟩
  · obtain ⟨p, x, hresolve, hd, rfl⟩ := write_ok hw
    have hp : p = d ++ Scratch.planNames := by
      rw [Scratch.plan_eq] at hresolve
      unfold resolve at hresolve
      rw [hready.found.steps_eq] at hresolve
      exact follow_below h.leads.resolve h.there hready.areNames hready.ne hready.way
        (fun _ => h.ways _ (by decide)) hresolve
    subst hp
    exact .inl ⟨_, x, rfl, put_putAt (resolve_reachable hresolve) hd⟩

theorem put (h : LaidOut base ws d t) {content : ByteArray} {x : Bool}
    (hu : Put (d ++ Scratch.planNames) (.file content x) t u) : LaidOut base ws d u := by
  refine h.within (show Scratch.planNames ≠ [] by simp [Scratch.planNames]) fun q => ?_
  rw [hu q]
  split_ifs with hq
  · refine .inr (.inl ⟨hq ▸ List.prefix_refl _, fun target hlink => ?_⟩)
    rw [hu q, if_pos hq] at hlink
    cases hlink
  · exact .inl rfl

end LaidOut

/-- Telling about failures leaves the files alone. -/
theorem files_gather {α : Type} (outcomes : List (Target × Except Halt α)) (host : Host)
    (w : World) : ((Batch.gather outcomes).perform host w).2.files = w.files := by
  rcases hc : Batch.firstCrash outcomes with _ | message
  · rw [Batch.perform_gather outcomes w hc]
    rcases Batch.failures outcomes with _ | ⟨first, rest⟩ <;> rfl
  · unfold Batch.gather
    rw [hc]
    rfl

/-- **After the pipelines** the plan is put in its place, or nothing happens. -/
theorem LaidOut.conclude {host : Host} {s : Session} (h : LaidOut host.directory ws d s.files)
    (request : Request) (requested : List Target)
    (outcomes : List (Target × Except Halt TargetDocs)) :
    (∃ plan s' x, (Batch.conclude ws request requested outcomes).perform host s = (.ok plan, s') ∧
      Put (d ++ Scratch.planNames) (.file plan.text.toUTF8 x) s.files s'.files) ∨
    ∃ halt s', (Batch.conclude ws request requested outcomes).perform host s =
      (.error halt, s') ∧ s'.files = s.files := by
  unfold Batch.conclude
  rw [Work.perform_bind, Job.perform_liftM]
  have hgather := files_gather outcomes host s.toWorld
  rcases hg : (Batch.gather outcomes).perform host s.toWorld with ⟨halt | documented, w⟩ <;>
    rw [hg] at hgather
  · exact .inr ⟨halt, _, rfl, hgather⟩
  simp only
  rw [Work.perform_bind, Job.perform_liftM, Act.perform_edit]
  simp only
  change w.files = s.files at hgather
  rw [hgather]
  rcases h.writeText (Batch.assemble ws.package (ArchiveLayout.plan ws.scratch ws.package
    requested.length request.outputPath request.combined) requested documented).text with
    ⟨u, x, hu, hput⟩ | ⟨failure, he⟩
  · rw [hu]
    simp only [Except.mapError]
    rw [Work.perform_bind, Job.perform_liftM, Act.perform_log]
    exact .inl ⟨_, _, x, rfl, hput⟩
  · rw [he]
    exact .inr ⟨_, _, rfl, rfl⟩

end SymbolDocs
