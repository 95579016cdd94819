import SymbolDocs.Proofs.Batch.Layout
import SymbolDocs.Proofs.Batch.Success
import SymbolDocs.Proofs.Command.Writer
import SymbolDocs.Proofs.Unifier.Merged

/-! # What is in the directories of a plan

When a run has succeeded, the directory of each entry of its plan holds what the programs have left
in this run, and nothing else (`run_contents`). A pass puts it there, having emptied the directory
before (`made_facts`), and the passes after it are for other targets and leave it alone
(`sound_concat`). It takes a scratch directory that is found whatever lies in it, and an extractor
that keeps no answer from before: an answer that is kept is given again without the program. -/

namespace SymbolDocs

open FileTree SymbolDocs.Path Work

namespace Batch

variable {host : Host} {ws : Workspace} {programs : Programs} {request : Request} {d : Place}

/-! ### What the programs leave -/

/-- For a pass that starts from the files `t`, the directory of its target has been emptied, and
then the generator's program has run, and has left `done`. -/
def Generated (host : Host) (ws : Workspace) (programs : Programs) (d : Place) (p : Pass)
    (t : FileTree) (done : Completion) : Prop :=
  ∃ u, (Edit.resetDir host.directory (ws.scratch.targetGraphs p.target)).apply t = (.ok ⟨⟩, u) ∧
    u.contents (d ++ Scratch.graphsNames p.target) = emptyDirectory ∧
    (Generator.command programs.generator programs.capabilities ws.package p.target p.options
      (ws.scratch.targetGraphs p.target)).launch host u = .ok done

/-- The way to the snippet graph of the package. -/
def snippetNames (ws : Workspace) : List String :=
  Scratch.snippetsNames ++ [Scratch.snippetName ws.package.name]

/-- Starting from the files `t`, an earlier snippet graph has been removed, and then the extractor's
program has run, and has left `done`. -/
def Extracted (host : Host) (ws : Workspace) (programs : Programs) (d : Place) (t : FileTree)
    (done : Completion) : Prop :=
  ∃ x ∈ programs.extractor, ∃ u,
    (Extractor.makeRoom ws.scratch ws.package.name host.directory).apply t = (.ok ⟨⟩, u) ∧
    u.get? (d ++ snippetNames ws) = none ∧
    (Extractor.listedCommand x.1 x.2 ws.scratch ws.package host.directory t).launch host u =
      .ok done

/-- A pass of a run that has made the passes `passes` from the session `first` on, and the session
that it starts from. -/
def During (host : Host) (ws : Workspace) (programs : Programs) (request : Request)
    (first : Session) (passes : List Pass) (p : Pass) (a : Session) : Prop :=
  ∃ before after, passes = before ++ p :: after ∧
    Chain (Made host ws (programs.symbols ws) (programs.snippets ws) request) first before a

theorem During.append {first a : Session} {passes : List Pass} {p : Pass}
    (h : During host ws programs request first passes p a) (more : List Pass) :
    During host ws programs request first (passes ++ more) p a := by
  obtain ⟨before, after, rfl, hchain⟩ := h
  exact ⟨before, after ++ more, by simp, hchain⟩

/-- A snippet graph that the extractor's program has written in one of the passes of a run. -/
def SnippetsWritten (host : Host) (ws : Workspace) (programs : Programs) (request : Request)
    (d : Place) (first : Session) (passes : List Pass) (e : Entry) : Prop :=
  ∃ p a generated done, During host ws programs request first passes p a ∧
    Generated host ws programs d p a.files generated ∧
    Extracted host ws programs d generated.files done ∧
    done.files.get? (d ++ snippetNames ws) = some e

theorem SnippetsWritten.append {first : Session} {passes : List Pass} {e : Entry}
    (h : SnippetsWritten host ws programs request d first passes e) (more : List Pass) :
    SnippetsWritten host ws programs request d first (passes ++ more) e := by
  obtain ⟨p, a, generated, done, hduring, h⟩ := h
  exact ⟨p, a, generated, done, hduring.append more, h⟩

/-- The place of the directory that a pass has made. -/
def placeOf (d : Place) (p : Pass) : Place :=
  match p.result with
  | .single _ => d ++ Scratch.graphsNames p.target
  | .unified _ _ _ => d ++ Unifier.unifiedNames p.target

/-- **In the directory of a pass** is what the generator's program has left for this pass in an
empty directory, or a copy of it together with a snippet graph that has been written in the run. -/
structure Holds (host : Host) (ws : Workspace) (programs : Programs) (request : Request) (d : Place)
    (first : Session) (passes : List Pass) (files : FileTree) (p : Pass) : Prop where
  usable : p.result.inputDir.hasNul = false
  there : files.get? (placeOf d p) = some .directory
  contents : ∃ a generated, During host ws programs request first passes p a ∧
    Generated host ws programs d p a.files generated ∧
    (p.result = .single (ws.scratch.targetGraphs p.target) ∧
      files.contents (placeOf d p) = generated.files.contents (d ++ Scratch.graphsNames p.target) ∨
    ∃ content executable,
      p.result = .unified (ws.scratch.unified p.target) (Unifier.graphsCopy ws.scratch p.target)
        (some (Unifier.snippetCopy ws.scratch p.target ws.package.name)) ∧
      SnippetsWritten host ws programs request d first passes (.file content executable) ∧
      files.contents (placeOf d p) = Unifier.unifiedContents
        (generated.files.contents (d ++ Scratch.graphsNames p.target))
        (Scratch.snippetName ws.package.name) (.file content executable))

theorem Holds.later {first : Session} {passes : List Pass} {t u : FileTree} {p : Pass}
    (h : Holds host ws programs request d first passes t p) (more : List Pass)
    (hsame : u.contents (placeOf d p) = t.contents (placeOf d p)) :
    Holds host ws programs request d first (passes ++ more) u p where
  usable := h.usable
  there := by
    rw [← contents_nil, hsame, contents_nil]
    exact h.there
  contents := by
    obtain ⟨a, generated, hduring, hgenerated, ⟨hresult, hcontents⟩ |
      ⟨content, executable, hresult, hwritten, hcontents⟩⟩ := h.contents
    · exact ⟨a, generated, hduring.append more, hgenerated, .inl ⟨hresult, hsame.trans hcontents⟩⟩
    · exact ⟨a, generated, hduring.append more, hgenerated, .inr ⟨content, executable, hresult,
        hwritten.append more, hsame.trans hcontents⟩⟩

theorem aside_plan (d : Place) (p : Pass) : Aside (placeOf d p) (d ++ Scratch.planNames) := by
  unfold placeOf
  rcases p.result with dir | ⟨u, g, n⟩
  · exact aside_append.mpr (Scratch.aside_graphs_plan p.target)
  · exact aside_append.mpr (Scratch.aside_unified_plan p.target)

/-- The directory is found where it should be. -/
theorem Holds.resolve {first : Session} {passes : List Pass} {t : FileTree} {p : Pass}
    (h : Holds host ws programs request d first passes t p)
    (hclean : Clean host.directory ws.scratch.dir d t) (hslashless : p.target.Slashless) :
    t.resolve host.directory p.result.inputDir = .ok (placeOf d p) := by
  have hnul := h.usable
  have hthere := h.there
  unfold placeOf at hthere ⊢
  obtain ⟨-, -, -, -, ⟨hsingle, -⟩ | ⟨-, -, hunified, -⟩⟩ := h.contents
  · rw [hsingle] at hnul hthere ⊢
    exact resolve_of_directory (hclean.ready (Scratch.areNames_graphsNames hslashless)
      (by simp [Scratch.graphsNames])).found (hclean.plain _) hnul (dropLast_directory hthere)
  · rw [hunified] at hnul hthere ⊢
    exact resolve_of_directory (hclean.ready (Scratch.areNames_unifiedNames hslashless)
      (by simp [Unifier.unifiedNames])).found (hclean.plain _) hnul (dropLast_directory hthere)

/-! ### One pass -/

/-- What programs may do: they write beneath the directory and to the file that they are told, and
make no links. -/
def Tidy (programs : Programs) (host : Host) : Prop :=
  programs.Obey host (fun p t u => Beneath p t u ∧ t.NoNewLinks u)
    (fun p t u => Inside p t u ∧ t.NoNewLinks u)

theorem Tidy.obey (h : Tidy programs host) : programs.Obey host Inside Inside :=
  h.imp (fun _ _ _ h => h.1.inside) fun _ _ _ h => h.1

section Pass

variable {a b : Session} {p : Pass} {s s' : Session} {answer : Option Path}

/-- The generator's part in a pass. -/
theorem generated_of_ok (hpackage : ws.package.Separate)
    (hnear : ws.root.isAbsolute = true ∨ ws.root.inner = []) (htidy : Tidy programs host)
    (htarget : p.target ∈ ws.package.targets) {w w' : World} {dir : Path}
    (hclean : Clean host.directory ws.scratch.dir d w.files)
    (h : (programs.symbols ws ws.package p.target p.options).perform host w = (.ok dir, w')) :
    dir = ws.scratch.targetGraphs p.target ∧ dir.hasNul = false ∧
    Clean host.directory ws.scratch.dir d w'.files ∧
    w'.files.get? (d ++ Scratch.graphsNames p.target) = some .directory ∧
    ∃ done, Generated host ws programs d p w.files done ∧ w'.files = done.files := by
  have hslashless := hpackage.slashless _ htarget
  have hready := hclean.ready (Scratch.areNames_graphsNames hslashless) (by simp [Scratch.graphsNames])
  have hdir := (Generator.ofProgram_ok h).1
  obtain ⟨t, done, hreset, hl, -, hfiles⟩ := Generator.ofProgram_launched h
  obtain ⟨hnul, -, hemptied⟩ := Edit.resetDir_ok hready.straight hreset
  have hwithin := (Edit.within_resetDir hready).1
  rw [show (Edit.resetDir host.directory (ws.scratch.dir.below (Scratch.graphsNames
    p.target))).apply w.files = (.ok ⟨⟩, t) from hreset] at hwithin
  have hne : Scratch.graphsNames p.target ≠ [] := by simp [Scratch.graphsNames]
  obtain ⟨hbeneath, hlinks⟩ := Generator.obeys_command htidy.generator hnear
    (Generator.resolve_targetGraphs (hready.within hwithin) hnul hemptied.there) hl
  refine ⟨hdir, hdir ▸ hnul, ?_, ?_, done, ⟨t, hreset, hemptied.contents, hl⟩, hfiles⟩
  · rw [hfiles]
    exact (hclean.within hne hwithin).within hne (hbeneath.inside.within hlinks)
  · rw [hfiles, (hbeneath _).resolve_right fun h => h.2 rfl, hemptied.there]

theorem ask_ok {x : Path × String}
    (h : ((Extractor.ofProgram x.1 x.2 ws.scratch).ask ws.package p.target).perform host s =
      (.ok answer, s')) :
    s'.snippetGraphs.lookup ws.package.name = some answer ∧
      (s.snippetGraphs.lookup ws.package.name = some answer ∧ s'.files = s.files ∨
        s.snippetGraphs.lookup ws.package.name = none ∧
          (Extractor.extract x.1 x.2 ws.scratch ws.package).perform host s.toWorld =
            (.ok answer, s'.toWorld)) := by
  unfold Extractor.ask at h
  simp only [Extractor.ofProgram, Bool.not_true, Bool.false_eq_true, if_false] at h
  rw [perform_bind, perform_get] at h
  simp only at h
  rcases hlookup : s.snippetGraphs.lookup ws.package.name with _ | kept <;> rw [hlookup] at h
  · obtain ⟨graph, s1, h1, h⟩ := perform_bind_ok h
    obtain ⟨w, hextract, rfl⟩ := Job.perform_liftM_ok h1
    rw [perform_bind, perform_modify] at h
    cases h
    exact ⟨by simp, .inr ⟨rfl, hextract⟩⟩
  · rw [perform_bind, Job.perform_liftM, Act.perform_log] at h
    cases h
    exact ⟨hlookup, .inl ⟨rfl, rfl⟩⟩

/-- What the program leaves when it runs for the snippets. -/
theorem extracted_of_launch (hpackage : ws.package.Separate)
    (hnear : ws.root.isAbsolute = true ∨ ws.root.inner = []) (htidy : Tidy programs host)
    {x : Path × String} (hx : x ∈ programs.extractor) {w : World}
    (hclean : Clean host.directory ws.scratch.dir d w.files) {t : FileTree} {done : Completion}
    (hroom : (Extractor.makeRoom ws.scratch ws.package.name host.directory).apply w.files =
      (.ok ⟨⟩, t))
    (hl : (Extractor.listedCommand x.1 x.2 ws.scratch ws.package host.directory w.files).launch host
      t = .ok done) :
    Clean host.directory ws.scratch.dir d done.files ∧
      Extracted host ws programs d w.files done := by
  have hroomy := hclean.laidOut.roomy
  have hwithin := Extractor.within_makeRoom hroomy hpackage.name
  rw [hroom] at hwithin
  obtain ⟨hnul, hthere, hnone⟩ := Extractor.makeRoom_ok hroomy hpackage.name hroom
  have hclean1 := hclean.within (by simp [Scratch.snippetsNames]) hwithin
  obtain ⟨hinside, hlinks⟩ := Extractor.obeys_listedCommand (htidy.extractor x hx) hnear
    ((hroomy.within hwithin).file hpackage.name) hnul hthere hnone hl
  exact ⟨hclean1.within (by simp) (hinside.within hlinks), x, hx, t, hroom, hnone, hl⟩

/-- The extractor's part in a pass, if its program runs. -/
theorem extracted_of_ok (hpackage : ws.package.Separate)
    (hnear : ws.root.isAbsolute = true ∨ ws.root.inner = []) (htidy : Tidy programs host)
    {x : Path × String} (hx : x ∈ programs.extractor) {w w' : World}
    (hclean : Clean host.directory ws.scratch.dir d w.files)
    (h : (Extractor.extract x.1 x.2 ws.scratch ws.package).perform host w = (.ok answer, w')) :
    Clean host.directory ws.scratch.dir d w'.files ∧
    ∀ graph, answer = some graph → graph = ws.scratch.snippetGraph ws.package.name ∧
      ∃ content executable done, Extracted host ws programs d w.files done ∧
        w'.files = done.files ∧
        done.files.get? (d ++ snippetNames ws) = some (.file content executable) := by
  have hroomy := hclean.laidOut.roomy
  have hwithin := Extractor.within_makeRoom hroomy hpackage.name
  have hne : Scratch.snippetsNames ≠ [] := by simp [Scratch.snippetsNames]
  have hnames : AreNames (snippetNames ws) := (hroomy.file hpackage.name).areNames
  have hne' : snippetNames ws ≠ [] := by simp [snippetNames]
  refine ⟨?_, fun graph hgraph => ?_⟩
  · have hfiles := Extractor.files_extract x.1 x.2 ws.scratch ws.package host w
    rw [h] at hfiles
    simp only at hfiles
    split_ifs at hfiles
    · rw [hfiles]
      exact hclean
    rcases hroom : (Extractor.makeRoom ws.scratch ws.package.name host.directory).apply w.files with
      ⟨e | a, t⟩ <;> rw [hroom] at hfiles hwithin <;> simp only at hfiles
    · rw [hfiles]
      exact hclean.within hne hwithin
    · rcases Command.leaves_cases (Extractor.listedCommand x.1 x.2 ws.scratch ws.package
        host.directory w.files) host t with hsame | ⟨done, hl, hdone⟩
      · rw [hfiles, hsame]
        exact hclean.within hne hwithin
      · rw [hfiles, hdone]
        exact (extracted_of_launch hpackage hnear htidy hx hclean hroom hl).1
  · subst hgraph
    obtain ⟨t, done, hroom, hl, -, hfiles, hgraph, hfile⟩ := Extractor.extract_launched h
    obtain ⟨hdone, hextracted⟩ := extracted_of_launch hpackage hnear htidy hx hclean hroom hl
    refine ⟨hgraph, ?_⟩
    rw [hgraph, Scratch.snippetGraph_eq] at hfile
    unfold isFile at hfile
    rcases hs : done.files.stat host.directory (ws.scratch.dir.below (snippetNames ws)) with
      cause | (_ | ⟨content, executable⟩ | link) <;> rw [snippetNames] at hs <;> rw [hs] at hfile <;>
      cases hfile
    exact ⟨content, executable, done, hextracted, hfiles,
      stat_ok (hdone.ready hnames hne') (hdone.plain _) hs⟩

/-- A unification with the snippet graph that the extractor has answered. -/
theorem unify_ok {graphs : Path} {result : GraphResult}
    (h : (Unifier.unify ws.scratch (programs.snippets ws) ws.package p.target graphs).perform host s =
      (.ok result, s')) :
    programs.extractor = none ∧ result = .single graphs ∧ s' = s ∨
    ∃ x ∈ programs.extractor, ∃ answer s1,
      ((Extractor.ofProgram x.1 x.2 ws.scratch).ask ws.package p.target).perform host s =
        (.ok answer, s1) ∧ s'.snippetGraphs = s1.snippetGraphs ∧
      (answer = none ∧ result = .single graphs ∧ s' = s1 ∨
        ∃ graph, answer = some graph ∧
          (Unifier.merge ws.scratch p.target graphs graph).perform host s1.toWorld =
            (.ok result, s'.toWorld)) := by
  unfold Unifier.unify Programs.snippets at h
  rcases hx : programs.extractor with _ | x <;> rw [hx] at h
  · cases h
    exact .inl ⟨rfl, rfl, rfl⟩
  right
  simp only [Option.map_some] at h
  obtain ⟨answer, s1, hask, h⟩ := perform_bind_ok h
  refine ⟨x, rfl, answer, s1, hask, ?_⟩
  rcases answer with _ | graph
  · cases h
    exact ⟨rfl, .inl ⟨rfl, rfl, rfl⟩⟩
  · simp only at h
    obtain ⟨w, hmerge, rfl⟩ := Job.perform_liftM_ok h
    exact ⟨rfl, .inr ⟨graph, rfl, hmerge⟩⟩

end Pass

/-! ### One pass after the other -/

section Chain

variable {first a b s s' : Session} {passes : List Pass} {p : Pass} {answer : Option Path}

/-- A snippet graph that is known has been written in the run, and is there. -/
def Known (host : Host) (ws : Workspace) (programs : Programs) (request : Request) (d : Place)
    (first : Session) (passes : List Pass) (s : Session) : Prop :=
  ∀ graph, s.snippetGraphs.lookup ws.package.name = some (some graph) →
    graph = ws.scratch.snippetGraph ws.package.name ∧ ∃ content executable,
      s.files.get? (d ++ snippetNames ws) = some (.file content executable) ∧
      SnippetsWritten host ws programs request d first passes (.file content executable)

/-- What is so after some passes: there are no links, a snippet graph that is known has been written
in the run, and the directories of the passes hold what they should. -/
structure Sound (host : Host) (ws : Workspace) (programs : Programs) (request : Request) (d : Place)
    (first : Session) (passes : List Pass) (s : Session) : Prop where
  clean : Clean host.directory ws.scratch.dir d s.files
  known : Known host ws programs request d first passes s
  holds : ∀ p ∈ passes, Holds host ws programs request d first passes s.files p

theorem Known.later (h : Known host ws programs request d first passes a) (more : List Pass)
    (hgraphs : b.snippetGraphs = a.snippetGraphs)
    (hfile : b.files.get? (d ++ snippetNames ws) = a.files.get? (d ++ snippetNames ws)) :
    Known host ws programs request d first (passes ++ more) b := by
  intro graph hgraph
  rw [hgraphs] at hgraph
  obtain ⟨h1, content, executable, h2, h3⟩ := h graph hgraph
  exact ⟨h1, content, executable, hfile.trans h2, h3.append more⟩

/-- The extractor's part in a pass, whether its program runs or not. -/
theorem asked_of_ok (hpackage : ws.package.Separate)
    (hnear : ws.root.isAbsolute = true ∨ ws.root.inner = []) (htidy : Tidy programs host)
    {x : Path × String} (hx : x ∈ programs.extractor)
    (hclean : Clean host.directory ws.scratch.dir d s.files)
    (hknown : Known host ws programs request d first passes s)
    (hduring : During host ws programs request first passes p a) {generated : Completion}
    (hgenerated : Generated host ws programs d p a.files generated)
    (hfiles : s.files = generated.files)
    (h : ((Extractor.ofProgram x.1 x.2 ws.scratch).ask ws.package p.target).perform host s =
      (.ok answer, s')) :
    Clean host.directory ws.scratch.dir d s'.files ∧
      Known host ws programs request d first passes s' ∧
      s'.snippetGraphs.lookup ws.package.name = some answer ∧
      ∀ z, Aside z (d ++ Scratch.snippetsNames) → s'.files.contents z = s.files.contents z := by
  obtain ⟨hlookup, ⟨hold, hsame⟩ | ⟨hnew, hextract⟩⟩ := ask_ok h
  · refine ⟨hsame ▸ hclean, fun graph hgraph => ?_, hlookup, fun z _ => by rw [hsame]⟩
    rw [hsame]
    exact hknown graph (hold.trans (hlookup.symm.trans hgraph))
  · obtain ⟨hclean', hwritten⟩ := extracted_of_ok hpackage hnear htidy hx hclean hextract
    have hkeeps := keeps_extract (htidy.obey.extractor x hx) hnear hpackage.name x.2 hclean.laidOut
    rw [hextract] at hkeeps
    refine ⟨hclean', fun graph hgraph => ?_, hlookup, fun z hz => hkeeps.contents z (by simpa using hz)⟩
    have hanswer : answer = some graph := Option.some.inj (hlookup.symm.trans hgraph)
    obtain ⟨h1, content, executable, done, hextracted, hdone, hfile⟩ := hwritten graph hanswer
    refine ⟨h1, content, executable, ?_, p, a, generated, done, hduring, hgenerated, ?_, hfile⟩
    · rw [show s'.files = done.files from hdone]
      exact hfile
    · rwa [← hfiles]

/-- The way to the snippet graph is aside of the directories of targets. -/
theorem aside_snippets (ws : Workspace) (d : Place) (target : Target) :
    Aside (d ++ snippetNames ws) (d ++ Scratch.graphsNames target) ∧
      Aside (d ++ snippetNames ws) (d ++ Unifier.unifiedNames target) :=
  ⟨aside_append.mpr ((Scratch.aside_graphs_snippets target).symm.beneath (List.prefix_append _ _)),
    aside_append.mpr ((Scratch.aside_unified_snippets target).symm.beneath (List.prefix_append _ _))⟩

/-- The result of a pass is the generator's directory, as it was left. -/
theorem Holds.single {files : FileTree} {done : Completion}
    (hresult : p.result = .single (ws.scratch.targetGraphs p.target))
    (hnul : (ws.scratch.targetGraphs p.target).hasNul = false)
    (hthere : files.get? (d ++ Scratch.graphsNames p.target) = some .directory)
    (hduring : During host ws programs request first passes p a)
    (hgenerated : Generated host ws programs d p a.files done)
    (hsame : files.contents (d ++ Scratch.graphsNames p.target) =
      done.files.contents (d ++ Scratch.graphsNames p.target)) :
    Holds host ws programs request d first passes files p := by
  have hplace : placeOf d p = d ++ Scratch.graphsNames p.target := by
    unfold placeOf
    rw [hresult]
  refine ⟨?_, ?_, a, done, hduring, hgenerated, .inl ⟨hresult, ?_⟩⟩
  · rw [hresult]
    exact hnul
  · rw [hplace, hthere]
  · rw [hplace, hsame]

/-- **A pass puts the right things into its directory.** -/
theorem made_facts (hpackage : ws.package.Separate)
    (hnear : ws.root.isAbsolute = true ∨ ws.root.inner = []) (htidy : Tidy programs host)
    (htarget : p.target ∈ ws.package.targets)
    (hchain : Chain (Made host ws (programs.symbols ws) (programs.snippets ws) request) first passes a)
    (hmade : Made host ws (programs.symbols ws) (programs.snippets ws) request a p b)
    (hclean : Clean host.directory ws.scratch.dir d a.files)
    (hknown : Known host ws programs request d first passes a) :
    Clean host.directory ws.scratch.dir d b.files ∧
      Known host ws programs request d first (passes ++ [p]) b ∧
      Holds host ws programs request d first (passes ++ [p]) b.files p := by
  obtain ⟨-, -, before, after, unifying, hbefore, hgenerate, hunifying, hgraphs, hunify⟩ := hmade
  obtain ⟨hdir, hnul, hclean1, hthere, done, hgenerated, hdone⟩ :=
    generated_of_ok hpackage hnear htidy htarget (hbefore ▸ hclean) hgenerate
  have hkeeps := keeps_generator htidy.obey.generator hnear (hpackage.slashless _ htarget) p.options
    (hbefore ▸ hclean.laidOut)
  rw [hgenerate, hbefore, ← hunifying] at hkeeps
  rw [← hunifying] at hclean1 hthere hdone
  rw [hbefore] at hgenerated
  have hduring : During host ws programs request first (passes ++ [p]) p a := ⟨passes, [], rfl, hchain⟩
  have hknown1 : Known host ws programs request d first (passes ++ [p]) unifying := by
    refine hknown.later [p] hgraphs ?_
    have := hkeeps.contents _ (by simpa using (aside_snippets ws d p.target).1)
    simpa only [contents_nil] using congrFun this []
  -- the result is the generator's directory, as long as it stays as it is
  have hsingle : p.result = .single p.graphs → ∀ s : Session,
      s.files.contents (d ++ Scratch.graphsNames p.target) =
        unifying.files.contents (d ++ Scratch.graphsNames p.target) →
      Holds host ws programs request d first (passes ++ [p]) s.files p := fun hresult s hs =>
    .single (hdir ▸ hresult) (hdir ▸ hnul) (by rw [← contents_nil, hs, contents_nil, hthere])
      hduring hgenerated (by rw [hs, hdone])
  rcases unify_ok hunify with ⟨-, hresult, rfl⟩ | ⟨x, hx, answer, s1, hask, hmemory, hrest⟩
  · exact ⟨hclean1, hknown1, hsingle hresult _ rfl⟩
  obtain ⟨hclean2, hknown2, hlookup, hsame⟩ := asked_of_ok hpackage hnear htidy hx hclean1 hknown1
    hduring hgenerated hdone hask
  have hgraphs2 := hsame (d ++ Scratch.graphsNames p.target)
    (aside_append.mpr (Scratch.aside_graphs_snippets p.target))
  rcases hrest with ⟨-, hresult, rfl⟩ | ⟨graph, rfl, hmerge⟩
  · exact ⟨hclean2, hknown2, hsingle hresult _ hgraphs2⟩
  obtain ⟨rfl, content, executable, hfile, hwritten⟩ := hknown2 graph hlookup
  rw [hdir] at hmerge
  obtain ⟨hresult, hclean3, hfilled, content', executable', hfile', hcontents⟩ :=
    Unifier.merge_ok hclean2 (hpackage.slashless _ htarget) hpackage.name (hdir ▸ hnul) hmerge
  cases hfile.symm.trans hfile'
  have hplace : placeOf d p = d ++ Unifier.unifiedNames p.target := by
    unfold placeOf
    rw [hresult]
  refine ⟨hclean3, ?_, ?_, ?_, a, done, hduring, hgenerated, .inr ⟨content, executable, hresult,
    hwritten, ?_⟩⟩
  · intro graph' hgraph'
    rw [hmemory, hlookup] at hgraph'
    cases hgraph'
    refine ⟨rfl, content, executable, ?_, hwritten⟩
    rw [← hfile]
    exact ((hfilled.agree (aside_snippets ws d p.target).2).get?
      (List.prefix_refl _)).symm
  · rw [hresult]
    exact (Scratch.hasNul_unified _ (hpackage.slashless _ htarget)).trans (hdir ▸ hnul)
  · rw [hplace, ← contents_nil, hcontents]
    rfl
  · rw [hplace, hcontents, hgraphs2, hdone]

/-- The directory of a pass is aside of what is touched for another target. -/
theorem aside_placeOf {q : Pass} (h : q.target.dirName ≠ p.target.dirName) :
    ∀ names ∈ Scratch.partsOf p.target, Aside (placeOf d q) (d ++ names) := by
  unfold placeOf
  rcases q.result with dir | ⟨u, g, n⟩
  · exact (Scratch.aside_parts h).1
  · exact (Scratch.aside_parts h).2

theorem made_keeps (hpackage : ws.package.Separate)
    (hnear : ws.root.isAbsolute = true ∨ ws.root.inner = [])
    (hobey : programs.Obey host Inside Inside) (htarget : p.target ∈ ws.package.targets)
    (hmade : Made host ws (programs.symbols ws) (programs.snippets ws) request a p b)
    (h : LaidOut host.directory ws d a.files) :
    Keeps host.directory ws d (Scratch.partsOf p.target) a.files b.files := by
  obtain ⟨-, -, before, after, unifying, hbefore, hgenerate, hunifying, -, hunify⟩ := hmade
  have hslashless := hpackage.slashless _ htarget
  have hgenerator := keeps_generator hobey.generator hnear hslashless p.options (hbefore ▸ h)
  rw [hgenerate, hbefore, ← hunifying] at hgenerator
  have hunified := keeps_unify hobey.extractor hnear hpackage.name hslashless p.graphs
    hgenerator.laidOut
  rw [hunify] at hunified
  exact (hgenerator.mono (by simp [Scratch.partsOf])).trans
    (hunified.mono (by simp [Scratch.partsOf]))

/-- **One more pass**, for another target. -/
theorem sound_concat (hpackage : ws.package.Separate)
    (hnear : ws.root.isAbsolute = true ∨ ws.root.inner = []) (htidy : Tidy programs host)
    (htarget : p.target ∈ ws.package.targets)
    (hother : ∀ q ∈ passes, q.target.dirName ≠ p.target.dirName)
    (hchain : Chain (Made host ws (programs.symbols ws) (programs.snippets ws) request) first passes a)
    (hmade : Made host ws (programs.symbols ws) (programs.snippets ws) request a p b)
    (h : Sound host ws programs request d first passes a) :
    Sound host ws programs request d first (passes ++ [p]) b := by
  obtain ⟨hclean, hknown, hholds⟩ := made_facts hpackage hnear htidy htarget hchain hmade h.clean
    h.known
  refine ⟨hclean, hknown, fun q hq => ?_⟩
  rcases List.mem_append.mp hq with hq | hq
  · have hkeeps := made_keeps hpackage hnear htidy.obey htarget hmade h.clean.laidOut
    exact (h.holds q hq).later [p] (hkeeps.contents _ (aside_placeOf (hother q hq)))
  · rw [List.mem_singleton.mp hq]
    exact hholds

end Chain

/-! ### The run -/

section Run

variable {s s' : Session} {plan : Plan} {generator : Generator} {extractor : Option Extractor}

/-- The passes of a run that has succeeded, and what is left to do after them. -/
theorem run_made (h : (run ws generator extractor request).perform host s = (.ok plan, s')) :
    ∃ requested files passes last outcomes,
      request.selection.resolveOrDefault ws.package = .ok requested ∧
      MakesScratch ws host.directory s.files files ∧
      FirstOccurrences requested (passes.map Pass.target) ∧
      Chain (Made host ws generator extractor request) (prepared ws request requested files s) passes
        last ∧
      List.Forall₂ (Describes (ArchiveLayout.plan ws.scratch ws.package requested.length
        request.outputPath request.combined) passes) requested plan.targets ∧
      (conclude ws request requested outcomes).perform host last = (.ok plan, s') := by
  obtain ⟨requested, files, documented, last, hselect, hscratch, hfirst, hchain, hplan, h⟩ :=
    run_documented h
  obtain ⟨passes, hmade, rfl⟩ := passes_of_ends hchain
  rw [map_fst_docs] at hfirst
  refine ⟨requested, files, passes, last, _, hselect, hscratch, hfirst, hmade, ?_, h⟩
  rw [hplan]
  exact describes_planFor ws request hfirst

/-- The passes before a pass have had other directories. -/
theorem dirName_ne_of_before (hpackage : ws.package.Separate) {passes before after : List Pass}
    {q : Pass} (htargets : ∀ p ∈ passes, p.target ∈ ws.package.targets)
    (hnodup : (passes.map Pass.target).Nodup) (hl : passes = before ++ p :: after)
    (hq : q ∈ before) : q.target.dirName ≠ p.target.dirName := by
  intro hsame
  have heq := hpackage.distinct _ (htargets q (by simp [hl, hq])) _ (htargets p (by simp [hl])) hsame
  rw [hl, List.map_append, List.map_cons] at hnodup
  exact (List.nodup_append.mp hnodup).2.2 _ (List.mem_map_of_mem hq) p.target (by simp) heq

/-- After the passes of a run everything is as it should be. -/
theorem sound_of_chain (hpackage : ws.package.Separate)
    (hnear : ws.root.isAbsolute = true ∨ ws.root.inner = []) (htidy : Tidy programs host)
    {first last : Session} {passes : List Pass}
    (htargets : ∀ p ∈ passes, p.target ∈ ws.package.targets)
    (hnodup : (passes.map Pass.target).Nodup)
    (hclean : Clean host.directory ws.scratch.dir d first.files)
    (hfresh : first.snippetGraphs.lookup ws.package.name = none)
    (h : Chain (Made host ws (programs.symbols ws) (programs.snippets ws) request) first passes last) :
    Sound host ws programs request d first passes last := by
  refine h.invariant ⟨hclean, fun graph hgraph => ?_, fun p hp => by cases hp⟩
    fun done p rest a b hl hdone hmade ha => ?_
  · rw [hfresh] at hgraph
    cases hgraph
  · exact sound_concat hpackage hnear htidy (htargets p (by simp [hl]))
      (fun q => dirName_ne_of_before hpackage htargets hnodup hl) hdone hmade ha

/-- **What a plan names holds what was made for it.** When a run has succeeded, each entry of its
plan is about the target of a pass of the run and names a directory. In this directory is what the
generator's program has left for this pass, having started from an empty directory; or a copy of
this, together with a snippet graph that the extractor's program has written in one of the passes of
the run; and nothing else. -/
theorem run_contents (hpackage : ws.package.Separate)
    (hnear : ws.root.isAbsolute = true ∨ ws.root.inner = []) (htidy : Tidy programs host)
    (hleads : s.files.Leads host.directory ws.scratch.dir d)
    (hlinkless : ∀ q, d <+: q → s.files.Plain q)
    (hfresh : s.snippetGraphs.lookup ws.package.name = none)
    (h : (run ws (programs.symbols ws) (programs.snippets ws) request).perform host s =
      (.ok plan, s')) :
    ∃ requested files passes last,
      request.selection.resolveOrDefault ws.package = .ok requested ∧
      FirstOccurrences requested (passes.map Pass.target) ∧
      MakesScratch ws host.directory s.files files ∧
      Chain (Made host ws (programs.symbols ws) (programs.snippets ws) request)
        (prepared ws request requested files s) passes last ∧
      List.Forall₂ (fun target e => ∃ p ∈ passes, p.target = target ∧ e.name = target.name ∧
        e.id = target.id ∧ e.symbolGraphs = p.result ∧
        s'.files.resolve host.directory e.symbolGraphDir = .ok (placeOf d p) ∧
        Holds host ws programs request d (prepared ws request requested files s) passes s'.files p)
        requested plan.targets := by
  obtain ⟨requested, files, passes, last, outcomes, hselect, hscratch, hfirst, hchain, hentries,
    hconclude⟩ := run_made h
  have hmem : ∀ p ∈ passes, p.target ∈ ws.package.targets := fun p hp =>
    Selection.mem_of_resolveOrDefault hselect
      ((hfirst.mem_iff _).mp (List.mem_map_of_mem hp))
  have hmemory : (prepared ws request requested files s).snippetGraphs.lookup ws.package.name =
      none := hfresh
  have hsound := sound_of_chain hpackage hnear htidy hmem hfirst.nodup
    (Clean.of_makesScratch hleads hlinkless hscratch) hmemory hchain
  -- the plan is put in its place, aside of all this
  rcases hsound.clean.laidOut.conclude request requested outcomes with
    ⟨plan', s'', executable, hok, hput⟩ | ⟨halt, s'', herror, -⟩
  swap
  · rw [hconclude] at herror
    cases herror
  rw [hconclude] at hok
  cases hok
  have hlast := hsound.clean.put (by simp [Scratch.planNames]) hput
  refine ⟨requested, files, passes, last, hselect, hfirst, hscratch, hchain,
    hentries.imp fun target e hdescribes => ?_⟩
  obtain ⟨p, hp, htarget, -, hdir, -, hresult⟩ := hdescribes.made
  have hholds := (hsound.holds p hp).later [] (hput.filled.agree (aside_plan d p)).contents.symm
  rw [List.append_nil] at hholds
  refine ⟨p, hp, htarget, hdescribes.name, hdescribes.id, hresult, ?_, hholds⟩
  rw [hdir]
  exact hholds.resolve hlast (hpackage.slashless _ (hmem p hp))

end Run

/-! ### Small runs -/

/-- A tree with a program. -/
def toolFiles : FileTree :=
  FileTree.empty.putAt ["t"] (.file .empty true)

/-- The tree with some directories in it, one in the other. -/
def toolFilesWith (names : List String) : FileTree :=
  names.inits.foldl (fun t p => t.putAt p .directory) toolFiles

/-- The workspace of the small package, with a path to the directory of its manifest. -/
def toolWorkspace (root : String) : Workspace :=
  ⟨{ smallPackage with root := ⟨root⟩ }⟩

/-- The program, for the symbol graphs. -/
def toolPrograms : Programs where
  generator := ⟨"/t"⟩
  capabilities := {}
  extractor := none

/-- The program, for the snippets too. -/
def snippetPrograms : Programs :=
  { toolPrograms with extractor := some (⟨"/t"⟩, "Snippets") }

/-- A run in which the program writes a certain text. -/
def toolRun (root : String) (programs : Programs) (text : String) (s : Session) :
    Except Halt Plan × Session :=
  (run (toolWorkspace root) (programs.symbols (toolWorkspace root))
    (programs.snippets (toolWorkspace root)) {}).perform (writerHost text.toUTF8 "") s

/-- From the root a name leads to the entry that it names. -/
theorem leads_toolWorkspace {t : FileTree} (hplain : t.Plain [".graphdoc"]) :
    t.Leads [] (toolWorkspace "/").scratch.dir [".graphdoc"] where
  plain := hplain
  resolves := by
    intro u _ hu
    have hdir : (toolWorkspace "/").scratch.dir = ⟨"/.graphdoc"⟩ := by decide +kernel
    rw [hdir]
    unfold resolve follow
    rw [if_neg (by decide), if_neg (by decide +kernel), if_pos (by decide)]
    exact walk_name (by decide) (fun _ => hu) linkLimit

/-- A workspace with two targets. -/
def pairWorkspace : Workspace :=
  ⟨{ smallPackage with
      root := ⟨"/"⟩
      targets := ["a", "b"].map fun name => ⟨name, "i", .sourceModule .library, {}⟩ }⟩

theorem separate_pairWorkspace : pairWorkspace.package.Separate where
  slashless := by
    unfold Target.Slashless
    decide
  distinct := by decide
  name := by decide

/-- A tree without links, as far as its entries tell. -/
def linkless (t : FileTree) : Bool :=
  t.entries.all fun x => match x.2 with
    | .link _ => false
    | _ => true

theorem plain_of_linkless {t : FileTree} (h : linkless t = true) (q : Place) : t.Plain q := by
  intro target hlink
  by_cases hq : q = []
  · rw [hq, get?_nil] at hlink
    cases hlink
  · have hentry := List.all_eq_true.mp h _ ((get?_eq_some_iff hq).mp hlink)
    cases hentry

/-- Files from before: a source of snippets, the directory of one target and the unified directory of
the other one, and something in each of them. -/
def staleFiles : FileTree :=
  [(["Snippets"], .directory), (["Snippets", "s"], .file .empty false), ([".graphdoc"], .directory),
    ([".graphdoc", "symbol-graphs"], .directory),
    ([".graphdoc", "symbol-graphs", "targets"], .directory),
    ([".graphdoc", "symbol-graphs", "targets", "a-i"], .directory),
    ([".graphdoc", "symbol-graphs", "targets", "a-i", "old"], .file .empty false),
    ([".graphdoc", "symbol-graphs", "unified-symbol-graphs"], .directory),
    ([".graphdoc", "symbol-graphs", "unified-symbol-graphs", "b-i"], .directory),
    ([".graphdoc", "symbol-graphs", "unified-symbol-graphs", "b-i", "old"],
      Entry.file .empty false)].foldl (fun t x => t.putAt x.1 x.2) toolFiles

/-- A run in which the program makes the graphs of two targets and the snippets. -/
def pairMade : Except Halt Plan × Session :=
  (run pairWorkspace (snippetPrograms.symbols pairWorkspace)
    (snippetPrograms.snippets pairWorkspace) {}).perform (writerHost "new".toUTF8 "")
    { files := staleFiles }

/-- The file that the program makes. -/
def newFile : Entry :=
  .file "new".toUTF8 false

/-- Both targets are documented. In the unified directory of each there is a directory with the file
that the program has made for the target, and the file that it has made of the snippets, and nothing
else. -/
theorem run_contents_pair : ∃ plan s',
    pairMade = (.ok plan, s') ∧ plan.targets.map PlannedTarget.name = ["a", "b"] ∧
    ∀ e ∈ plan.targets, ∃ place, s'.files.resolve [] e.symbolGraphDir = .ok place ∧
      s'.files.contents place = Unifier.unifiedContents (directoryOf "g" newFile)
        (Scratch.snippetName "p") newFile := by
  have hmade : (pairMade.1.toOption.map fun plan => (plan.targets.map PlannedTarget.name,
        plan.targets.all fun e => e.symbolGraphs.snippetGraph.isSome)) = some (["a", "b"], true) ∧
      ∀ x ∈ pairWorkspace.package.targets,
        pairMade.2.files.contents ([".graphdoc"] ++ Unifier.unifiedNames x)
          [Scratch.targetCopyName, "g"] = some newFile ∧
        pairMade.2.files.contents ([".graphdoc"] ++ Unifier.unifiedNames x)
          [Scratch.snippetName "p"] = some newFile := by decide +kernel
  have hplain := plain_of_linkless (t := staleFiles) (by decide +kernel)
  rcases hrun : pairMade with ⟨halt | plan, s'⟩ <;> rw [hrun] at hmade
  · cases hmade.1
  obtain ⟨hentries, hthere⟩ := hmade
  obtain ⟨hnames, hunified⟩ := Prod.mk.inj (Option.some.inj hentries)
  obtain ⟨requested, files, passes, last, hselect, -, -, -, hforall⟩ :=
    run_contents separate_pairWorkspace (.inl (by decide))
      ⟨writer_obeys_directory _ _ _, fun x hx => writer_obeys_file _ _ _⟩
      (leads_toolWorkspace (hplain _)) (fun q _ => hplain q) rfl hrun
  have hresolve : ({} : Selection).resolveOrDefault pairWorkspace.package =
      .ok pairWorkspace.package.targets := eq_ok_of_toOption (by decide +kernel)
  obtain rfl : requested = pairWorkspace.package.targets :=
    Except.ok.inj (hselect.symm.trans hresolve)
  refine ⟨plan, s', rfl, hnames, fun e he => ?_⟩
  have hsome := List.all_eq_true.mp hunified e he
  obtain ⟨i, hi, rfl⟩ := List.getElem_of_mem he
  have hi' := hforall.length_eq ▸ hi
  obtain ⟨p, -, htarget, -, -, hresult, hplace, hholds⟩ :=
    (List.forall₂_iff_get.mp hforall).2 i hi' hi
  refine ⟨_, hplace, ?_⟩
  obtain ⟨a, generated, -, ⟨u, -, hempty, hl⟩, ⟨hsingle, -⟩ |
    ⟨content, executable, hboth, -, hcontents⟩⟩ := hholds.contents
  · rw [List.get_eq_getElem] at hresult
    rw [hresult, hsingle] at hsome
    cases hsome
  obtain ⟨hg, hs⟩ := hthere p.target (htarget ▸ List.getElem_mem hi')
  have hplaceOf : placeOf [".graphdoc"] p = [".graphdoc"] ++ Unifier.unifiedNames p.target := by
    unfold placeOf
    rw [hboth]
  rw [hplaceOf] at hcontents ⊢
  have hgraph : generated.files.contents ([".graphdoc"] ++ Scratch.graphsNames p.target) ["g"] =
      some newFile := (congrFun hcontents _).symm.trans hg
  have hsnippet : some (Entry.file content executable) = some newFile :=
    (congrFun hcontents _).symm.trans hs
  rw [hcontents, contents_launch_writer hl hempty (by rw [hgraph]; simp), Option.some.inj hsnippet]
  rfl

/-- A session in which the extractor has answered before. -/
def answeredBefore : Session where
  files := (toolFilesWith [".graphdoc", "symbol-graphs", "snippet-symbol-graphs"]).putAt
    [".graphdoc", "symbol-graphs", "snippet-symbol-graphs", "p-snippets.symbols.json"]
    (.file "old".toUTF8 false)
  snippetGraphs :=
    [("p", some ⟨"/.graphdoc/symbol-graphs/snippet-symbol-graphs/p-snippets.symbols.json"⟩)]

/-- A session with a directory in the directory of the target. -/
def filledBefore : Session where
  files := toolFilesWith [".graphdoc", "symbol-graphs", "targets", "a-i", "b"]

/-- Whether a run has succeeded, and what lies at a place after it. -/
def left (p : Place) (r : Except Halt Plan × Session) : Bool × Option Entry :=
  (r.1.toBool, r.2.files.get? p)

/-- What is there from before can be in a directory of a plan: a snippet graph that the extractor
answers once more without its program, and a directory through which the path of the manifest leads
to the scratch directory. -/
theorem outlives_run :
    left [".graphdoc", "symbol-graphs", "unified-symbol-graphs", "a-i", "p-snippets.symbols.json"]
      (toolRun "/" snippetPrograms "new" answeredBefore) =
        (true, some (.file "old".toUTF8 false)) ∧
    left [".graphdoc", "symbol-graphs", "targets", "a-i", "b"]
      (toolRun "/.graphdoc/symbol-graphs/targets/a-i/b/../../../../.." toolPrograms "new"
        filledBefore) = (true, some .directory) := by
  constructor
  · decide +kernel
  · decide +kernel

end Batch

end SymbolDocs
