import SymbolDocs.Proofs.Extractor.Answers
import SymbolDocs.Proofs.FileTree.Fresh
import SymbolDocs.Proofs.FileTree.Listed

/-! # What the extractor answers

An extraction ends in one of six ways (`Ends`, `ends_act`). Its program runs when the directory of the
snippet graphs has been made and nothing has been left in the place of the graph (`Prepared`), and
what it leaves there, and how it ends, decides about the answer (`ask_of_new`). -/

namespace SymbolDocs

open FileTree SymbolDocs.Path

variable {base : Place} {path : Path} {t u v : FileTree}

/-! ### Room for the graph -/

namespace Edit

/-- When a file has been removed, nothing is named by its path. -/
theorem lstat_of_removeFile (hslash : path.endsInSlash = false) {a : Unit}
    (h : (removeFile base path).apply t = (.ok a, u)) : u.lstat base path = .error .notFound := by
  have hentry := locateEntry_eq_locate hslash t base
  rw [apply_removeFile] at h
  unfold unlink at h
  rcases hl : t.locateEntry base path with cause | p <;> rw [hl] at h
  · cases cause <;> cases h
    unfold lstat
    rw [← hentry, hl]
    rfl
  simp only [bind, Except.bind] at h
  rcases hg : t.get? p with _ | (_ | ⟨content, executable⟩ | target) <;> rw [hg] at h
  · cases h
    unfold lstat
    rw [← hentry, hl]
    simp [bind, Except.bind, entryAt, hg]
  · cases h
  · simp only [hslash, Bool.false_eq_true, if_false] at h
    cases h
    exact lstat_prune (hentry.symm.trans hl) (by simp [hg])
  · simp only [hslash, Bool.false_eq_true, if_false] at h
    cases h
    exact lstat_prune (hentry.symm.trans hl) (by simp [hg])

end Edit

theorem Path.endsInSlash_entry (p : Path) {name : String} (h : name ≠ "") :
    (p.entry name).endsInSlash = (⟨name⟩ : Path).endsInSlash := by
  have hne : name.toList ≠ [] := fun h' => h (String.toList_eq_nil_iff.mp h')
  rcases habs : (⟨name⟩ : Path).isAbsolute with _ | _
  swap
  · rw [entry, join_of_isAbsolute habs]
  unfold Path.endsInSlash entry
  rcases text_join (p := p) habs with ⟨hj, -⟩ | ⟨cs, -, hj⟩ | ⟨-, hj⟩ <;> rw [hj]
  · rw [List.append_cons, List.getLast?_append_of_ne_nil _ hne]
  · rw [List.append_cons, List.getLast?_append_of_ne_nil _ hne]

theorem Scratch.endsInSlash_snippetGraph (s : Scratch) (packageName : String) :
    (s.snippetGraph packageName).endsInSlash = false := by
  have htext : (packageName ++ "-snippets.symbols.json").toList.getLast? = some 'n' := by
    rw [String.toList_append, List.getLast?_append_of_ne_nil _ (by decide)]
    rfl
  have hne : packageName ++ "-snippets.symbols.json" ≠ "" := fun h => by rw [h] at htext; cases htext
  rw [snippetGraph, Path.endsInSlash_entry _ hne, Path.endsInSlash, htext]
  rfl

/-- The command that is started, if one is. -/
def Emission.launched? : Emission → Option Command
  | .launch command => some command
  | _ => none

namespace Extractor

/-! ### Extractions -/

/-- A package for which snippets are extracted, with a certain program on a certain host. -/
structure Extraction where
  program : Path
  /-- The directory of the snippets, seen from that of the package. -/
  directory : String
  scratch : Scratch
  package : Package
  host : Host

namespace Extraction

variable (x : Extraction)

/-- The snippets that are there. -/
def sources (t : FileTree) : List Path :=
  listed x.directory x.package x.host.directory t

/-- Where the program is to put the graph. -/
def output : Path :=
  x.scratch.snippetGraph x.package.name

/-- The call of the program. -/
def command (t : FileTree) : Command :=
  listedCommand x.program x.directory x.scratch x.package x.host.directory t

/-- What the extractor does if it has no answer yet. -/
def act : Act (Option Path) :=
  extract x.program x.directory x.scratch x.package

/-- From `t` the directory of the snippet graphs has been made, and then, in `u`, nothing has been
left in the place of the graph. -/
def Prepared (t u : FileTree) : Prop :=
  ∃ v, (Edit.ensureDir x.host.directory x.scratch.snippetGraphs).apply t = (.ok ⟨⟩, v) ∧
    v.isDir x.host.directory x.scratch.snippetGraphs = true ∧
    (Edit.removeFile x.host.directory x.output).apply v = (.ok ⟨⟩, u) ∧
    u.lstat x.host.directory x.output = .error .notFound

/-- The program runs for the snippets that there are in `t`, on a tree `u` in which room has been
made for the graph, and `done` is what it leaves. -/
structure Runs (t u : FileTree) (done : Completion) : Prop where
  sources : x.sources t ≠ []
  prepared : x.Prepared t u
  launch : (x.command t).launch x.host u = .ok done

/-- The failure of the program. -/
def failure (cause : Cause) : Failure where
  context := ["failed to extract snippets for `" ++ x.package.name ++ "`"]
  cause := cause

/-- What is told when the program is started. -/
def started (t : FileTree) : List Emission :=
  [.event .info ("Extracting " ++ toString (x.sources t).length ++ " snippet(s) for `" ++
    x.package.name ++ "`"), .launch (x.command t)]

/-- **How an extraction may end.** -/
inductive Ends (w : World) : Except Halt (Option Path) → World → Prop
  /-- There are no snippets. -/
  | idle : x.sources w.files = [] →
    Ends w (.ok none) { w with emissions := w.emissions ++
      [.event .debug ("no snippets found for `" ++ x.package.name ++ "`")] }
  /-- There is no room for the graph. -/
  | blocked {cause : IoFailure} {u : FileTree} : x.sources w.files ≠ [] →
    (makeRoom x.scratch x.package.name x.host.directory).apply w.files = (.error cause, u) →
    Ends w (.error (.failed { cause := .io cause })) { w with files := u }
  /-- The program cannot be started. -/
  | refused {cause : IoError} {u : FileTree} : x.sources w.files ≠ [] → x.Prepared w.files u →
    (x.command w.files).launch x.host u = .error cause →
    Ends w (.error (.failed (x.failure (.io ⟨.spawn x.program, cause⟩))))
      { files := u, emissions := w.emissions ++ x.started w.files }
  /-- The program ends badly. -/
  | failed {u : FileTree} {done : Completion} : x.Runs w.files u done →
    done.status.succeeded = false →
    Ends w (.error (.failed (x.failure (.toolFailed (x.command w.files).line done.status
      (Text.decodeLossy done.stderr)))))
      { files := done.files, emissions := w.emissions ++ x.started w.files }
  /-- The program ends well, and a graph is there. -/
  | found {u : FileTree} {done : Completion} : x.Runs w.files u done →
    done.status.succeeded = true → done.files.isFile x.host.directory x.output = true →
    Ends w (.ok (some x.output))
      { files := done.files, emissions := w.emissions ++ x.started w.files }
  /-- The program ends well, and there is no graph. -/
  | missing {u : FileTree} {done : Completion} : x.Runs w.files u done →
    done.status.succeeded = true → done.files.isFile x.host.directory x.output = false →
    Ends w (.ok none) { files := done.files, emissions := w.emissions ++ (x.started w.files ++
      [.event .debug ("snippet extractor produced no output for `" ++ x.package.name ++ "`")]) }

variable {x} {w w' : World} {outcome : Except Halt (Option Path)} {done : Completion}

theorem makeRoom_ok_iff :
    (makeRoom x.scratch x.package.name x.host.directory).apply t = (.ok ⟨⟩, u) ↔
      x.Prepared t u := by
  constructor
  · intro h
    obtain ⟨_, v, hensure, hremove⟩ := Edit.apply_bind_ok h
    exact ⟨v, hensure, Edit.isDir_of_ensureDir (endsInName_entry _ (by decide)) hensure, hremove,
      Edit.lstat_of_removeFile (Scratch.endsInSlash_snippetGraph ..) hremove⟩
  · rintro ⟨v, hensure, -, hremove, -⟩
    unfold makeRoom
    rw [Edit.apply_bind, hensure]
    exact hremove

/-- **An extraction ends in one of these ways.** -/
theorem ends_act (x : Extraction) (w : World) :
    x.Ends w (x.act.perform x.host w).1 (x.act.perform x.host w).2 := by
  unfold act
  rw [perform_extract]
  by_cases hs : x.sources w.files = []
  · rw [if_pos (by rw [List.isEmpty_iff]; exact hs)]
    exact .idle hs
  rw [if_neg (by rw [List.isEmpty_iff]; exact hs), Work.perform_bind, Act.perform_edit]
  rcases hroom : (makeRoom x.scratch x.package.name x.host.directory).apply w.files with
    ⟨cause | ⟨⟩, u⟩
  · exact .blocked hs hroom
  have hprepared := makeRoom_ok_iff.mp hroom
  have hstarted : w.emissions ++ [.event .info ("Extracting " ++
      toString (x.sources w.files).length ++ " snippet(s) for `" ++ x.package.name ++ "`")] ++
      [.launch (x.command w.files)] = w.emissions ++ x.started w.files := by
    rw [List.append_assoc]
    rfl
  simp only [Except.mapError]
  change x.Ends w ((runFor x.package x.output (x.sources w.files).length (x.command w.files)).perform
    x.host { w with files := u }).1 ((runFor x.package x.output (x.sources w.files).length
      (x.command w.files)).perform x.host { w with files := u }).2
  rw [perform_runFor, Command.perform_check]
  simp only [announced, hstarted]
  rcases hl : (x.command w.files).launch x.host u with cause | done
  · exact .refused hs hprepared hl
  have hruns : x.Runs w.files u done := ⟨hs, hprepared, hl⟩
  simp only
  split_ifs with hstatus
  · unfold Extractor.found
    simp only [Work.perform_bind, Act.perform_files, Act.perform_here]
    split_ifs with hfile
    · exact .found hruns hstatus hfile
    · have hmissing := Ends.missing hruns hstatus (by simpa using hfile)
      rwa [← List.append_assoc] at hmissing
  · exact .failed hruns (by simpa using hstatus)

/-! ### What follows from how it has ended -/

theorem Prepared.unique (h : x.Prepared t u) (h' : x.Prepared t v) : u = v :=
  congrArg Prod.snd ((makeRoom_ok_iff.mpr h).symm.trans (makeRoom_ok_iff.mpr h'))

theorem Runs.unique {done' : Completion} (h : x.Runs t u done) (h' : x.Runs t v done') :
    u = v ∧ done = done' := by
  obtain rfl := h.prepared.unique h'.prepared
  exact ⟨rfl, Except.ok.inj (h.launch.symm.trans h'.launch)⟩

theorem Ends.of_sources (h : x.Ends w outcome w') (hs : x.sources w.files = []) :
    outcome = .ok none ∧ w' = { w with emissions := w.emissions ++
      [.event .debug ("no snippets found for `" ++ x.package.name ++ "`")] } := by
  cases h with
  | idle => exact ⟨rfl, rfl⟩
  | blocked hne => exact absurd hs hne
  | refused hne => exact absurd hs hne
  | failed hruns => exact absurd hs hruns.sources
  | found hruns => exact absurd hs hruns.sources
  | missing hruns => exact absurd hs hruns.sources

/-- How the program has ended decides about the answer. -/
theorem Ends.of_runs (h : x.Ends w outcome w') (hruns : x.Runs w.files u done) :
    w'.files = done.files ∧ ∀ answer, outcome = .ok answer ↔ done.status.succeeded = true ∧
      answer = if done.files.isFile x.host.directory x.output then some x.output else none := by
  cases h with
  | idle hs => exact absurd hs hruns.sources
  | blocked _ hroom => cases hroom.symm.trans (makeRoom_ok_iff.mpr hruns.prepared)
  | refused _ hprepared hl =>
    obtain rfl := hprepared.unique hruns.prepared
    cases hl.symm.trans hruns.launch
  | failed hruns' hstatus =>
    obtain ⟨rfl, rfl⟩ := hruns'.unique hruns
    exact ⟨rfl, fun answer => ⟨nofun, fun h' => by rw [hstatus] at h'; cases h'.1⟩⟩
  | found hruns' hstatus hfile =>
    obtain ⟨rfl, rfl⟩ := hruns'.unique hruns
    exact ⟨rfl, fun answer => by simp [hstatus, hfile, eq_comm]⟩
  | missing hruns' hstatus hfile =>
    obtain ⟨rfl, rfl⟩ := hruns'.unique hruns
    exact ⟨rfl, fun answer => by simp [hstatus, hfile, eq_comm]⟩

/-- The program is started at most once, and only when there is room. -/
theorem Ends.launched (h : x.Ends w outcome w') :
    ∃ told, w'.emissions = w.emissions ++ told ∧ (told.filterMap Emission.launched? = [] ∨
      told.filterMap Emission.launched? = [x.command w.files] ∧ x.sources w.files ≠ [] ∧
        ∃ u, x.Prepared w.files u ∧ w'.files = (x.command w.files).leaves x.host u) := by
  have hleaves : ∀ {u : FileTree} {done : Completion}, x.Runs w.files u done →
      done.files = (x.command w.files).leaves x.host u := by
    intro u done hruns
    rw [Command.leaves, hruns.launch]
  cases h with
  | idle => exact ⟨_, rfl, .inl rfl⟩
  | blocked => exact ⟨[], (List.append_nil _).symm, .inl rfl⟩
  | refused hne hprepared hl =>
    exact ⟨_, rfl, .inr ⟨rfl, hne, _, hprepared, by rw [Command.leaves, hl]⟩⟩
  | failed hruns => exact ⟨_, rfl, .inr ⟨rfl, hruns.sources, _, hruns.prepared, hleaves hruns⟩⟩
  | found hruns => exact ⟨_, rfl, .inr ⟨rfl, hruns.sources, _, hruns.prepared, hleaves hruns⟩⟩
  | missing hruns => exact ⟨_, rfl, .inr ⟨rfl, hruns.sources, _, hruns.prepared, hleaves hruns⟩⟩

/-- A graph is answered just if the program ends well and leaves one. -/
theorem Ends.ok_some_iff (h : x.Ends w outcome w') {graph : Path} :
    outcome = .ok (some graph) ↔ graph = x.output ∧ ∃ u done, x.Runs w.files u done ∧
      done.status.succeeded = true ∧ done.files.isFile x.host.directory graph = true := by
  constructor
  · rintro rfl
    cases h with
    | found hruns hstatus hfile => exact ⟨rfl, _, _, hruns, hstatus, hfile⟩
  · rintro ⟨rfl, u, done, hruns, hstatus, hfile⟩
    rw [(h.of_runs hruns).2, hfile]
    exact ⟨hstatus, rfl⟩

/-- There is no graph just if there are no snippets, or the program ends well and leaves none. -/
theorem Ends.ok_none_iff (h : x.Ends w outcome w') :
    outcome = .ok none ↔ x.sources w.files = [] ∨ ∃ u done, x.Runs w.files u done ∧
      done.status.succeeded = true ∧ done.files.isFile x.host.directory x.output = false := by
  constructor
  · rintro rfl
    cases h with
    | idle hs => exact .inl hs
    | missing hruns hstatus hfile => exact .inr ⟨_, _, hruns, hstatus, hfile⟩
  · rintro (hs | ⟨u, done, hruns, hstatus, hfile⟩)
    · exact (h.of_sources hs).1
    · rw [(h.of_runs hruns).2, hfile]
      exact ⟨hstatus, rfl⟩

theorem Ends.error (h : x.Ends w outcome w') {halt : Halt} (he : outcome = .error halt) :
    ∃ failure, halt = .failed failure := by
  cases h <;> cases he <;> exact ⟨_, rfl⟩

end Extraction

variable {x : Extraction} {s s' : Session} {target : Target} {outcome : Except Halt (Option Path)}

theorem ends_of_ask (hnew : s.snippetGraphs.lookup x.package.name = none)
    (hask : ((ofProgram x.program x.directory x.scratch).ask x.package target).perform x.host s =
      (outcome, s')) : x.Ends s.toWorld outcome s'.toWorld := by
  have hact : ((((ofProgram x.program x.directory x.scratch).ask x.package target).perform
      x.host s).1, (((ofProgram x.program x.directory x.scratch).ask x.package target).perform
      x.host s).2.toWorld) = x.act.perform x.host s.toWorld :=
    extract_of_new hnew (q := ⟨x.host, s, x.package, target⟩)
  have hends := x.ends_act s.toWorld
  rwa [← hact, hask] at hends

/-- **What decides about an answer that is not kept from before.**

* The snippets are the files below their directory, in ascending order. If there are none, there is no
  graph, the program is not started, and the files are left alone.
* The program is started once at most: with the snippets for its last arguments, and after the
  directory of the snippet graphs has been made and nothing has been left in the place of the graph.
  The files are then as the program leaves them.
* The answer is a graph just if the program ends well and then there is a file, or a link to one, in
  the place of the graph. There is no graph just if there are no snippets, or if the program ends
  well and there is no such file. All else is a failure.
* A graph that is answered is new, if its directory was there before the program ran, and still is:
  then there was nothing by its name, and now there is. -/
theorem ask_of_new (hnew : s.snippetGraphs.lookup x.package.name = none)
    (hask : ((ofProgram x.program x.directory x.scratch).ask x.package target).perform x.host s =
      (outcome, s')) :
    (s.files.Lists x.host.directory (x.package.root.entry x.directory) (x.sources s.files) ∧
      (x.sources s.files = [] → outcome = .ok none ∧ s'.files = s.files ∧
        s'.emissions = s.emissions ++
          [.event .debug ("no snippets found for `" ++ x.package.name ++ "`")])) ∧
    ((∃ told, s'.emissions = s.emissions ++ told ∧ (told.filterMap Emission.launched? = [] ∨
        told.filterMap Emission.launched? = [x.command s.files] ∧ x.sources s.files ≠ [] ∧
          ∃ u, x.Prepared s.files u ∧ s'.files = (x.command s.files).leaves x.host u)) ∧
      (x.command s.files).arguments = ["--output", x.output.text, "--module-name", x.package.name] ++
        (x.sources s.files).map Path.text) ∧
    ((∀ graph, outcome = .ok (some graph) ↔ graph = x.output ∧ ∃ u done, x.Runs s.files u done ∧
        done.status.succeeded = true ∧ done.files.isFile x.host.directory graph = true) ∧
      (outcome = .ok none ↔ x.sources s.files = [] ∨ ∃ u done, x.Runs s.files u done ∧
        done.status.succeeded = true ∧ done.files.isFile x.host.directory x.output = false) ∧
      ∀ halt, outcome = .error halt → ∃ failure, halt = .failed failure) ∧
    ∀ graph, outcome = .ok (some graph) → ∃ u done, x.Runs s.files u done ∧ s'.files = done.files ∧
      ∀ dir name d, graph = dir.entry name → isName name = true →
        u.resolve x.host.directory dir = .ok d → u.get? d = some .directory →
        s'.files.resolve x.host.directory dir = .ok d → s'.files.get? d = some .directory →
        u.get? (d ++ [name]) = none ∧ s'.files.get? (d ++ [name]) ≠ none := by
  have hends := ends_of_ask hnew hask
  refine ⟨⟨lists_listFiles .., fun hs => ?_⟩, ⟨hends.launched, rfl⟩,
    ⟨fun graph => hends.ok_some_iff, hends.ok_none_iff, fun halt he => hends.error he⟩,
    fun graph hgraph => ?_⟩
  · obtain ⟨hnone, hworld⟩ := hends.of_sources hs
    exact ⟨hnone, by rw [hworld], by rw [hworld]⟩
  · obtain ⟨rfl, u, done, hruns, -, hfile⟩ := hends.ok_some_iff.mp hgraph
    have hfiles := (hends.of_runs hruns).1
    refine ⟨u, done, hruns, hfiles, ?_⟩
    rintro dir name d hpath hname hu hud hv hvd
    obtain ⟨-, -, -, -, hnone⟩ := hruns.prepared
    rw [hpath] at hnone hfile
    exact new_of_isFile hname hnone hu hud hv hvd (by rw [hfiles]; exact hfile)

/-- An extraction for the small package. -/
def smallExtraction (host : Host) : Extraction where
  program := ⟨"/t"⟩
  directory := "Snippets"
  scratch := ⟨⟨"/g"⟩⟩
  package := { smallPackage with root := ⟨"/"⟩ }
  host := host

/-- The directory of its snippet graphs. -/
def graphsPlace : Place :=
  ["g", "symbol-graphs", "snippet-symbol-graphs"]

/-- A tree with a program, a snippet, and a graph of an earlier run. -/
def earlierFiles : FileTree :=
  let t := (FileTree.empty.putAt ["t"] (.file .empty true)).putAt ["Snippets"] .directory
  (graphsPlace.inits.foldl (fun t p => t.putAt p .directory)
    (t.putAt ["Snippets", "s"] (.file .empty false))).putAt
      (graphsPlace ++ [Scratch.snippetName "p"]) (.file .empty true)

/-- An answer is asked for there. -/
def earlierRun (host : Host) : Except Halt (Option Path) × Session :=
  let x := smallExtraction host
  ((ofProgram x.program x.directory x.scratch).ask x.package
    { name := "a", id := "i", kind := .sourceModule .library }).perform host
    { files := earlierFiles }

/-- The graph of the earlier run is not there when the program starts. -/
theorem ask_of_new_earlier : ∃ graph s' u,
    earlierRun (writerHost .empty "") = (.ok (some graph), s') ∧
    earlierFiles.get? (graphsPlace ++ [Scratch.snippetName "p"]) = some (.file .empty true) ∧
    (smallExtraction (writerHost .empty "")).Prepared earlierFiles u ∧
    u.get? (graphsPlace ++ [Scratch.snippetName "p"]) = none ∧
    s'.files.get? (graphsPlace ++ [Scratch.snippetName "p"]) ≠ none := by
  -- the directory of the graph is in its place, after the run and before the program starts
  have hafter : (earlierRun (writerHost .empty "")).1.toOption =
      some (some (smallExtraction (writerHost .empty "")).output) ∧
    ((earlierRun (writerHost .empty "")).2.files.resolve [] (⟨⟨"/g"⟩⟩ : Scratch).snippetGraphs).toOption =
      some graphsPlace ∧
    (earlierRun (writerHost .empty "")).2.files.get? graphsPlace = some .directory := by
    decide +kernel
  have hbefore : ∀ u, (smallExtraction (writerHost .empty "")).Prepared earlierFiles u →
      (u.resolve [] (⟨⟨"/g"⟩⟩ : Scratch).snippetGraphs).toOption = some graphsPlace ∧
        u.get? graphsPlace = some .directory := by
    intro u hu
    have hroom : u = ((makeRoom ⟨⟨"/g"⟩⟩ "p" []).apply earlierFiles).2 :=
      (congrArg Prod.snd (Extraction.makeRoom_ok_iff.mpr hu)).symm
    rw [hroom]
    decide +kernel
  rcases hrun : earlierRun (writerHost .empty "") with ⟨halt | answer, s'⟩ <;>
    rw [hrun] at hafter <;> obtain ⟨hanswer, hresolve, hd⟩ := hafter
  · cases hanswer
  cases hanswer
  have hname : isName (Scratch.snippetName "p") = true := by decide
  obtain ⟨-, -, -, hnew⟩ := ask_of_new (x := smallExtraction (writerHost .empty "")) rfl hrun
  obtain ⟨u, done, hruns, -, hdir⟩ := hnew _ rfl
  obtain ⟨hu, hud⟩ := hbefore u hruns.prepared
  obtain ⟨hnone, hthere⟩ :=
    hdir _ _ _ rfl hname (eq_ok_of_toOption hu) hud (eq_ok_of_toOption hresolve) hd
  exact ⟨_, s', u, rfl, by decide +kernel, hruns.prepared, hnone, hthere⟩

/-- A program that ends well and leaves nothing has no graph for an answer, although an earlier run
has left one. -/
example : (earlierRun { bareHost with
    program? := fun _ => some fun _ t => { files := t, status := .exited 0 } }).1.toOption =
      some none := by
  decide +kernel

end Extractor

end SymbolDocs
