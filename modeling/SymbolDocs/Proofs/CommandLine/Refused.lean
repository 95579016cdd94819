import SymbolDocs.CommandLine
import SymbolDocs.Proofs.Batch.Pipeline
import SymbolDocs.Proofs.CommandLine.Messages

/-! # Selections that are refused

A selection that stands for no targets ends the work before anything is done, in a batch
(`perform_run_of_error`) and in the command that documents a selection (`perform_generate_of_error`),
which looks the selection up on its own before it reads settings or looks for tools. What is left is
what has been told by then: which manifest is used, and which products were expanded. Both are
details, which are shown only if they are asked for (`stderr_details`). -/

namespace SymbolDocs

open Work

/-- An event about details. -/
def Emission.IsDetail (e : Emission) : Prop :=
  ∃ text, e = .event .debug text

/-- A text is read from its own bytes. -/
theorem Text.decode?_encode (text : String) : decode? (encode text) = some text :=
  dif_pos text.isValidUTF8

namespace Act

/-- Reading a text changes nothing. -/
theorem perform_readText_snd (attempt : Attempt) (path : Path) (host : Host) (w : World) :
    ((readText attempt path).perform host w).2 = w := by
  unfold readText
  rw [perform_bind, perform_files]
  simp only
  rw [perform_bind, perform_here]
  simp only
  rcases w.files.read host.directory path with cause | bytes
  · rfl
  · simp only
    rcases Text.decode? bytes with _ | text <;> rfl

end Act

namespace Workspace

/-- Reading a workspace changes nothing. -/
theorem perform_load_snd (manifest : Path) (host : Host) (w : World) :
    ((load manifest).perform host w).2 = w := by
  have hread := Act.perform_readText_snd (.readManifest manifest) manifest host w
  unfold load loadPackage loadManifest
  rw [perform_bind, perform_bind, perform_bind]
  rcases hx : (Act.readText (.readManifest manifest) manifest).perform host w with
    ⟨halt | text, w1⟩ <;> rw [hx] at hread <;> obtain rfl := hread
  · rfl
  simp only [perform_inside, perform_ofExcept]
  rcases Manifest.parse text with e | m
  · rfl
  simp only [Except.mapError, outcomeInside]
  rcases m.toPackage (rootOf manifest) with e | package <;> rfl

end Workspace

namespace CommandLine

open Batch

/-! ### What is told -/

/-- The event that names the manifest. -/
def manifestEvent (path : Path) : Emission :=
  .event .debug ("using manifest " ++ path.text)

/-- The manifest that is asked for, or else the nearest one. -/
def usedManifest (manifest : Option Path) (host : Host) (files : FileTree) : Option Path :=
  manifest <|> Workspace.firstManifest files host.directory host.directory.path.ancestors

theorem findManifest_ok {start path : Path} {host : Host} {w w' : World}
    (h : (Workspace.findManifest start).perform host w = (.ok path, w')) :
    Workspace.firstManifest w.files host.directory start.ancestors = some path ∧ w' = w := by
  unfold Workspace.findManifest at h
  rw [perform_bind, Act.perform_files] at h
  simp only at h
  rw [perform_bind, Act.perform_here] at h
  simp only at h
  rcases hfirst : Workspace.firstManifest w.files host.directory start.ancestors with _ | p <;>
    rw [hfirst] at h <;> cases h
  exact ⟨rfl, rfl⟩

/-- It is told which manifest is opened, and nothing else changes. -/
theorem openManifest_ok {path : Path} {host : Host} {w w' : World} {ws : Workspace}
    (h : (Act.log .debug ("using manifest " ++ path.text) >>= fun _ =>
      Workspace.load path).perform host w = (.ok ws, w')) :
    w' = { w with emissions := w.emissions ++ [manifestEvent path] } := by
  rw [perform_bind, Act.perform_log] at h
  simp only at h
  have hsame := Workspace.perform_load_snd path host
    { w with emissions := w.emissions ++ [manifestEvent path] }
  rw [manifestEvent] at hsame ⊢
  rwa [h] at hsame

/-- A workspace that is opened is that of the manifest to be used. -/
theorem openWorkspace_ok {manifest : Option Path} {host : Host} {w w' : World} {ws : Workspace}
    (h : (openWorkspace manifest).perform host w = (.ok ws, w')) :
    ∃ path, usedManifest manifest host w.files = some path ∧
      w' = { w with emissions := w.emissions ++ [manifestEvent path] } := by
  unfold openWorkspace at h
  rcases manifest with _ | path
  · simp only at h
    obtain ⟨_, _, hhere, hrest⟩ := perform_bind_ok h
    cases hhere
    obtain ⟨path, w1, hfind, hload⟩ := perform_bind_ok hrest
    obtain ⟨hfirst, rfl⟩ := findManifest_ok hfind
    exact ⟨path, by simpa [usedManifest] using hfirst, openManifest_ok hload⟩
  · simp only [pure_bind] at h
    exact ⟨path, rfl, openManifest_ok h⟩

/-- Details appear on the second output just if they are asked for, and never on the first. -/
theorem stderr_details {display : Display} (hquiet : display.verbose = false)
    {emissions : List Emission} (h : ∀ e ∈ emissions, e.IsDetail) :
    display.stderr emissions = "" := by
  unfold Display.stderr
  have hnone : emissions.map display.onStderr = emissions.map fun _ => "" := by
    refine List.map_congr_left fun e he => ?_
    obtain ⟨text, rfl⟩ := h e he
    simp [Display.onStderr, Emission.logged?, Display.eventLine, Display.shows, hquiet]
  rw [hnone]
  clear hnone h
  induction emissions with
  | nil => rfl
  | cons e l ih => simpa [String.join] using ih

theorem stdout_details {emissions : List Emission} (h : ∀ e ∈ emissions, e.IsDetail) :
    Display.stdout emissions = "" := by
  refine stdout_silent fun e he text => ?_
  obtain ⟨text', rfl⟩ := h e he
  exact nofun

/-- What has been told when a selection is refused. -/
def refusalEvents (path : Path) (package : Package) (selection : Selection) : List Emission :=
  manifestEvent path :: expansionEvents package selection

theorem isDetail_of_mem_refusalEvents {path : Path} {package : Package} {selection : Selection}
    {e : Emission} (h : e ∈ refusalEvents path package selection) : e.IsDetail := by
  rcases List.mem_cons.mp h with rfl | h
  · exact ⟨_, rfl⟩
  · obtain ⟨line, -, rfl⟩ := List.mem_map.mp h
    exact ⟨line, rfl⟩

/-! ### The command -/

/-- Documenting a selection that is refused ends when the workspace is open. -/
theorem perform_generate_of_error {manifest : Option Path} {host : Host} {w w' : World}
    {ws : Workspace} {options : GenerateOptions} {e : SelectionError}
    (hopen : (openWorkspace manifest).perform host w = (.ok ws, w'))
    (h : options.selection.resolveOrDefault ws.package = .error e) (colour : Bool) :
    ∃ path, usedManifest manifest host w.files = some path ∧
      (generate manifest colour options).perform host w =
        (.error (.failed { cause := .selection e }),
          { w with emissions := w.emissions ++
              refusalEvents path ws.package options.selection }) := by
  obtain ⟨path, hused, rfl⟩ := openWorkspace_ok hopen
  refine ⟨path, hused, ?_⟩
  unfold generate
  rw [perform_bind, hopen]
  simp only
  rw [perform_bind, perform_select, h]
  simp [Except.mapError, refusalEvents, expansionEvents]

/-- **A selection that is refused leaves everything as it is.** If a selection stands for no targets
of a workspace, for the reason `e`:
* A batch ends with just this error, whatever the generator and the extractor are and whatever has
  gone before. All that is left of it in the session is what is told about products: no call of the
  generator, no kept snippet graph, no lock taken and no file.
* The command that documents the selection ends with just this error when the workspace is open.
* The program ends with the number one, has shown nothing on the first output and the diagnostic of
  the error on the second one, after details if these are asked for; and the files are as they were.
The host, with its programs, its search path and its home, and the files, with the settings in them,
matter only in that the workspace is found. -/
theorem refused_of_error {ws : Workspace} {selection : Selection} {e : SelectionError}
    (h : selection.resolveOrDefault ws.package = .error e) :
    (∀ (generator : Generator) (extractor : Option Extractor) (request : Request) (host : Host)
        (s : Session), request.selection = selection →
      (Batch.run ws generator extractor request).perform host s =
        (.error (.failed { cause := .selection e }),
          { s with emissions := s.emissions ++ expansionEvents ws.package selection })) ∧
    (∀ (manifest : Option Path) (colour : Bool) (options : GenerateOptions) (host : Host)
        (w w' : World), options.selection = selection →
      (openWorkspace manifest).perform host w = (.ok ws, w') →
      ∃ path, usedManifest manifest host w.files = some path ∧
        (generate manifest colour options).perform host w =
          (.error (.failed { cause := .selection e }),
            { w with emissions := w.emissions ++ refusalEvents path ws.package selection })) ∧
    (∀ (arguments : List String) (a : Arguments) (options : GenerateOptions) (host : Host)
        (files : FileTree) (w' : World), Arguments.parse arguments = .ok a →
      a.task = .generate options → options.selection = selection →
      (openWorkspace a.manifest).perform host { files } = (.ok ws, w') →
      ∃ path, usedManifest a.manifest host files = some path ∧
        invoke host files arguments =
          ({ exitCode := 1
             stdout := ""
             stderr := ({ verbose := a.verbose, colour := a.colour } : Display).stderr
                 (refusalEvents path ws.package selection) ++ e.diagnostic.format a.colour },
            files) ∧
        (a.verbose = false →
          (invoke host files arguments).1.stderr = e.diagnostic.format a.colour)) := by
  refine ⟨?_, ?_, ?_⟩
  · rintro generator extractor request host s rfl
    exact perform_run_of_error h generator extractor host s
  · rintro manifest colour options host w w' rfl hopen
    exact perform_generate_of_error hopen h colour
  · rintro arguments ⟨verbose, colour, manifest, task⟩ options host files w' hparse htask rfl hopen
    obtain rfl : task = .generate options := htask
    obtain ⟨path, hused, hgenerate⟩ := perform_generate_of_error hopen h colour
    have hinvoke : invoke host files arguments =
        ({ exitCode := 1
           stdout := ""
           stderr := ({ verbose, colour } : Display).stderr
               (refusalEvents path ws.package options.selection) ++ e.diagnostic.format colour },
          files) := by
      have hstdout : Display.stdout (refusalEvents path ws.package options.selection) = "" :=
        stdout_details fun _ => isDetail_of_mem_refusalEvents
      unfold invoke
      rw [hparse]
      simp only [perform]
      rw [hgenerate]
      simp only [List.nil_append, transcript, hstdout]
      rfl
    refine ⟨path, hused, hinvoke, fun hverbose => ?_⟩
    rw [hinvoke]
    simp only
    rw [stderr_details hverbose fun _ => isDetail_of_mem_refusalEvents, String.empty_append]

/-- A directory with the manifest `smallText` and nothing else. -/
def smallFiles : FileTree :=
  FileTree.empty.put [] manifestName (.file (Text.encode smallText) false)

/-- The package of `smallFiles`. -/
def smallWorkspace : Workspace :=
  ⟨{ smallPackage with root := ⟨"."⟩ }⟩

/-- Arguments that ask for a target that the manifest does not declare. -/
def strangeArguments : List String :=
  ["--no-color", "--manifest-path", "Graphdoc.toml", "generate", "--target", "x"]

theorem open_smallFiles :
    ∃ w, (openWorkspace (some ⟨"Graphdoc.toml"⟩)).perform bareHost { files := smallFiles } =
      (.ok smallWorkspace, w) := by
  have hread : smallFiles.read [] ⟨"Graphdoc.toml"⟩ = .ok (Text.encode smallText) := rfl
  have hpackage : smallManifest.toPackage (Workspace.rootOf ⟨"Graphdoc.toml"⟩) =
      .ok smallWorkspace.package :=
    eq_ok_of_toOption (by decide +kernel)
  unfold openWorkspace Workspace.load Workspace.loadPackage Workspace.loadManifest Act.readText
  simp [perform_bind, bareHost, hread, Text.decode?_encode, parse_smallText, hpackage,
    Except.mapError, outcomeInside]
  rfl

theorem refused_of_error_strange :
    ({ targets := ["x"] } : Selection).resolveOrDefault smallWorkspace.package =
        .error (.unknownTarget "x" ["a"]) ∧
      invoke bareHost smallFiles strangeArguments =
        ({ exitCode := 1
           stderr := (SelectionError.unknownTarget "x" ["a"]).diagnostic.format false },
          smallFiles) := by
  obtain ⟨w, hopen⟩ := open_smallFiles
  have hparse : ∃ options, Arguments.parse strangeArguments = .ok
      { colour := false, manifest := some ⟨"Graphdoc.toml"⟩, task := .generate options } ∧
      options.selection = { targets := ["x"] } :=
    ⟨_, rfl, rfl⟩
  obtain ⟨options, hparse, hselection⟩ := hparse
  have herror : ({ targets := ["x"] } : Selection).resolveOrDefault smallWorkspace.package =
      .error (.unknownTarget "x" ["a"]) := rfl
  obtain ⟨path, -, hinvoke, hquiet⟩ := (refused_of_error herror).2.2
    strangeArguments _ options bareHost smallFiles w hparse rfl hselection hopen
  have hstderr := hquiet rfl
  rw [hinvoke] at hstderr
  simp only at hstderr
  refine ⟨herror, ?_⟩
  rw [hinvoke, hstderr]

end CommandLine

end SymbolDocs
