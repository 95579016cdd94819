import SymbolDocs.Extractor
import SymbolDocs.Generator
import SymbolDocs.Proofs.Emissions
import SymbolDocs.Proofs.Scratch.Directories
import SymbolDocs.Workspace

/-! # What paths mean to programs

Programs are started in the package's directory and are told paths that start where the manifest's
path starts. What they are told means for them what it means here if the manifest's path is
absolute, or names the manifest in the current directory (`Path.asHere_iff`,
`Workspace.rootOf_nearby`); `told_as_here_iff` says so of all paths that the generator and the
extractor are told. -/

namespace SymbolDocs

namespace Path

theorem text_ne_of_isAbsolute {p : Path} (h : p.isAbsolute = true) : p.text ≠ "" := by
  obtain ⟨cs, hcs⟩ := isAbsolute_iff.mp h
  intro he
  rw [he] at hcs
  cases hcs

/-- To a program in the directory `dir`, an argument means what `p` means in the directory `cwd`. -/
def AsHere (cwd dir : Path) (argument : String) (p : Path) : Prop :=
  ((cwd.join dir).join ⟨argument⟩).Same (cwd.join p)

/-- A path that is handed on as it is means the same there if it is absolute, or if there is here.
-/
theorem asHere_iff {cwd dir p : Path} (hcwd : cwd.isAbsolute = true)
    (h : dir.isAbsolute = true → p.isAbsolute = true) :
    AsHere cwd dir p.text p ↔ p.isAbsolute = true ∨ dir.inner = [] := by
  unfold AsHere Same
  by_cases hp : p.isAbsolute = true
  · rw [join_of_isAbsolute hp, join_of_isAbsolute hp]
    simp [hp]
  · have hd : dir.isAbsolute = false := by
      rw [Bool.eq_false_iff]
      exact fun hd => hp (h hd)
    have hp' : p.isAbsolute = false := by simpa using hp
    have hjoin : (cwd.join dir).text ≠ "" :=
      text_ne_of_isAbsolute ((isAbsolute_join hd).trans hcwd)
    rw [components_join hp' hjoin, components_join hd (text_ne_of_isAbsolute hcwd),
      components_join hp' (text_ne_of_isAbsolute hcwd), List.append_assoc,
      List.append_cancel_left_eq]
    simp [hp']

end Path

/-! ### The root of a workspace -/

/-- The manifest lies in the current directory, or its path does not depend on that. -/
def Nearby (manifest : Path) : Prop :=
  manifest.isAbsolute = true ∨ manifest.inner.length ≤ 1

namespace Workspace

/-- What the directory of a manifest has in common with the manifest's path. -/
theorem rootOf_nearby (manifest : Path) :
    (rootOf manifest).isAbsolute = true ∨ (rootOf manifest).inner = [] ↔ Nearby manifest := by
  have hdot : (⟨"."⟩ : Path).inner = [] := by decide
  unfold rootOf Nearby
  rcases manifest.parent_cases with ⟨q, hq, habs, hinner⟩ | ⟨hq, hinner⟩
  · rw [hq, ← habs]
    simp only
    have hlength : q.inner = [] ↔ manifest.inner.length ≤ 1 := by
      rw [hinner, ← List.length_eq_zero_iff, List.length_dropLast]
      omega
    split_ifs with htext
    · have hq' : q = ⟨""⟩ := by
        rcases q with ⟨t⟩
        simpa using htext
      rw [hdot, ← hlength, hq']
      simp [Path.inner, Path.segments, Path.Component.ofSegment?]
    · rw [hlength]
  · rw [hq, hinner]
    simp [hdot]

theorem load_ok {manifest : Path} {host : Host} {w w' : World} {ws : Workspace}
    (h : (load manifest).perform host w = (.ok ws, w')) : ws.root = rootOf manifest := by
  unfold load loadPackage at h
  obtain ⟨package, w1, h1, h⟩ := Work.perform_bind_ok h
  obtain ⟨m, w2, -, h2⟩ := Work.perform_bind_ok h1
  cases h
  rw [Work.perform_ofExcept] at h2
  rcases hp : m.toPackage (rootOf manifest) with e | package' <;> rw [hp] at h2
  · cases h2
  · cases h2
    exact (Manifest.toPackage_ok hp).2.2

end Workspace

/-! ### What programs are told -/

/-- The value after a flag, where flags and values take turns. -/
def flagValue? (flag : String) : List String → Option String
  | f :: value :: rest => if f = flag then some value else flagValue? flag rest
  | _ => none

namespace Generator

variable {host : Host} {w w' : World} {program : Path} {scratch : Scratch}
  {capabilities : Capabilities} {package : Package} {target : Target} {options : GraphOptions}

theorem tells_ofProgram :
    (ofProgram program scratch capabilities package target options).Tells
      (· = .launch (command program capabilities package target options
        (scratch.targetGraphs target))) := by
  unfold ofProgram
  refine (Act.Tells.edit _).bind fun _ => ?_
  refine (Act.Tells.inside _ (Command.tells_check ?_)).bind fun _ => Act.Tells.pure _
  rfl

/-- What the program's generator answers has been emptied before. -/
theorem ofProgram_ok {dir : Path}
    (h : (ofProgram program scratch capabilities package target options).perform host w =
      (.ok dir, w')) :
    dir = scratch.targetGraphs target ∧
      ∃ u, (Edit.resetDir host.directory dir).apply w.files = (.ok ⟨⟩, u) := by
  unfold ofProgram at h
  obtain ⟨_, w1, h1, h⟩ := Work.perform_bind_ok h
  obtain ⟨_, w2, -, h⟩ := Work.perform_bind_ok h
  obtain ⟨u, hreset, -⟩ := Act.perform_edit_ok h1
  cases h
  exact ⟨rfl, u, hreset⟩

end Generator

namespace Extractor

variable {host : Host} {w w' : World} {program : Path} {directory : String} {scratch : Scratch}
  {package : Package}

@[simp] theorem perform_sources :
    (sources directory package).perform host w =
      (.ok (w.files.listFiles host.directory (package.root.entry directory)), w) := rfl

/-- An event, or the start of a certain command. -/
def EventOrLaunch (c : Command) (e : Emission) : Prop :=
  (∃ level text, e = .event level text) ∨ e = .launch c

/-- The extractor tells events of little importance, and that it starts its program with the sources
that are there at first. -/
theorem extract_adds {P : Emission → Prop} (hdebug : ∀ text, P (.event .debug text))
    (hinfo : ∀ text, P (.event .info text))
    (hlaunch : P (.launch (command program package (scratch.snippetGraph package.name)
      (w.files.listFiles host.directory (package.root.entry directory))))) :
    Adds P w.emissions ((extract program directory scratch package).perform host w).2.emissions := by
  unfold extract
  rw [Work.perform_bind, perform_sources]
  simp only
  generalize w.files.listFiles host.directory (package.root.entry directory) = files at hlaunch ⊢
  refine (?_ : Act.Tells P _) host w
  split
  · exact (Act.Tells.log (hdebug _)).bind fun _ => Act.Tells.pure _
  · refine (Act.Tells.edit _).bind fun _ => (Act.Tells.log (hinfo _)).bind fun _ =>
      (Act.Tells.inside _ (Command.tells_check hlaunch)).bind fun _ =>
      Act.Tells.files.bind fun t => Act.Tells.here.bind fun base => ?_
    split
    · exact Act.Tells.pure _
    · exact (Act.Tells.log (hdebug _)).bind fun _ => Act.Tells.pure _

/-- The extractor starts one command at most. -/
theorem launched_extract {c : Command}
    (h : .launch c ∈ ((extract program directory scratch package).perform host w).2.emissions) :
    .launch c ∈ w.emissions ∨ c = command program package (scratch.snippetGraph package.name)
      (w.files.listFiles host.directory (package.root.entry directory)) := by
  have hevent : ∀ d level text, EventOrLaunch d (.event level text) :=
    fun _ level text => Or.inl ⟨level, text, rfl⟩
  refine (Adds.mem (extract_adds (fun text => hevent _ .debug text)
    (fun text => hevent _ .info text) (Or.inr rfl)) h).imp_right ?_
  rintro (⟨level, text, he⟩ | he)
  · cases he
  · cases he; rfl

theorem extract_ok {output : Path}
    (h : (extract program directory scratch package).perform host w = (.ok (some output), w')) :
    output = scratch.snippetGraph package.name ∧ w'.files.isFile host.directory output = true := by
  unfold extract at h
  rw [Work.perform_bind, perform_sources] at h
  simp only at h
  split at h
  · obtain ⟨_, _, -, h⟩ := Work.perform_bind_ok h
    cases h
  · obtain ⟨_, _, -, h⟩ := Work.perform_bind_ok h
    obtain ⟨_, _, -, h⟩ := Work.perform_bind_ok h
    obtain ⟨_, _, -, h⟩ := Work.perform_bind_ok h
    obtain ⟨t, w1, h1, h⟩ := Work.perform_bind_ok h
    obtain ⟨base, w2, h2, h⟩ := Work.perform_bind_ok h
    cases h1
    cases h2
    split at h
    · rename_i hfile
      cases h
      exact ⟨rfl, hfile⟩
    · obtain ⟨_, _, -, h⟩ := Work.perform_bind_ok h
      cases h

end Extractor

/-! ### Listed files -/

namespace FileTree

theorem isAbsolute_of_mem_listFiles {t : FileTree} {base : Place} {root p : Path}
    (h : p ∈ t.listFiles base root) : p.isAbsolute = root.isAbsolute := by
  unfold listFiles at h
  rcases hr : t.resolve base root with e | place <;> rw [hr] at h
  · cases h
  simp only at h
  split at h
  · obtain ⟨⟨names, e⟩, hmem, hp⟩ := List.mem_filterMap.mp h
    obtain ⟨⟨q, d⟩, hq, hnames⟩ := List.mem_filterMap.mp hmem
    rcases e with _ | ⟨content, executable⟩ | target <;> simp only at hp
    · cases hp
    · split at hp
      · cases hp
      · cases hp
        refine Path.isAbsolute_below fun name hname => t.named q d hq name ?_
        split at hnames
        · cases hnames
          exact List.mem_of_mem_drop hname
        · cases hnames
    · cases hp
  · cases h

end FileTree

/-! ### There and here -/

/-- What the generator's program is told about the places of a target, and what becomes of it there.
-/
structure GeneratorTold (cwd : Path) (ws : Workspace) (near : Prop) (target : Target)
    (c : Command) : Prop where
  place : c.directory = some ws.root
  package : ∃ a, flagValue? "--package-path" c.arguments = some a ∧
    (Path.AsHere cwd ws.root a ws.root ↔ near)
  output : ∃ a, flagValue? "--output-dir" c.arguments = some a ∧
    (Path.AsHere cwd ws.root a (ws.scratch.targetGraphs target) ↔
      near ∨ (⟨target.dirName⟩ : Path).isAbsolute = true)

/-- What the extractor's program is told about its output and about the files that are listed in
`directory`, and what becomes of it there. -/
structure ExtractorTold (cwd : Path) (ws : Workspace) (near : Prop) (directory : String)
    (listed : List Path) (c : Command) : Prop where
  place : c.directory = some ws.root
  output : ∃ a, flagValue? "--output" c.arguments = some a ∧
    (Path.AsHere cwd ws.root a (ws.scratch.snippetGraph ws.package.name) ↔
      near ∨ (⟨ws.package.name ++ "-snippets.symbols.json"⟩ : Path).isAbsolute = true)
  sources : c.arguments.drop 4 = listed.map Path.text
  listed : ∀ p ∈ listed, (Path.AsHere cwd ws.root p.text p ↔
    near ∨ (⟨directory⟩ : Path).isAbsolute = true)

theorem flagValue?_of_ne {flag f value : String} {rest : List String} (h : f ≠ flag) :
    flagValue? flag (f :: value :: rest) = flagValue? flag rest := by
  rw [flagValue?, if_neg h]

theorem flagValue?_self (flag value : String) (rest : List String) :
    flagValue? flag (flag :: value :: rest) = some value := by
  rw [flagValue?, if_pos rfl]

section Told

variable {manifest : Path} {host : Host} {w w' : World} {ws : Workspace} {cwd : Path}

/-- Something in the workspace means the same there if the manifest is nearby, or if its own name
leads away from the workspace. -/
theorem asHere_iff_nearby (hroot : ws.root = Workspace.rootOf manifest)
    (hcwd : cwd.isAbsolute = true) {p : Path} {away : Bool}
    (hp : p.isAbsolute = (away || ws.root.isAbsolute)) :
    Path.AsHere cwd ws.root p.text p ↔ Nearby manifest ∨ away = true := by
  have habs : ws.root.isAbsolute = true → p.isAbsolute = true := fun h => by
    rw [hp, h, Bool.or_true]
  rw [Path.asHere_iff hcwd habs, hp, Bool.or_eq_true, ← Workspace.rootOf_nearby, ← hroot]
  constructor
  · rintro ((h | h) | h)
    · exact Or.inr h
    · exact Or.inl (Or.inl h)
    · exact Or.inl (Or.inr h)
  · rintro ((h | h) | h)
    · exact Or.inl (Or.inr h)
    · exact Or.inr h
    · exact Or.inl (Or.inl h)

theorem isAbsolute_targetGraphs (ws : Workspace) (target : Target) :
    (ws.scratch.targetGraphs target).isAbsolute =
      ((⟨target.dirName⟩ : Path).isAbsolute || ws.root.isAbsolute) := by
  have h : ∀ s : String, s = "targets" ∨ s = "symbol-graphs" ∨ s = ".graphdoc" →
      (⟨s⟩ : Path).isAbsolute = false := by
    rintro s (rfl | rfl | rfl) <;> decide
  simp [Scratch.targetGraphs, Scratch.symbolGraphs, Workspace.scratch, Config.directoryName,
    Path.isAbsolute_entry, h]

theorem isAbsolute_snippetGraph (ws : Workspace) (name : String) :
    (ws.scratch.snippetGraph name).isAbsolute =
      ((⟨name ++ "-snippets.symbols.json"⟩ : Path).isAbsolute || ws.root.isAbsolute) := by
  have h : ∀ s : String, s = "snippet-symbol-graphs" ∨ s = "symbol-graphs" ∨ s = ".graphdoc" →
      (⟨s⟩ : Path).isAbsolute = false := by
    rintro s (rfl | rfl | rfl) <;> decide
  simp [Scratch.snippetGraph, Scratch.snippetGraphs, Scratch.symbolGraphs, Workspace.scratch,
    Config.directoryName, Path.isAbsolute_entry, h]

theorem generatorTold (hroot : ws.root = Workspace.rootOf manifest) (hcwd : cwd.isAbsolute = true)
    (program : Path) (capabilities : Capabilities) (target : Target) (options : GraphOptions) :
    GeneratorTold cwd ws (Nearby manifest) target (Generator.command program capabilities ws.package
      target options (ws.scratch.targetGraphs target)) where
  place := rfl
  package := by
    refine ⟨_, flagValue?_self _ _ _, ?_⟩
    have h := asHere_iff_nearby (p := ws.root) hroot hcwd (Bool.false_or _).symm
    exact h.trans (or_iff_left (by decide))
  output := by
    refine ⟨_, ?_, asHere_iff_nearby hroot hcwd (isAbsolute_targetGraphs ws target)⟩
    exact (flagValue?_of_ne (by decide)).trans
      ((flagValue?_of_ne (by decide)).trans (flagValue?_self _ _ _))

theorem extractorTold (hroot : ws.root = Workspace.rootOf manifest) (hcwd : cwd.isAbsolute = true)
    (program : Path) (directory : String) (files : FileTree) (base : Place) :
    ExtractorTold cwd ws (Nearby manifest) directory
      (files.listFiles base (ws.root.entry directory))
      (Extractor.command program ws.package (ws.scratch.snippetGraph ws.package.name)
        (files.listFiles base (ws.root.entry directory))) where
  place := rfl
  output := ⟨_, flagValue?_self _ _ _,
    asHere_iff_nearby hroot hcwd (isAbsolute_snippetGraph ws ws.package.name)⟩
  sources := rfl
  listed := fun _ hp => asHere_iff_nearby hroot hcwd
    ((FileTree.isAbsolute_of_mem_listFiles hp).trans (Path.isAbsolute_entry ..))

/-- **Paths mean to the programs what they mean here just if the manifest is nearby.** Whatever the
generator and the extractor of a workspace start, they start in the workspace's directory, with
these paths; a path that a name in the package or in the settings leads away from the workspace
always means the same. The directory that the generator answers is the one that it has emptied and
told the program, and the file that the extractor answers is the one that it has told the program
and then found. -/
theorem told_as_here_iff (hload : (Workspace.load manifest).perform host w = (.ok ws, w'))
    (hcwd : cwd.isAbsolute = true) (program : Path) (v : World) :
    (∀ capabilities target options c,
      .launch c ∈ ((Generator.ofProgram program ws.scratch capabilities ws.package target
        options).perform host v).2.emissions →
      .launch c ∈ v.emissions ∨ GeneratorTold cwd ws (Nearby manifest) target c) ∧
    (∀ capabilities target options dir v',
      (Generator.ofProgram program ws.scratch capabilities ws.package target options).perform host
        v = (.ok dir, v') →
      dir = ws.scratch.targetGraphs target ∧
        ∃ u, (Edit.resetDir host.directory dir).apply v.files = (.ok ⟨⟩, u)) ∧
    (∀ directory c,
      .launch c ∈ ((Extractor.extract program directory ws.scratch ws.package).perform host
        v).2.emissions →
      .launch c ∈ v.emissions ∨ ExtractorTold cwd ws (Nearby manifest) directory
        (v.files.listFiles host.directory (ws.root.entry directory)) c) ∧
    (∀ directory output v',
      (Extractor.extract program directory ws.scratch ws.package).perform host v =
        (.ok (some output), v') →
      output = ws.scratch.snippetGraph ws.package.name ∧
        v'.files.isFile host.directory output = true) := by
  have hroot := Workspace.load_ok hload
  refine ⟨fun capabilities target options c h => ?_, fun _ _ _ _ _ h => Generator.ofProgram_ok h,
    fun directory c h => ?_, fun _ _ _ h => Extractor.extract_ok h⟩
  · refine (Adds.mem (Generator.tells_ofProgram host v) h).imp_right fun hc => ?_
    cases hc
    exact generatorTold hroot hcwd program capabilities target options
  · refine (Extractor.launched_extract h).imp_right fun hc => ?_
    subst hc
    exact extractorTold hroot hcwd program directory v.files host.directory

end Told

/-- A manifest in a directory `d`. -/
def deepFiles : FileTree :=
  (FileTree.empty.putAt ["d"] .directory).putAt ["d", "m"] (.file smallText.toUTF8 false)

/-- The workspace of that manifest. -/
def deepWorkspace : Workspace :=
  ⟨{ smallPackage with root := ⟨"d"⟩ }⟩

theorem load_deepWorkspace : ∃ w',
    (Workspace.load ⟨"d/m"⟩).perform bareHost { files := deepFiles } = (.ok deepWorkspace, w') := by
  have h : ((Workspace.load ⟨"d/m"⟩).perform bareHost { files := deepFiles }).1.toOption =
    some deepWorkspace := by decide +kernel
  exact ⟨_, Prod.ext (eq_ok_of_toOption h) rfl⟩

/-- Called for a manifest in the directory `d` below, the generator's program is told to write
elsewhere than where its graphs are then looked for. -/
theorem told_elsewhere : ∃ c,
    .launch c ∈ ((Generator.ofProgram ⟨"x"⟩ deepWorkspace.scratch {} deepWorkspace.package
      ⟨"a", "i", .sourceModule .library, {}⟩ default).perform bareHost
        { files := deepFiles }).2.emissions ∧
    ∃ a, flagValue? "--output-dir" c.arguments = some a ∧
      ¬ Path.AsHere ⟨"/"⟩ deepWorkspace.root a
        (deepWorkspace.scratch.targetGraphs ⟨"a", "i", .sourceModule .library, {}⟩) := by
  obtain ⟨w', hload⟩ := load_deepWorkspace
  obtain ⟨htold, -⟩ := told_as_here_iff hload (show (⟨"/"⟩ : Path).isAbsolute = true by decide)
    ⟨"x"⟩ { files := deepFiles }
  have hne : ((Generator.ofProgram ⟨"x"⟩ deepWorkspace.scratch {} deepWorkspace.package
      ⟨"a", "i", .sourceModule .library, {}⟩ default).perform bareHost
        { files := deepFiles }).2.emissions ≠ [] := by decide +kernel
  obtain ⟨e, he⟩ := List.exists_mem_of_ne_nil _ hne
  have hlaunch := (Adds.mem (Generator.tells_ofProgram bareHost { files := deepFiles })
    he).resolve_left List.not_mem_nil
  subst hlaunch
  have hfar : ¬ Nearby ⟨"d/m"⟩ := by unfold Nearby; decide
  obtain ⟨-, -, a, ha, hiff⟩ := (htold _ _ _ _ he).resolve_left List.not_mem_nil
  refine ⟨_, he, a, ha, fun h => ?_⟩
  rcases hiff.mp h with h | h
  · exact hfar h
  · exact absurd h (by decide)

end SymbolDocs
