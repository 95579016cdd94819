import SymbolDocs.Proofs.Command.Launched
import SymbolDocs.Proofs.Scratch.Regions

/-! # What the generator's program leaves

The generator empties the directory of a target, and then its program runs (`files_ofProgram`). If
the program only writes to the directory that it is told, the generator changes nothing outside of
the directory of the target, whether it succeeds or not (`inside_ofProgram`). -/

namespace SymbolDocs.Generator

open FileTree SymbolDocs.Path

variable {host : Host} {w w' : World} {program : Path} {capabilities : Capabilities}
  {target : Target} {options : GraphOptions}

theorem files_ofProgram (program : Path) (scratch : Scratch) (capabilities : Capabilities)
    (package : Package) (target : Target) (options : GraphOptions) (host : Host) (w : World) :
    ((ofProgram program scratch capabilities package target options).perform host w).2.files =
      match (Edit.resetDir host.directory (scratch.targetGraphs target)).apply w.files with
      | (.ok _, t) => (command program capabilities package target options
          (scratch.targetGraphs target)).leaves host t
      | (.error _, t) => t := by
  unfold ofProgram
  rw [Work.perform_bind, Act.perform_edit]
  rcases (Edit.resetDir host.directory (scratch.targetGraphs target)).apply w.files with
    ⟨e | a, t⟩
  · rfl
  simp only [Except.mapError]
  rw [← Command.check_files _ host { w with files := t }, Work.perform_bind, Work.perform_inside]
  rcases (command program capabilities package target options
    (scratch.targetGraphs target)).check.perform host { w with files := t } with
    ⟨(failure | message) | output, w1⟩ <;> rfl

/-- If the generator succeeds, its program has run on a tree in which the directory of the target
has been emptied, and what the program has left is left. -/
theorem ofProgram_launched {scratch : Scratch} {package : Package} {dir : Path}
    (h : (ofProgram program scratch capabilities package target options).perform host w =
      (.ok dir, w')) :
    ∃ t done, (Edit.resetDir host.directory (scratch.targetGraphs target)).apply w.files =
        (.ok ⟨⟩, t) ∧
      (command program capabilities package target options
        (scratch.targetGraphs target)).launch host t = .ok done ∧
      done.status.succeeded = true ∧ w'.files = done.files := by
  unfold ofProgram at h
  obtain ⟨_, w1, h1, h⟩ := Work.perform_bind_ok h
  obtain ⟨output, w2, h2, h⟩ := Work.perform_bind_ok h
  obtain ⟨t, hreset, rfl⟩ := Act.perform_edit_ok h1
  rw [Work.perform_inside] at h2
  rcases hcheck : (command program capabilities package target options
    (scratch.targetGraphs target)).check.perform host { w with files := t } with
    ⟨(failure | message) | output', w3⟩ <;> rw [hcheck] at h2
  · cases h2
  · cases h2
  · cases h2
    cases h
    obtain ⟨done, hl, hstatus, hfiles⟩ := Command.check_ok hcheck
    exact ⟨t, done, hreset, hl, hstatus, hfiles⟩

section Obeys

variable {ws : Workspace} {d : Place} {Q : Place → FileTree → FileTree → Prop} {t : FileTree}

/-- The program is told the directory to write to. -/
theorem flagValue?_outputDir (program : Path) (capabilities : Capabilities) (package : Package)
    (target : Target) (options : GraphOptions) (dir : Path) :
    flagValue? "--output-dir" (command program capabilities package target options dir).arguments =
      some dir.text :=
  (flagValue?_of_ne (by decide)).trans
    ((flagValue?_of_ne (by decide)).trans (flagValue?_self _ _ _))

/-- The generator's program does what it does to the directory of the target. -/
theorem obeys_command (hobeys : Tool.Obeys host program "--output-dir" Q)
    (hnear : ws.root.isAbsolute = true ∨ ws.root.inner = []) {p : Place}
    (hp : t.resolve host.directory (ws.scratch.targetGraphs target) = .ok p) {done : Completion}
    (hl : (command program capabilities ws.package target options
      (ws.scratch.targetGraphs target)).launch host t = .ok done) : Q p t done.files := by
  refine hobeys.here rfl rfl (flagValue?_outputDir ..) (fun habs => ?_) hnear hp hl
  rw [isAbsolute_targetGraphs]
  exact Bool.or_eq_true_iff.mpr (.inr habs)

theorem resolve_targetGraphs {scratch : Scratch}
    (hready : Ready host.directory scratch.dir d (Scratch.graphsNames target) t)
    (hnul : (scratch.targetGraphs target).hasNul = false)
    (hthere : t.get? (d ++ Scratch.graphsNames target) = some .directory) :
    t.resolve host.directory (scratch.targetGraphs target) =
      .ok (d ++ Scratch.graphsNames target) :=
  resolve_of_directory hready.found (plain_of_directory hthere) hnul (dropLast_directory hthere)

/-- **The generator changes things in the directory of the target only**, if its program writes
to the directory that it is told. -/
theorem inside_ofProgram (capabilities : Capabilities) (options : GraphOptions)
    (hobeys : Tool.Obeys host program "--output-dir" Inside)
    (hnear : ws.root.isAbsolute = true ∨ ws.root.inner = [])
    (hready : Ready host.directory ws.scratch.dir d (Scratch.graphsNames target) w.files) :
    ∃ t, Within (d ++ Scratch.graphsNames target) w.files t ∧
      Inside (d ++ Scratch.graphsNames target) t
        ((ofProgram program ws.scratch capabilities ws.package target options).perform
          host w).2.files := by
  rw [files_ofProgram]
  have hwithin := (Edit.within_resetDir hready).1
  rw [Scratch.targetGraphs_eq]
  rcases hreset : (Edit.resetDir host.directory
    (ws.scratch.dir.below (Scratch.graphsNames target))).apply w.files with ⟨e | a, t⟩ <;>
    rw [hreset] at hwithin
  · exact ⟨t, hwithin, fun _ => .inl rfl⟩
  refine ⟨t, hwithin, ?_⟩
  obtain ⟨hnul, -, hemptied⟩ := Edit.resetDir_ok hready.straight hreset
  simp only
  rcases Command.leaves_cases (command program capabilities ws.package target options
    (ws.scratch.dir.below (Scratch.graphsNames target))) host t with hsame | ⟨done, hl, hdone⟩
  · rw [hsame]
    exact fun _ => .inl rfl
  · rw [hdone]
    have hresolve := resolve_targetGraphs (hready.within hwithin) hnul hemptied.there
    exact obeys_command hobeys hnear hresolve hl

end Obeys

end SymbolDocs.Generator
