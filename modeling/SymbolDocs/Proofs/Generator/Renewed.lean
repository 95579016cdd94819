import SymbolDocs.Proofs.Command.Writer
import SymbolDocs.Proofs.FileTree.Fresh
import SymbolDocs.Proofs.Generator.Program

/-! # What a successful generator leaves

The generator empties the directory of a target and runs its program; what comes of that is one of
four things (`perform_ofProgram`). If the directory could be emptied, the program starts with an
empty one, so that a run that succeeds leaves what it would have left with an empty directory from
the beginning (`ofProgram_renews`). -/

namespace SymbolDocs.Generator

open FileTree SymbolDocs.Path

variable {host : Host} {w w' : World} {program : Path} {scratch : Scratch}
  {capabilities : Capabilities} {package : Package} {target : Target} {options : GraphOptions}

/-! ### How it ends -/

/-- The call of the program that makes the graphs of a target. -/
def targetCommand (program : Path) (scratch : Scratch) (capabilities : Capabilities)
    (package : Package) (target : Target) (options : GraphOptions) : Command :=
  command program capabilities package target options (scratch.targetGraphs target)

/-- The failure of that call. -/
def programFailure (target : Target) (cause : Cause) : Failure where
  context := ["failed to generate symbol graphs for `" ++ target.name ++ "`"]
  cause := cause

/-- **How the generator ends**: the directory cannot be emptied, the program cannot be started, it
ends badly, or it ends well. -/
theorem perform_ofProgram (program : Path) (scratch : Scratch) (capabilities : Capabilities)
    (package : Package) (target : Target) (options : GraphOptions) (host : Host) (w : World) :
    (ofProgram program scratch capabilities package target options).perform host w =
      match (Edit.resetDir host.directory (scratch.targetGraphs target)).apply w.files with
      | (.error failure, t) => (.error (.failed { cause := .io failure }), { w with files := t })
      | (.ok _, t) =>
        let c := targetCommand program scratch capabilities package target options
        match c.launch host t with
        | .error cause =>
          (.error (.failed (programFailure target (.io ⟨.spawn program, cause⟩))),
            { files := t, emissions := w.emissions ++ [.launch c] })
        | .ok done =>
          (if done.status.succeeded then .ok (scratch.targetGraphs target)
            else .error (.failed (programFailure target
              (.toolFailed c.line done.status (Text.decodeLossy done.stderr)))),
            { files := done.files, emissions := w.emissions ++ [.launch c] }) := by
  unfold ofProgram
  rw [Work.perform_bind, Act.perform_edit]
  rcases (Edit.resetDir host.directory (scratch.targetGraphs target)).apply w.files with
    ⟨failure | ⟨⟩, t⟩
  · rfl
  simp only [Except.mapError]
  rw [Work.perform_bind, Work.perform_inside, Command.perform_check]
  simp only [targetCommand]
  rcases (command program capabilities package target options
    (scratch.targetGraphs target)).launch host t with cause | done
  · rfl
  · simp only
    split_ifs <;> rfl

/-! ### The directory that it starts with -/

/-- A file cannot be removed as a directory, and is left alone. -/
theorem apply_resetDir_of_file {base : Place} {dir : Path} {t : FileTree} {content : ByteArray}
    {executable : Bool} (h : t.lstat base dir = .ok (.file content executable)) :
    (Edit.resetDir base dir).apply t = (.error ⟨.removeDirectory dir, .notADirectory⟩, t) := by
  unfold lstat at h
  rcases hl : t.locate base dir with cause | p <;> rw [hl] at h
  · cases h
  unfold Edit.resetDir
  rw [Edit.apply_bind, Edit.apply_removeDirAll_eq, Edit.removeTree_of_locate hl,
    entryAt_eq_ok_iff.mp h]

theorem grows_of_beneath {q : Place} {t u : FileTree} (h : Beneath q t u)
    (hempty : t.contents q = emptyDirectory) : Grows t u := by
  intro r e he
  rcases h r with hsame | ⟨⟨names, rfl⟩, hne⟩
  · rw [hsame, he]
  · -- nothing was beneath
    have hnone : t.get? (q ++ names) = none := by
      rw [show t.get? (q ++ names) = emptyDirectory names from congrFun hempty names,
        emptyDirectory, if_neg (by rintro rfl; simp at hne)]
    rw [hnone] at he
    cases he

/-- The directory of a target is empty when the program starts. -/
theorem empty_of_reset {t : FileTree} (hslash : target.Slashless)
    (habs : scratch.dir.isAbsolute = true)
    (hground : ∀ u, (Edit.removeDirAll host.directory (scratch.targetGraphs target)).apply w.files =
      (.ok ⟨⟩, u) → u.Grounded scratch.dir)
    (h : (Edit.resetDir host.directory (scratch.targetGraphs target)).apply w.files = (.ok ⟨⟩, t)) :
    (∃ q, t.resolve host.directory (scratch.targetGraphs target) = .ok q ∧
      t.contents q = emptyDirectory) ∧
    (Edit.resetDir host.directory (scratch.targetGraphs target)).apply t = (.ok ⟨⟩, t) := by
  have hroot : (scratch.symbolGraphs.entry "targets").isAbsolute = true := by
    rw [isAbsolute_entry, Scratch.symbolGraphs, isAbsolute_entry, habs, Bool.or_true, Bool.or_true]
  have hpath : scratch.targetGraphs target =
      (scratch.symbolGraphs.entry "targets").entry target.dirName := rfl
  rw [hpath] at h hground ⊢
  refine Edit.empty_of_resetDir hroot (endsInName_entry _ (by decide)).endsInStep
    (Target.isName_dirName hslash) (fun u hu => ?_) h
  have hbelow := (hground u hu).below (Scratch.areNames_graphsNames hslash)
  rwa [← Scratch.targetGraphs_eq, hpath] at hbelow

/-- **A successful run leaves what its program leaves when it starts with an empty directory.** The
scratch directory is absolute, and the program writes only beneath its output directory.

* The answer is the directory of the target, and all files are as the program has left them. If no
  missing directory is on the way up in the path of the scratch directory once the directory of the
  target has been removed, as is always so if the path never leads up, then that directory was empty
  when the program started, and it still has its place; the outcome and the files are the same if
  the directory is empty from the beginning.
* If the directory cannot be emptied, the program is not run. A file in its place is left alone.
* If the program cannot be started, or ends badly, the failure names the target. -/
theorem ofProgram_renews (hslash : target.Slashless) (habs : scratch.dir.isAbsolute = true)
    (hobeys : Tool.Obeys host program "--output-dir" Beneath) :
    (∀ answer w', (ofProgram program scratch capabilities package target options).perform host w =
        (.ok answer, w') →
      answer = scratch.targetGraphs target ∧ ∃ t done,
        (Edit.resetDir host.directory answer).apply w.files = (.ok ⟨⟩, t) ∧
        (targetCommand program scratch capabilities package target options).launch host t =
          .ok done ∧ done.status.succeeded = true ∧ w'.files = done.files ∧
        ((∀ u, (Edit.removeDirAll host.directory answer).apply w.files = (.ok ⟨⟩, u) →
            u.Grounded scratch.dir) →
          (∃ q, t.resolve host.directory answer = .ok q ∧ t.contents q = emptyDirectory ∧
            w'.files.resolve host.directory answer = .ok q) ∧
          (ofProgram program scratch capabilities package target options).perform host
            { w with files := t } = (.ok answer, w'))) ∧
    (∀ failure t, (Edit.resetDir host.directory (scratch.targetGraphs target)).apply w.files =
        (.error failure, t) →
      (ofProgram program scratch capabilities package target options).perform host w =
        (.error (.failed { cause := .io failure }), { w with files := t })) ∧
    (∀ content executable, w.files.lstat host.directory (scratch.targetGraphs target) =
        .ok (.file content executable) →
      ∃ failure, (Edit.resetDir host.directory (scratch.targetGraphs target)).apply w.files =
        (.error failure, w.files)) ∧
    (∀ t, (Edit.resetDir host.directory (scratch.targetGraphs target)).apply w.files =
        (.ok ⟨⟩, t) →
      (∀ cause, (targetCommand program scratch capabilities package target options).launch host t =
          .error cause →
        ((ofProgram program scratch capabilities package target options).perform host w).1 =
          .error (.failed (programFailure target (.io ⟨.spawn program, cause⟩)))) ∧
      ∀ done, (targetCommand program scratch capabilities package target options).launch host t =
          .ok done → done.status.succeeded = false →
        ((ofProgram program scratch capabilities package target options).perform host w).1 =
          .error (.failed (programFailure target (.toolFailed
            (targetCommand program scratch capabilities package target options).line done.status
            (Text.decodeLossy done.stderr))))) := by
  refine ⟨fun answer w' h => ?_, fun failure t h => ?_, fun content executable h =>
    ⟨_, apply_resetDir_of_file h⟩, fun t h => ⟨fun cause hl => ?_, fun done hl hstatus => ?_⟩⟩
  · rw [perform_ofProgram] at h
    rcases hreset : (Edit.resetDir host.directory (scratch.targetGraphs target)).apply w.files with
      ⟨failure | ⟨⟩, t⟩ <;> rw [hreset] at h
    · cases h
    simp only at h
    rcases hl : (targetCommand program scratch capabilities package target options).launch host t
      with cause | done <;> rw [hl] at h
    · cases h
    simp only at h
    split_ifs at h with hstatus
    · cases h
      refine ⟨rfl, t, done, hreset, hl, hstatus, rfl, fun hground => ?_⟩
      obtain ⟨⟨q, hq, hempty⟩, hagain⟩ := empty_of_reset hslash habs hground hreset
      refine ⟨⟨q, hq, hempty, ?_⟩, ?_⟩
      · have hdir : (scratch.targetGraphs target).isAbsolute = true := by
          rw [Scratch.targetGraphs_eq, isAbsolute_below (Scratch.areNames_graphsNames hslash), habs]
        have hbeneath := hobeys.of_isAbsolute rfl (flagValue?_outputDir ..) hdir hq hl
        refine resolve_of_grows (grows_of_beneath hbeneath hempty) ?_ hq
        rw [← contents_nil, hempty]
        simp [emptyDirectory]
      · rw [perform_ofProgram, hagain]
        simp only
        rw [hl]
        simp only [hstatus, if_true]
    · cases h
  · rw [perform_ofProgram, h]
  · rw [perform_ofProgram, h]
    simp only [hl]
  · rw [perform_ofProgram, h]
    simp only [hl, hstatus]
    rfl

/-- The place of the graphs of a target. -/
def stalePlace : Place :=
  ["s", "symbol-graphs", "targets", "a-i"]

/-- A tree with a program, and with a file that an earlier run has left among these graphs. -/
def staleFiles : FileTree :=
  let t := FileTree.empty.putAt ["t"] (.file .empty true)
  (stalePlace.inits.foldl (fun t p => t.putAt p .directory) t).putAt (stalePlace ++ ["old"])
    (.file .empty false)

/-- The program is run for that target. -/
def staleRun (t : FileTree) : Except Halt Path × World :=
  (ofProgram ⟨"/t"⟩ ⟨⟨"/s"⟩⟩ {} { smallPackage with root := ⟨"/"⟩ }
    ⟨"a", "i", .sourceModule .library, {}⟩ ⟨.publicLevel, true, true⟩).perform
    (writerHost .empty "") { files := t }

/-- What an earlier run has left is gone, and what is there is what the program leaves in an empty
directory. -/
theorem ofProgram_renews_stale : ∃ t w',
    staleFiles.get? (stalePlace ++ ["old"]) = some (.file .empty false) ∧
    staleRun staleFiles = (.ok ⟨"/s/symbol-graphs/targets/a-i"⟩, w') ∧
    t.contents stalePlace = emptyDirectory ∧
    staleRun t = (.ok ⟨"/s/symbol-graphs/targets/a-i"⟩, w') := by
  have hok : (staleRun staleFiles).1.toBool = true := by decide +kernel
  have hlocate : (staleRun staleFiles).2.files.resolve [] ⟨"/s/symbol-graphs/targets/a-i"⟩ =
    .ok stalePlace := eq_ok_of_toOption (by decide +kernel)
  rcases hrun : staleRun staleFiles with ⟨halt | answer, w'⟩ <;> rw [hrun] at hok hlocate
  · cases hok
  have hobeys : Tool.Obeys (writerHost .empty "") ⟨"/t"⟩ "--output-dir" Beneath :=
    (writer_obeys_directory _ _ _).imp fun _ _ _ h => h.1
  have hslash : ({ name := "a", id := "i", kind := .sourceModule .library } : Target).Slashless := by
    unfold Target.Slashless
    decide
  obtain ⟨rfl, t, done, -, -, -, -, hgrounded⟩ :=
    (ofProgram_renews hslash (by decide) hobeys).1 answer w' hrun
  obtain ⟨⟨q, -, hempty, hq⟩, hagain⟩ :=
    hgrounded fun u _ => grounded_of_not_mem (by decide +kernel) u
  cases hlocate.symm.trans hq
  exact ⟨t, w', by decide +kernel, rfl, hempty, hagain⟩

end SymbolDocs.Generator
