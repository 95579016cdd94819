import SymbolDocs.Proofs.Command.Launched

/-! # A program that writes a file

A small program that keeps to the directory, or to the file, that it is told
(`writer_obeys_directory`, `writer_obeys_file`), and a host on which it is the only one. -/

namespace SymbolDocs

open FileTree

/-- A program that puts a file with some content into the directory, or in the place, that it is
told. It fails if it is called for one certain target. -/
def writer (content : ByteArray) (refused : String) : Program := fun call t =>
  if flagValue? "--target" call.arguments = some refused then { files := t, status := .exited 1 }
  else
    { files :=
        match flagValue? "--output-dir" call.arguments, flagValue? "--output" call.arguments with
        | some dir, none =>
          match t.resolve call.directory ⟨dir⟩ with
          | .ok p => t.putAt (p ++ ["g"]) (.file content false)
          | .error _ => t
        | none, some output =>
          match t.resolve call.directory ⟨output⟩ with
          | .ok p => t.putAt p (.file content false)
          | .error _ => t
        | _, _ => t
      status := .exited 0 }

/-- A host on which each executable file is such a program. -/
def writerHost (content : ByteArray) (refused : String) : Host :=
  { bareHost with program? := fun _ => some (writer content refused) }

section Writer

variable {content : ByteArray} {refused : String} {c : Command} {t : FileTree} {done : Completion}
  {here p : Place} {argument : String}

theorem launch_writer (hl : c.launch (writerHost content refused) t = .ok done)
    (hhere : c.place (writerHost content refused) t = .ok here) :
    ∃ name, done = writer content refused ⟨name, c.arguments, here⟩ t := by
  unfold Command.launch at hl
  split_ifs at hl
  rw [hhere] at hl
  simp only [bind, Except.bind] at hl
  have hload : ∀ {path : Path} {program : Program},
      Command.load (writerHost content refused) t here path = .ok program →
      program = writer content refused := by
    intro path program hp
    unfold Command.load at hp
    rcases hs : t.stat here path with cause | (_ | ⟨bytes, _ | _⟩ | target) <;> rw [hs] at hp <;>
      cases hp
    rfl
  have hsearch : ∀ {l : List Path} {name : String} {e : IoError} {found : String × Program},
      Command.search (writerHost content refused) t here name e l = .ok found →
      found.2 = writer content refused := by
    intro l
    induction l with
    | nil => exact fun hs => by cases hs
    | cons dir rest ih =>
      intro name e found hs
      unfold Command.search at hs
      simp only at hs
      rcases hp : Command.load (writerHost content refused) t here
        (if dir.text = "" then ⟨name⟩ else dir.entry name) with cause | program <;> rw [hp] at hs
      · cases cause <;> first | exact ih hs | cases hs
      · cases hs
        exact hload hp
  rcases hfind : c.find (writerHost content refused) t here with cause | ⟨name, program⟩ <;>
    rw [hfind] at hl <;> cases hl
  refine ⟨name, ?_⟩
  have hprogram : program = writer content refused := by
    unfold Command.find at hfind
    split_ifs at hfind
    · simp only [bind, Except.bind] at hfind
      rcases hp : Command.load (writerHost content refused) t here c.program with cause | found <;>
        rw [hp] at hfind <;> cases hfind
      exact hload hp
    · exact hsearch hfind
  rw [hprogram]

/-- It puts at most one file somewhere. -/
theorem files_launch_writer (hl : c.launch (writerHost content refused) t = .ok done) :
    done.files = t ∨ ∃ q, done.files = t.putAt q (.file content false) := by
  obtain ⟨here, hhere⟩ := Command.launch_place hl
  obtain ⟨name, rfl⟩ := launch_writer hl hhere
  unfold writer
  split_ifs
  · exact .inl rfl
  · dsimp only
    split
    · split
      · exact .inr ⟨_, rfl⟩
      · exact .inl rfl
    · split
      · exact .inr ⟨_, rfl⟩
      · exact .inl rfl
    · exact .inl rfl

/-- What it has put into an empty directory is one file, and nothing else. -/
theorem contents_launch_writer (hl : c.launch (writerHost content refused) t = .ok done)
    (hempty : t.contents p = emptyDirectory) (hthere : done.files.contents p ["g"] ≠ none) :
    done.files.contents p = directoryOf "g" (.file content false) := by
  rcases files_launch_writer hl with h | ⟨q, h⟩ <;> rw [h] at hthere ⊢
  · exact absurd (congrFun hempty ["g"]) hthere
  · have hq : q = p ++ ["g"] := by
      by_contra hne
      exact hthere ((get?_putAt_of_ne _ (Ne.symm hne)).trans (congrFun hempty ["g"]))
    rw [hq]
    exact contents_putAt hempty (by decide) _

theorem inside_putAt (t : FileTree) (q : Place) (e : Entry) : Inside q t (t.putAt q e) := by
  intro r
  by_cases hr : r = q
  · exact .inr (hr ▸ List.prefix_refl q)
  · exact .inl (get?_putAt_of_ne e hr)

theorem noNewLinks_putAt (t : FileTree) (q : Place) (content : ByteArray) :
    t.NoNewLinks (t.putAt q (.file content false)) := by
  intro r
  by_cases hr : r = q
  · subst hr
    rcases get?_putAt_cases t r (.file content false) with h | h
    · exact .inr fun target hlink => by rw [h] at hlink; cases hlink
    · exact .inl h
  · exact .inl (get?_putAt_of_ne _ hr)

/-- It puts a file into the directory that it is told, if it writes at all. -/
theorem writer_puts_directory (content : ByteArray) (refused : String) (program : Path) :
    Tool.Obeys (writerHost content refused) program "--output-dir"
      fun p t u => u = t ∨ u = t.putAt (p ++ ["g"]) (.file content false) := by
  intro c t done here p argument _ hflag hl hhere hp
  obtain ⟨name, rfl⟩ := launch_writer hl hhere
  simp only [writer, hflag]
  split_ifs
  · exact .inl rfl
  rcases flagValue? "--output" c.arguments with _ | output
  · right
    simp only [hp]
  · exact .inl rfl

/-- It puts a file in the place that it is told, if it writes at all. -/
theorem writer_puts_file (content : ByteArray) (refused : String) (program : Path) :
    Tool.Obeys (writerHost content refused) program "--output"
      fun p t u => u = t ∨ u = t.putAt p (.file content false) := by
  intro c t done here p argument _ hflag hl hhere hp
  obtain ⟨name, rfl⟩ := launch_writer hl hhere
  simp only [writer, hflag]
  split_ifs
  · exact .inl rfl
  rcases flagValue? "--output-dir" c.arguments with _ | dir
  · right
    simp only [hp]
  · exact .inl rfl

/-- It writes beneath the directory that it is told. -/
theorem writer_obeys_directory (content : ByteArray) (refused : String) (program : Path) :
    Tool.Obeys (writerHost content refused) program "--output-dir"
      fun p t u => Beneath p t u ∧ t.NoNewLinks u := by
  refine (writer_puts_directory content refused program).imp fun p t u h => ?_
  rcases h with rfl | rfl
  · exact ⟨fun q => .inl rfl, fun q => .inl rfl⟩
  · refine ⟨fun q => (inside_putAt t _ _ q).imp id fun hq => ?_, noNewLinks_putAt t _ content⟩
    refine ⟨(List.prefix_append p _).trans hq, ?_⟩
    rintro rfl
    exact absurd hq.length_le (by simp)

/-- It writes to the file that it is told. -/
theorem writer_obeys_file (content : ByteArray) (refused : String) (program : Path) :
    Tool.Obeys (writerHost content refused) program "--output"
      fun p t u => Inside p t u ∧ t.NoNewLinks u := by
  refine (writer_puts_file content refused program).imp fun p t u h => ?_
  rcases h with rfl | rfl
  · exact ⟨fun q => .inl rfl, fun q => .inl rfl⟩
  · exact ⟨inside_putAt t p _, noNewLinks_putAt t p content⟩

end Writer

end SymbolDocs
