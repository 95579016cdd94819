import SymbolDocs.Proofs.FileTree.Emptied
import SymbolDocs.Proofs.FileTree.Moves
import SymbolDocs.Proofs.Workspace.Arguments

/-! # What is left when a tool has run

A command changes the files just as its program does (`check_files`), whether it ends well or not.
What a program does is known by what it does to the place that it is told after a flag (`Obeys`);
the place is looked up from where the program runs, which makes no difference if the workspace is
nearby (`resolve_nearby`). -/

namespace SymbolDocs

open FileTree SymbolDocs.Path

namespace Command

variable {host : Host} {c : Command} {w w' : World}

/-- The files that a command leaves. -/
def leaves (c : Command) (host : Host) (t : FileTree) : FileTree :=
  match c.launch host t with
  | .ok done => done.files
  | .error _ => t

theorem leaves_cases (c : Command) (host : Host) (t : FileTree) :
    c.leaves host t = t ∨ ∃ done, c.launch host t = .ok done ∧ c.leaves host t = done.files := by
  unfold leaves
  rcases c.launch host t with cause | done
  · exact .inl rfl
  · exact .inr ⟨done, rfl, rfl⟩

theorem perform_run (c : Command) (host : Host) (w : World) :
    c.run.perform host w =
      match c.launch host w.files with
      | .error cause => (.error (.failed { cause := .io ⟨.spawn c.program, cause⟩ }),
          { w with emissions := w.emissions ++ [.launch c] })
      | .ok done => (.ok ⟨done.status, done.stdout, done.stderr⟩,
          { files := done.files, emissions := w.emissions ++ [.launch c] }) := by
  unfold run
  rw [Work.perform_bind, Act.perform_emit]
  simp only
  rw [Work.perform_bind, Work.perform_read]
  simp only
  rw [Work.perform_bind, Act.perform_files]
  simp only
  rcases c.launch host w.files with cause | done
  · rfl
  · rfl

/-- **A tool changes the files as its program does.** -/
theorem check_files (c : Command) (host : Host) (w : World) :
    (c.check.perform host w).2.files = c.leaves host w.files := by
  unfold check leaves
  rw [Work.perform_bind, perform_run]
  rcases c.launch host w.files with cause | done
  · rfl
  simp only
  split_ifs <;> rfl

/-- How a tool ends that has to end well. -/
theorem perform_check (c : Command) (host : Host) (w : World) :
    c.check.perform host w =
      match c.launch host w.files with
      | .error cause => (.error (.failed { cause := .io ⟨.spawn c.program, cause⟩ }),
          { w with emissions := w.emissions ++ [.launch c] })
      | .ok done =>
        (if done.status.succeeded then .ok ⟨done.status, done.stdout, done.stderr⟩
          else .error (.failed
            { cause := .toolFailed c.line done.status (Text.decodeLossy done.stderr) }),
          { files := done.files, emissions := w.emissions ++ [.launch c] }) := by
  unfold check
  rw [Work.perform_bind, perform_run]
  rcases c.launch host w.files with cause | done
  · rfl
  simp only
  split_ifs <;> rfl

theorem check_ok {output : Output} (h : c.check.perform host w = (.ok output, w')) :
    ∃ done, c.launch host w.files = .ok done ∧ done.status.succeeded = true ∧
      w'.files = done.files := by
  unfold check at h
  rw [Work.perform_bind, perform_run] at h
  rcases hl : c.launch host w.files with cause | done <;> rw [hl] at h
  · cases h
  simp only at h
  split_ifs at h with hstatus
  · cases h
    exact ⟨done, rfl, hstatus, rfl⟩
  · cases h

theorem launch_place {t : FileTree} {done : Completion} (h : c.launch host t = .ok done) :
    ∃ here, c.place host t = .ok here := by
  unfold launch at h
  split_ifs at h
  rcases hp : c.place host t with cause | here
  · rw [hp] at h
    cases h
  · exact ⟨here, rfl⟩

theorem place_resolve {t : FileTree} {dir : Path} {here : Place} (hdir : c.directory = some dir)
    (h : c.place host t = .ok here) : t.resolve host.directory dir = .ok here := by
  unfold place at h
  rw [hdir] at h
  rcases hr : t.resolve host.directory dir with cause | p <;> simp only [hr, bind, Except.bind] at h
  · cases h
  rcases he : t.entryAt p with cause | (_ | ⟨content, executable⟩ | target) <;> rw [he] at h
  · cases h
  · cases h
    rfl
  · cases h
  · cases h

end Command

/-! ### What a program does -/

/-- **What a program does to the place that it is told** after a flag: whenever it runs, it leaves a
tree that is related to the one before as `Q` says. The place is looked up where the program runs.
-/
def Tool.Obeys (host : Host) (program : Path) (flag : String)
    (Q : Place → FileTree → FileTree → Prop) : Prop :=
  ∀ (c : Command) (t : FileTree) (done : Completion) (here p : Place) (argument : String),
    c.program = program → flagValue? flag c.arguments = some argument →
    c.launch host t = .ok done → c.place host t = .ok here →
    t.resolve here ⟨argument⟩ = .ok p → Q p t done.files

theorem Tool.Obeys.imp {host : Host} {program : Path} {flag : String}
    {Q R : Place → FileTree → FileTree → Prop} (h : Tool.Obeys host program flag Q)
    (hQ : ∀ p t u, Q p t u → R p t u) : Tool.Obeys host program flag R :=
  fun c t done here p argument hprogram hflag hl hhere hp =>
    hQ p t done.files (h c t done here p argument hprogram hflag hl hhere hp)

namespace FileTree

variable {t u : FileTree} {base here p z : Place}

/-- Only what lies beneath a place is different. -/
def Beneath (p : Place) (t u : FileTree) : Prop :=
  ∀ q, u.get? q = t.get? q ∨ p <+: q ∧ q ≠ p

/-- Only what lies at a place or beneath it is different. -/
def Inside (p : Place) (t u : FileTree) : Prop :=
  ∀ q, u.get? q = t.get? q ∨ p <+: q

/-- No link has come. -/
def NoNewLinks (t u : FileTree) : Prop :=
  ∀ q, u.get? q = t.get? q ∨ u.Plain q

theorem Inside.within (h : Inside p t u) (hlinks : t.NoNewLinks u) : Within p t u := by
  intro q
  rcases h q with hq | hq
  · exact .inl hq
  · exact (hlinks q).imp id fun hq' => .inl ⟨hq, hq'⟩

theorem Beneath.inside (h : Beneath p t u) : Inside p t u :=
  fun q => (h q).imp id And.left

theorem Inside.contents_eq (h : Inside p t u) (hz : Aside z p) : u.contents z = t.contents z := by
  funext names
  exact (h _).resolve_right (hz.beneath (List.prefix_append z names)).2

theorem Inside.get?_eq (h : Inside p t u) {q : Place} (hq : ¬ p <+: q) : u.get? q = t.get? q :=
  (h q).resolve_right hq

/-! ### Here and there -/

/-- A path that starts at the root means the same everywhere, and one that says nothing leads to
where it is looked up. -/
theorem resolve_nearby {root path : Path} (hpath : root.isAbsolute = true → path.isAbsolute = true)
    (hnear : root.isAbsolute = true ∨ root.inner = []) (hr : t.resolve base root = .ok here) :
    t.resolve here path = t.resolve base path := by
  by_cases habs : root.isAbsolute = true
  · unfold resolve follow
    rw [if_pos (hpath habs), if_pos (hpath habs)]
  · have hsame : here = base := by
      obtain ⟨cur, -, hw, hcur⟩ := follow_eq_walk hr
      rw [if_neg habs] at hcur
      rw [hcur, walk_of_reached (stroll_here (steps_of_inner_nil (hnear.resolve_left habs)))] at hw
      cases hw
      rfl
    rw [hsame]

end FileTree

/-- A tool that is run in a nearby workspace does what it does to a place of the workspace. -/
theorem Tool.Obeys.here {host : Host} {program : Path} {flag : String}
    {Q : Place → FileTree → FileTree → Prop} (h : Tool.Obeys host program flag Q) {c : Command}
    {root path : Path} {t : FileTree} {done : Completion} {p : Place} (hc : c.program = program)
    (hdir : c.directory = some root) (hflag : flagValue? flag c.arguments = some path.text)
    (hpath : root.isAbsolute = true → path.isAbsolute = true)
    (hnear : root.isAbsolute = true ∨ root.inner = [])
    (hp : t.resolve host.directory path = .ok p) (hl : c.launch host t = .ok done) :
    Q p t done.files := by
  obtain ⟨here, hhere⟩ := Command.launch_place hl
  have hroot := Command.place_resolve hdir hhere
  exact h c t done here p path.text hc hflag hl hhere
    ((FileTree.resolve_nearby hpath hnear hroot).trans hp)

/-- A tool does what it does to the place of an absolute path, wherever it is run. -/
theorem Tool.Obeys.of_isAbsolute {host : Host} {program : Path} {flag : String}
    {Q : Place → FileTree → FileTree → Prop} (h : Tool.Obeys host program flag Q) {c : Command}
    {path : Path} {t : FileTree} {done : Completion} {p : Place} (hc : c.program = program)
    (hflag : flagValue? flag c.arguments = some path.text) (habs : path.isAbsolute = true)
    (hp : t.resolve host.directory path = .ok p) (hl : c.launch host t = .ok done) :
    Q p t done.files := by
  obtain ⟨here, hhere⟩ := Command.launch_place hl
  refine h c t done here p path.text hc hflag hl hhere (Eq.trans ?_ hp)
  unfold FileTree.resolve FileTree.follow
  rw [if_pos habs, if_pos habs]

end SymbolDocs
