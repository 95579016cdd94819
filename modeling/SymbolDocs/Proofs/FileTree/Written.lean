import SymbolDocs.Proofs.FileTree.Walk

/-! # What a written file holds

Something is put at one place, and at that place only (`get?_putAt_of_ne`). Opening a file for
writing leads to a place at which a walk ends, so a file that has been written is found again under
the same path and holds what was written (`read_of_write`), also where the path goes over links. -/

namespace SymbolDocs.FileTree

variable {t u : FileTree} {base : Place} {path : Path}

/-! ### One place is changed -/

theorem get?_putAt_of_ne {p q : Place} (e : Entry) (h : q ≠ p) :
    (t.putAt p e).get? q = t.get? q := by
  rcases List.eq_nil_or_concat p with rfl | ⟨dir, name, rfl⟩
  · rfl
  · rw [List.concat_eq_append] at h ⊢
    have hput : t.putAt (dir ++ [name]) e = t.put dir name e := by simp [putAt, splitPlace]
    rw [hput]
    by_cases ha : t.accepts dir name e = true
    · rw [get?_put ha, if_neg h]
    · rw [put_of_not_accepts (by simpa using ha)]

theorem get?_putAt_self {followLast : Bool} {p : Place} {e : Entry}
    (hp : t.Reachable followLast p) (hd : t.get? p ≠ some .directory) :
    (t.putAt p e).get? p = some e := by
  obtain ⟨dir, name, rfl, hname, hdir⟩ := hp.placed.resolve_left hd
  have hput : t.putAt (dir ++ [name]) e = t.put dir name e := by simp [putAt, splitPlace]
  rw [hput, get?_put (accepts_iff.mpr ⟨hname, hdir, fun h => absurd h hd⟩), if_pos rfl]

/-- What is put in a directory under a new name is there. -/
theorem get?_putAt_new {dir : Place} {name : String} (hname : Path.isName name = true)
    (hdir : t.get? dir = some .directory) (hnone : t.get? (dir ++ [name]) = none) (e : Entry) :
    (t.putAt (dir ++ [name]) e).get? (dir ++ [name]) = some e := by
  have hreach : t.Reachable false (dir ++ [name]) := ⟨.inr ⟨dir, name, rfl, hname, hdir⟩, nofun⟩
  exact get?_putAt_self hreach (by simp [hnone])

/-! ### Writing -/

theorem steps_eq_names (h : path.endsInSlash = false) : path.steps = path.names := by
  unfold Path.steps
  rw [if_neg (by simp [h])]

/-- Where a file that can be opened for writing lies. -/
theorem openForWriting_ok {p : Place} (h : t.openForWriting base path = .ok p) :
    path.endsInSlash = false ∧ t.resolve base path = .ok p ∧ t.get? p ≠ some .directory := by
  unfold openForWriting at h
  rcases hf : t.follow base path path.names (!path.endsInSlash) with e | q <;> rw [hf] at h
  · cases h
  change (if _ then _ else _) = _ at h
  by_cases hc : path.endsInSlash = true ∨ t.isDirectory q = true
  · rw [if_pos hc] at h; cases h
  rw [if_neg hc] at h
  cases h
  simp only [not_or, Bool.not_eq_true] at hc
  rw [hc.1] at hf
  refine ⟨hc.1, ?_, by simpa [isDirectory] using hc.2⟩
  unfold resolve
  rw [steps_eq_names hc.1]
  exact hf

theorem resolve_reachable {p : Place} (h : t.resolve base path = .ok p) : t.Reachable true p :=
  follow_reachable (steps_steps path) h

theorem not_passable_of_resolve {p : Place} (h : t.resolve base path = .ok p)
    (hd : t.get? p ≠ some .directory) : ¬ t.Passable p := by
  rintro (h' | ⟨target, h'⟩)
  · exact hd h'
  · exact (resolve_reachable h).plain rfl target h'

theorem write_ok {content : ByteArray} (h : t.write base path content = .ok u) :
    ∃ p executable, t.resolve base path = .ok p ∧ t.get? p ≠ some .directory ∧
      u = t.putAt p (.file content executable) := by
  unfold write at h
  rcases ho : t.openForWriting base path with e | p <;> rw [ho] at h
  · cases h
  obtain ⟨-, hr, hd⟩ := openForWriting_ok ho
  simp only [bind, Except.bind] at h
  rcases he : t.get? p with _ | (_ | ⟨c, x⟩ | target) <;> rw [he] at h <;> cases h
  · exact ⟨p, false, hr, hd, rfl⟩
  · exact ⟨p, false, hr, hd, rfl⟩
  · exact ⟨p, x, hr, hd, rfl⟩
  · exact ⟨p, false, hr, hd, rfl⟩

/-- **What has been written is read.** -/
theorem read_of_write {content : ByteArray} (h : t.write base path content = .ok u) :
    u.read base path = .ok content := by
  obtain ⟨p, x, hr, hd, rfl⟩ := write_ok h
  have hself : (t.putAt p (.file content x)).get? p = some (.file content x) :=
    get?_putAt_self (resolve_reachable hr) hd
  have hu : ¬ (t.putAt p (.file content x)).Passable p := by
    rintro (h' | ⟨target, h'⟩) <;> rw [hself] at h' <;> cases h'
  have hr' : (t.putAt p (.file content x)).resolve base path = .ok p :=
    follow_of_not_passable (fun q hq => get?_putAt_of_ne _ hq) (not_passable_of_resolve hr hd) hu hr
  have hs : (t.putAt p (.file content x)).stat base path = .ok (.file content x) := by
    unfold stat
    rw [hr']
    change entryAt _ p = _
    unfold entryAt
    rw [hself]
  unfold read
  rw [hs]
  rfl

end SymbolDocs.FileTree
