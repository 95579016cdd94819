import SymbolDocs.Proofs.FileTree.Emptied

/-! # Copies

Where there are no links (`Clean`), a directory that is copied to a place where there is nothing is
there a second time, and nothing else changes (`reaches_copyTree`). Whether it can be copied is
another question; a copy fails if there is no directory, or if a name in it is one that no system
call accepts. `Reaches` says both at once: what is so after an edit that succeeds, and when an edit
is sure to succeed. -/

namespace SymbolDocs

open FileTree SymbolDocs.Path

/-! ### What an edit ends in -/

namespace Edit

/-- An edit of a tree ends in a certain way if it succeeds, and it succeeds if that is sure. -/
structure Reaches {α : Type} (e : Edit α) (t : FileTree) (sure : Prop)
    (Q : α → FileTree → Prop) : Prop where
  ends : ∀ a u, e.apply t = (.ok a, u) → Q a u
  succeeds : sure → ∃ a u, e.apply t = (.ok a, u)

section Reaches

variable {α β : Type} {t : FileTree} {sure : Prop} {P : α → FileTree → Prop}
  {Q : β → FileTree → Prop}

theorem Reaches.of_apply {e : Edit α} {a : α} {u : FileTree} (h : e.apply t = (.ok a, u))
    (hP : P a u) : e.Reaches t sure P where
  ends := by
    intro a' u' h'
    rw [h] at h'
    cases h'
    exact hP
  succeeds := fun _ => ⟨a, u, h⟩

theorem Reaches.of_error {e : Edit α} {failure : IoFailure} {u : FileTree}
    (h : e.apply t = (.error failure, u)) (hsure : ¬ sure) : e.Reaches t sure P where
  ends := by
    intro a' u' h'
    rw [h] at h'
    cases h'
  succeeds := fun h' => absurd h' hsure

theorem Reaches.bind {x : Edit α} {f : α → Edit β} (hx : x.Reaches t sure P)
    (hf : ∀ a u, P a u → (f a).Reaches u sure Q) : (x >>= f).Reaches t sure Q where
  ends := by
    intro b v h
    obtain ⟨a, u, h1, h2⟩ := apply_bind_ok h
    exact (hf a u (hx.ends a u h1)).ends b v h2
  succeeds := by
    intro hsure
    obtain ⟨a, u, h1⟩ := hx.succeeds hsure
    obtain ⟨b, v, h2⟩ := (hf a u (hx.ends a u h1)).succeeds hsure
    exact ⟨b, v, by rw [apply_bind, h1]; exact h2⟩

theorem Reaches.bind_of_error {x : Edit α} {f : α → Edit β} {failure : IoFailure} {u : FileTree}
    (h : x.apply t = (.error failure, u)) (hsure : ¬ sure) : (x >>= f).Reaches t sure Q :=
  .of_error (by rw [apply_bind, h]) hsure

/-- It does not matter in which way an edit comes to what it comes to. -/
theorem Reaches.congr {e f : Edit α} (h : e.apply t = f.apply t) (hf : f.Reaches t sure P) :
    e.Reaches t sure P where
  ends := fun a u hu => hf.ends a u (h.symm.trans hu)
  succeeds := fun hs => let ⟨a, u, hu⟩ := hf.succeeds hs; ⟨a, u, h.trans hu⟩

theorem Reaches.imp {e : Edit α} {Q : α → FileTree → Prop} {sure' : Prop} (h : e.Reaches t sure P)
    (hsure : sure' → sure) (hQ : ∀ a u, P a u → Q a u) : e.Reaches t sure' Q where
  ends := fun a u hu => hQ a u (h.ends a u hu)
  succeeds := fun h' => h.succeeds (hsure h')

/-- A loop with an invariant that knows what has been gone through. -/
theorem Reaches.forM {f : α → Edit Unit} {I : List α → FileTree → Prop} {l : List α}
    (hf : ∀ done a rest, l = done ++ a :: rest → ∀ u, I done u →
      (f a).Reaches u sure fun _ v => I (done ++ [a]) v) (hI : I [] t) :
    (l.forM f).Reaches t sure fun _ u => I l u := by
  have key : ∀ rest done u, l = done ++ rest → I done u →
      (rest.forM f).Reaches u sure fun _ v => I l v := by
    intro rest
    induction rest with
    | nil =>
      intro done u hl hu
      rw [List.append_nil] at hl
      exact .of_apply rfl (hl ▸ hu)
    | cons a rest ih =>
      intro done u hl hu
      exact (hf done a rest hl u hu).bind fun _ v hv => ih (done ++ [a]) v (by simp [hl]) hv
  exact key l [] t rfl hI

end Reaches

end Edit

namespace FileTree

variable {t u : FileTree} {base d p q : Place} {path : Path} {names : List String}

/-! ### Trees without links below a directory -/

/-- A path leads to a directory, whatever lies in it, and there are no links in it. -/
structure Clean (base : Place) (path : Path) (d : Place) (t : FileTree) : Prop where
  ends : path.EndsInName
  leads : t.Leads base path d
  there : t.get? d = some .directory
  linkless : ∀ q, d <+: q → t.Plain q

namespace Clean

theorem ready (h : Clean base path d t) (hnames : AreNames names) (hne : names ≠ []) :
    Ready base path d names t where
  ends := h.ends
  areNames := hnames
  ne := hne
  leads := h.leads
  there := h.there
  way := fun a _ _ _ _ => h.linkless _ (List.prefix_append d a)

theorem plain (h : Clean base path d t) (a : List String) : t.Plain (d ++ a) :=
  h.linkless _ (List.prefix_append d a)

theorem of_filled (h : Clean base path d t) (hfill : Filled p t u) (hp : d <+: p) (hne : d ≠ p)
    (hplain : ∀ a target, u.contents p a ≠ some (.link target)) : Clean base path d u where
  ends := h.ends
  leads := by
    refine h.leads.congr (fun q hq => ?_) (plain_of_directory ?_)
    · rcases hfill q with h' | h' | ⟨hqp, hnone, -⟩
      · exact h'
      · exact absurd (hp.trans h') hq
      · rw [directory_above h.there ((List.prefix_or_prefix_of_prefix hqp hp).resolve_right hq)]
          at hnone
        cases hnone
    · exact hfill.directory h.there fun h' => hne (hp.eq_of_length_le h'.length_le)
  there := hfill.directory h.there fun h' => hne (hp.eq_of_length_le h'.length_le)
  linkless := by
    intro q hq target hlink
    by_cases hpq : p <+: q
    · obtain ⟨a, rfl⟩ := hpq
      exact hplain a target hlink
    · rw [hfill.get? hpq] at hlink
      split_ifs at hlink
      · cases hlink
      · exact h.linkless q hq target hlink

end Clean

theorem Clean.within (h : Clean base path d t) (hne : names ≠ [])
    (hw : Within (d ++ names) t u) : Clean base path d u where
  ends := h.ends
  leads := h.leads.within h.there hw
  there := hw.directory_of_ne h.there (not_beneath hne)
  linkless := fun q hq => hw.plain (h.linkless q hq)

/-- Names that every system call accepts. -/
def Nulless (names : List String) : Prop :=
  ∀ name ∈ names, (⟨name⟩ : Path).hasNul = false

theorem hasNul_below (hnul : path.hasNul = false) (hnames : AreNames names)
    (hnulless : Nulless names) : (path.below names).hasNul = false := by
  induction names using List.reverseRecOn with
  | nil => exact hnul
  | append_singleton names name ih =>
    rw [below_concat, hasNul_entry (hnames name (by simp)), Bool.or_eq_false_iff]
    exact ⟨ih hnames.of_append.1 fun n hn => hnulless n (by simp [hn]), hnulless name (by simp)⟩

/-! ### One place is put anew -/

/-- `u` is `t` with an entry put at `p`. -/
def Put (p : Place) (e : Entry) (t u : FileTree) : Prop :=
  ∀ q, u.get? q = if q = p then some e else t.get? q

theorem put_putAt {followLast : Bool} {e : Entry} (hp : t.Reachable followLast p)
    (hd : t.get? p ≠ some .directory) : Put p e t (t.putAt p e) := by
  intro q
  split_ifs with hq
  · rw [hq, get?_putAt_self hp hd]
  · exact get?_putAt_of_ne e hq

theorem reachable_of_directory {followLast : Bool} (hp : t.get? p.dropLast = some .directory)
    (hnames : AreNames p) (hplain : t.Plain p) : t.Reachable followLast p := by
  refine ⟨?_, fun _ => hplain⟩
  rcases List.eq_nil_or_concat p with rfl | ⟨dir, name, rfl⟩
  · exact .inl (get?_nil t)
  · rw [List.concat_eq_append] at hp hnames ⊢
    rw [List.dropLast_concat] at hp
    exact .inr ⟨dir, name, rfl, hnames name (by simp), hp⟩

theorem Put.filled {e : Entry} (h : Put p e t u) : Filled p t u := by
  refine filled_of_eq_outside fun q hq => ?_
  rw [h q, if_neg]
  rintro rfl
  exact hq (List.prefix_refl _)

/-- A file that is put below the directory is no link. -/
theorem Clean.put {content : ByteArray} {executable : Bool} (h : Clean base path d t)
    (hne : names ≠ []) (hput : Put (d ++ names) (.file content executable) t u) :
    Clean base path d u := by
  refine h.of_filled hput.filled (List.prefix_append d _) (by simpa using hne) fun a target hlink => ?_
  rw [FileTree.contents, hput] at hlink
  split_ifs at hlink
  · cases hlink
  · exact h.linkless _ ((List.prefix_append d names).trans (List.prefix_append _ a)) target hlink

theorem Put.trans {e e' : Entry} {v : FileTree} (h1 : Put p e t u) (h2 : Put p e' u v) :
    Put p e' t v := by
  intro q
  rw [h2 q, h1 q]
  split_ifs <;> rfl

theorem openForWriting_of_hasNul (h : Found base path p names t)
    (hnul : (path.below names).hasNul = true) :
    t.openForWriting base (path.below names) = .error .nulInPath := by
  unfold openForWriting
  rw [follow_of_hasNul h.text_ne hnul]
  rfl

theorem openForWriting_of_directory (h : Found base path p names t)
    (hnul : (path.below names).hasNul = false)
    (hparent : t.get? (p ++ names).dropLast = some .directory)
    (hd : t.get? (p ++ names) = some .directory) :
    t.openForWriting base (path.below names) = .error .isADirectory := by
  unfold openForWriting
  rw [follow_of_directory h (fun _ => plain_of_directory hd) hnul hparent]
  simp [bind, Except.bind, isDirectory, hd]

/-- A file is copied to where a file can be written, if it is still there once that one has been
emptied. -/
theorem copyFile_of_open {source destination : Path} {content : ByteArray} {executable : Bool}
    (ho : t.openForWriting base destination = .ok p)
    (hs : t.stat base source = .ok (.file content executable))
    (hstays : ∀ u : FileTree, Put p (.file .empty executable) t u →
      u.stat base source = .ok (.file content executable)) :
    ∃ u, t.copyFile base source destination = .ok u ∧ Put p (.file content executable) t u := by
  obtain ⟨-, hr, hd⟩ := openForWriting_ok ho
  have hreach := resolve_reachable hr
  have hput := put_putAt (e := .file .empty executable) hreach hd
  have hself : (t.putAt p (.file .empty executable)).get? p = some (.file .empty executable) := by
    rw [hput, if_pos rfl]
  obtain ⟨dir, name, rfl, hname, -⟩ := hreach.placed.resolve_left hd
  have hreach' : (t.putAt (dir ++ [name]) (.file .empty executable)).Reachable false
      (dir ++ [name]) :=
    ⟨.inr ⟨dir, name, rfl, hname, get?_parent hself⟩, nofun⟩
  refine ⟨_, ?_, hput.trans (put_putAt hreach' (by simp [hself]))⟩
  unfold FileTree.copyFile FileTree.read
  rw [hs]
  simp only [bind, Except.bind]
  rw [ho]
  simp only
  rw [hstays _ hput]

/-- A file is copied to the end of a path, if it is still there once the end has been emptied. -/
theorem copyFile_put (h : Found base path p names t) (hnul : (path.below names).hasNul = false)
    (hparent : t.get? (p ++ names).dropLast = some .directory)
    (hd : t.get? (p ++ names) ≠ some .directory) (hplain : t.Plain (p ++ names)) {source : Path}
    {content : ByteArray} {executable : Bool}
    (hs : t.stat base source = .ok (.file content executable))
    (hstays : ∀ u : FileTree, Put (p ++ names) (.file .empty executable) t u →
      u.stat base source = .ok (.file content executable)) :
    ∃ u, t.copyFile base source (path.below names) = .ok u ∧
      Put (p ++ names) (.file content executable) t u := by
  refine copyFile_of_open ?_ hs hstays
  have hslash := (endsInName_of_ne (p := path) h.areNames h.ne).endsInSlash
  unfold openForWriting
  rw [hslash, follow_of_directory h (fun _ => hplain) hnul hparent]
  simp [bind, Except.bind, isDirectory, hd]

/-! ### Reading a directory -/

theorem stat_ok (h : Ready base path p names t) (hplain : t.Plain (p ++ names)) {e : Entry}
    (hs : t.stat base (path.below names) = .ok e) : t.get? (p ++ names) = some e := by
  unfold stat resolve at hs
  rw [h.found.steps_eq] at hs
  rcases hf : t.follow base (path.below names) (path.below names).names true with cause | q <;>
    rw [hf] at hs
  · cases hs
  have hq := follow_below h.leads.resolve h.there h.areNames h.ne h.way (fun _ => hplain) hf
  subst hq
  simp only [bind, Except.bind] at hs
  unfold entryAt at hs
  rcases hg : t.get? (p ++ names) with _ | e' <;> rw [hg] at hs
  · cases hs
  · cases hs
    rfl

theorem readDir_of_directory (h : Ready base path p names t)
    (hnul : (path.below names).hasNul = false) (hd : t.get? (p ++ names) = some .directory) :
    t.readDir base (path.below names) = .ok (t.names (p ++ names)) := by
  unfold readDir entryAt
  rw [resolve_of_directory h.found (plain_of_directory hd) hnul (dropLast_directory hd)]
  simp only [bind, Except.bind, hd]

theorem readDir_ok (h : Ready base path p names t) (hplain : t.Plain (p ++ names))
    {found : List String} (hr : t.readDir base (path.below names) = .ok found) :
    t.get? (p ++ names) = some .directory ∧ found = t.names (p ++ names) := by
  obtain ⟨q, hres, hd, rfl⟩ := Edit.of_readDir hr
  have hq : q = p ++ names := by
    unfold resolve at hres
    rw [h.found.steps_eq] at hres
    exact follow_below h.leads.resolve h.there h.areNames h.ne h.way (fun _ => hplain) hres
  subst hq
  exact ⟨hd, rfl⟩

/-- The names in a directory are different from each other. -/
theorem nodup_names (t : FileTree) (dir : Place) : (t.names dir).Nodup := by
  refine List.Pairwise.filterMap _ (fun x y hlt a ha b hb => ?_) t.ascending
  rintro rfl
  split_ifs at ha hb with hx hy
  obtain ⟨init, hinit⟩ := List.getLast?_eq_some_iff.mp ha
  obtain ⟨init', hinit'⟩ := List.getLast?_eq_some_iff.mp hb
  rw [hinit, List.dropLast_concat] at hx
  rw [hinit', List.dropLast_concat] at hy
  rw [hinit, hinit', hx, hy] at hlt
  exact List.lt_irrefl _ hlt

/-- The name that comes next is not among those that have come before. -/
theorem not_mem_of_names {dir : Place} {done rest : List String} {name : String}
    (h : t.names dir = done ++ name :: rest) : name ∉ done := by
  intro hdone
  have hnodup := nodup_names t dir
  rw [h] at hnodup
  exact (List.nodup_append.mp hnodup).2.2 name hdone name (by simp) rfl

/-! ### What a copy is -/

/-- `u` is `t` with what lies at `p` a second time at `q`. -/
structure Copied (p q : Place) (t u : FileTree) : Prop where
  outside : ∀ r, ¬ q <+: r → u.get? r = t.get? r
  contents : u.contents q = t.contents p

/-- A part of a directory has been copied: what lies there under some of the names. -/
structure CopiedPart (p q : Place) (done : List String) (t u : FileTree) : Prop where
  outside : ∀ r, ¬ q <+: r → u.get? r = t.get? r
  there : u.get? q = some .directory
  copied : ∀ name ∈ done, u.contents (q ++ [name]) = t.contents (p ++ [name])
  rest : ∀ name, name ∉ done → ∀ a, u.contents (q ++ [name]) a = none

/-- A file that is put where there is nothing is copied. -/
theorem Put.copied {content : ByteArray} {executable : Bool}
    (h : Put q (.file content executable) t u)
    (hp : t.get? p = some (.file content executable)) (hq : t.get? q = none) : Copied p q t u where
  outside := fun r hr => by
    rw [h r, if_neg]
    rintro rfl
    exact hr (List.prefix_refl _)
  contents := by
    funext a
    rw [FileTree.contents, FileTree.contents, h]
    by_cases ha : a = []
    · simp [ha, hp]
    · rw [if_neg (by simpa using ha), get?_eq_none_beneath hq (List.prefix_append q a)]
      rcases hg : t.get? (p ++ a) with _ | e
      · rfl
      · rw [get?_above hg (List.prefix_append p a) (by simpa using ha)] at hp
        cases hp

section Part

variable {done : List String} {name : String} {v : FileTree}

theorem contents_cons (t : FileTree) (p : Place) (name : String) (a : List String) :
    t.contents p (name :: a) = t.contents (p ++ [name]) a := by
  rw [FileTree.contents, FileTree.contents, List.append_assoc]
  rfl

/-- When all names have been gone through, the directory has been copied. -/
theorem CopiedPart.whole (h : CopiedPart p q done t u) (hp : t.get? p = some .directory)
    (hdone : ∀ name, name ∈ done ↔ (t.get? (p ++ [name])).isSome) : Copied p q t u where
  outside := h.outside
  contents := by
    funext a
    rcases a with _ | ⟨name, a⟩
    · rw [contents_nil, contents_nil, h.there, hp]
    · rw [contents_cons, contents_cons]
      by_cases hname : name ∈ done
      · rw [h.copied name hname]
      · rw [h.rest name hname a]
        have hnone : t.get? (p ++ [name]) = none := by
          simpa using fun hsome => hname ((hdone name).mpr hsome)
        exact (get?_eq_none_beneath hnone (List.prefix_append _ a)).symm

/-- One more name. -/
theorem CopiedPart.concat (h : CopiedPart p q done t u) (hpq : Aside p q) (hname : name ∉ done)
    (hv : Copied (p ++ [name]) (q ++ [name]) u v) : CopiedPart p q (done ++ [name]) t v := by
  have hshort : ¬ q ++ [name] <+: q := fun hpre => absurd hpre.length_le (by simp)
  refine ⟨fun r hr => ?_, ?_, fun n hn => ?_, fun n hn a => ?_⟩
  · rw [hv.outside r fun hpre => hr ((List.prefix_append q [name]).trans hpre), h.outside r hr]
  · rw [hv.outside q hshort, h.there]
  · rcases List.mem_append.mp hn with hn | hn
    · rw [← h.copied n hn]
      funext a
      refine hv.outside _ fun hpre => ?_
      rw [List.append_assoc, List.prefix_append_right_inj, List.singleton_append,
        List.cons_prefix_cons] at hpre
      exact hname (hpre.1 ▸ hn)
    · rw [List.mem_singleton.mp hn, hv.contents]
      funext a
      refine h.outside _ fun hpre => ?_
      rw [List.append_assoc] at hpre
      exact (hpq.beneath (List.prefix_append p _)).2 hpre
  · rw [← h.rest n (fun h' => hn (List.mem_append_left _ h')) a]
    refine hv.outside _ fun hpre => ?_
    rw [List.append_assoc, List.prefix_append_right_inj, List.singleton_append,
      List.cons_prefix_cons] at hpre
    exact hn (by simp [hpre.1])

end Part

theorem CopiedPart.start (h : Put q .directory t u) (hq : t.get? q = none) :
    CopiedPart p q [] t u where
  outside := fun r hr => by
    rw [h r, if_neg]
    rintro rfl
    exact hr (List.prefix_refl _)
  there := by rw [h q, if_pos rfl]
  copied := fun name hname => absurd hname (List.not_mem_nil)
  rest := fun name _ a => by
    rw [FileTree.contents, h, if_neg (by simp), List.append_assoc]
    exact get?_eq_none_beneath hq (List.prefix_append q _)

theorem Clean.of_copiedPart {done : List String} (h : Clean base path d t)
    (hc : CopiedPart p q done t u) (hp : d <+: p) (hq : d <+: q) (hne : d ≠ q) :
    Clean base path d u := by
  refine h.of_filled (filled_of_eq_outside hc.outside) hq hne fun a target hlink => ?_
  rcases a with _ | ⟨name, a⟩
  · rw [contents_nil, hc.there] at hlink
    cases hlink
  · rw [contents_cons] at hlink
    by_cases hname : name ∈ done
    · rw [hc.copied name hname] at hlink
      refine h.linkless _ (hp.trans ?_) target hlink
      exact (List.prefix_append p [name]).trans (List.prefix_append _ a)
    · rw [hc.rest name hname a] at hlink
      cases hlink

theorem Clean.of_copied (h : Clean base path d t) (hc : Copied p q t u) (hp : d <+: p)
    (hq : d <+: q) (hne : d ≠ q) : Clean base path d u := by
  refine h.of_filled (filled_of_eq_outside hc.outside) hq hne fun a target hlink => ?_
  rw [hc.contents] at hlink
  exact h.linkless _ (hp.trans (List.prefix_append p a)) target hlink

/-- No entry lies deeper than the height of the tree. -/
theorem length_le_height {p : Place} {e : Entry} (h : t.get? p = some e) : p.length ≤ t.height := by
  have key : ∀ (l : List (Place × Entry)) (n : Nat),
      n ≤ l.foldl (fun n x => max n x.1.length) n ∧
        ∀ x ∈ l, x.1.length ≤ l.foldl (fun n x => max n x.1.length) n := by
    intro l
    induction l with
    | nil => exact fun n => ⟨Nat.le_refl n, by simp⟩
    | cons x l ih =>
      intro n
      obtain ⟨h1, h2⟩ := ih (max n x.1.length)
      refine ⟨Nat.le_trans (Nat.le_max_left ..) h1, fun y hy => ?_⟩
      rcases List.mem_cons.mp hy with rfl | hy
      · exact Nat.le_trans (Nat.le_max_right ..) h1
      · exact h2 y hy
  by_cases hp : p = []
  · simp [hp]
  · exact (key t.entries 0).2 _ ((get?_eq_some_iff hp).mp h)

end FileTree

namespace Edit

variable {t u v : FileTree} {base d : Place} {path : Path} {b : List String}

/-! ### Copying -/

/-- The directory to copy from is there, and its names are such that they can be copied. -/
def Copyable (depth : Nat) (p : Place) (t : FileTree) : Prop :=
  t.get? p = some .directory ∧
    ∀ a e, t.contents p a = some e → Nulless a ∧ a.length < depth

theorem Copyable.into {depth : Nat} {p : Place} {name : String} (h : Copyable (depth + 1) p t)
    (hd : t.get? (p ++ [name]) = some .directory)
    (hv : v.contents (p ++ [name]) = t.contents (p ++ [name])) :
    Copyable depth (p ++ [name]) v := by
  refine ⟨?_, fun a e he => ?_⟩
  · rw [← contents_nil, hv, contents_nil, hd]
  · rw [hv, ← contents_cons] at he
    obtain ⟨hnul, hlength⟩ := h.2 _ _ he
    exact ⟨fun n hn => hnul n (List.mem_cons_of_mem name hn), by simpa using hlength⟩

theorem stat_of_hasNul {X : Path} (hX : X.hasNul = true) (htext : X.text ≠ "") :
    t.stat base X = .error .nulInPath := by
  unfold stat resolve follow
  rw [if_neg htext, if_pos hX]
  rfl

theorem apply_copyFile_of_error {source destination : Path} {cause : IoError}
    (h : t.stat base source = .error cause) :
    (copyFile base source destination).apply t = (.error ⟨.copy source destination, cause⟩, t) := by
  unfold copyFile
  rw [apply_bind, apply_get]
  simp only
  unfold FileTree.copyFile
  rw [h]
  rfl

/-- What is to be copied is found, but its copy cannot be opened. -/
theorem apply_copyFile_of_closed {source destination : Path} {content : ByteArray}
    {executable : Bool} {cause : IoError} (hs : t.stat base source = .ok (.file content executable))
    (ho : t.openForWriting base destination = .error cause) :
    (copyFile base source destination).apply t = (.error ⟨.copy source destination, cause⟩, t) := by
  unfold copyFile
  rw [apply_bind, apply_get]
  simp only
  unfold FileTree.copyFile
  rw [hs]
  simp only [bind, Except.bind]
  rw [ho]
  rfl

theorem apply_copyFile_of_ok {source destination : Path}
    (h : t.copyFile base source destination = .ok u) :
    (copyFile base source destination).apply t = (.ok ⟨⟩, u) := by
  unfold copyFile
  rw [apply_bind, apply_get]
  simp only
  rw [h]
  rfl

/-- What is copied as a file is a file. -/
theorem apply_copyFile_of_not_file {source destination : Path}
    {e : Entry} (hs : t.stat base source = .ok e)
    (he : ∀ content executable, e ≠ .file content executable) :
    (copyFile base source destination).apply t =
      (.error ⟨.copy source destination, .notARegularFile⟩, t) := by
  unfold copyFile
  rw [apply_bind, apply_get]
  simp only
  unfold FileTree.copyFile
  rw [hs]
  rcases e with _ | ⟨content, executable⟩ | target
  · rfl
  · exact absurd rfl (he content executable)
  · rfl

/-- Copies one entry of a directory, in one way if it is a directory and in another if it is not. -/
def copyEntry (base : Place) (origin : Path) (directory file : Edit Unit) : Edit Unit := do
  match (← get).lstat base origin with
  | .ok .directory => directory
  | _ => file

theorem apply_copyEntry_of_directory {origin : Path} (directory file : Edit Unit)
    (h : t.lstat base origin = .ok .directory) :
    (copyEntry base origin directory file).apply t = directory.apply t := by
  unfold copyEntry
  rw [apply_bind, apply_get]
  simp only [h]

theorem apply_copyEntry_of_ne {origin : Path} (directory file : Edit Unit)
    (h : t.lstat base origin ≠ .ok .directory) :
    (copyEntry base origin directory file).apply t = file.apply t := by
  unfold copyEntry
  rw [apply_bind, apply_get]
  simp only

/-- What has a name that no system call accepts is not copied. -/
theorem apply_copyEntry_of_hasNul (h : Clean base path d t) {a : List String} {name : String}
    (ha : AreNames (a ++ [name])) (hnul : (⟨name⟩ : Path).hasNul = true) (directory : Edit Unit)
    (destination : Path) :
    (copyEntry base (path.below (a ++ [name])) directory
      (copyFile base (path.below (a ++ [name])) destination)).apply t =
      (.error ⟨.copy (path.below (a ++ [name])) destination, .nulInPath⟩, t) := by
  have hsource : (path.below (a ++ [name])).hasNul = true := by
    rw [below_concat, hasNul_entry (ha name (by simp)), hnul, Bool.or_true]
  have hlstat : t.lstat base (path.below (a ++ [name])) ≠ .ok .directory := by
    unfold lstat
    rw [locate_of_hasNul (h.ready ha (by simp)) hsource]
    exact fun h => by cases h
  rw [apply_copyEntry_of_ne _ _ hlstat]
  exact apply_copyFile_of_error (stat_of_hasNul hsource (endsInName_below h.ends ha).text_ne)

/-- A directory is copied entry by entry. -/
theorem copyDirAll_succ (base : Place) (depth : Nat) (source destination : Path) :
    copyDirAll base (depth + 1) source destination = (do
      ensureDir base destination
      let names ← ask (.readDirectory source) fun t => t.readDir base source
      names.forM fun name => copyEntry base (source.entry name)
        (copyDirAll base depth (source.entry name) (destination.entry name))
        (copyFile base (source.entry name) (destination.entry name))) := rfl

theorem reaches_copyFile (h : Clean base path d t) {a b : List String} (ha : AreNames a)
    (hb : AreNames b) (hane : a ≠ []) (hbne : b ≠ []) (hanul : (path.below a).hasNul = false)
    (hbnul : (path.below b).hasNul = false) (hab : Aside a b)
    (hparent : t.get? (d ++ b).dropLast = some .directory) (hnone : t.get? (d ++ b) = none)
    {content : ByteArray} {executable : Bool}
    (hfile : t.get? (d ++ a) = some (.file content executable)) (sure : Prop) :
    (copyFile base (path.below a) (path.below b)).Reaches t sure
      fun _ u => Copied (d ++ a) (d ++ b) t u := by
  have hready := h.ready ha hane
  obtain ⟨u, hu, hput⟩ := copyFile_put (h.ready hb hbne).found hbnul hparent (by simp [hnone])
    (plain_of_none hnone) (stat_of_exists hready.found hanul hfile (fun _ he => by cases he))
    (fun u hu => by
      refine stat_of_exists ((h.put hbne hu).ready ha hane).found hanul ?_ (fun _ he => by cases he)
      rw [hu, if_neg, hfile]
      intro heq
      exact hab.1 (List.append_cancel_left heq ▸ List.prefix_refl _))
  exact .of_apply (apply_copyFile_of_ok hu) (hput.copied hfile hnone)

theorem reaches_ensureDir (h : Ready base path d b t) (hnul : (path.below b).hasNul = false)
    (hparent : t.get? (d ++ b).dropLast = some .directory) (hnone : t.get? (d ++ b) = none)
    (sure : Prop) : (ensureDir base (path.below b)).Reaches t sure
      fun _ u => Put (d ++ b) .directory t u := by
  obtain ⟨u, hu, hreached⟩ := apply_ensureDir h.straight hnul (free_of_directory hparent) (.inl hnone)
  refine .of_apply hu fun q => ?_
  rw [hreached q]
  by_cases hq : q = d ++ b
  · rw [if_pos (hq ▸ List.prefix_refl _), if_pos hq]
  · rw [if_neg hq]
    split_ifs with hpre
    · exact (directory_of_parent hparent hpre hq).symm
    · rfl

/-- An entry of a directory is copied, if it is clear how a directory is. -/
theorem reaches_copyEntry {depth : Nat} {a : List String} {name : String} {sure : Prop}
    (h : Clean base path d t) (ha : AreNames (a ++ [name])) (hb : AreNames (b ++ [name]))
    (hanul : (path.below a).hasNul = false) (hbnul : (path.below b).hasNul = false)
    (hab : Aside a b) (hparent : t.get? (d ++ b) = some .directory)
    (hnone : t.get? (d ++ (b ++ [name])) = none) {e : Entry}
    (he : t.get? (d ++ (a ++ [name])) = some e)
    (hsure : sure → (⟨name⟩ : Path).hasNul = false ∧
      (e = .directory → Copyable depth (d ++ (a ++ [name])) t))
    (hrec : (path.below (a ++ [name])).hasNul = false → (path.below (b ++ [name])).hasNul = false →
      (copyDirAll base depth (path.below (a ++ [name])) (path.below (b ++ [name]))).Reaches t
        (Copyable depth (d ++ (a ++ [name])) t)
        fun _ u => Copied (d ++ (a ++ [name])) (d ++ (b ++ [name])) t u) :
    (copyEntry base (path.below (a ++ [name]))
      (copyDirAll base depth (path.below (a ++ [name])) (path.below (b ++ [name])))
      (copyFile base (path.below (a ++ [name])) (path.below (b ++ [name])))).Reaches t sure
      fun _ u => Copied (d ++ (a ++ [name])) (d ++ (b ++ [name])) t u := by
  have hready := h.ready ha (by simp)
  have hname := ha name (by simp)
  by_cases hnul : (⟨name⟩ : Path).hasNul = true
  · refine .of_error (apply_copyEntry_of_hasNul h ha hnul _ _) fun hs => ?_
    rw [hnul] at hsure
    exact absurd (hsure hs).1 (by simp)
  rw [Bool.not_eq_true] at hnul
  have hanul' : (path.below (a ++ [name])).hasNul = false := by
    rw [below_concat, hasNul_entry hname, hanul, hnul]
    rfl
  have hbnul' : (path.below (b ++ [name])).hasNul = false := by
    rw [below_concat, hasNul_entry hname, hbnul, hnul]
    rfl
  have hlstat := lstat_of_exists hready.found hanul' he
  rcases e with _ | ⟨content, executable⟩ | target
  · refine .congr (apply_copyEntry_of_directory _ _ hlstat) ?_
    exact (hrec hanul' hbnul').imp (fun hs => (hsure hs).2 rfl) fun _ _ hu => hu
  · have hne : t.lstat base (path.below (a ++ [name])) ≠ .ok .directory := by simp [hlstat]
    refine .congr (apply_copyEntry_of_ne _ _ hne) ?_
    exact reaches_copyFile h ha hb (by simp) (by simp) hanul' hbnul' (hab.concat name name)
      (by rw [dropLast_append_concat, hparent]) hnone he sure
  · exact absurd he (h.plain _ target)

/-- **A directory is copied** to a place where there is nothing. -/
theorem reaches_copyDirAll : ∀ (depth : Nat) {a b : List String} {t : FileTree},
    Clean base path d t → AreNames a → AreNames b → a ≠ [] → b ≠ [] →
    (path.below a).hasNul = false → (path.below b).hasNul = false → Aside a b →
    t.get? (d ++ b).dropLast = some .directory → t.get? (d ++ b) = none →
    (copyDirAll base depth (path.below a) (path.below b)).Reaches t (Copyable depth (d ++ a) t)
      fun _ u => Copied (d ++ a) (d ++ b) t u
  | 0, a, b, t, _, _, _, _, _, _, _, _, _, _ => by
    refine .of_error rfl fun hsure => ?_
    have := (hsure.2 [] .directory (by rw [contents_nil]; exact hsure.1)).2
    simp at this
  | depth + 1, a, b, t, h, ha, hb, hane, hbne, hanul, hbnul, hab, hparent, hnone => by
    have haside : Aside (d ++ a) (d ++ b) := aside_append.mpr hab
    have hda : d <+: d ++ a := List.prefix_append d a
    have hdb : d <+: d ++ b := List.prefix_append d b
    have hdne : d ≠ d ++ b := by simpa using hbne
    have happ : ∀ c (name : String), d ++ c ++ [name] = d ++ (c ++ [name]) := by simp
    rw [copyDirAll_succ]
    refine (reaches_ensureDir (h.ready hb hbne) hbnul hparent hnone _).bind fun _ u hu => ?_
    have hpart := CopiedPart.start (p := d ++ a) hu hnone
    have hclean := h.of_copiedPart hpart hda hdb hdne
    have hsame : ∀ {v : FileTree}, (∀ r, ¬ d ++ b <+: r → v.get? r = t.get? r) →
        v.contents (d ++ a) = t.contents (d ++ a) := fun hv => funext fun c =>
      hv _ (haside.beneath (List.prefix_append _ c)).2
    by_cases hd : t.get? (d ++ a) = some .directory
    swap
    · -- there is no directory to be read
      rcases hr : u.readDir base (path.below a) with cause | found
      · have hread : (ask (.readDirectory (path.below a)) fun v => v.readDir base (path.below a)).apply
            u = (.error ⟨.readDirectory (path.below a), cause⟩, u) := by
          rw [apply_ask, hr]
          rfl
        exact .bind_of_error hread fun hsure => hd hsure.1
      · have := (readDir_ok (hclean.ready ha hane) (hclean.plain a) hr).1
        rw [← contents_nil, hsame hpart.outside, contents_nil] at this
        exact absurd this hd
    have hdu : u.get? (d ++ a) = some .directory := by
      rw [← contents_nil, hsame hpart.outside, contents_nil, hd]
    have hmem : ∀ name, name ∈ u.names (d ++ a) ↔ (t.get? (d ++ a ++ [name])).isSome := by
      intro name
      rw [mem_names, show u.get? (d ++ a ++ [name]) = t.get? (d ++ a ++ [name]) from
        congrFun (hsame hpart.outside) [name]]
    refine Reaches.bind (P := fun found v => found = u.names (d ++ a) ∧ v = u)
      (.of_apply (a := u.names (d ++ a)) (u := u) ?_ ⟨rfl, rfl⟩) ?_
    · rw [apply_ask, readDir_of_directory (hclean.ready ha hane) hanul hdu]
      rfl
    rintro found w ⟨hfound, hw⟩
    rw [hfound, hw]
    refine (Reaches.forM (I := fun done v => CopiedPart (d ++ a) (d ++ b) done t v)
      (fun done name rest hl v hv => ?_) hpart).imp id fun _ v hv => hv.whole hd hmem
    -- the next name, which is not among those that are done
    have hfresh := not_mem_of_names hl
    obtain ⟨e, he⟩ := Option.isSome_iff_exists.mp ((hmem name).mp (by rw [hl]; simp))
    have hname : isName name = true := isName_of_get? he name (by simp)
    have hvsame := hsame hv.outside
    have hve : v.get? (d ++ (a ++ [name])) = some e := by
      rw [← happ]
      exact (congrFun hvsame [name]).trans he
    have hvnone : v.get? (d ++ (b ++ [name])) = none := by
      have := hv.rest name hfresh []
      rwa [contents_nil, happ] at this
    have hv' := h.of_copiedPart hv hda hdb hdne
    have hanames := ha.append (areNames_singleton hname)
    have hbnames := hb.append (areNames_singleton hname)
    rw [← below_concat, ← below_concat]
    refine (reaches_copyEntry hv' hanames hbnames hanul hbnul hab hv.there hvnone hve (fun hsure => ?_)
      fun hanul' hbnul' => ?_).imp id fun _ w hw => ?_
    · refine ⟨(hsure.2 [name] e he).1 name (by simp), ?_⟩
      rintro rfl
      rw [← happ]
      refine hsure.into he (funext fun c => ?_)
      rw [← contents_cons, ← contents_cons, hvsame]
    · exact reaches_copyDirAll depth hv' hanames hbnames (by simp) (by simp) hanul' hbnul'
        (hab.concat name name) (by rw [dropLast_append_concat, hv.there]) hvnone
    · rw [← happ, ← happ] at hw
      exact hv.concat haside hfresh hw

/-- **A tree is copied** to a place where there is nothing; it is sure to be copied if there is a
directory to be copied and if all names in it are such that they can be. -/
theorem reaches_copyTree {a : List String} (h : Clean base path d t) (ha : AreNames a)
    (hb : AreNames b) (hane : a ≠ []) (hbne : b ≠ []) (hanul : (path.below a).hasNul = false)
    (hbnul : (path.below b).hasNul = false) (hab : Aside a b)
    (hparent : t.get? (d ++ b).dropLast = some .directory) (hnone : t.get? (d ++ b) = none) :
    (copyTree base (path.below a) (path.below b)).Reaches t
      (t.get? (d ++ a) = some .directory ∧ ∀ c e, t.contents (d ++ a) c = some e → Nulless c)
      fun _ u => Copied (d ++ a) (d ++ b) t u := by
  have hcopy := reaches_copyDirAll (t.height + 1) h ha hb hane hbne hanul hbnul hab hparent hnone
  unfold copyTree
  refine Reaches.bind (P := fun v w => v = t ∧ w = t) (.of_apply apply_get ⟨rfl, rfl⟩) ?_
  rintro _ _ ⟨rfl, rfl⟩
  refine hcopy.imp (fun hsure => ⟨hsure.1, fun c e he => ⟨hsure.2 c e he, ?_⟩⟩) fun _ _ hu => hu
  have := length_le_height he
  rw [List.length_append] at this
  omega

end Edit

end SymbolDocs
