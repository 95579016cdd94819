import SymbolDocs.Proofs.FileTree.Copied
import SymbolDocs.Proofs.FileTree.Grown

/-! # Copies of directories with links

A directory is copied from wherever a path leads, links included, to a place in which there is room
(`Room`). Whether the copy succeeds or not, all that is new is at this place, and no link is among
it (`Added`). If it succeeds, the place shows what was to be copied, with a file instead of each
link (`Mirror`); that is said about the tree in which the copy ends, where a link may lead to a part
of the copy itself (`leaves_copyTree`). The frame is part of the statement, so that a copy of a
directory is put together from the copies of its entries. -/

namespace SymbolDocs

open FileTree SymbolDocs.Path

/-! ### What an edit leaves -/

namespace Edit

/-- An edit of a tree ends in one way if it succeeds and in another way if it fails. -/
structure Leaves {α : Type} (e : Edit α) (t : FileTree) (P : α → FileTree → Prop)
    (Q : FileTree → Prop) : Prop where
  ok : ∀ a u, e.apply t = (.ok a, u) → P a u
  error : ∀ failure u, e.apply t = (.error failure, u) → Q u

section Leaves

variable {α β : Type} {t : FileTree} {P : α → FileTree → Prop} {R : β → FileTree → Prop}
  {Q : FileTree → Prop}

theorem Leaves.of_ok {e : Edit α} {a : α} {u : FileTree} (h : e.apply t = (.ok a, u))
    (hP : P a u) : e.Leaves t P Q where
  ok := fun a' u' h' => by rw [h] at h'; cases h'; exact hP
  error := fun failure u' h' => by rw [h] at h'; cases h'

theorem Leaves.of_error {e : Edit α} {failure : IoFailure} {u : FileTree}
    (h : e.apply t = (.error failure, u)) (hQ : Q u) : e.Leaves t P Q where
  ok := fun a' u' h' => by rw [h] at h'; cases h'
  error := fun failure' u' h' => by rw [h] at h'; cases h'; exact hQ

/-- It does not matter in which way an edit comes to what it comes to. -/
theorem Leaves.congr {e f : Edit α} (h : e.apply t = f.apply t) (hf : f.Leaves t P Q) :
    e.Leaves t P Q where
  ok := fun a u hu => hf.ok a u (h.symm.trans hu)
  error := fun failure u hu => hf.error failure u (h.symm.trans hu)

theorem Leaves.imp {e : Edit α} {P' : α → FileTree → Prop} {Q' : FileTree → Prop}
    (h : e.Leaves t P Q) (hP : ∀ a u, P a u → P' a u) (hQ : ∀ u, Q u → Q' u) :
    e.Leaves t P' Q' where
  ok := fun a u hu => hP a u (h.ok a u hu)
  error := fun failure u hu => hQ u (h.error failure u hu)

theorem Leaves.bind {x : Edit α} {f : α → Edit β} (hx : x.Leaves t P Q)
    (hf : ∀ a u, P a u → (f a).Leaves u R Q) : (x >>= f).Leaves t R Q where
  ok := by
    intro b v h
    obtain ⟨a, u, h1, h2⟩ := apply_bind_ok h
    exact (hf a u (hx.ok a u h1)).ok b v h2
  error := by
    intro failure v h
    rw [apply_bind] at h
    rcases ha : x.apply t with ⟨failure' | a, u⟩ <;> rw [ha] at h
    · cases h
      exact hx.error failure v ha
    · exact (hf a u (hx.ok a u ha)).error failure v h

/-- A loop with an invariant that knows what has been gone through. -/
theorem Leaves.forM {f : α → Edit Unit} {I : List α → FileTree → Prop} {l : List α}
    (hf : ∀ done a rest, l = done ++ a :: rest → ∀ u, I done u →
      (f a).Leaves u (fun _ v => I (done ++ [a]) v) Q) (hI : I [] t) :
    (l.forM f).Leaves t (fun _ u => I l u) Q := by
  have key : ∀ rest done u, l = done ++ rest → I done u →
      (rest.forM f).Leaves u (fun _ v => I l v) Q := by
    intro rest
    induction rest with
    | nil =>
      intro done u hl hu
      rw [List.append_nil] at hl
      exact .of_ok rfl (hl ▸ hu)
    | cons a rest ih =>
      intro done u hl hu
      exact (hf done a rest hl u hu).bind fun _ v hv => ih (done ++ [a]) v (by simp [hl]) hv
  exact key l [] t rfl hI

end Leaves

end Edit

namespace FileTree

variable {t u v : FileTree} {base g p q z : Place} {path source : Path} {names : List String}
  {name : String}

/-! ### Something new at a place -/

/-- `u` is `t` with something new at `p`, in which there is no link. -/
structure Added (p : Place) (t u : FileTree) : Prop where
  outside : ∀ q, ¬ p <+: q → u.get? q = t.get? q
  plain : ∀ q, p <+: q → u.Plain q

namespace Added

theorem refl (h : t.get? p = none) : Added p t t :=
  ⟨fun _ _ => rfl, fun _ hq => plain_of_none (get?_eq_none_beneath h hq)⟩

theorem grows (h : Added p t u) (hp : t.get? p = none) : Grows t u := by
  intro q e he
  by_cases hq : p <+: q
  · rw [get?_eq_none_beneath hp hq] at he
    cases he
  · rw [h.outside q hq, he]

/-- What is added beneath is added above. -/
theorem beneath (h1 : Added p t u) {a : List String} (h2 : Added (p ++ a) u v) : Added p t v where
  outside := fun q hq => by
    rw [h2.outside q fun hpre => hq ((List.prefix_append p a).trans hpre), h1.outside q hq]
  plain := fun q hq => by
    by_cases hpre : p ++ a <+: q
    · exact h2.plain q hpre
    · exact (plain_congr (h2.outside q hpre)).mpr (h1.plain q hq)

theorem trans (h1 : Added p t u) (h2 : Added p u v) : Added p t v :=
  h1.beneath (a := []) (by rwa [List.append_nil])

theorem contents_eq (h : Added p t u) (hq : ∀ a, ¬ p <+: q ++ a) : u.contents q = t.contents q :=
  funext fun a => h.outside (q ++ a) (hq a)

theorem within (h : Added p t u) (hq : q <+: p) : Within q t u := by
  intro r
  by_cases hr : p <+: r
  · exact .inr (.inl ⟨hq.trans hr, h.plain r hr⟩)
  · exact .inl (h.outside r hr)

end Added

theorem Put.added {e : Entry} (h : Put p e t u) (he : ∀ target, e ≠ .link target)
    (hp : t.get? p = none) : Added p t u where
  outside := fun q hq => by
    rw [h q, if_neg]
    rintro rfl
    exact hq (List.prefix_refl _)
  plain := fun q hq target hlink => by
    rw [h q] at hlink
    split_ifs at hlink with heq
    · exact he target (Option.some.inj hlink)
    · rw [get?_eq_none_beneath hp hq] at hlink
      cases hlink

theorem Put.grows {e : Entry} (h : Put p e t u) (hp : t.get? p = none) : Grows t u := by
  intro q e' he
  rw [h q, if_neg, he]
  rintro rfl
  rw [hp] at he
  cases he

/-! ### Room for a copy -/

/-- A path leads to a directory at `p`; below it there is a directory in which nothing is called by
the last of the names. -/
structure Room (base : Place) (path : Path) (p : Place) (names : List String) (t : FileTree) :
    Prop extends Found base path p names t where
  parent : t.get? (p ++ names).dropLast = some .directory
  vacant : t.get? (p ++ names) = none

theorem Room.of_parent (hends : path.EndsInStep) (hresolve : t.resolve base path = .ok p)
    (hnames : AreNames names) (hname : isName name = true)
    (hparent : t.get? (p ++ names) = some .directory)
    (hvacant : t.get? (p ++ names ++ [name]) = none) : Room base path p (names ++ [name]) t where
  ends := hends
  areNames := hnames.append (areNames_singleton hname)
  ne := by simp
  resolve := hresolve
  there := .inl (directory_above hparent (List.prefix_append p names))
  way := open_of_free (free_of_directory (by rw [dropLast_append_concat, hparent]))
  parent := by rw [dropLast_append_concat, hparent]
  vacant := by rw [← List.append_assoc, hvacant]

/-! ### What a copy shows -/

/-- What a copy shows of what lies at `p`, to which the path leads: instead of each link, what the
link leads to. -/
def seen (t : FileTree) (base : Place) (path : Path) (p : Place) (a : List String) : Option Entry :=
  match t.get? (p ++ a) with
  | some (.link _) => (t.stat base (path.below a)).toOption
  | e => e

/-- What lies at `q` is a copy of what lies at `p`, to which the path leads, where all links lead to
files. -/
structure Mirror (base : Place) (path : Path) (p q : Place) (t : FileTree) : Prop where
  contents : t.contents q = t.seen base path p
  links : ∀ a target, t.get? (p ++ a) = some (.link target) →
    ∃ content executable, t.stat base (path.below a) = .ok (.file content executable)

theorem seen_of_plain {a : List String} (h : t.Plain (p ++ a)) :
    t.seen base path p a = t.get? (p ++ a) := by
  unfold seen
  split
  · rename_i target hlink
    exact absurd hlink (h target)
  · rfl

theorem seen_of_link {a : List String} {target : Path} (h : t.get? (p ++ a) = some (.link target)) :
    t.seen base path p a = (t.stat base (path.below a)).toOption := by
  unfold seen
  rw [h]

theorem seen_cons (t : FileTree) (base : Place) (path : Path) (p : Place) (name : String)
    (a : List String) :
    t.seen base path p (name :: a) = t.seen base (path.entry name) (p ++ [name]) a := by
  unfold seen
  rw [List.append_assoc, List.singleton_append]
  rfl

/-- All links at `p` and beneath lead to files; the path leads to `p`. -/
def LinksToFiles (base : Place) (path : Path) (p : Place) (t : FileTree) : Prop :=
  ∀ a target, t.get? (p ++ a) = some (.link target) →
    ∃ content executable, t.stat base (path.below a) = .ok (.file content executable)

theorem LinksToFiles.of_grows (h : LinksToFiles base path p t) (hgrows : Grows t u)
    (hp : u.contents p = t.contents p) : LinksToFiles base path p u := by
  intro a target hlink
  obtain ⟨content, executable, hs⟩ := h a target ((congrFun hp a).symm.trans hlink)
  exact ⟨content, executable, stat_of_grows hgrows hs⟩

/-- What a copy shows stays the same while the tree grows elsewhere. -/
theorem LinksToFiles.seen_eq (h : LinksToFiles base path p t) (hgrows : Grows t u)
    (hp : u.contents p = t.contents p) : u.seen base path p = t.seen base path p := by
  funext a
  have ha : u.get? (p ++ a) = t.get? (p ++ a) := congrFun hp a
  by_cases hplain : t.Plain (p ++ a)
  · rw [seen_of_plain hplain, seen_of_plain ((plain_congr ha).mpr hplain), ha]
  · obtain ⟨target, hlink⟩ := not_forall_not.mp hplain
    obtain ⟨content, executable, hs⟩ := h a target hlink
    rw [seen_of_link hlink, seen_of_link (ha.trans hlink), hs, stat_of_grows hgrows hs]

/-- A copy stays a copy while the tree grows elsewhere. -/
theorem Mirror.of_grows (h : Mirror base path p q t) (hgrows : Grows t u)
    (hp : u.contents p = t.contents p) (hq : u.contents q = t.contents q) :
    Mirror base path p q u where
  contents := by rw [hq, h.contents, LinksToFiles.seen_eq h.links hgrows hp]
  links := LinksToFiles.of_grows h.links hgrows hp

/-- The copy of a file, or of a link to one. -/
theorem Put.mirror {content : ByteArray} {executable : Bool}
    (h : Put z (.file content executable) t u) (hz : t.get? z = none) (hne : p ≠ z)
    (hs : t.stat base path = .ok (.file content executable))
    (hp : t.get? p = some (.file content executable) ∨ ∃ target, t.get? p = some (.link target)) :
    Mirror base path p z u := by
  have hgrows := h.grows hz
  have hup : u.get? p = t.get? p := by rw [h p, if_neg hne]
  have hd : u.get? p ≠ some .directory := by
    rw [hup]
    rcases hp with hp | ⟨target, hp⟩ <;> simp [hp]
  have hbelow : ∀ a, a ≠ [] → u.get? (p ++ a) = none := by
    intro a ha
    rcases hg : u.get? (p ++ a) with _ | e
    · rfl
    · exact absurd (get?_above hg (List.prefix_append p a) (by simpa using ha)) hd
  refine ⟨funext fun a => ?_, fun a target hlink => ?_⟩
  · by_cases ha : a = []
    · subst ha
      rw [contents_nil, h z, if_pos rfl]
      rcases hp with hp | ⟨target, hp⟩
      · rw [seen_of_plain (by simp [Plain, hup, hp]), List.append_nil, hup, hp]
      · rw [seen_of_link (a := []) (by rw [List.append_nil, hup, hp]), below_nil,
          stat_of_grows hgrows hs]
        rfl
    · rw [FileTree.contents, h, if_neg (by simpa using ha),
        get?_eq_none_beneath hz (List.prefix_append z a),
        seen_of_plain (plain_of_none (hbelow a ha)), hbelow a ha]
  · by_cases ha : a = []
    · subst ha
      exact ⟨content, executable, by rw [below_nil]; exact stat_of_grows hgrows hs⟩
    · rw [hbelow a ha] at hlink
      cases hlink

/-! ### The entries of a directory -/

section Entries

variable (hr : t.resolve base source = .ok g) (hd : t.get? g = some .directory)
  (hname : isName name = true)

include hr hd hname

/-- The path of an entry leads to it, unless no system call accepts the path. -/
theorem follow_entry_cases :
    (∀ followLast, t.follow base (source.entry name) (source.entry name).steps followLast =
      .error .nulInPath) ∨
    ∀ followLast, (followLast = true → t.Plain (g ++ [name])) →
      t.follow base (source.entry name) (source.entry name).steps followLast =
        .ok (g ++ [name]) := by
  obtain ⟨n, hn⟩ := follow_eq_walk_below hr hd (areNames_singleton hname) (by simp)
  rw [steps_eq_names (endsInName_entry source hname).endsInSlash]
  by_cases hnul : (source.below [name]).hasNul = true
  · exact .inl fun followLast => (hn followLast).trans (if_pos hnul)
  · exact .inr fun followLast hlast =>
      (hn followLast).trans ((if_neg hnul).trans (walk_name hname hlast n))

theorem resolve_entry (h : t.lstat base (source.entry name) = .ok .directory) :
    t.resolve base (source.entry name) = .ok (g ++ [name]) ∧
      t.get? (g ++ [name]) = some .directory := by
  unfold lstat locate at h
  rcases follow_entry_cases hr hd hname with hf | hf
  · rw [hf] at h
    cases h
  · rw [hf false (fun h => by cases h)] at h
    have hentry : t.get? (g ++ [name]) = some .directory := entryAt_eq_ok_iff.mp h
    exact ⟨hf true fun _ => plain_of_directory hentry, hentry⟩

theorem get?_of_stat_entry {e : Entry} (hplain : t.Plain (g ++ [name]))
    (h : t.stat base (source.entry name) = .ok e) : t.get? (g ++ [name]) = some e := by
  unfold stat resolve at h
  rcases follow_entry_cases hr hd hname with hf | hf
  · rw [hf] at h
    cases h
  · rw [hf true fun _ => hplain] at h
    exact entryAt_eq_ok_iff.mp h

end Entries

/-! ### A directory, entry by entry -/

/-- What a copy of a directory ends in. -/
structure Copies (base : Place) (source : Path) (z : Place) (t u : FileTree) : Prop where
  added : Added z t u
  there : u.get? z = some .directory
  mirror : ∃ g, u.resolve base source = .ok g ∧ u.get? g = some .directory ∧
    (Aside g z → Mirror base source g z u)

/-- A part of the directory at `g` has been copied to `z`: what lies there under some names. -/
structure MirrorPart (base : Place) (source : Path) (g z : Place) (done : List String)
    (t u : FileTree) : Prop where
  added : Added z t u
  there : u.get? z = some .directory
  resolve : u.resolve base source = .ok g
  directory : u.get? g = some .directory
  vacant : ∀ name, name ∉ done → u.get? (z ++ [name]) = none
  copied : Aside g z → ∀ name ∈ done,
    Mirror base (source.entry name) (g ++ [name]) (z ++ [name]) u

theorem MirrorPart.start (hput : Put z .directory t u) (hz : t.get? z = none)
    (hr : u.resolve base source = .ok g) (hd : u.get? g = some .directory) :
    MirrorPart base source g z [] t u where
  added := hput.added (fun _ he => by cases he) hz
  there := by rw [hput, if_pos rfl]
  resolve := hr
  directory := hd
  vacant := fun name _ => by
    rw [hput, if_neg (by simp), get?_eq_none_beneath hz (List.prefix_append z [name])]
  copied := fun _ _ hmem => by cases hmem

/-- One more entry has been copied. -/
theorem MirrorPart.concat {done : List String} (h : MirrorPart base source g z done t u)
    (hname : name ∉ done) (hadded : Added (z ++ [name]) u v)
    (hmirror : Aside g z → Mirror base (source.entry name) (g ++ [name]) (z ++ [name]) v) :
    MirrorPart base source g z (done ++ [name]) t v := by
  have hgrows := hadded.grows (h.vacant name hname)
  refine ⟨h.added.beneath hadded, hgrows _ _ h.there, ?_, hgrows _ _ h.directory, ?_, ?_⟩
  · exact resolve_of_grows hgrows (by simp [h.directory]) h.resolve
  · intro other hother
    rw [List.mem_append, List.mem_singleton, not_or] at hother
    rw [hadded.outside, h.vacant other hother.1]
    exact fun hpre => hother.2 (by simpa using hpre.eq_of_length (by simp) : name = other).symm
  · intro haside other hother
    rcases List.mem_append.mp hother with hmem | hmem
    · have hne : ∀ a, ¬ z ++ [name] <+: z ++ [other] ++ a := by
        intro a hpre
        rw [List.append_assoc, List.prefix_append_right_inj] at hpre
        exact hname ((List.cons_prefix_cons.mp hpre).1 ▸ hmem)
      have hsource : ∀ a, ¬ z ++ [name] <+: g ++ [other] ++ a := by
        intro a hpre
        rw [List.append_assoc] at hpre
        exact (haside.beneath (List.prefix_append g ([other] ++ a))).2
          ((List.prefix_append z [name]).trans hpre)
      exact (h.copied haside other hmem).of_grows hgrows (hadded.contents_eq hsource)
        (hadded.contents_eq hne)
    · rw [List.mem_singleton.mp hmem]
      exact hmirror haside

/-- All entries have been copied. -/
theorem MirrorPart.whole {found : List String} (h : MirrorPart base source g z found t u)
    (haside : Aside g z) (hfound : ∀ name, name ∈ found ↔ (u.get? (g ++ [name])).isSome) :
    Mirror base source g z u := by
  have hmem : ∀ {name : String} {a : List String} {e : Entry}, u.get? (g ++ name :: a) = some e →
      name ∈ found := by
    intro name a e he
    rw [hfound, Option.isSome_iff_ne_none]
    intro hnone
    rw [get?_eq_none_beneath hnone ⟨a, by simp⟩] at he
    cases he
  refine ⟨funext fun a => ?_, fun a target hlink => ?_⟩
  · rcases a with _ | ⟨name, a⟩
    · rw [contents_nil, h.there, seen_of_plain, List.append_nil, h.directory]
      rw [List.append_nil]
      exact plain_of_directory h.directory
    · have happ : z ++ name :: a = z ++ [name] ++ a := by simp
      by_cases hname : name ∈ found
      · rw [seen_cons, ← (h.copied haside name hname).contents, FileTree.contents,
          FileTree.contents, happ]
      · have hnone : u.get? (g ++ name :: a) = none := by
          rcases he : u.get? (g ++ name :: a) with _ | e
          · rfl
          · exact absurd (hmem he) hname
        rw [seen_of_plain (plain_of_none hnone), hnone, FileTree.contents, happ,
          get?_eq_none_beneath (h.vacant name hname) (List.prefix_append _ a)]
  · rcases a with _ | ⟨name, a⟩
    · rw [List.append_nil, h.directory] at hlink
      cases hlink
    · refine (h.copied haside name (hmem hlink)).links a target ?_
      rw [List.append_assoc, List.singleton_append, hlink]

end FileTree

namespace Edit

variable {t : FileTree} {base g p : Place} {path source : Path} {names : List String}
  {name : String}

/-! ### Copying -/

theorem leaves_ensureDir (h : Room base path p names t) :
    (ensureDir base (path.below names)).Leaves t (fun _ u => Put (p ++ names) .directory t u)
      (· = t) := by
  by_cases hnul : (path.below names).hasNul = true
  · have htext := h.toFound.text_ne
    exact .of_error (apply_ensureDir_of_error htext (makeDir_of_error (follow_of_hasNul htext hnul))
      (by simp) (isDir_of_error (follow_of_hasNul htext hnul))) rfl
  rw [Bool.not_eq_true] at hnul
  have hnames := (areNames_place (directory_of_dropLast h.ne h.parent)).append h.areNames
  have hreach : t.Reachable false (p ++ names) :=
    reachable_of_directory h.parent hnames (plain_of_none h.vacant)
  refine .of_ok (a := ⟨⟩) ?_ (put_putAt hreach (by simp [h.vacant]))
  unfold ensureDir
  rw [show (path.below names).ancestors = path.below names ::
    climb ((path.below names).segments.length + 1) (path.below names) from rfl,
    apply_makeChain_cons _ h.toFound.text_ne, (makeDir_reached h.toFound hnul h.parent h.vacant).1]

/-- A file is copied to where there is room for it. -/
theorem leaves_copyFile (h : Room base path p names t) (source : Path) :
    (copyFile base source (path.below names)).Leaves t
      (fun _ u => ∃ content executable, t.stat base source = .ok (.file content executable) ∧
        Put (p ++ names) (.file content executable) t u) (· = t) := by
  rcases hs : t.stat base source with cause | e
  · exact .of_error (apply_copyFile_of_error hs) rfl
  by_cases he : ∃ content executable, e = .file content executable
  swap
  · exact .of_error (apply_copyFile_of_not_file hs fun content executable heq =>
      he ⟨content, executable, heq⟩) rfl
  obtain ⟨content, executable, rfl⟩ := he
  by_cases hnul : (path.below names).hasNul = true
  · exact .of_error (apply_copyFile_of_closed hs (openForWriting_of_hasNul h.toFound hnul)) rfl
  rw [Bool.not_eq_true] at hnul
  obtain ⟨u, hu, hput⟩ := copyFile_put h.toFound hnul h.parent (by simp [h.vacant])
    (plain_of_none h.vacant) hs fun u hu => stat_of_grows (hu.grows h.vacant) hs
  exact .of_ok (apply_copyFile_of_ok hu) ⟨content, executable, rfl, hput⟩

/-- Nothing is copied onto a directory. -/
theorem leaves_copyFile_of_directory (h : Found base path p names t)
    (hd : t.get? (p ++ names) = some .directory) (source : Path) :
    (copyFile base source (path.below names)).Leaves t (fun _ _ => False) (· = t) := by
  rcases hs : t.stat base source with cause | e
  · exact .of_error (apply_copyFile_of_error hs) rfl
  by_cases he : ∃ content executable, e = .file content executable
  swap
  · exact .of_error (apply_copyFile_of_not_file hs fun content executable heq =>
      he ⟨content, executable, heq⟩) rfl
  obtain ⟨content, executable, rfl⟩ := he
  by_cases hnul : (path.below names).hasNul = true
  · exact .of_error (apply_copyFile_of_closed hs (openForWriting_of_hasNul h hnul)) rfl
  · exact .of_error (apply_copyFile_of_closed hs (openForWriting_of_directory h
      (by simpa using hnul) (dropLast_directory hd) hd)) rfl

/-- An entry of a directory is copied, if it is clear how a directory is. -/
theorem leaves_copyEntry {depth : Nat} (h : Room base path p (names ++ [name]) t)
    (hr : t.resolve base source = .ok g) (hd : t.get? g = some .directory)
    (hname : isName name = true)
    (hrec : (copyDirAll base depth (source.entry name) (path.below (names ++ [name]))).Leaves t
      (fun _ u => Copies base (source.entry name) (p ++ (names ++ [name])) t u)
      (Added (p ++ (names ++ [name])) t)) :
    (copyEntry base (source.entry name)
      (copyDirAll base depth (source.entry name) (path.below (names ++ [name])))
      (copyFile base (source.entry name) (path.below (names ++ [name])))).Leaves t
      (fun _ u => Added (p ++ names ++ [name]) t u ∧ (Aside g (p ++ names) →
        Mirror base (source.entry name) (g ++ [name]) (p ++ names ++ [name]) u))
      (Added (p ++ names ++ [name]) t) := by
  have happ : p ++ (names ++ [name]) = p ++ names ++ [name] := (List.append_assoc ..).symm
  have hvacant := h.vacant
  rw [happ] at hrec hvacant
  by_cases hlstat : t.lstat base (source.entry name) = .ok .directory
  · obtain ⟨hentry, hentryd⟩ := resolve_entry hr hd hname hlstat
    refine .congr (apply_copyEntry_of_directory _ _ hlstat) (hrec.imp (fun _ u hu => ?_)
      fun _ => id)
    obtain ⟨hadded, -, g', hg', -, hmirror⟩ := hu
    rw [resolve_of_grows (hadded.grows hvacant) (by simp [hentryd]) hentry] at hg'
    cases hg'
    exact ⟨hadded, fun haside => hmirror (haside.concat name name)⟩
  · refine .congr (apply_copyEntry_of_ne _ _ hlstat) ((leaves_copyFile h _).imp
      (fun _ u hu => ?_) fun _ hu => hu.symm ▸ Added.refl hvacant)
    obtain ⟨content, executable, hs, hput⟩ := hu
    rw [happ] at hput
    refine ⟨hput.added (fun _ he => by cases he) hvacant, fun haside => ?_⟩
    refine hput.mirror hvacant ?_ hs ?_
    · exact fun heq => (haside.concat name name).1 (heq ▸ List.prefix_refl _)
    · by_cases hplain : t.Plain (g ++ [name])
      · exact .inl (get?_of_stat_entry hr hd hname hplain hs)
      · exact .inr (not_forall_not.mp hplain)

/-- **A directory is copied** to where there is room for it. -/
theorem leaves_copyDirAll : ∀ (depth : Nat) {way : List String} {t : FileTree} (source : Path),
    Room base path p way t →
    (copyDirAll base depth source (path.below way)).Leaves t
      (fun _ u => Copies base source (p ++ way) t u) (Added (p ++ way) t)
  | 0, way, t, source, h => .of_error rfl (.refl h.vacant)
  | depth + 1, way, t, source, h => by
    rw [copyDirAll_succ]
    refine ((leaves_ensureDir h).imp (fun _ _ => id) fun _ hu => hu.symm ▸ Added.refl h.vacant).bind
      fun _ u hu => ?_
    have hadded := hu.added (fun _ he => by cases he) h.vacant
    rcases hf : u.readDir base source with cause | found
    · have hread : (ask (.readDirectory source) fun v => v.readDir base source).apply u =
          (.error ⟨.readDirectory source, cause⟩, u) := by
        rw [apply_ask, hf]
        rfl
      exact .of_error (by rw [apply_bind, hread]) hadded
    obtain ⟨g, hr, hd, rfl⟩ := of_readDir hf
    -- while entries are copied, nothing changes in a directory aside
    have hsame : ∀ {done : List String} {v : FileTree},
        MirrorPart base source g (p ++ way) done t v → Aside g (p ++ way) →
        ∀ name, name ∈ u.names g ↔ (v.get? (g ++ [name])).isSome := by
      intro done v hv haside name
      have houtside := (haside.beneath (List.prefix_append g [name])).2
      rw [mem_names, hadded.outside _ houtside, hv.added.outside _ houtside]
    refine Leaves.bind (P := fun found v => found = u.names g ∧ v = u)
      (.of_ok (a := u.names g) (u := u) (by rw [apply_ask, hf]; rfl) ⟨rfl, rfl⟩) ?_
    rintro found w ⟨hfound, hw⟩
    rw [hfound, hw]
    refine (Leaves.forM (I := fun done v => MirrorPart base source g (p ++ way) done t v)
      (fun done name rest hl v hv => ?_) (.start hu h.vacant hr hd)).imp
      (fun _ v hv => ⟨hv.added, hv.there, g, hv.resolve, hv.directory, fun haside =>
        hv.whole haside (hsame hv haside)⟩) fun _ => id
    -- the next name, which is not among those that are done
    have hfresh := not_mem_of_names hl
    have hname : isName name = true := areNames_of_readDir hf name (by simp [hl])
    have hpath : v.resolve base path = .ok p := resolve_of_grows (hv.added.grows h.vacant)
      (by simp [directory_of_dropLast h.ne h.parent]) h.resolve
    have hroom : Room base path p (way ++ [name]) v :=
      .of_parent h.ends hpath h.areNames hname hv.there (hv.vacant name hfresh)
    rw [← below_concat]
    exact (leaves_copyEntry hroom hv.resolve hv.directory hname
      (leaves_copyDirAll depth _ hroom)).imp (fun _ _ hw => hv.concat hfresh hw.1 hw.2)
      fun _ hw => hv.added.beneath hw

/-- **A tree is copied** to where there is room for it. -/
theorem leaves_copyTree (h : Room base path p names t) (source : Path) :
    (copyTree base source (path.below names)).Leaves t
      (fun _ u => Copies base source (p ++ names) t u) (Added (p ++ names) t) := by
  unfold copyTree
  refine Leaves.bind (P := fun v w => v = t ∧ w = t) (.of_ok apply_get ⟨rfl, rfl⟩) ?_
  rintro _ _ ⟨rfl, rfl⟩
  exact leaves_copyDirAll _ source h

end Edit

end SymbolDocs
