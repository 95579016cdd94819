import SymbolDocs.Proofs.FileTree.Mirrored

/-! # Copying what is enumerated in any order

The system hands out the entries of a directory in an order of its own. Here directories are copied
whatever these orders are (`copyDirAllIn`), from one directory into another that is empty. Before
each entry is copied the two are as they were at the outset, but for what has been added (`Outset`);
and when it is the turn of a directory, another one is made for it and it is the outset of a copy
again (`outset_of_turn`). So by induction either all is copied, or there is a link that leads to no
file (`fills_copyEntriesIn`), and how deep the copy could go makes no difference
(`apply_copyEntriesIn_add`). -/

namespace SymbolDocs

open FileTree SymbolDocs.Path

variable {t u v w : FileTree} {base g p z : Place} {path source destination : Path}
  {name : String} {done : List String} {order : Path → List String → List String}

/-! ### The entries of a directory -/

namespace FileTree

/-- A path leads to a directory at `p`. -/
structure Entered (base : Place) (path : Path) (p : Place) (t : FileTree) : Prop where
  resolve : t.resolve base path = .ok p
  there : t.get? p = some .directory

namespace Entered

theorem of_grows (h : Entered base path p t) (hgrows : Grows t u) : Entered base path p u :=
  ⟨resolve_of_grows hgrows (by simp [h.there]) h.resolve, hgrows _ _ h.there⟩

theorem readDir (h : Entered base path p t) : t.readDir base path = .ok (t.names p) := by
  unfold FileTree.readDir entryAt
  rw [h.resolve]
  simp only [bind, Except.bind, h.there]

section Entry

variable (h : Entered base path p t) (hname : isName name = true)
  (hnul : (⟨name⟩ : Path).hasNul = false)

include h hname hnul

theorem follow_entry {followLast : Bool} (hlast : followLast = true → t.Plain (p ++ [name])) :
    t.follow base (path.entry name) (path.entry name).steps followLast = .ok (p ++ [name]) := by
  rw [steps_eq_names (endsInName_entry path hname).endsInSlash]
  exact FileTree.follow_entry h.resolve h.there hname hnul hlast

theorem entry (he : t.get? (p ++ [name]) = some .directory) :
    Entered base (path.entry name) (p ++ [name]) t :=
  ⟨h.follow_entry hname hnul fun _ => plain_of_directory he, he⟩

theorem lstat_entry {e : Entry} (he : t.get? (p ++ [name]) = some e) :
    t.lstat base (path.entry name) = .ok e := by
  unfold lstat locate
  rw [h.follow_entry hname hnul fun hf => by cases hf]
  exact entryAt_eq_ok_iff.mpr he

theorem stat_entry {e : Entry} (he : t.get? (p ++ [name]) = some e)
    (hplain : t.Plain (p ++ [name])) : t.stat base (path.entry name) = .ok e :=
  stat_eq_ok_iff.mpr ⟨_, h.follow_entry hname hnul fun _ => hplain, he⟩

variable (hvacant : t.get? (p ++ [name]) = none)

include hvacant

theorem open_entry : t.openForWriting base (path.entry name) = .ok (p ++ [name]) := by
  unfold openForWriting
  rw [(endsInName_entry path hname).endsInSlash,
    FileTree.follow_entry h.resolve h.there hname hnul fun _ => plain_of_none hvacant]
  simp [bind, Except.bind, isDirectory, hvacant]

/-- A directory is made beneath the directory. -/
theorem make_entry : ∃ u, (Edit.ensureDir base (path.entry name)).apply t = (.ok ⟨⟩, u) ∧
    Put (p ++ [name]) .directory t u := by
  have hlocate : t.locateEntry base (path.entry name) = .ok (p ++ [name]) :=
    FileTree.follow_entry h.resolve h.there hname hnul fun hf => by cases hf
  have hreach : t.Reachable false (p ++ [name]) := ⟨.inr ⟨p, name, rfl, hname, h.there⟩, nofun⟩
  refine ⟨t.putAt (p ++ [name]) .directory, ?_, put_putAt hreach (by simp [hvacant])⟩
  unfold Edit.ensureDir
  rw [show (path.entry name).ancestors = path.entry name ::
    climb ((path.entry name).segments.length + 1) (path.entry name) from rfl,
    Edit.apply_makeChain_cons _ (endsInName_entry path hname).text_ne,
    makeDir_of_none hlocate hvacant]

end Entry

end Entered

theorem LinksToFiles.entry (h : LinksToFiles base path p t) (name : String) :
    LinksToFiles base (path.entry name) (p ++ [name]) t := by
  intro a target hlink
  rw [List.append_assoc, List.singleton_append] at hlink
  exact h (name :: a) target hlink

/-- What is added to an empty directory takes nothing away. -/
theorem Added.grows_of_empty (h : Added z t v) (ht : t.get? z = some .directory)
    (hempty : ∀ name, t.get? (z ++ [name]) = none) (hv : v.get? z = some .directory) :
    Grows t v := by
  intro q e he
  by_cases hq : z <+: q
  · obtain ⟨a, rfl⟩ := hq
    rcases a with _ | ⟨name, a⟩
    · rw [List.append_nil] at he ⊢
      rw [hv, ← he, ht]
    · rw [get?_eq_none_beneath (hempty name) ⟨a, by simp⟩] at he
      cases he
  · rw [h.outside q hq, he]

theorem Mirror.directory (h : Mirror base source g z t) (hd : t.get? g = some .directory) :
    t.get? z = some .directory := by
  have hd' : t.get? (g ++ []) = some .directory := by rw [List.append_nil, hd]
  rw [← contents_nil, h.contents, seen_of_plain (plain_of_directory hd'), hd']

end FileTree

/-! ### Copying in an order -/

namespace Edit

/-- Copies the entries of a directory in the order in which they are enumerated; directories among
them are copied by `copyDir`. -/
def copyEntriesIn (order : Path → List String → List String) (base : Place)
    (copyDir : Path → Path → Edit Unit) (source destination : Path) : Edit Unit := do
  let names ← ask (.readDirectory source) fun t => t.readDir base source
  (order source names).forM fun name => copyEntry base (source.entry name)
    (copyDir (source.entry name) (destination.entry name))
    (copyFile base (source.entry name) (destination.entry name))

/-- Copies a directory as `copyDirAll` does, enumerated in any order. -/
def copyDirAllIn (order : Path → List String → List String) (base : Place) :
    Nat → Path → Path → Edit Unit
  | 0, source, _ => throw ⟨.readDirectory source, .linkLoop⟩
  | depth + 1, source, destination => do
    ensureDir base destination
    copyEntriesIn order base (copyDirAllIn order base depth) source destination

/-- Copies a tree as `copyTree` does, enumerated in any order. -/
def copyTreeIn (order : Path → List String → List String) (base : Place)
    (source destination : Path) : Edit Unit := do
  copyDirAllIn order base ((← get).height + 1) source destination

theorem copyDirAllIn_id (base : Place) : ∀ depth source destination,
    copyDirAllIn (fun _ => id) base depth source destination =
      copyDirAll base depth source destination
  | 0, _, _ => rfl
  | depth + 1, source, destination => by
    have ih := copyDirAllIn_id base depth
    simp only [copyDirAllIn, copyEntriesIn, copyDirAll_succ, id, ih]

theorem copyTreeIn_id (base : Place) (source destination : Path) :
    copyTreeIn (fun _ => id) base source destination = copyTree base source destination := by
  simp only [copyTreeIn, copyTree, copyDirAllIn_id]

theorem apply_copyTreeIn (order : Path → List String → List String) (source destination : Path) :
    (copyTreeIn order base source destination).apply t =
      (copyDirAllIn order base (t.height + 1) source destination).apply t := by
  unfold copyTreeIn
  rw [apply_bind, apply_get]

/-- Two loops come to the same if their steps do, wherever the first loop gets. -/
theorem Leaves.forM_congr {α : Type} {f f' : α → Edit Unit} {I : List α → FileTree → Prop}
    {Q : FileTree → Prop} {l : List α}
    (hf : ∀ done a rest, l = done ++ a :: rest → ∀ u, I done u →
      (f a).Leaves u (fun _ v => I (done ++ [a]) v) Q ∧ (f' a).apply u = (f a).apply u)
    (hI : I [] t) : (l.forM f').apply t = (l.forM f).apply t := by
  have key : ∀ rest done u, l = done ++ rest → I done u →
      (rest.forM f').apply u = (rest.forM f).apply u := by
    intro rest
    induction rest with
    | nil => exact fun _ _ _ _ => rfl
    | cons a rest ih =>
      intro done u hl hu
      obtain ⟨hleaves, hsame⟩ := hf done a rest hl u hu
      change ((f' a) >>= fun _ => rest.forM f').apply u = ((f a) >>= fun _ => rest.forM f).apply u
      rw [apply_bind, apply_bind, hsame]
      rcases ha : (f a).apply u with ⟨_ | b, v⟩
      · rfl
      · exact ih (done ++ [a]) v (by simp [hl]) (hleaves.ok b v ha)
  exact key l [] t rfl hI

/-- An edit fills `z` with a copy of what lies at `g`, or it fails because a link there leads to no
file. -/
def Fills (e : Edit Unit) (base : Place) (source : Path) (g z : Place) (t : FileTree) : Prop :=
  e.Leaves t (fun _ u => Added z t u ∧ Mirror base source g z u)
    fun u => Added z t u ∧ ¬ LinksToFiles base source g t

end Edit

/-! ### From one directory into another -/

namespace FileTree

/-- Two paths lead to directories aside of each other. -/
structure Facing (base : Place) (source destination : Path) (g z : Place) (t : FileTree) :
    Prop where
  source : Entered base source g t
  destination : Entered base destination z t
  aside : Aside g z

namespace Facing

theorem of_grows (h : Facing base source destination g z t) (hgrows : Grows t u) :
    Facing base source destination g z u :=
  ⟨h.source.of_grows hgrows, h.destination.of_grows hgrows, h.aside⟩

/-- From a directory among the entries into a new one. -/
theorem next (h : Facing base source destination g z t) (hnul : (⟨name⟩ : Path).hasNul = false)
    (he : t.get? (g ++ [name]) = some .directory) (hvacant : t.get? (z ++ [name]) = none)
    (hput : Put (z ++ [name]) .directory t u) :
    Facing base (source.entry name) (destination.entry name) (g ++ [name]) (z ++ [name]) u := by
  have hname : isName name = true := isName_of_get? he name (by simp)
  have hgrows := hput.grows hvacant
  have hthere : u.get? (z ++ [name]) = some .directory := by rw [hput, if_pos rfl]
  exact ⟨(h.source.entry hname hnul he).of_grows hgrows,
    (h.destination.of_grows hgrows).entry hname hnul hthere, h.aside.concat name name⟩

theorem contents_eq (h : Facing base source destination g z t) (hadded : Added z t v) :
    v.contents g = t.contents g :=
  hadded.contents_eq fun a => (h.aside.beneath (List.prefix_append g a)).2

end Facing

/-- Nothing has been copied yet: the second of the directories is empty. -/
structure Outset (base : Place) (source destination : Path) (g z : Place) (t : FileTree) :
    Prop extends Facing base source destination g z t where
  empty : ∀ name, t.get? (z ++ [name]) = none
  nulless : ∀ name e, t.get? (g ++ [name]) = some e → (⟨name⟩ : Path).hasNul = false

namespace Outset

theorem part (h : Outset base source destination g z t) : MirrorPart base source g z [] t t where
  added := by
    refine ⟨fun _ _ => rfl, ?_⟩
    rintro _ ⟨a, rfl⟩
    rcases a with _ | ⟨name, a⟩
    · rw [List.append_nil]
      exact plain_of_directory h.destination.there
    · exact plain_of_none (get?_eq_none_beneath (h.empty name) ⟨a, by simp⟩)
  there := h.destination.there
  resolve := h.source.resolve
  directory := h.source.there
  vacant := fun name _ => h.empty name
  copied := fun _ _ hmem => by cases hmem

/-- While entries are copied, the tree grows. -/
theorem grows (h : Outset base source destination g z t)
    (hpart : MirrorPart base source g z done t v) : Grows t v :=
  hpart.added.grows_of_empty h.destination.there h.empty hpart.there

end Outset

/-- While entries are copied, it is the turn of one that is a directory. -/
structure Turn (base : Place) (source destination : Path) (g z : Place) (t v : FileTree)
    (name : String) : Prop extends Facing base source destination g z v where
  contents : v.contents g = t.contents g
  there : v.get? (g ++ [name]) = some .directory
  vacant : v.get? (z ++ [name]) = none

theorem Outset.turn (h : Outset base source destination g z t)
    (hpart : MirrorPart base source g z done t v) (hname : name ∉ done)
    (he : t.get? (g ++ [name]) = some .directory) :
    Turn base source destination g z t v name :=
  ⟨h.toFacing.of_grows (h.grows hpart), h.contents_eq hpart.added, h.grows hpart _ _ he,
    hpart.vacant name hname⟩

end FileTree

namespace Edit

/-! ### One entry -/

section Entry

variable (h : Facing base source destination g z t) (hnul : (⟨name⟩ : Path).hasNul = false)
  (hvacant : t.get? (z ++ [name]) = none) {e : Entry} (he : t.get? (g ++ [name]) = some e)

include h hnul hvacant he

/-- A file is copied, and so is a link to one. -/
theorem fills_copyFile (hd : e ≠ .directory) :
    (copyFile base (source.entry name) (destination.entry name)).Fills base (source.entry name)
      (g ++ [name]) (z ++ [name]) t := by
  have hname : isName name = true := isName_of_get? he name (by simp)
  by_cases hs : ∃ content executable,
      t.stat base (source.entry name) = .ok (.file content executable)
  · obtain ⟨content, executable, hs⟩ := hs
    obtain ⟨u, hu, hput⟩ := copyFile_of_open (h.destination.open_entry hname hnul hvacant) hs
      fun u hu => stat_of_grows (hu.grows hvacant) hs
    refine .of_ok (apply_copyFile_of_ok hu) ⟨hput.added (fun _ he => by cases he) hvacant, ?_⟩
    refine hput.mirror hvacant ?_ hs ?_
    · exact fun heq => (h.aside.concat name name).1 (heq ▸ List.prefix_refl _)
    · by_cases hplain : t.Plain (g ++ [name])
      · exact .inl (get?_of_stat_entry h.source.resolve h.source.there hname hplain hs)
      · exact .inr (not_forall_not.mp hplain)
  · -- then it is a link
    have hlinks : ¬ LinksToFiles base (source.entry name) (g ++ [name]) t := by
      intro hlinks
      rcases e with _ | ⟨content, executable⟩ | target
      · exact hd rfl
      · exact hs ⟨content, executable,
          h.source.stat_entry hname hnul he fun target hlink => by rw [he] at hlink; cases hlink⟩
      · exact hs (hlinks [] target (by rw [List.append_nil, he]))
    rcases hstat : t.stat base (source.entry name) with cause | e'
    · exact .of_error (apply_copyFile_of_error hstat) ⟨.refl hvacant, hlinks⟩
    · exact .of_error (apply_copyFile_of_not_file hstat fun content executable heq =>
        hs ⟨content, executable, heq ▸ hstat⟩) ⟨.refl hvacant, hlinks⟩

theorem fills_copyEntry {directory : Edit Unit} (hdir : e = .directory →
      directory.Fills base (source.entry name) (g ++ [name]) (z ++ [name]) t) :
    (copyEntry base (source.entry name) directory
      (copyFile base (source.entry name) (destination.entry name))).Fills base (source.entry name)
      (g ++ [name]) (z ++ [name]) t := by
  have hlstat := h.source.lstat_entry (isName_of_get? he name (by simp)) hnul he
  by_cases hd : e = .directory
  · exact .congr (apply_copyEntry_of_directory _ _ (hd ▸ hlstat)) (hdir hd)
  · exact .congr (apply_copyEntry_of_ne _ _ fun hl => hd (by rw [hlstat] at hl; cases hl; rfl))
      (fills_copyFile h hnul hvacant he hd)

end Entry

/-! ### All entries -/

/-- What is enumerated and has been gone through up to a name. -/
theorem enumerated (horder : ∀ path names, (order path names).Perm names) {rest : List String}
    (hl : order source (t.names g) = done ++ name :: rest) :
    name ∉ done ∧ ∃ e, t.get? (g ++ [name]) = some e := by
  have hperm := horder source (t.names g)
  have hnodup := hperm.nodup_iff.mpr (nodup_names t g)
  have hmem : name ∈ t.names g := hperm.mem_iff.mp (by simp [hl])
  rw [hl] at hnodup
  exact ⟨fun hdone => (List.nodup_append.mp hnodup).2.2 name hdone name (by simp) rfl,
    Option.isSome_iff_exists.mp (mem_names.mp hmem)⟩

section Entries

variable (horder : ∀ path names, (order path names).Perm names)
  (h : Outset base source destination g z t) {copyDir : Path → Path → Edit Unit}
  (hdir : ∀ v name, Turn base source destination g z t v name →
    (copyDir (source.entry name) (destination.entry name)).Fills base (source.entry name)
      (g ++ [name]) (z ++ [name]) v)

include h hdir

/-- The next entry, which is not among those that are done. -/
theorem leaves_next (hpart : MirrorPart base source g z done t v) (hname : name ∉ done) {e : Entry}
    (he : t.get? (g ++ [name]) = some e) :
    (copyEntry base (source.entry name) (copyDir (source.entry name) (destination.entry name))
      (copyFile base (source.entry name) (destination.entry name))).Leaves v
      (fun _ w => MirrorPart base source g z (done ++ [name]) t w)
      fun w => Added z t w ∧ ¬ LinksToFiles base source g t := by
  have hgrows := h.grows hpart
  have hentry := fills_copyEntry (h.toFacing.of_grows hgrows) (h.nulless name e he)
    (hpart.vacant name hname) (hgrows _ _ he)
    fun hd => hdir v name (h.turn hpart hname (hd ▸ he))
  refine hentry.imp (fun _ w hw => hpart.concat hname hw.1 fun _ => hw.2)
    fun w hw => ⟨hpart.added.beneath hw.1, fun hlinks => hw.2 ?_⟩
  exact (hlinks.of_grows hgrows (h.contents_eq hpart.added)).entry name

include horder

theorem fills_of_turns :
    (copyEntriesIn order base copyDir source destination).Fills base source g z t := by
  refine Leaves.bind (P := fun names u => names = t.names g ∧ u = t)
    (.of_ok (a := t.names g) (u := t) (by rw [apply_ask, h.source.readDir]; rfl) ⟨rfl, rfl⟩) ?_
  rintro names u ⟨hnames, hu⟩
  rw [hnames, hu]
  refine (Leaves.forM (I := fun done v => MirrorPart base source g z done t v)
    (fun done name rest hl v hpart => ?_) h.part).imp (fun _ v hpart => ?_) fun _ => id
  · obtain ⟨hname, e, he⟩ := enumerated horder hl
    exact leaves_next h hdir hpart hname he
  · refine ⟨hpart.added, hpart.whole h.aside fun name => ?_⟩
    have hsame : v.get? (g ++ [name]) = t.get? (g ++ [name]) :=
      congrFun (h.contents_eq hpart.added) [name]
    rw [(horder _ _).mem_iff, mem_names, hsame]

/-- Another way to copy directories that comes to the same at each turn comes to the same in all. -/
theorem apply_eq_of_turns {copyDir' : Path → Path → Edit Unit}
    (hsame : ∀ v name, Turn base source destination g z t v name →
      (copyDir' (source.entry name) (destination.entry name)).apply v =
        (copyDir (source.entry name) (destination.entry name)).apply v) :
    (copyEntriesIn order base copyDir' source destination).apply t =
      (copyEntriesIn order base copyDir source destination).apply t := by
  unfold copyEntriesIn
  rw [apply_bind, apply_bind, apply_ask, h.source.readDir]
  refine Leaves.forM_congr (I := fun done v => MirrorPart base source g z done t v)
    (Q := fun w => Added z t w ∧ ¬ LinksToFiles base source g t)
    (fun done name rest hl v hpart => ?_) h.part
  obtain ⟨hname, e, he⟩ := enumerated horder hl
  refine ⟨leaves_next h hdir hpart hname he, ?_⟩
  have hgrows := h.grows hpart
  have hlstat := (h.toFacing.of_grows hgrows).source.lstat_entry
    (isName_of_get? he name (by simp)) (h.nulless name e he) (hgrows _ _ he)
  by_cases hd : e = .directory
  · subst hd
    rw [apply_copyEntry_of_directory _ _ hlstat, apply_copyEntry_of_directory _ _ hlstat]
    exact hsame v name (h.turn hpart hname he)
  · have hne : v.lstat base (source.entry name) ≠ .ok .directory := fun hl => hd (by
      rw [hlstat] at hl
      cases hl
      rfl)
    rw [apply_copyEntry_of_ne _ _ hne, apply_copyEntry_of_ne _ _ hne]

end Entries

/-! ### A directory and what is in it -/

theorem Fills.of_put {e f : Edit Unit} (hput : Put z .directory t u) (hz : t.get? z = none)
    (haside : Aside g z) (happly : e.apply t = f.apply u) (hf : f.Fills base source g z u) :
    e.Fills base source g z t := by
  have hadded := hput.added (fun _ he => by cases he) hz
  refine ⟨fun a x hx => ?_, fun failure x hx => ?_⟩
  · obtain ⟨hx, hmirror⟩ := hf.ok a x (happly.symm.trans hx)
    exact ⟨hadded.trans hx, hmirror⟩
  · obtain ⟨hx, hlinks⟩ := hf.error failure x (happly.symm.trans hx)
    refine ⟨hadded.trans hx, fun h => hlinks (h.of_grows (hput.grows hz) ?_)⟩
    exact hadded.contents_eq fun a => (haside.beneath (List.prefix_append g a)).2

/-- What is to be copied is there and holds nothing that could not be copied. -/
theorem outset_of_copyable {depth : Nat} (h : Facing base source destination g z t)
    (hempty : ∀ name, t.get? (z ++ [name]) = none) (hcopyable : Copyable depth g t) :
    Outset base source destination g z t :=
  ⟨h, hempty, fun name e he => (hcopyable.2 [name] e he).1 name (by simp)⟩

/-- When it is the turn of a directory, another one is made for it, and in there it is the outset of
a copy again. -/
theorem outset_of_turn {depth : Nat} (hturn : Turn base source destination g z t v name)
    (hcopyable : Copyable (depth + 1) g t) :
    ∃ w, Put (z ++ [name]) .directory v w ∧ Copyable depth (g ++ [name]) w ∧
      Outset base (source.entry name) (destination.entry name) (g ++ [name]) (z ++ [name]) w ∧
      ∀ (order : Path → List String → List String) (n : Nat),
        (copyDirAllIn order base (n + 1) (source.entry name) (destination.entry name)).apply v =
          (copyEntriesIn order base (copyDirAllIn order base n) (source.entry name)
            (destination.entry name)).apply w := by
  have hname : isName name = true := isName_of_get? hturn.there name (by simp)
  have ht : t.get? (g ++ [name]) = some .directory := by
    rw [← hturn.there]
    exact (congrFun hturn.contents [name]).symm
  have hnul : (⟨name⟩ : Path).hasNul = false := (hcopyable.2 [name] _ ht).1 name (by simp)
  obtain ⟨w, hw, hput⟩ := hturn.destination.make_entry hname hnul hturn.vacant
  have hadded := hput.added (fun _ he => by cases he) hturn.vacant
  have hsame : w.contents (g ++ [name]) = t.contents (g ++ [name]) := by
    rw [hadded.contents_eq fun a => (((hturn.aside.concat name name).beneath
      (List.prefix_append _ a))).2, contents_append, contents_append, hturn.contents]
  have hcopyable' := hcopyable.into ht hsame
  refine ⟨w, hput, hcopyable', outset_of_copyable (hturn.toFacing.next hnul hturn.there
    hturn.vacant hput) (fun other => ?_) hcopyable', fun order n => ?_⟩
  · rw [hput, if_neg (by simp), get?_eq_none_beneath hturn.vacant (List.prefix_append _ [other])]
  · rw [copyDirAllIn, apply_bind, hw]

theorem not_copyable_zero : ¬ Copyable 0 g t := fun h =>
  absurd (h.2 [] .directory ((contents_nil t g).trans h.1)).2 (by simp)

section Copying

variable (horder : ∀ path names, (order path names).Perm names)

include horder

/-- **A directory among the entries is copied**, or there is a link in it that leads to no file. -/
theorem fills_copyDirAllIn : ∀ {depth : Nat} {source destination : Path} {g z : Place}
    {t v : FileTree} {name : String}, Turn base source destination g z t v name →
    Copyable (depth + 1) g t →
    (copyDirAllIn order base depth (source.entry name) (destination.entry name)).Fills base
      (source.entry name) (g ++ [name]) (z ++ [name]) v
  | 0, _, _, _, _, _, _, _, hturn, hcopyable => by
    obtain ⟨w, -, hzero, -⟩ := outset_of_turn hturn hcopyable
    exact absurd hzero not_copyable_zero
  | depth + 1, _, _, _, _, _, _, name, hturn, hcopyable => by
    obtain ⟨w, hput, hcopyable, hout, happly⟩ := outset_of_turn hturn hcopyable
    exact .of_put hput hturn.vacant (hturn.aside.concat name name) (happly order depth)
      (fills_of_turns horder hout fun _ _ hturn => fills_copyDirAllIn hturn hcopyable)

/-- It makes no difference by how much a copy could go deeper than the directory. -/
theorem apply_copyDirAllIn_add (k : Nat) : ∀ {depth : Nat} {source destination : Path} {g z : Place}
    {t v : FileTree} {name : String}, Turn base source destination g z t v name →
    Copyable (depth + 1) g t →
    (copyDirAllIn order base (depth + k) (source.entry name) (destination.entry name)).apply v =
      (copyDirAllIn order base depth (source.entry name) (destination.entry name)).apply v
  | 0, _, _, _, _, _, _, _, hturn, hcopyable => by
    obtain ⟨w, -, hzero, -⟩ := outset_of_turn hturn hcopyable
    exact absurd hzero not_copyable_zero
  | depth + 1, _, _, _, _, _, _, _, hturn, hcopyable => by
    obtain ⟨w, -, hcopyable, hout, happly⟩ := outset_of_turn hturn hcopyable
    rw [Nat.add_right_comm, happly, happly]
    exact apply_eq_of_turns horder hout (fun _ _ hturn => fills_copyDirAllIn horder hturn hcopyable)
      fun _ _ hturn => apply_copyDirAllIn_add k hturn hcopyable

/-- From one directory into another that is empty. -/
theorem fills_copyEntriesIn {depth : Nat} (h : Outset base source destination g z t)
    (hcopyable : Copyable (depth + 1) g t) :
    (copyEntriesIn order base (copyDirAllIn order base depth) source destination).Fills base source
      g z t :=
  fills_of_turns horder h fun _ _ hturn => fills_copyDirAllIn horder hturn hcopyable

theorem apply_copyEntriesIn_add {depth : Nat} (h : Outset base source destination g z t)
    (hcopyable : Copyable (depth + 1) g t) (k : Nat) :
    (copyEntriesIn order base (copyDirAllIn order base (depth + k)) source destination).apply t =
      (copyEntriesIn order base (copyDirAllIn order base depth) source destination).apply t :=
  apply_eq_of_turns horder h (fun _ _ hturn => fills_copyDirAllIn horder hturn hcopyable)
    fun _ _ hturn => apply_copyDirAllIn_add horder k hturn hcopyable

end Copying

end Edit

end SymbolDocs
