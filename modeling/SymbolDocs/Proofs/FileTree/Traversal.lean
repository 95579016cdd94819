import SymbolDocs.Proofs.FileTree.Copied
import SymbolDocs.Proofs.FileTree.Fresh
import SymbolDocs.Proofs.FileTree.Listed
import SymbolDocs.Proofs.Path.Order

/-! # Walking through a directory

A walk goes through a directory name by name, in whatever order the system tells them, down into the
directories that it meets. It meets the files to which unhidden names lead, each of them once
(`mem_ways`, `nodup_ways`). What it has met is sorted in the end, so the order in which the names came
makes no difference: what comes out is the listing (`listing_in_any_order`). -/

namespace SymbolDocs.FileTree

open SymbolDocs.Path

variable {t : FileTree} {base dir p : Place} {root path : Path} {way : Place}
  {order : Place → List String}

/-! ### The walk -/

/-- An order for the names in each directory. -/
def Enumerates (t : FileTree) (order : Place → List String) : Prop :=
  ∀ dir, (order dir).Perm (t.names dir)

theorem length_lt_height {name : String} (h : t.get? (dir ++ [name]) = some .directory) :
    dir.length < t.height := by
  simpa [Nat.succ_le_iff] using length_le_height h

/-- The ways from a directory to the files that a walk meets. A hidden name is passed over with all
that is beneath it, and a link is not followed. -/
def ways (t : FileTree) (order : Place → List String) (dir : Place) : List Place :=
  (order dir).flatMap fun name =>
    if isHidden name then []
    else
      match _h : t.get? (dir ++ [name]) with
      | some .directory => (t.ways order (dir ++ [name])).map (name :: ·)
      | some (.file _ _) => [[name]]
      | _ => []
termination_by t.height - dir.length
decreasing_by
  have := length_lt_height _h
  rw [List.length_append, List.length_singleton]
  omega

/-- The files below a directory, as a walk meets them and then sorts them. -/
def listFilesIn (t : FileTree) (order : Place → List String) (base : Place) (root : Path) :
    List Path :=
  match t.resolve base root with
  | .error _ => []
  | .ok p => if t.isDirectory p then Path.sort ((t.ways order p).map root.below) else []

/-! ### What a walk meets -/

/-- A way leads from a directory to a regular file, over real directories and unhidden names. -/
structure LeadsToFile (t : FileTree) (dir way : Place) : Prop where
  ne_nil : way ≠ []
  unhidden : ∀ name ∈ way, isHidden name = false
  directories : ∀ above rest, way = above ++ rest → rest ≠ [] →
    t.get? (dir ++ above) = some .directory
  file : ∃ content executable, t.get? (dir ++ way) = some (.file content executable)

theorem LeadsToFile.of_file (hne : way ≠ []) (hunhidden : ∀ name ∈ way, isHidden name = false)
    (hfile : ∃ content executable, t.get? (dir ++ way) = some (.file content executable)) :
    LeadsToFile t dir way where
  ne_nil := hne
  unhidden := hunhidden
  directories := by
    rintro above rest rfl hrest
    obtain ⟨content, executable, hfile⟩ := hfile
    refine get?_above hfile ?_ ?_
    · rw [← List.append_assoc]
      exact List.prefix_append _ _
    · simpa using hrest.symm
  file := hfile

theorem leadsToFile_cons {name : String} : LeadsToFile t dir (name :: way) ↔
    isHidden name = false ∧ ((way = [] ∧ ∃ content executable,
        t.get? (dir ++ [name]) = some (.file content executable)) ∨
      t.get? (dir ++ [name]) = some .directory ∧ LeadsToFile t (dir ++ [name]) way) := by
  constructor
  · rintro ⟨-, hunhidden, hdirectories, hfile⟩
    refine ⟨hunhidden name (by simp), ?_⟩
    by_cases hway : way = []
    · subst hway
      exact .inl ⟨rfl, hfile⟩
    · refine .inr ⟨hdirectories [name] way rfl hway, .of_file hway ?_ (by simpa using hfile)⟩
      exact fun n hn => hunhidden n (by simp [hn])
  · rintro ⟨hname, ⟨rfl, hfile⟩ | ⟨-, hrest⟩⟩
    · exact .of_file (by simp) (by simpa using hname) hfile
    · refine .of_file (by simp) (fun n hn => ?_) (by simpa using hrest.file)
      rcases List.mem_cons.mp hn with rfl | hn
      · exact hname
      · exact hrest.unhidden n hn

/-- The ways of a walk that begin with a name. -/
def waysThrough (t : FileTree) (order : Place → List String) (dir : Place) (name : String) :
    List Place :=
  if isHidden name then []
  else
    match t.get? (dir ++ [name]) with
    | some .directory => (t.ways order (dir ++ [name])).map (name :: ·)
    | some (.file _ _) => [[name]]
    | _ => []

theorem ways_eq (t : FileTree) (order : Place → List String) (dir : Place) :
    t.ways order dir = (order dir).flatMap (t.waysThrough order dir) := by
  rw [ways]
  refine congrArg (List.flatMap · (order dir)) (funext fun name => ?_)
  unfold waysThrough
  split
  · rfl
  · rcases t.get? (dir ++ [name]) with _ | _ | _ | _ <;> rfl

theorem mem_waysThrough {name : String} : way ∈ t.waysThrough order dir name ↔
    ∃ rest, way = name :: rest ∧ isHidden name = false ∧ ((rest = [] ∧ ∃ content executable,
        t.get? (dir ++ [name]) = some (.file content executable)) ∨
      t.get? (dir ++ [name]) = some .directory ∧ rest ∈ t.ways order (dir ++ [name])) := by
  unfold waysThrough
  split
  · rename_i hidden
    simp [hidden]
  rename_i hidden
  rcases t.get? (dir ++ [name]) with _ | _ | ⟨content, executable⟩ | target <;>
    simp [hidden, eq_comm, and_comm]

/-- **A walk meets the files to which unhidden names lead**, and nothing else. -/
theorem mem_ways (horder : t.Enumerates order) :
    ∀ {way dir : Place}, way ∈ t.ways order dir ↔ LeadsToFile t dir way
  | [], dir => by
    rw [ways_eq, List.mem_flatMap]
    refine iff_of_false ?_ fun h => h.ne_nil rfl
    rintro ⟨name, -, hmem⟩
    obtain ⟨rest, hway, -⟩ := mem_waysThrough.mp hmem
    cases hway
  | name :: way, dir => by
    have hname : LeadsToFile t dir (name :: way) → name ∈ order dir := fun h => by
      rw [(horder dir).mem_iff, mem_names]
      rcases (leadsToFile_cons.mp h).2 with ⟨-, content, executable, h⟩ | ⟨h, -⟩ <;> simp [h]
    rw [ways_eq, List.mem_flatMap]
    constructor
    · rintro ⟨_, -, hmem⟩
      obtain ⟨_, ⟨rfl, rfl⟩, hidden, hrest⟩ := mem_waysThrough.mp hmem
      rw [mem_ways horder] at hrest
      exact leadsToFile_cons.mpr ⟨hidden, hrest⟩
    · intro h
      obtain ⟨hidden, hrest⟩ := leadsToFile_cons.mp h
      rw [← mem_ways horder] at hrest
      exact ⟨name, hname h, mem_waysThrough.mpr ⟨way, rfl, hidden, hrest⟩⟩

/-- **A walk meets nothing twice.** -/
theorem nodup_ways (horder : t.Enumerates order) (dir : Place) : (t.ways order dir).Nodup := by
  induction dir using ways.induct t with
  | case1 dir ih =>
    rw [ways_eq, List.nodup_flatMap]
    refine ⟨fun name _ => ?_, ((horder dir).nodup_iff.mpr (t.nodup_names dir)).imp ?_⟩
    · unfold waysThrough
      split
      · exact List.nodup_nil
      rename_i hidden
      split
      · rename_i hdirectory
        exact (ih name hdirectory).map fun _ _ h => (List.cons.inj h).2
      · exact List.nodup_singleton _
      · exact List.nodup_nil
    · intro a b hne way ha hb
      obtain ⟨_, rfl, -⟩ := mem_waysThrough.mp ha
      obtain ⟨_, heq, -⟩ := mem_waysThrough.mp hb
      exact hne (List.cons.inj heq).1

/-! ### The listing -/

theorem listFilesIn_of_resolve (order : Place → List String) (hr : t.resolve base root = .ok p)
    (hd : t.get? p = some .directory) :
    t.listFilesIn order base root = Path.sort ((t.ways order p).map root.below) := by
  unfold listFilesIn
  rw [hr]
  exact if_pos (by simpa [isDirectory] using hd)

theorem listFilesIn_of_not_isDir (order : Place → List String) (h : t.isDir base root = false) :
    t.listFilesIn order base root = [] := by
  unfold listFilesIn
  rcases hr : t.resolve base root with cause | p
  · rfl
  · refine if_neg fun hd => ?_
    rw [(isDir_of_resolve hr).mpr (by simpa [isDirectory] using hd)] at h
    cases h

/-- The files that are listed are those to which unhidden names lead, and each path comes before the
next one. -/
theorem listFiles_of_resolve (hr : t.resolve base root = .ok p) (hd : t.get? p = some .directory) :
    ∃ listed : List Place, t.listFiles base root = listed.map root.below ∧ listed.Nodup ∧
      (∀ way, way ∈ listed ↔ LeadsToFile t p way) ∧
      (listed.map root.below).Pairwise Before := by
  obtain ⟨listed, hlisted, hsorted, hmem⟩ := t.lists_listFiles base root
  have hiff : ∀ way, way ∈ listed ↔ LeadsToFile t p way := fun way => by
    rw [hmem]
    constructor
    · rintro ⟨hunhidden, q, content, executable, hq, -, hfile⟩
      cases hr.symm.trans hq
      refine .of_file ?_ hunhidden ⟨content, executable, hfile⟩
      rintro rfl
      rw [List.append_nil, hd] at hfile
      cases hfile
    · rintro ⟨-, hunhidden, -, content, executable, hfile⟩
      exact ⟨hunhidden, p, content, executable, hr, hd, hfile⟩
  have hnames : ∀ way ∈ listed, AreNames way := fun way hway => by
    obtain ⟨content, executable, hfile⟩ := ((hiff way).mp hway).file
    exact fun name hname => isName_of_get? hfile name (by simp [hname])
  refine ⟨listed, hlisted, hsorted.imp ne_of_lt, hiff, List.pairwise_map.mpr ?_⟩
  exact hsorted.imp_of_mem fun ha hb hab =>
    before_below (exists_walk hr hd).1 (hnames _ ha) (hnames _ hb) hab

/-- **What a walk meets, sorted, is the listing, whatever the order of the names.** Without a
directory there is nothing. From a directory, or from a link to one, those files are listed to which
unhidden names lead over real directories; each path comes before the next one, component by
component, and so none is there twice. -/
theorem listing_in_any_order (t : FileTree) (base : Place) (root : Path) :
    (t.isDir base root = false → t.listFiles base root = []) ∧
    (t.isDir base root = true → ∃ p, t.resolve base root = .ok p ∧ t.get? p = some .directory ∧
      ∀ path, path ∈ t.listFiles base root ↔ ∃ way, path = root.below way ∧ LeadsToFile t p way) ∧
    (t.listFiles base root).Pairwise Before ∧ (t.listFiles base root).Nodup ∧
    ∀ order, t.Enumerates order → t.listFilesIn order base root = t.listFiles base root := by
  rcases hdir : t.isDir base root with _ | _
  · have hnone : t.listFiles base root = [] := by
      obtain ⟨listed, hlisted, -, hmem⟩ := t.lists_listFiles base root
      rw [hlisted, List.map_eq_nil_iff, List.eq_nil_iff_forall_not_mem]
      rintro way hway
      obtain ⟨-, p, -, -, hr, hd, -⟩ := (hmem way).mp hway
      rw [(isDir_of_resolve hr).mpr hd] at hdir
      cases hdir
    rw [hnone]
    exact ⟨fun _ => rfl, nofun, .nil, .nil, fun order _ => listFilesIn_of_not_isDir order hdir⟩
  obtain ⟨p, hr, hd⟩ := exists_resolve_of_isDir hdir
  obtain ⟨listed, hlisted, hnodup, hmem, hbefore⟩ := listFiles_of_resolve hr hd
  rw [hlisted]
  refine ⟨nofun, fun _ => ⟨p, hr, hd, fun path => ?_⟩, hbefore, ?_, fun order horder => ?_⟩
  · rw [List.mem_map]
    exact exists_congr fun way => by rw [hmem, eq_comm, and_comm]
  · refine hbefore.imp ?_
    rintro path _ h rfl
    exact not_before_self path h
  · rw [listFilesIn_of_resolve order hr hd]
    refine sort_eq_of_perm (List.Perm.map _ ?_) hbefore
    rw [List.perm_ext_iff_of_nodup (nodup_ways horder p) hnodup]
    exact fun way => (mem_ways horder).trans (hmem way).symm

/-- A hidden file is left out, and what lies in a directory is listed before a file whose text is the
smaller one. -/
example :
    let file := Entry.file .empty false
    let t := (((FileTree.empty.put [] "a.b" file).put [] ".c" file).put [] "a" .directory).put
      ["a"] "b" file
    t.listFiles [] ⟨"."⟩ = [⟨"./a/b"⟩, ⟨"./a.b"⟩] := by
  decide +kernel

end SymbolDocs.FileTree
