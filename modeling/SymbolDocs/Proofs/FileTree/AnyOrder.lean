import SymbolDocs.Proofs.FileTree.Enumerated
import SymbolDocs.Proofs.FileTree.Fresh

/-! # Copies of trees in any order

A tree is copied to where a path leads, once the directories that are missing on the way have been
made (`Opens`). A link that leads nowhere may come to lead to a file by what the copy itself makes,
and then whether the copy succeeds depends on the order in which directories are enumerated
(`copied_by_way_of_copy`). Without such a link (`Unaided`), whether it succeeds and what it comes to
are determined by the tree as it was (`links_of_copyTreeIn`, `copyTreeIn_eq_ok_iff`), and so they do
not depend on the order (`copied_in_any_order`). -/

namespace SymbolDocs

open FileTree SymbolDocs.Path

variable {t u v : FileTree} {base g p z : Place} {path source destination : Path}
  {order : Path → List String → List String}

namespace Edit

/-! ### The destination -/

/-- Whether or not it succeeds, making a directory takes nothing away. -/
theorem grows_makeChain (attempt : Attempt) : ∀ (above : List Path) (t : FileTree),
    Grows t ((makeChain base attempt above).apply t).2
  | [], t => .refl t
  | X :: above, t => by
    by_cases hX : X.text = ""
    · rw [makeChain, if_pos hX]
      exact .refl t
    have hmake : ∀ {w w' : FileTree}, w.makeDir base X = .ok w' → Grows w w' := fun h => by
      obtain ⟨r, -, hnone, rfl⟩ := makeDir_ok h
      exact grows_putAt hnone _
    rw [apply_makeChain_cons attempt hX]
    rcases hm : t.makeDir base X with cause | u
    swap
    · exact hmake hm
    by_cases hcause : cause = .notFound
    swap
    · cases cause <;> first | exact absurd rfl hcause | exact .refl t
    subst hcause
    have habove := grows_makeChain attempt above t
    simp only
    rw [apply_bind]
    rcases ha : (makeChain base attempt above).apply t with ⟨_ | _, w⟩ <;> rw [ha] at habove
    · exact habove
    · simp only
      rw [apply_makeOrFind]
      rcases hw : w.makeDir base X with _ | w'
      · exact habove
      · exact habove.trans (hmake hw)

/-- A path leads to an empty directory at `z`, once what is missing on the way has been made. -/
structure Opens (base : Place) (path : Path) (z : Place) (t u : FileTree) : Prop where
  made : (ensureDir base path).apply t = (.ok ⟨⟩, u)
  leads : u.resolve base path = .ok z
  empty : u.contents z = emptyDirectory

namespace Opens

theorem grows (h : Opens base path z t u) : Grows t u := by
  have hgrows : Grows t ((ensureDir base path).apply t).2 :=
    grows_makeChain (.createDirectory path) path.ancestors t
  rwa [h.made] at hgrows

theorem entered (h : Opens base path z t u) : Entered base path z u :=
  ⟨h.leads, by rw [← contents_nil, h.empty]; rfl⟩

theorem vacant (h : Opens base path z t u) (name : String) : u.get? (z ++ [name]) = none :=
  congrFun h.empty [name]

end Opens

/-- A path leads to an empty directory if it leads straight to one, or to where there is nothing yet
and directories can be made. -/
theorem exists_opens {names : List String} (h : Straight base path p names t)
    (hnul : (path.below names).hasNul = false) (hfree : t.Free (p ++ names))
    (hend : t.get? (p ++ names) = none ∨ t.contents (p ++ names) = emptyDirectory) :
    ∃ u, Opens base (path.below names) (p ++ names) t u ∧
      ∀ q, ¬ q <+: p ++ names → u.get? q = t.get? q := by
  have hthere : t.get? (p ++ names) = none ∨ t.get? (p ++ names) = some .directory :=
    hend.imp_right fun hempty => by rw [← contents_nil, hempty]; rfl
  obtain ⟨u, hu, hreached⟩ := apply_ensureDir h hnul hfree hthere
  have hd : u.get? (p ++ names) = some .directory := by rw [hreached, if_pos (List.prefix_refl _)]
  have hp : u.get? p = some .directory := by rw [hreached, if_pos (List.prefix_append p names)]
  have hstraight := h.within (hreached.within hfree hthere (List.prefix_refl _)) hp
  refine ⟨u, ⟨hu, resolve_of_directory hstraight.toFound (plain_of_directory hd) hnul
    (dropLast_directory hd), funext fun a => ?_⟩, fun q hq => by rw [hreached, if_neg hq]⟩
  rcases a with _ | ⟨name, a⟩
  · rw [contents_nil, hd]
    rfl
  · have hnot : ¬ p ++ names ++ name :: a <+: p ++ names := fun hpre =>
      absurd hpre.length_le (by simp)
    rw [FileTree.contents, hreached, if_neg hnot]
    rcases hend with hnone | hempty
    · exact get?_eq_none_beneath hnone (List.prefix_append _ _)
    · exact congrFun hempty (name :: a)

/-- What a copy leaves does not make a link lead to a file: each link of what is copied that leads to
a file then has led to something before. -/
def Unaided (order : Path → List String → List String) (base : Place) (source destination : Path)
    (g : Place) (t : FileTree) : Prop :=
  ∀ v, (copyTreeIn order base source destination).apply t = (.ok ⟨⟩, v) →
    ∀ a target, t.get? (g ++ a) = some (.link target) → ∀ content executable,
      v.stat base (source.below a) = .ok (.file content executable) →
        ∃ e, t.stat base (source.below a) = .ok e

/-- Links that lead to something all along need no help. -/
theorem unaided_of_stat (h : ∀ a target, t.get? (g ++ a) = some (.link target) →
    ∃ e, t.stat base (source.below a) = .ok e) : Unaided order base source destination g t :=
  fun _ _ a target hlink _ _ _ => h a target hlink

/-! ### A whole tree -/

section Tree

variable (horder : ∀ path names, (order path names).Perm names)
  (hsource : Entered base source g t) (hnames : ∀ a e, t.get? (g ++ a) = some e → Nulless a)
  (hopens : Opens base destination z t u) (haside : Aside g z)
  (hsame : u.contents g = t.contents g)

include hsource hnames hopens haside hsame

theorem outset_of_opens : Outset base source destination g z u ∧ Copyable (t.height + 1) g u := by
  have hfacing : Facing base source destination g z u :=
    ⟨hsource.of_grows hopens.grows, hopens.entered, haside⟩
  have hcopyable : Copyable (t.height + 1) g u := by
    refine ⟨hfacing.source.there, fun a e he => ?_⟩
    rw [hsame] at he
    have hheight := length_le_height he
    rw [List.length_append] at hheight
    exact ⟨hnames a e he, by omega⟩
  exact ⟨outset_of_copyable hfacing hopens.vacant hcopyable, hcopyable⟩

include horder

theorem fills_copyTreeIn : ∀ (result : Except IoFailure Unit) (v : FileTree),
    (copyTreeIn order base source destination).apply t = (result, v) →
    Added z u v ∧ v.contents g = t.contents g ∧ (result = .ok ⟨⟩ → Mirror base source g z v) ∧
      (LinksToFiles base source g t → result = .ok ⟨⟩) := by
  obtain ⟨hout, hcopyable⟩ := outset_of_opens hsource hnames hopens haside hsame
  have hfills := fills_copyEntriesIn horder hout hcopyable
  intro result v hrun
  rw [apply_copyTreeIn, copyDirAllIn, apply_bind, hopens.made] at hrun
  rcases result with failure | ⟨⟩
  · obtain ⟨hadded, hlinks⟩ := hfills.error failure v hrun
    refine ⟨hadded, (hout.contents_eq hadded).trans hsame, fun h => ?_, fun h => ?_⟩
    · cases h
    · exact absurd (h.of_grows hopens.grows hsame) hlinks
  · obtain ⟨hadded, hmirror⟩ := hfills.ok ⟨⟩ v hrun
    exact ⟨hadded, (hout.contents_eq hadded).trans hsame, fun _ => hmirror, fun _ => rfl⟩

/-- A copy that succeeds only adds to what was there. -/
theorem mirror_of_copyTreeIn
    (hrun : (copyTreeIn order base source destination).apply t = (.ok ⟨⟩, v)) :
    Added z u v ∧ Grows u v ∧ v.contents g = t.contents g ∧ Mirror base source g z v := by
  obtain ⟨hadded, hcontents, hmirror, -⟩ :=
    fills_copyTreeIn horder hsource hnames hopens haside hsame _ _ hrun
  have hsourced : v.get? g = some .directory := by
    rw [← contents_nil, hcontents, contents_nil, hsource.there]
  exact ⟨hadded, hadded.grows_of_empty hopens.entered.there hopens.vacant
    ((hmirror rfl).directory hsourced), hcontents, hmirror rfl⟩

/-- After a copy that succeeds unaided, every link of the tree has led to a file before. -/
theorem links_of_copyTreeIn (hunaided : Unaided order base source destination g t)
    (hrun : (copyTreeIn order base source destination).apply t = (.ok ⟨⟩, v)) :
    LinksToFiles base source g t := by
  obtain ⟨-, hgrows, hcontents, hmirror⟩ :=
    mirror_of_copyTreeIn horder hsource hnames hopens haside hsame hrun
  intro a target hlink
  obtain ⟨content, executable, hs⟩ := hmirror.links a target ((congrFun hcontents a).trans hlink)
  obtain ⟨e, he⟩ := hunaided v hrun a target hlink content executable hs
  refine ⟨content, executable, ?_⟩
  rw [he, ← stat_of_grows (hopens.grows.trans hgrows) he, hs]

/-- If every link leads to a file, the copy succeeds, and what it comes to is known. -/
theorem copyTreeIn_eq_ok_iff (hlinks : LinksToFiles base source g t) (v : FileTree) :
    (copyTreeIn order base source destination).apply t = (.ok ⟨⟩, v) ↔
      v.contents z = t.seen base source g ∧ ∀ q, ¬ z <+: q → v.get? q = u.get? q := by
  have hmp : ∀ v, (copyTreeIn order base source destination).apply t = (.ok ⟨⟩, v) →
      v.contents z = t.seen base source g ∧ ∀ q, ¬ z <+: q → v.get? q = u.get? q := by
    intro v hrun
    obtain ⟨hadded, hgrows, hcontents, hmirror⟩ :=
      mirror_of_copyTreeIn horder hsource hnames hopens haside hsame hrun
    refine ⟨?_, hadded.outside⟩
    rw [hmirror.contents, hlinks.seen_eq (hopens.grows.trans hgrows) hcontents]
  refine ⟨hmp v, ?_⟩
  rintro ⟨hcontents, houtside⟩
  rcases hrun : (copyTreeIn order base source destination).apply t with ⟨result, w⟩
  obtain rfl := (fills_copyTreeIn horder hsource hnames hopens haside hsame _ _ hrun).2.2.2 hlinks
  obtain ⟨hcontents', houtside'⟩ := hmp w hrun
  have hwv : w = v := ext_get? fun q => by
    by_cases hq : z <+: q
    · obtain ⟨a, rfl⟩ := hq
      exact congrFun (hcontents'.trans hcontents.symm) a
    · rw [houtside' q hq, houtside q hq]
  rw [hwv]

/-- **A directory is copied the same, whatever the order in which directories are enumerated.** Let a
path lead to a directory at `g`, and another one to a directory at `z` that is empty or can be made,
neither of them within the other, and let nothing that has to be made lie at `g`. Then:
* It makes no difference how deep the copy could go, once it can go as deep as the tree is high.
* However the copy ends, what lies at `g` is as it was, and so is everything that is not at `z`, but
  for the directories that have been made on the way.
* If it succeeds, `z` shows what lies at `g`, and instead of each link the file it leads to.
* If what it leaves makes no link lead to a file, the copy succeeds just if every link led to a file
  before, and with what they led to; and it comes to the same as in the order in which entries are
  found, and in every other order in which this is so. -/
theorem copied_in_any_order :
    (∀ depth, t.height < depth →
      (copyDirAllIn order base depth source destination).apply t =
        (copyTreeIn order base source destination).apply t) ∧
    (∀ result v, (copyTreeIn order base source destination).apply t = (result, v) →
      v.contents g = t.contents g ∧ ∀ q, ¬ z <+: q → v.get? q = u.get? q) ∧
    (∀ v, (copyTreeIn order base source destination).apply t = (.ok ⟨⟩, v) →
      v.contents z = v.seen base source g ∧ LinksToFiles base source g v) ∧
    (Unaided order base source destination g t →
      ((∃ v, (copyTreeIn order base source destination).apply t = (.ok ⟨⟩, v)) ↔
        LinksToFiles base source g t) ∧
      (∀ v, (copyTreeIn order base source destination).apply t = (.ok ⟨⟩, v) →
        v.contents z = t.seen base source g ∧
          (copyTree base source destination).apply t = (.ok ⟨⟩, v)) ∧
      ∀ order', (∀ path names, (order' path names).Perm names) →
        Unaided order' base source destination g t →
        ∀ v, (copyTreeIn order base source destination).apply t = (.ok ⟨⟩, v) ↔
          (copyTreeIn order' base source destination).apply t = (.ok ⟨⟩, v)) := by
  have hfills := fills_copyTreeIn horder hsource hnames hopens haside hsame
  refine ⟨fun depth hdepth => ?_, fun result v hrun => ?_, fun v hrun => ?_, fun hunaided => ?_⟩
  · obtain ⟨hout, hcopyable⟩ := outset_of_opens hsource hnames hopens haside hsame
    obtain ⟨k, rfl⟩ : ∃ k, depth = t.height + k + 1 := ⟨depth - t.height - 1, by omega⟩
    rw [apply_copyTreeIn, copyDirAllIn, copyDirAllIn, apply_bind, apply_bind, hopens.made]
    exact apply_copyEntriesIn_add horder hout hcopyable k
  · obtain ⟨hadded, hcontents, -⟩ := hfills _ _ hrun
    exact ⟨hcontents, hadded.outside⟩
  · have hmirror := (hfills _ _ hrun).2.2.1 rfl
    exact ⟨hmirror.contents, hmirror.links⟩
  · have hlinks : ∀ v, (copyTreeIn order base source destination).apply t = (.ok ⟨⟩, v) →
        LinksToFiles base source g t := fun v =>
      links_of_copyTreeIn horder hsource hnames hopens haside hsame hunaided
    have hagree : ∀ order' : Path → List String → List String,
        (∀ path names, (order' path names).Perm names) → LinksToFiles base source g t → ∀ v,
          (copyTreeIn order base source destination).apply t = (.ok ⟨⟩, v) ↔
            (copyTreeIn order' base source destination).apply t = (.ok ⟨⟩, v) :=
      fun order' horder' hlinks v =>
        (copyTreeIn_eq_ok_iff horder hsource hnames hopens haside hsame hlinks v).trans
          (copyTreeIn_eq_ok_iff horder' hsource hnames hopens haside hsame hlinks v).symm
    refine ⟨⟨?_, fun hlinks => ?_⟩, fun v hrun => ⟨?_, ?_⟩,
      fun order' horder' hunaided' v => ⟨fun hrun => ?_, fun hrun => ?_⟩⟩
    · rintro ⟨v, hrun⟩
      exact hlinks v hrun
    · rcases hrun : (copyTreeIn order base source destination).apply t with ⟨result, v⟩
      exact ⟨v, by rw [(hfills _ _ hrun).2.2.2 hlinks]⟩
    · exact ((copyTreeIn_eq_ok_iff horder hsource hnames hopens haside hsame (hlinks v hrun) v).mp
        hrun).1
    · rw [← copyTreeIn_id]
      exact (hagree (fun _ => id) (fun _ _ => .refl _) (hlinks v hrun) v).mp hrun
    · exact (hagree order' horder' (hlinks v hrun) v).mp hrun
    · exact (hagree order' horder' (links_of_copyTreeIn horder' hsource hnames hopens haside hsame
        hunaided' hrun) v).mpr hrun

end Tree

/-- A file, a link to it, a directory with an empty one in it, and a directory aside. -/
def mixed : FileTree :=
  let file := (FileTree.empty.put [] "src" .directory).put ["src"] "a" (.file ⟨#[1]⟩ true)
  let linked := (file.put ["src"] "l" (.link ⟨"a"⟩)).put ["src"] "d" .directory
  (linked.put ["src", "d"] "e" .directory).put [] "w" .directory

/-- The same with a link to a directory. -/
def mixedWithLink : FileTree :=
  mixed.put ["src"] "k" (.link ⟨"d"⟩)

/-- From `src` to a directory in `w`, where all links lead to something. -/
theorem ready_of_entries (hd : t.get? ["src"] = some .directory) (hw : t.get? ["w"] = some .directory)
    (hout : t.get? ["w", "out"] = none)
    (h : ∀ x ∈ t.entries, Nulless (x.1.drop 1) ∧
      (["src"] <+: x.1 → (t.stat [] (Path.below ⟨"src"⟩ (x.1.drop 1))).toOption.isSome = true)) :
    Entered [] ⟨"src"⟩ ["src"] t ∧ (∀ a e, t.get? (["src"] ++ a) = some e → Nulless a) ∧
      Aside ["src"] ["w", "out", "dst"] ∧
      (∀ order, Unaided order [] ⟨"src"⟩ ⟨"w/out/dst"⟩ ["src"] t) ∧
      ∃ u, Opens [] ⟨"w/out/dst"⟩ ["w", "out", "dst"] t u ∧
        u.contents ["src"] = t.contents ["src"] := by
  have hentries : ∀ a e, t.get? (["src"] ++ a) = some e → (["src"] ++ a, e) ∈ t.entries :=
    fun a e he => (get?_eq_some_iff (by simp)).mp he
  have haside : Aside ["src"] ["w", "out", "dst"] := by unfold Aside; decide
  have hfree : t.Free (["w"] ++ ["out", "dst"]) :=
    free_of_none (p := ["w", "out"]) hout (free_of_directory hw)
  have hready : Ready [] ⟨"w"⟩ ["w"] ["out", "dst"] t :=
    ⟨⟨"w", by decide, by decide⟩, by unfold AreNames; decide, by decide,
      leads_of_isName (by decide) (by decide) (get?_nil t) (plain_of_directory hw), hw,
      open_of_free hfree⟩
  obtain ⟨u, hopens, hsame⟩ := exists_opens hready.straight (by decide) hfree
    (.inl (get?_eq_none_beneath hout (List.prefix_append _ ["dst"])))
  refine ⟨⟨?_, hd⟩, fun a e he => (h _ (hentries a e he)).1, haside, fun order => ?_, u, hopens, ?_⟩
  · exact leadsPast_of_isName (r := ["w"]) (by decide) (by decide) (get?_nil t) (by decide)
      (plain_of_directory hd) t (.refl _ t)
  · refine unaided_of_stat fun a target hlink => ?_
    have hstat := (h _ (hentries a _ hlink)).2 (List.prefix_append _ a)
    rcases hs : t.stat [] (Path.below ⟨"src"⟩ a) with cause | e
    · rw [show (["src"] ++ a).drop 1 = a from rfl, hs] at hstat
      cases hstat
    · exact ⟨e, rfl⟩
  · exact funext fun a => hsame _ fun hpre => haside.1 ((List.prefix_append _ a).trans hpre)

/-- Enumerated backwards, the tree is copied as well; with a link to a directory it is not. -/
theorem copied_in_any_order_mixed :
    (∃ v, (copyTreeIn (fun _ => List.reverse) [] ⟨"src"⟩ ⟨"w/out/dst"⟩).apply mixed = (.ok ⟨⟩, v) ∧
      (copyTree [] ⟨"src"⟩ ⟨"w/out/dst"⟩).apply mixed = (.ok ⟨⟩, v) ∧
      v.contents ["w", "out", "dst"] = mixed.seen [] ⟨"src"⟩ ["src"] ∧
      v.contents ["src"] = mixed.contents ["src"]) ∧
    ¬ ∃ v, (copyTreeIn (fun _ => List.reverse) [] ⟨"src"⟩ ⟨"w/out/dst"⟩).apply mixedWithLink =
      (.ok ⟨⟩, v) := by
  constructor
  · obtain ⟨hsource, hnames, haside, hunaided, u, hopens, hsame⟩ := ready_of_entries (t := mixed)
      (by decide +kernel) (by decide +kernel) (by decide +kernel)
      (by unfold Nulless; decide +kernel)
    obtain ⟨-, hevery, -, hfree⟩ :=
      copied_in_any_order (fun _ => List.reverse_perm) hsource hnames hopens haside hsame
    obtain ⟨-, hcopied, -⟩ := hfree (hunaided _)
    rcases hrun : (copyTreeIn (fun _ => List.reverse) [] ⟨"src"⟩ ⟨"w/out/dst"⟩).apply mixed with
      ⟨result, v⟩
    have hok : result = .ok ⟨⟩ := by
      rw [show result = _ from (congrArg Prod.fst hrun).symm]
      decide +kernel
    subst hok
    obtain ⟨hcontents, htree⟩ := hcopied v hrun
    exact ⟨v, rfl, htree, hcontents, (hevery _ v hrun).1⟩
  · obtain ⟨hsource, hnames, haside, hunaided, u, hopens, hsame⟩ :=
      ready_of_entries (t := mixedWithLink) (by decide +kernel) (by decide +kernel)
        (by decide +kernel) (by unfold Nulless; decide +kernel)
    obtain ⟨-, -, -, hfree⟩ :=
      copied_in_any_order (fun _ => List.reverse_perm) hsource hnames hopens haside hsame
    have hsucceeds := (hfree (hunaided _)).1
    rw [hsucceeds]
    intro hlinks
    obtain ⟨content, executable, hs⟩ := hlinks ["k"] ⟨"d"⟩ (by decide +kernel)
    have hdir : mixedWithLink.stat [] ⟨"src/k"⟩ = .ok .directory := by decide +kernel
    cases hdir.symm.trans hs

/-- A link that leads by way of a directory that is not there. -/
def roundabout : FileTree :=
  ((FileTree.empty.put [] "src" .directory).put ["src"] "l" (.link ⟨"../dst/../other"⟩)).put []
    "other" (.file .empty false)

/-- A file, and a link to where its copy is going to be. -/
def forestalled : FileTree :=
  ((FileTree.empty.put [] "src" .directory).put ["src"] "a" (.file .empty false)).put ["src"] "l"
    (.link ⟨"../dst/a"⟩)

/-- A directory with a file in it. -/
def lone : FileTree :=
  (FileTree.empty.put [] "src" .directory).put ["src"] "a" (.file .empty false)

/-- A link that leads nowhere may come to lead to a file by what the copy makes: by the directory
itself, or by a file that happens to be copied before the link. And a directory that has to be made
on the way to the destination may lie in the source. -/
theorem copied_by_way_of_copy :
    Aside ["src"] ["dst"] ∧
    (roundabout.get? ["dst"] = none ∧ roundabout.stat [] ⟨"src/l"⟩ = .error .notFound ∧
      ((copyTree [] ⟨"src"⟩ ⟨"dst"⟩).apply roundabout).1 = .ok ⟨⟩) ∧
    (forestalled.get? ["dst"] = none ∧ forestalled.stat [] ⟨"src/l"⟩ = .error .notFound ∧
      ((copyTree [] ⟨"src"⟩ ⟨"dst"⟩).apply forestalled).1 = .ok ⟨⟩ ∧
      ((copyTreeIn (fun _ => List.reverse) [] ⟨"src"⟩ ⟨"dst"⟩).apply forestalled).1 =
        .error ⟨.copy ⟨"src/l"⟩ ⟨"dst/l"⟩, .notFound⟩) ∧
    lone.get? ["dst"] = none ∧ lone.get? ["src", "new"] = none ∧
      let (result, v) := (copyTree [] ⟨"src"⟩ ⟨"src/new/../../dst"⟩).apply lone
      result = .ok ⟨⟩ ∧ v.resolve [] ⟨"src/new/../../dst"⟩ = .ok ["dst"] ∧
        v.get? ["src", "new"] = some .directory ∧ v.get? ["dst", "new"] = some .directory := by
  refine ⟨by unfold Aside; decide, ?_⟩
  decide +kernel

end Edit

end SymbolDocs
