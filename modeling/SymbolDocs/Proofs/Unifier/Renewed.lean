import SymbolDocs.Proofs.Extractor.Answers
import SymbolDocs.Proofs.FileTree.Mirrored
import SymbolDocs.Proofs.Unifier.Steps

/-! # Unified directories, wherever they are

A unified directory to which a path leads straight (`LeadsStraight`) is emptied, or nothing at all
is done (`reset_cases`). What is then filled in goes into it and nowhere else, and if both copies
succeed it holds nothing but them (`leaves_fill`), whatever links there are among the graphs and on
the way to them. So a unification that succeeds makes the directory anew, and makes it the same when
it is done again (`unify_renews`); and one that fails has changed nothing outside of it
(`unify_frame`). -/

namespace SymbolDocs

open FileTree SymbolDocs.Path

/-! ### What an act leaves -/

namespace Act

/-- In a tree an act ends in one way if it succeeds and in another way if it fails, whatever has
been told before. -/
structure Leaves {α : Type} (host : Host) (act : Act α) (t : FileTree) (P : α → FileTree → Prop)
    (Q : FileTree → Prop) : Prop where
  ok : ∀ w a w', w.files = t → act.perform host w = (.ok a, w') → P a w'.files
  error : ∀ w halt w', w.files = t → act.perform host w = (.error halt, w') → Q w'.files

section Leaves

variable {α β : Type} {host : Host} {t : FileTree} {P : α → FileTree → Prop}
  {R : β → FileTree → Prop} {Q : FileTree → Prop}

theorem Leaves.pure {a : α} (h : P a t) : Leaves host (Pure.pure a : Act α) t P Q where
  ok := fun w a' w' hw he => by cases he; exact hw ▸ h
  error := fun w halt w' hw he => by cases he

theorem Leaves.fail {cause : Cause} (h : Q t) : Leaves host (Work.fail cause : Act α) t P Q where
  ok := fun w a w' hw he => by cases he
  error := fun w halt w' hw he => by cases he; exact hw ▸ h

theorem Leaves.imp {act : Act α} {P' : α → FileTree → Prop} {Q' : FileTree → Prop}
    (h : Leaves host act t P Q) (hP : ∀ a u, P a u → P' a u) (hQ : ∀ u, Q u → Q' u) :
    Leaves host act t P' Q' where
  ok := fun w a w' hw he => hP a _ (h.ok w a w' hw he)
  error := fun w halt w' hw he => hQ _ (h.error w halt w' hw he)

theorem Leaves.edit {work : Place → Edit α} (h : (work host.directory).Leaves t P Q) :
    Leaves host (Act.edit work) t P Q where
  ok := by
    rintro w a w' rfl he
    obtain ⟨u, hu, rfl⟩ := perform_edit_ok he
    exact h.ok a u hu
  error := by
    rintro w halt w' rfl he
    rw [perform_edit] at he
    rcases hu : (work host.directory).apply w.files with ⟨failure | a, u⟩ <;> rw [hu] at he
    · cases he
      exact h.error failure u hu
    · cases he

theorem Leaves.bind {x : Act α} {f : α → Act β} (hx : Leaves host x t P Q)
    (hf : ∀ a u, P a u → Leaves host (f a) u R Q) : Leaves host (x >>= f) t R Q where
  ok := by
    intro w b w' hw he
    obtain ⟨a, w1, h1, h2⟩ := Work.perform_bind_ok he
    exact (hf a w1.files (hx.ok w a w1 hw h1)).ok w1 b w' rfl h2
  error := by
    intro w halt w' hw he
    rw [Work.perform_bind] at he
    rcases h1 : x.perform host w with ⟨halt' | a, w1⟩ <;> rw [h1] at he
    · cases he
      exact hx.error w halt w' hw h1
    · exact (hf a w1.files (hx.ok w a w1 hw h1)).error w1 halt w' rfl he

end Leaves

end Act

/-! ### Paths that lead straight to a place -/

namespace FileTree

variable {t u v : FileTree} {base p q r : Place} {path : Path}

/-- A path leads straight to a place: first to a directory, or to where one can be made, whatever
changes at the place, and from there down without a link on the way. -/
def LeadsStraight (t : FileTree) (base : Place) (path : Path) (p : Place) : Prop :=
  ∃ top d names, path = top.below names ∧ p = d ++ names ∧ Straight base top d names t

theorem LeadsStraight.endsInStep (h : t.LeadsStraight base path p) : path.EndsInStep := by
  obtain ⟨top, d, names, rfl, -, hs⟩ := h
  exact (endsInName_of_ne hs.areNames hs.ne).endsInStep

theorem Emptied.within (h : Emptied p t u) (hfree : t.Free p) : Within p t u := by
  intro q
  rw [h q]
  split_ifs with hqp hpq
  · by_cases hq : q = p
    · exact .inr (.inl ⟨hq ▸ List.prefix_refl _, plain_of_directory (by rw [h q, if_pos hqp])⟩)
    · rcases hfree q hqp hq with hnone | hd
      · exact .inr (.inr ⟨hqp, hnone, rfl⟩)
      · exact .inl hd.symm
  · exact .inr (.inl ⟨hpq, plain_of_none (by rw [h q, if_neg hqp, if_pos hpq])⟩)
  · exact .inl rfl

/-! ### Files that are left alone -/

/-- A file to which a path leads past what has changed was there before. -/
theorem stat_of_within (h : Within p t v) (hleads : t.LeadsPast base path p r) (hz : ¬ p <+: r)
    {content : ByteArray} {executable : Bool}
    (hs : v.stat base path = .ok (.file content executable)) :
    t.stat base path = .ok (.file content executable) := by
  obtain ⟨q, hq, hfile⟩ := stat_eq_ok_iff.mp hs
  rw [hleads v h] at hq
  cases hq
  refine stat_eq_ok_iff.mpr ⟨r, hleads t (.refl p t), ?_⟩
  rcases h r with hsame | ⟨hpz, -⟩ | ⟨-, -, hd⟩
  · rw [← hsame, hfile]
  · exact absurd hpz hz
  · rw [hfile] at hd
    cases hd

/-- A link that leads past what has changed shows what it showed before. -/
theorem seen_of_leadsPast {a : List String} (h : Within p t v) (hq : v.contents q = t.contents q)
    (hlinks : ∀ a target, v.get? (q ++ a) = some (.link target) →
      ∃ content executable, v.stat base (path.below a) = .ok (.file content executable))
    (hleads : t.LeadsPast base (path.below a) p r) (hz : ¬ p <+: r) :
    v.seen base path q a = t.seen base path q a := by
  have ha : v.get? (q ++ a) = t.get? (q ++ a) := congrFun hq a
  by_cases hplain : v.Plain (q ++ a)
  · rw [seen_of_plain hplain, seen_of_plain ((plain_congr ha).mp hplain), ha]
  obtain ⟨link, hlink⟩ := not_forall_not.mp hplain
  obtain ⟨content, executable, hs⟩ := hlinks a link hlink
  rw [seen_of_link hlink, seen_of_link (ha.symm.trans hlink), hs,
    stat_of_within h hleads hz hs]

end FileTree

namespace Unifier

variable {host : Host} {scratch : Scratch} {target : Target} {graphs graph : Path}
  {t u v : FileTree} {base p g z : Place} {dir : Path}

/-! ### Emptying -/

/-- A directory to which a path leads straight is emptied, or it cannot be removed, and nothing
changes. -/
theorem reset_cases (h : t.LeadsStraight base dir p) :
    (∃ u, (Edit.resetDir base dir).apply t = (.ok ⟨⟩, u) ∧ Within p t u ∧ Emptied p t u ∧
      u.resolve base dir = .ok p) ∨
    ∃ cause, (Edit.resetDir base dir).apply t = (.error ⟨.removeDirectory dir, cause⟩, t) := by
  obtain ⟨top, d, names, rfl, rfl, hs⟩ := h
  by_cases hnul : (top.below names).hasNul = true
  · exact .inr ⟨_, Edit.apply_resetDir_of_hasNul hs.toFound hnul⟩
  rw [Bool.not_eq_true] at hnul
  rcases Edit.apply_resetDir hs hnul with ⟨hfree, -, u, hu, hemptied⟩ | ⟨-, he⟩
  · have hwithin := hemptied.within hfree
    have hstraight : Straight base top d names u :=
      hs.within hwithin (by rw [hemptied, if_pos (List.prefix_append d names)])
    exact .inl ⟨u, hu, hwithin, hemptied, resolve_of_directory hstraight.toFound
      (plain_of_directory hemptied.there) hnul (dropLast_directory hemptied.there)⟩
  · exact .inr ⟨_, he⟩

/-- What cannot be removed stays as it is. -/
theorem apply_resetDir_of_unremovable (h : t.LeadsStraight base dir p) {failure : IoFailure}
    (hr : (Edit.removeDirAll base dir).apply t = (.error failure, u)) :
    (Edit.resetDir base dir).apply t = (.error failure, t) := by
  have he : (Edit.resetDir base dir).apply t = (.error failure, u) := by
    unfold Edit.resetDir
    rw [Edit.apply_bind, hr]
  rcases reset_cases h with ⟨v, hv, -⟩ | ⟨cause, hv⟩ <;> rw [he] at hv <;> cases hv
  exact he

/-- A file cannot be removed as a directory. -/
theorem removeDirAll_of_file (h : t.LeadsStraight base dir p) {content : ByteArray}
    {executable : Bool} (hfile : t.get? p = some (.file content executable)) :
    ∃ cause, (Edit.removeDirAll base dir).apply t = (.error ⟨.removeDirectory dir, cause⟩, t) := by
  obtain ⟨top, d, names, rfl, rfl, hs⟩ := h
  by_cases hnul : (top.below names).hasNul = true
  · exact ⟨_, Edit.apply_removeDirAll_of_hasNul hs.toFound hnul⟩
  rw [Bool.not_eq_true] at hnul
  rcases Edit.apply_removeDirAll hs hnul with ⟨-, hno, -⟩ | ⟨-, he⟩
  · exact absurd hfile (hno content executable)
  · exact ⟨_, he⟩

/-- A directory that has been emptied comes to the same when it is emptied again, whatever has been
done within it. -/
theorem reset_again (h : t.LeadsStraight base dir p)
    (hu : (Edit.resetDir base dir).apply t = (.ok ⟨⟩, u)) (hv : Within p t v)
    (hthere : v.get? p = some .directory) : (Edit.resetDir base dir).apply v = (.ok ⟨⟩, u) := by
  obtain ⟨top, d, names, rfl, rfl, hs⟩ := h
  obtain ⟨hnul, -, hemptied⟩ := Edit.resetDir_ok hs hu
  have hagain : Straight base top d names v :=
    hs.within hv (directory_above hthere (List.prefix_append d names))
  rcases Edit.apply_resetDir hagain hnul with ⟨-, -, u', hu', hemptied'⟩ | ⟨hfile, -⟩
  · have hsame : u' = u := ext_get? fun q => by
      rw [hemptied' q, hemptied q]
      split_ifs with h1 h2
      · rfl
      · rfl
      · exact hv.eq_aside h2 h1
    rw [hu', hsame]
  · obtain ⟨content, executable, hfile⟩ := hfile (free_of_directory (dropLast_directory hthere))
    rw [hthere] at hfile
    cases hfile

/-! ### Filling -/

/-- Puts both copies into the unified directory of a target. -/
def fill (scratch : Scratch) (target : Target) (graphs graph : Path) : Act GraphResult := do
  copyGraphs scratch target graphs
  let copy ← copySnippet scratch target graph
  return .unified (scratch.unified target) (graphsCopy scratch target) (some copy)

/-- The world with other files, once it has been told that graphs are unified. -/
def announced (scratch : Scratch) (target : Target) (w : World) (files : FileTree) : World where
  files := files
  emissions := w.emissions ++ [.event .debug ("unifying symbol graphs for `" ++ target.name ++
    "` into " ++ (scratch.unified target).text)]

theorem perform_merge (w : World) :
    (merge scratch target graphs graph).perform host w =
      match (Edit.resetDir host.directory (scratch.unified target)).apply w.files with
      | (.ok _, u) =>
        (fill scratch target graphs graph).perform host (announced scratch target w u)
      | (.error failure, u) =>
        (.error (.failed { cause := .io failure }), announced scratch target w u) := by
  unfold merge
  rw [Work.perform_bind, Act.perform_log]
  simp only
  rw [Work.perform_bind, reset, Act.perform_edit]
  simp only
  rcases (Edit.resetDir host.directory (scratch.unified target)).apply w.files with
    ⟨failure | ⟨⟩, u⟩ <;> rfl

theorem blind_fill : (fill scratch target graphs graph).Blind host :=
  (blind_copyGraphs graphs).bind fun _ => (blind_copySnippet graph).bind fun _ => .pure _

/-- What the unified directory at `p` holds in `v`, once both copies have been put into it. -/
structure Holding (base : Place) (scratch : Scratch) (target : Target) (graphs graph : Path)
    (p : Place) (name : String) (result : GraphResult) (v : FileTree) : Prop where
  fileName : graph.fileName = some name
  ne : name ≠ Scratch.targetCopyName
  result : result = .unified (scratch.unified target) (graphsCopy scratch target)
    (some ((scratch.unified target).entry name))
  resolve : v.resolve base (scratch.unified target) = .ok p
  there : v.get? p = some .directory
  copy : v.get? (p ++ [Scratch.targetCopyName]) = some .directory
  graphs : ∃ g, v.resolve base graphs = .ok g ∧ v.get? g = some .directory ∧
    (Aside g p → Mirror base graphs g (p ++ [Scratch.targetCopyName]) v)
  snippet : ∃ content executable, v.stat base graph = .ok (.file content executable) ∧
    v.get? (p ++ [name]) = some (.file content executable)
  rest : ∀ entry, entry ≠ Scratch.targetCopyName → entry ≠ name → v.get? (p ++ [entry]) = none

section Holding

variable {name : String} {result : GraphResult}

theorem Holding.mem_names (h : Holding base scratch target graphs graph p name result v)
    (entry : String) : entry ∈ v.names p ↔ entry = Scratch.targetCopyName ∨ entry = name := by
  rw [FileTree.mem_names]
  constructor
  · intro hsome
    by_contra hne
    rw [not_or] at hne
    simp [h.rest entry hne.1 hne.2] at hsome
  · rintro (rfl | rfl)
    · simp [h.copy]
    · obtain ⟨content, executable, -, hfile⟩ := h.snippet
      simp [hfile]

theorem Holding.contents_eq (h : Holding base scratch target graphs graph p name result v)
    {e : Entry} (hfile : v.get? (p ++ [name]) = some e) (he : e ≠ .directory)
    (hmirror : Mirror base graphs g (p ++ [Scratch.targetCopyName]) v) :
    v.contents p = unifiedContents (v.seen base graphs g) name e := by
  funext a
  rcases a with _ | ⟨first, rest⟩
  · rw [contents_nil, h.there]
    rfl
  have happ : p ++ first :: rest = p ++ [first] ++ rest := by simp
  rw [FileTree.contents, happ, unifiedContents]
  split_ifs with hcopy hname
  · rw [hcopy, ← hmirror.contents]
    rfl
  · rw [hname.1, hname.2, List.append_nil, hfile]
  by_cases hfirst : first = name
  · -- nothing lies beneath a file
    have hrest : rest ≠ [] := fun hrest => hname ⟨hfirst, hrest⟩
    rcases hg : v.get? (p ++ [first] ++ rest) with _ | e'
    · rfl
    · have hd := get?_above hg (List.prefix_append _ rest) (by simpa using hrest)
      rw [hfirst, hfile] at hd
      exact absurd (Option.some.inj hd) he
  · exact get?_eq_none_beneath (h.rest first hcopy hfirst) (List.prefix_append _ rest)

end Holding

theorem isName_targetCopyName : isName Scratch.targetCopyName = true := by decide

/-- A directory by the name of the snippet graph is in the way of its copy. -/
theorem leaves_copySnippet_of_directory {name : String}
    (hends : (scratch.unified target).EndsInStep)
    (hresolve : v.resolve host.directory (scratch.unified target) = .ok p)
    (hname : graph.fileName = some name) (hd : v.get? (p ++ [name]) = some .directory) :
    (copySnippet scratch target graph).Leaves host v (fun _ _ => False) (· = v) := by
  have hthere : v.get? p = some .directory := directory_above hd (List.prefix_append p [name])
  have hfound : Found host.directory (scratch.unified target) p [name] v :=
    ⟨hends, areNames_singleton (isName_of_fileName hname), by simp, hresolve, .inl hthere,
      open_of_free (free_of_directory (by rw [List.dropLast_concat, hthere]))⟩
  unfold copySnippet
  rw [hname]
  exact (Act.Leaves.edit (Edit.leaves_copyFile_of_directory hfound hd graph)).bind
    fun _ _ h => h.elim

/-- Where there is room, the snippet graph is copied under its own name, or nothing happens. -/
theorem leaves_copySnippet {name : String} (hname : graph.fileName = some name)
    (hroom : Room host.directory (scratch.unified target) p [name] v) :
    (copySnippet scratch target graph).Leaves host v
      (fun copy w => copy = (scratch.unified target).entry name ∧
        ∃ content executable, v.stat host.directory graph = .ok (.file content executable) ∧
          Put (p ++ [name]) (.file content executable) v w)
      (· = v) := by
  unfold copySnippet
  rw [hname]
  exact (Act.Leaves.edit (Edit.leaves_copyFile hroom graph)).bind fun _ _ hw => .pure ⟨rfl, hw⟩

/-- A directory that held the copy of the graphs and nothing else holds both copies once the snippet
graph has been put beside it. -/
theorem holding_of_put {name : String} {content : ByteArray} {executable : Bool}
    (hname : graph.fileName = some name) (hne : name ≠ Scratch.targetCopyName)
    (hresolve : v.resolve host.directory (scratch.unified target) = .ok p)
    (hthere : v.get? p = some .directory)
    (hcopies : Copies host.directory graphs (p ++ [Scratch.targetCopyName]) t v)
    (hrest : ∀ entry, entry ≠ Scratch.targetCopyName → v.get? (p ++ [entry]) = none)
    (hs : v.stat host.directory graph = .ok (.file content executable))
    (hput : Put (p ++ [name]) (.file content executable) v u) :
    Holding host.directory scratch target graphs graph p name
      (.unified (scratch.unified target) (graphsCopy scratch target)
        (some ((scratch.unified target).entry name))) u := by
  obtain ⟨g, hg, hgd, hmirror⟩ := hcopies.mirror
  have hadded := hput.added (fun _ he => by cases he) (hrest name hne)
  have hgrows := hadded.grows (hrest name hne)
  have habove : ∀ entry : String, p <+: p ++ [entry] := fun entry => List.prefix_append p [entry]
  have hside : ∀ a, ¬ p ++ [name] <+: p ++ [Scratch.targetCopyName] ++ a := by
    intro a hpre
    rw [List.append_assoc, List.prefix_append_right_inj] at hpre
    exact hne (List.cons_prefix_cons.mp hpre).1
  exact {
    fileName := hname
    ne := hne
    result := rfl
    resolve := resolve_of_grows hgrows (by simp [hthere]) hresolve
    there := hgrows _ _ hthere
    copy := hgrows _ _ hcopies.there
    graphs := by
      refine ⟨g, resolve_of_grows hgrows (by simp [hgd]) hg, hgrows _ _ hgd, fun haside => ?_⟩
      refine (hmirror (haside.symm.beneath (habove _)).symm).of_grows hgrows ?_ ?_
      · exact hadded.contents_eq fun a hpre =>
          (haside.beneath (List.prefix_append g a)).2 ((habove name).trans hpre)
      · exact hadded.contents_eq hside
    snippet := ⟨content, executable, stat_of_grows hgrows hs, by rw [hput, if_pos rfl]⟩
    rest := by
      intro entry h1 h2
      rw [hput, if_neg (by simpa using h2), hrest entry h1] }

/-- **What is filled into an empty directory** goes into it and nowhere else, and both copies are
there at the end. -/
theorem leaves_fill (hends : (scratch.unified target).EndsInStep)
    (hresolve : t.resolve host.directory (scratch.unified target) = .ok p)
    (hempty : t.contents p = emptyDirectory) (graphs graph : Path) :
    (fill scratch target graphs graph).Leaves host t
      (fun result v => Within p t v ∧
        ∃ name, Holding host.directory scratch target graphs graph p name result v)
      (Within p t) := by
  have hentry : ∀ entry, t.get? (p ++ [entry]) = none := fun entry => congrFun hempty [entry]
  have hthere : t.get? p = some .directory := by
    rw [← contents_nil, hempty]
    rfl
  have hroom : ∀ {v : FileTree} {name : String}, isName name = true →
      v.resolve host.directory (scratch.unified target) = .ok p → v.get? p = some .directory →
      v.get? (p ++ [name]) = none →
      Room host.directory (scratch.unified target) p [name] v := fun hname hr hd hnone =>
    .of_parent hends hr areNames_nil hname
      ((List.append_nil p).symm ▸ hd) ((List.append_nil p).symm ▸ hnone)
  have habove : ∀ entry : String, p <+: p ++ [entry] := fun entry => List.prefix_append p [entry]
  unfold fill
  refine Act.Leaves.bind (P := fun _ v => Copies host.directory graphs
    (p ++ [Scratch.targetCopyName]) t v) (Act.Leaves.edit ?_) fun _ v hv => ?_
  · exact (Edit.leaves_copyTree (hroom isName_targetCopyName hresolve hthere (hentry _)) graphs).imp
      (fun _ _ => id) fun _ hu => hu.within (habove _)
  -- the graphs are there; nothing else is
  have hgrows := hv.added.grows (hentry _)
  have hvthere := hgrows _ _ hthere
  have hvresolve := resolve_of_grows hgrows (by simp [hthere]) hresolve
  have hvwithin := hv.added.within (habove _)
  have hvrest : ∀ entry, entry ≠ Scratch.targetCopyName → v.get? (p ++ [entry]) = none := by
    intro entry hne
    rw [hv.added.outside, hentry]
    exact fun hpre => hne ((List.prefix_append_right_inj p).mp hpre |>.eq_of_length rfl |>
      List.singleton_inj.mp).symm
  rcases hname : graph.fileName with _ | name
  · unfold copySnippet
    rw [hname]
    exact Act.Leaves.bind (P := fun _ _ => False) (.fail hvwithin) fun _ _ h => h.elim
  by_cases hcopy : name = Scratch.targetCopyName
  · -- the copy of the graphs is in the way
    exact ((leaves_copySnippet_of_directory hends hvresolve hname (hcopy ▸ hv.there)).imp
      (fun _ _ => id) fun _ hu => hu.symm ▸ hvwithin).bind fun _ _ h => h.elim
  have hvacant := hvrest name hcopy
  refine ((leaves_copySnippet hname (hroom (isName_of_fileName hname) hvresolve hvthere
    hvacant)).imp (fun _ _ => id) fun _ hu => hu.symm ▸ hvwithin).bind ?_
  rintro copy w ⟨rfl, content, executable, hs, hput⟩
  exact .pure ⟨hvwithin.trans ((hput.added (fun _ he => by cases he) hvacant).within (habove name)),
    name, holding_of_put hname hcopy hvresolve hvthere hv hvrest hs hput⟩

/-- **Both copies are put into an emptied directory** by a unification that succeeds, and when it is
done again it comes to the same. -/
theorem holding_of_merge {w w' : World} {result : GraphResult}
    (h : w.files.LeadsStraight host.directory (scratch.unified target) p)
    (hm : (merge scratch target graphs graph).perform host w = (.ok result, w')) :
    Within p w.files w'.files ∧
      (∃ name, Holding host.directory scratch target graphs graph p name result w'.files) ∧
      ∀ v : World, v.files = w'.files → ∃ v',
        (merge scratch target graphs graph).perform host v = (.ok result, v') ∧
          v'.files = w'.files := by
  rw [perform_merge] at hm
  rcases reset_cases h with ⟨t, hreset, hwithin, hemptied, hresolve⟩ | ⟨cause, he⟩
  swap
  · rw [he] at hm
    cases hm
  rw [hreset] at hm
  simp only at hm
  obtain ⟨hfilled, name, hholding⟩ :=
    (leaves_fill h.endsInStep hresolve hemptied.contents graphs graph).ok _ _ _ rfl hm
  refine ⟨hwithin.trans hfilled, ⟨name, hholding⟩, fun v hv => ?_⟩
  have hblind : (fill scratch target graphs graph).Blind host := blind_fill
  obtain ⟨houtcome, hleft⟩ := hblind (announced scratch target w t) (announced scratch target v t) rfl
  rw [hm] at houtcome hleft
  rw [perform_merge, hv, reset_again h hreset (hwithin.trans hfilled) hholding.there]
  rcases hw : (fill scratch target graphs graph).perform host (announced scratch target v t) with
    ⟨o, v'⟩
  rw [hw] at houtcome hleft
  obtain rfl : Except.ok result = o := houtcome
  exact ⟨v', hw, hleft.symm⟩

/-- Whatever comes of a unification, nothing has changed elsewhere. -/
theorem within_of_merge {w : World}
    (h : w.files.LeadsStraight host.directory (scratch.unified target) p) (graphs graph : Path) :
    Within p w.files ((merge scratch target graphs graph).perform host w).2.files := by
  rw [perform_merge]
  rcases reset_cases h with ⟨t, hreset, hwithin, hemptied, hresolve⟩ | ⟨cause, he⟩
  swap
  · rw [he]
    exact .refl p w.files
  rw [hreset]
  simp only
  have hleaves := leaves_fill h.endsInStep hresolve hemptied.contents graphs graph
  rcases hf : (fill scratch target graphs graph).perform host (announced scratch target w t) with
    ⟨halt | result, w'⟩
  · exact hwithin.trans (hleaves.error _ _ _ rfl hf)
  · exact hwithin.trans (hleaves.ok _ _ _ rfl hf).1

/-! ### Asking -/

section Ask

variable {x : Extractor} {package : Package} {s s1 s' : Session} {r : Option Path}

theorem perform_unify_none :
    (unify scratch none package target graphs).perform host s = (.ok (.single graphs), s) := rfl

theorem perform_unify_of_silence
    (hask : (x.ask package target).perform host s = (.ok none, s1)) :
    (unify scratch (some x) package target graphs).perform host s = (.ok (.single graphs), s1) := by
  unfold unify
  rw [Work.perform_bind, hask]
  rfl

theorem perform_unify_of_error {halt : Halt}
    (hask : (x.ask package target).perform host s = (.error halt, s1)) :
    (unify scratch (some x) package target graphs).perform host s = (.error halt, s1) := by
  unfold unify
  rw [Work.perform_bind, hask]

theorem perform_unify_of_ask
    (hask : (x.ask package target).perform host s = (.ok (some graph), s1)) :
    (unify scratch (some x) package target graphs).perform host s =
      (((merge scratch target graphs graph).perform host s1.toWorld).1,
        { s1 with toWorld := ((merge scratch target graphs graph).perform host s1.toWorld).2 }) := by
  unfold unify
  rw [Work.perform_bind, hask]
  rfl

/-- An extractor that keeps its answers gives the same answer again and leaves the files alone. -/
theorem ask_again (hx : x.keeps = true)
    (hask : (x.ask package target).perform host s = (.ok r, s1))
    (hkept : s'.snippetGraphs = s1.snippetGraphs) :
    ∃ s2, (x.ask package target).perform host s' = (.ok r, s2) ∧ s2.files = s'.files := by
  have hreply : x.reply s.snippetGraphs ⟨host, s, package, target⟩ = (.ok r, s1) := hask
  have hlookup := Extractor.lookup_of_ok hx (congrArg Prod.fst hreply)
  rw [hreply, ← hkept] at hlookup
  exact ⟨_, Extractor.reply_of_kept (q := ⟨host, s', package, target⟩) hx hlookup, rfl⟩

end Ask

/-! ### An old directory -/

/-- A target of which there is an old unified directory. -/
def staleTarget : Target where
  name := "A"
  id := "i"
  kind := .sourceModule .library

/-- The scratch directory with it. -/
def staleScratch : Scratch where
  dir := ⟨"scratch"⟩

/-- The package of the target. -/
def stalePackage : Package where
  name := "p"
  version := default
  root := ⟨"."⟩

/-- The way to the old unified directory. -/
def stalePlace : Place :=
  ["scratch"] ++ unifiedNames staleTarget

/-- Graphs, with a link among them, a snippet graph, and an old unified directory that is not
empty. -/
def staleFiles : FileTree :=
  let graphs := (FileTree.empty.put [] "graphs" .directory).put ["graphs"] "K" (.file ⟨#[1]⟩ false)
  let linked := (graphs.put ["graphs"] "L" (.link ⟨"K"⟩)).put [] "snippets" (.file ⟨#[2]⟩ false)
  let scratch := (linked.put [] "scratch" .directory).put ["scratch"] "symbol-graphs" .directory
  let unified := scratch.put ["scratch", "symbol-graphs"] "unified-symbol-graphs" .directory
  (unified.put stalePlace.dropLast staleTarget.dirName .directory).put stalePlace "old"
    (.file .empty false)

theorem leadsStraight_staleFiles {t : FileTree} (h : t.get? stalePlace.dropLast = some .directory) :
    t.LeadsStraight [] (staleScratch.unified staleTarget) stalePlace := by
  have hthere : t.get? ["scratch"] = some .directory := directory_above h (by decide)
  refine ⟨⟨"scratch"⟩, ["scratch"], unifiedNames staleTarget, rfl, rfl, Ready.straight ?_⟩
  exact ⟨⟨"scratch", by decide, by decide⟩, by unfold AreNames; decide, by decide,
    leads_of_isName (by decide) (by decide) (get?_nil t) (plain_of_directory hthere), hthere,
    open_of_free (free_of_directory h)⟩

/-! ### All of it -/

section Unify

variable {x : Extractor} {package : Package} {s s1 s' : Session} {result : GraphResult}

/-- **A unification makes its directory anew.** The extractor has answered where the snippet graph
is; from there on, let the unified directory be one to which a path leads straight, let `g` be where
the graphs are and `z` where the snippet graph is, both found past the unified directory and outside
of it, and let the unified directory not lie in that of the graphs. If the unification succeeds:
* It answers the unified directory and the places of the two copies in it; that of the snippet graph
  has the name of the snippet graph itself, which is not that of the other copy.
* The unified directory holds the two copies and nothing else. That of the graphs shows what is in
  their directory, and where a link is there, the file to which it leads; if no link leads into the
  unified directory, this is what was there before. That of the snippet graph is the file itself.
* Nothing has changed outside of the unified directory, so that the graphs and the snippet graph are
  what they were, and are found where they were.
* It comes to the same when it is done again, if the extractor keeps its answers, or gives the same
  answer and leaves the files alone: it has the same outcome, and the files stay the same. -/
theorem unify_renews {u g z : Place}
    (hask : (x.ask package target).perform host s = (.ok (some graph), s1))
    (hdir : s1.files.LeadsStraight host.directory (scratch.unified target) u)
    (hgraphs : s1.files.LeadsPast host.directory graphs u g) (haside : Aside g u)
    (hgraph : s1.files.LeadsPast host.directory graph u z) (hz : ¬ u <+: z)
    (hunify : (unify scratch (some x) package target graphs).perform host s = (.ok result, s')) :
    ∃ name content executable,
      (graph.fileName = some name ∧ name ≠ Scratch.targetCopyName ∧
        result = .unified (scratch.unified target) (graphsCopy scratch target)
          (some ((scratch.unified target).entry name)) ∧
        s'.files.resolve host.directory (scratch.unified target) = .ok u) ∧
      ((∀ entry, entry ∈ s'.files.names u ↔ entry = Scratch.targetCopyName ∨ entry = name) ∧
        s'.files.contents u = unifiedContents (s'.files.seen host.directory graphs g) name
          (.file content executable) ∧
        s1.files.stat host.directory graph = .ok (.file content executable) ∧
        (∀ a link, s1.files.get? (g ++ a) = some (.link link) → ∃ content' executable',
          s'.files.stat host.directory (graphs.below a) = .ok (.file content' executable')) ∧
        ∀ a r, s1.files.LeadsPast host.directory (graphs.below a) u r → ¬ u <+: r →
          s'.files.seen host.directory graphs g a = s1.files.seen host.directory graphs g a) ∧
      (Within u s1.files s'.files ∧ s'.files.contents g = s1.files.contents g ∧
        s'.files.get? z = s1.files.get? z ∧
        s'.files.resolve host.directory graphs = .ok g ∧
        s'.files.stat host.directory graph = .ok (.file content executable)) ∧
      ((x.keeps = true ∨ ∃ s2, (x.ask package target).perform host s' = (.ok (some graph), s2) ∧
          s2.files = s'.files) →
        ∃ s2, (unify scratch (some x) package target graphs).perform host s' = (.ok result, s2) ∧
          s2.files = s'.files) := by
  rw [perform_unify_of_ask hask] at hunify
  obtain ⟨hm, rfl⟩ := Prod.mk.inj hunify
  rcases hw : (merge scratch target graphs graph).perform host s1.toWorld with ⟨o, w⟩
  rw [hw] at hm
  obtain rfl : o = .ok result := hm
  obtain ⟨hwithin, ⟨name, hold⟩, hagain⟩ := holding_of_merge hdir hw
  simp only
  obtain ⟨g', hg', hgd, hmirror⟩ := hold.graphs
  rw [hgraphs w.files hwithin] at hg'
  cases hg'
  have hmirror := hmirror haside
  have hsame : w.files.contents g = s1.files.contents g := hwithin.contents_eq haside
  obtain ⟨content, executable, hs, hfile⟩ := hold.snippet
  have hs1 := stat_of_within hwithin hgraph hz hs
  have hlinks := hmirror.links
  refine ⟨name, content, executable, ⟨hold.fileName, hold.ne, hold.result, hold.resolve⟩,
    ⟨hold.mem_names, hold.contents_eq hfile (by simp) hmirror, hs1,
      fun a link hlink => hlinks a link ((congrFun hsame a).trans hlink),
      fun a r hleads hr => seen_of_leadsPast hwithin hsame hlinks hleads hr⟩,
    ⟨hwithin, hsame, ?_, hgraphs _ hwithin, hs⟩, fun hanswer => ?_⟩
  · obtain ⟨q, hq, hafter⟩ := stat_eq_ok_iff.mp hs
    obtain ⟨q', hq', hbefore⟩ := stat_eq_ok_iff.mp hs1
    rw [hgraph _ hwithin] at hq
    rw [hgraph _ (.refl u _)] at hq'
    cases hq
    cases hq'
    rw [hafter, hbefore]
  · have hasked : ∃ s2, (x.ask package target).perform host { s1 with toWorld := w } =
        (.ok (some graph), s2) ∧ s2.files = w.files :=
      hanswer.elim (fun hx => ask_again hx hask rfl) id
    obtain ⟨s2, hask2, hfiles⟩ := hasked
    obtain ⟨w', hmerge, hw'⟩ := hagain s2.toWorld hfiles
    exact ⟨{ s2 with toWorld := w' }, by rw [perform_unify_of_ask hask2, hmerge], hw'⟩

/-- An old directory is made anew, and once more. -/
theorem unify_renews_stale : ∃ result s',
    (unify staleScratch (some (.answering (some ⟨"snippets"⟩))) stalePackage staleTarget
      ⟨"graphs"⟩).perform bareHost { files := staleFiles } = (.ok result, s') ∧
    (∀ entry, entry ∈ s'.files.names stalePlace ↔
      entry = "target-symbol-graphs" ∨ entry = "snippets") ∧
    s'.files.contents stalePlace = unifiedContents (s'.files.seen [] ⟨"graphs"⟩ ["graphs"])
      "snippets" (.file ⟨#[2]⟩ false) ∧
    s'.files.contents ["graphs"] = staleFiles.contents ["graphs"] ∧
    ∃ s2, (unify staleScratch (some (.answering (some ⟨"snippets"⟩))) stalePackage staleTarget
      ⟨"graphs"⟩).perform bareHost s' = (.ok result, s2) ∧ s2.files = s'.files := by
  have hgraphs : staleFiles.LeadsPast [] ⟨"graphs"⟩ stalePlace ["graphs"] :=
    leadsPast_of_isName (by decide) (by decide) (get?_nil _) (by decide)
      (plain_of_directory (by decide +kernel))
  have hsnippets : staleFiles.get? ["snippets"] = some (.file ⟨#[2]⟩ false) := by decide +kernel
  have hgraph : staleFiles.LeadsPast [] ⟨"snippets"⟩ stalePlace ["snippets"] :=
    leadsPast_of_isName (by decide) (by decide) (get?_nil _) (by decide)
      fun target hlink => by rw [List.nil_append, hsnippets] at hlink; cases hlink
  have hask : ((Extractor.answering (some ⟨"snippets"⟩)).ask stalePackage staleTarget).perform
      bareHost { files := staleFiles } = (.ok (some ⟨"snippets"⟩), { files := staleFiles }) := rfl
  rcases hunify : (unify staleScratch (some (.answering (some ⟨"snippets"⟩))) stalePackage
    staleTarget ⟨"graphs"⟩).perform bareHost { files := staleFiles } with ⟨o, s'⟩
  have hok : o.toOption.isSome = true := by
    rw [show o = _ from (congrArg Prod.fst hunify).symm]
    decide +kernel
  rcases o with halt | result
  · cases hok
  obtain ⟨name, content, executable, ⟨hname, -⟩, ⟨hnames, hcontents, hs, -⟩, ⟨-, hsame, -⟩, hagain⟩ :=
    unify_renews (u := stalePlace) (g := ["graphs"]) (z := ["snippets"]) hask
      (leadsStraight_staleFiles (by decide +kernel)) hgraphs (by unfold Aside; decide) hgraph
      (by decide) hunify
  obtain rfl : "snippets" = name := Option.some.inj hname
  have hstat : staleFiles.stat [] ⟨"snippets"⟩ = .ok (.file ⟨#[2]⟩ false) :=
    stat_eq_ok_iff.mpr ⟨_, hgraph _ (.refl _ _), hsnippets⟩
  obtain ⟨rfl, rfl⟩ : content = ⟨#[2]⟩ ∧ executable = false := by
    simpa using hs.symm.trans hstat
  exact ⟨result, s', rfl, hnames, hcontents, hsame, hagain (.inr ⟨s', rfl, rfl⟩)⟩

/-- **A unification changes nothing outside of its directory**, if the extractor leaves the files
alone:
* Without an extractor the answer is the directory that was given, and nothing has changed.
* If the extractor answers that there is no snippet graph, the answer is the same, and the files are
  as they were.
* If the extractor fails, so does the unification, with the same failure, and the files are as they
  were.
Moreover, let the unified directory be one to which a path leads straight. Whatever comes of the
unification, nothing has changed outside of this directory, except that directories may have been
made above it. If it cannot be removed, the unification fails with the failure to remove it, and the
files are as they were, the unified directory with them; so it is if a file is in its place. -/
theorem unify_frame {extractor : Option Extractor} {o : Except Halt GraphResult}
    (hquiet : ∀ x, extractor = some x →
      ((x.ask package target).perform host s).2.files = s.files)
    (hunify : (unify scratch extractor package target graphs).perform host s = (o, s')) :
    (extractor = none → o = .ok (.single graphs) ∧ s' = s) ∧
    (∀ x s1, extractor = some x → (x.ask package target).perform host s = (.ok none, s1) →
      o = .ok (.single graphs) ∧ s' = s1 ∧ s'.files = s.files) ∧
    (∀ x halt s1, extractor = some x →
      (x.ask package target).perform host s = (.error halt, s1) →
      o = .error halt ∧ s' = s1 ∧ s'.files = s.files) ∧
    ∀ u, s.files.LeadsStraight host.directory (scratch.unified target) u →
      Within u s.files s'.files ∧
      ∀ x graph s1, extractor = some x →
        (x.ask package target).perform host s = (.ok (some graph), s1) →
        (∀ failure t, (Edit.removeDirAll host.directory (scratch.unified target)).apply s.files =
            (.error failure, t) →
          o = .error (.failed { cause := .io failure }) ∧ s'.files = s.files) ∧
        ∀ content executable, s.files.get? u = some (.file content executable) → ∃ cause,
          o = .error (.failed
            { cause := .io ⟨.removeDirectory (scratch.unified target), cause⟩ }) ∧
          s'.files = s.files := by
  have hfiles : ∀ x a s1, extractor = some x →
      (x.ask package target).perform host s = (a, s1) → s1.files = s.files := by
    intro x a s1 hx hask
    rw [← hquiet x hx, hask]
  refine ⟨?_, ?_, ?_, fun u hdir => ⟨?_, ?_⟩⟩
  · rintro rfl
    exact Prod.mk.inj (hunify.symm.trans perform_unify_none)
  · rintro x s1 rfl hask
    obtain ⟨rfl, rfl⟩ := Prod.mk.inj (hunify.symm.trans (perform_unify_of_silence hask))
    exact ⟨rfl, rfl, hfiles x _ _ rfl hask⟩
  · rintro x halt s1 rfl hask
    obtain ⟨rfl, rfl⟩ := Prod.mk.inj (hunify.symm.trans (perform_unify_of_error hask))
    exact ⟨rfl, rfl, hfiles x _ _ rfl hask⟩
  · rcases extractor with _ | x
    · rw [(Prod.mk.inj (hunify.symm.trans perform_unify_none)).2]
      exact .refl u s.files
    rcases hask : (x.ask package target).perform host s with ⟨halt | _ | graph, s1⟩
    · rw [(Prod.mk.inj (hunify.symm.trans (perform_unify_of_error hask))).2,
        hfiles x _ _ rfl hask]
      exact .refl u s.files
    · rw [(Prod.mk.inj (hunify.symm.trans (perform_unify_of_silence hask))).2,
        hfiles x _ _ rfl hask]
      exact .refl u s.files
    · rw [(Prod.mk.inj (hunify.symm.trans (perform_unify_of_ask hask))).2]
      rw [← hfiles x _ _ rfl hask] at hdir ⊢
      exact within_of_merge hdir graphs graph
  · rintro x graph s1 rfl hask
    have hs1 := hfiles x _ _ rfl hask
    obtain ⟨ho, hs'⟩ := Prod.mk.inj (hunify.symm.trans (perform_unify_of_ask hask))
    have hfails : ∀ failure t,
        (Edit.removeDirAll host.directory (scratch.unified target)).apply s.files =
          (.error failure, t) →
        o = .error (.failed { cause := .io failure }) ∧ s'.files = s.files := by
      intro failure t hr
      rw [perform_merge, hs1, apply_resetDir_of_unremovable hdir hr] at ho hs'
      exact ⟨ho, by rw [hs']; rfl⟩
    refine ⟨hfails, fun content executable hfile => ?_⟩
    obtain ⟨cause, hr⟩ := removeDirAll_of_file hdir hfile
    exact ⟨cause, hfails _ _ hr⟩

/-- The same with a file instead of the old unified directory. -/
def blockedFiles : FileTree :=
  (staleFiles.prune stalePlace).putAt stalePlace (.file .empty false)

/-- Where a file lies in the place of the unified directory, nothing happens. -/
theorem unify_frame_blocked : ∃ s' cause,
    (unify staleScratch (some (.answering (some ⟨"snippets"⟩))) stalePackage staleTarget
      ⟨"graphs"⟩).perform bareHost { files := blockedFiles } =
      (.error (.failed { cause := .io ⟨.removeDirectory (staleScratch.unified staleTarget), cause⟩ }),
        s') ∧
    s'.files = blockedFiles := by
  rcases hunify : (unify staleScratch (some (.answering (some ⟨"snippets"⟩))) stalePackage
    staleTarget ⟨"graphs"⟩).perform bareHost { files := blockedFiles } with ⟨o, s'⟩
  obtain ⟨-, -, -, hframe⟩ := unify_frame (by rintro x ⟨⟩; rfl) hunify
  obtain ⟨-, hfails⟩ := hframe stalePlace (leadsStraight_staleFiles (by decide +kernel))
  obtain ⟨cause, rfl, hsame⟩ :=
    (hfails _ ⟨"snippets"⟩ _ rfl rfl).2 .empty false (by decide +kernel)
  exact ⟨s', cause, rfl, hsame⟩

end Unify

end Unifier

end SymbolDocs
