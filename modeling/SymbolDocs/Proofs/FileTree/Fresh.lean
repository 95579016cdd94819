import SymbolDocs.Proofs.FileTree.Emptied
import SymbolDocs.Proofs.FileTree.Grown
import SymbolDocs.Proofs.FileTree.Moves

/-! # Directories that are made where there was none

What has been removed is not there (`isDir_of_removeDirAll`). If there is no directory and one can
be made, it is a new one in a directory that was there or is new as well (`new_of_makeChain`); but
this takes that no missing directory is on the way up, for which one would be made (`Grounded`). So
a directory that has been reset is empty (`empty_of_resetDir`), and resetting it once more changes
nothing. -/

namespace SymbolDocs

open FileTree SymbolDocs.Path

variable {t u v : FileTree} {base p q r : Place} {path : Path}

namespace FileTree

/-! ### What is not there -/

theorem exists_resolve_of_isDir (h : t.isDir base path = true) :
    ∃ p, t.resolve base path = .ok p ∧ t.get? p = some .directory := by
  unfold isDir at h
  rcases hs : t.stat base path with cause | (_ | ⟨content, executable⟩ | target) <;> rw [hs] at h
  · cases h
  · exact stat_eq_ok_iff.mp hs
  · cases h
  · cases h

/-- Something lies where a path leads that names something, even if that is a link. -/
theorem exists_locate_of_resolve (hslash : path.endsInSlash = false)
    (h : t.resolve base path = .ok q) (hq : t.get? q ≠ none) :
    ∃ r, t.locateEntry base path = .ok r ∧ t.get? r ≠ none := by
  unfold resolve at h
  rw [steps_eq_names hslash] at h
  obtain ⟨r, hr, hg⟩ : ∃ r, t.locateEntry base path = .ok r ∧ (r = q ∨ t.get? r ≠ none) := by
    unfold locateEntry
    unfold follow at h ⊢
    split_ifs at h ⊢
    · exact walk_false h
    · exact walk_false h
  exact ⟨r, hr, hg.elim (fun hrq => hrq ▸ hq) id⟩

theorem exists_locate_of_isDir (hslash : path.endsInSlash = false) (h : t.isDir base path = true) :
    ∃ r, t.locateEntry base path = .ok r ∧ t.get? r ≠ none := by
  obtain ⟨q, hq, hd⟩ := exists_resolve_of_isDir h
  exact exists_locate_of_resolve hslash hq (by simp [hd])

theorem grows_prune (t : FileTree) (p : Place) : Grows (t.prune p) t := by
  intro q e he
  by_cases hq : q = []
  · rw [hq, get?_nil] at he ⊢
    exact he
  · rw [get?_prune hq] at he
    split_ifs at he
    exact he

/-- What a path has named is not there when it has been taken away. -/
theorem isDir_prune (hslash : path.endsInSlash = false) (hl : t.locateEntry base path = .ok p)
    (hp : p ≠ []) : (t.prune p).isDir base path = false := by
  rw [Bool.eq_false_iff]
  intro h
  obtain ⟨r, hr, hg⟩ := exists_locate_of_isDir hslash h
  have hsame := follow_of_grows (grows_prune t p) hg hr
  rw [show t.follow base path path.names false = t.locateEntry base path from rfl, hl] at hsame
  cases hsame
  rw [get?_prune hp, if_pos (List.prefix_refl p)] at hg
  exact hg rfl

theorem get?_prune_of_ne (hg : t.get? p ≠ some .directory) (hq : q ≠ p) :
    (t.prune p).get? q = t.get? q := by
  by_cases hnil : q = []
  · rw [hnil, get?_nil, get?_nil]
  rw [get?_prune hnil]
  split_ifs with hpre
  · -- nothing lies beneath what is no directory
    rcases he : t.get? q with _ | e
    · rfl
    · exact absurd (get?_above he hpre hq.symm) hg
  · rfl

theorem get?_prune_self (hg : t.get? p ≠ some .directory) : (t.prune p).get? p = none := by
  rw [get?_prune (by rintro rfl; exact hg (get?_nil t)), if_pos (List.prefix_refl p)]

theorem stroll_prune (hg : t.get? p ≠ some .directory) {a : List String} {cur : Place} {x : Stop}
    (h : t.stroll false cur a = .ok x) :
    (t.prune p).stroll false cur a = .ok x ∨ (t.prune p).stroll false cur a = .error .notFound := by
  rw [stroll_eq_ok_iff] at h
  induction h with
  | done hx => exact .inl (by rw [hx]; rfl)
  | here _ ih => exact ih
  | up _ ih => exact ih
  | into hs hd _ ih =>
    rw [stroll_into hs ((get?_prune_of_ne hg (by rintro rfl; exact hg hd)).trans hd)]
    exact ih
  | @last cur step hs hd _ hx =>
    refine .inl (hx ▸ stroll_last hs ?_ nofun)
    by_cases hp : cur ++ [step] = p
    · rw [hp, get?_prune_self hg]
      simp
    · rwa [get?_prune_of_ne hg hp]
  | @atLink cur step a target hs hl ha hx =>
    by_cases hp : cur ++ [step] = p
    · -- there is more to come after the link that is gone
      right
      have hnone : (t.prune p).get? (cur ++ [step]) = none := by rw [hp, get?_prune_self hg]
      rcases stroll_stuck false hs (fun h => ha ⟨h, rfl⟩) (by simp [hnone]) (plain_of_none hnone)
        with ⟨-, he⟩ | ⟨⟨c, x, hfile⟩, -⟩
      · exact he
      · rw [hnone] at hfile
        cases hfile
    · exact .inl (hx ▸ stroll_atLink hs ((get?_prune_of_ne hg hp).trans hl) ha)

theorem walk_prune (hg : t.get? p ≠ some .directory) {n : Nat} {a : List String} {cur : Place}
    (h : t.walk false n cur a = .ok q) :
    (t.prune p).walk false n cur a = .ok q ∨ (t.prune p).walk false n cur a = .error .notFound := by
  rw [walk_eq_ok_iff] at h
  induction h with
  | reached hs =>
    exact (stroll_prune hg hs).imp (walk_of_reached · _) (walk_of_error · _)
  | @onward n cur a dir target rest hs ht _ ih =>
    rcases stroll_prune hg hs with hs' | hs'
    · rw [walk_over hs' ht]
      exact ih
    · exact .inr (walk_of_error hs' (n + 1))

/-- **What has been taken away is not there**, wherever its path may lead now. -/
theorem lstat_prune (hl : t.locate base path = .ok p) (hg : t.get? p ≠ some .directory) :
    (t.prune p).lstat base path = .error .notFound := by
  have hlocate : (t.prune p).locate base path = .ok p ∨
      (t.prune p).locate base path = .error .notFound := by
    have hbase : t.isDirectory base = true → (t.prune p).isDirectory base = true := by
      simp only [isDirectory, decide_eq_true_eq]
      intro hd
      rw [get?_prune_of_ne hg (by rintro rfl; exact hg hd), hd]
    unfold locate follow at hl ⊢
    split_ifs at hl with h1 h2 h3 h4
    · rw [if_neg h1, if_neg h2, if_pos h3]
      exact walk_prune hg hl
    · rw [if_neg h1, if_neg h2, if_neg h3, if_pos (hbase h4)]
      exact walk_prune hg hl
  unfold lstat
  rcases hlocate with h | h <;> rw [h]
  · change (t.prune p).entryAt p = _
    unfold entryAt
    rw [get?_prune_self hg]
  · rfl

theorem ne_nil_of_locateEntry {step : String} (hlast : path.names.getLast? = some step)
    (hdown : Down step) (hl : t.locateEntry base path = .ok p) : p ≠ [] := by
  obtain ⟨init, hinit⟩ := List.getLast?_eq_some_iff.mp hlast
  obtain ⟨cur, hcur, hw, -⟩ := follow_eq_walk hl
  have hsteps := steps_names path
  rw [hinit] at hw hsteps
  have hname : isName step = true := by
    obtain ⟨h1, h2⟩ := hsteps step (by simp)
    exact isName_iff.mpr ⟨h1, hdown.1, hdown.2, h2⟩
  obtain ⟨d, -, -, rfl⟩ := walk_concat (fun s hs => hsteps s (by simp [hs])) hcur hname hw
  simp

theorem isDir_eq_false (hslash : path.endsInSlash = false)
    (h : ∀ r, t.locateEntry base path = .ok r → t.get? r = none) : t.isDir base path = false := by
  rw [Bool.eq_false_iff]
  intro hd
  obtain ⟨r, hr, hg⟩ := exists_locate_of_isDir hslash hd
  exact hg (h r hr)

theorem removeDir_ok (h : t.removeDir base path = .ok u) :
    ∃ r, t.locateEntry base path = .ok r ∧ r ≠ [] ∧ u = t.prune r := by
  unfold removeDir at h
  rcases hl : t.locateEntry base path with cause | r <;> rw [hl] at h
  · cases h
  simp only [bind, Except.bind] at h
  split at h <;> try cases h
  rename_i step hdot hup hlast
  refine ⟨r, rfl, ne_nil_of_locateEntry hlast ⟨hdot, hup⟩ hl, ?_⟩
  rcases hg : t.get? r with _ | (_ | ⟨content, executable⟩ | target) <;> rw [hg] at h
  · cases h
  · simp only at h
    split_ifs at h
    cases h
    rfl
  · cases h
  · cases h

theorem get?_of_removeDir_notFound (h : t.removeDir base path = .error .notFound)
    (hr : t.locateEntry base path = .ok r) : t.get? r = none := by
  unfold removeDir at h
  rw [hr] at h
  simp only [bind, Except.bind] at h
  split at h <;> try cases h
  by_contra hne
  obtain ⟨e, he⟩ := Option.ne_none_iff_exists'.mp hne
  rw [he] at h
  rcases e with _ | ⟨content, executable⟩ | target
  · simp only at h
    split_ifs at h
    cases h
  · cases h
  · cases h

end FileTree

namespace Edit

theorem locateEntry_eq_locate (hslash : path.endsInSlash = false) (t : FileTree) (base : Place) :
    t.locateEntry base path = t.locate base path := by
  unfold locateEntry locate
  rw [steps_eq_names hslash]

/-- **What has been removed is not there**, nor is what was not found. -/
theorem isDir_of_removeDirAll (hslash : path.endsInSlash = false) {a : Unit}
    (h : (removeDirAll base path).apply t = (.ok a, u)) : u.isDir base path = false := by
  have hentry := locateEntry_eq_locate hslash t base
  rw [apply_removeDirAll_eq] at h
  rcases hl : t.locate base path with cause | p
  · rw [removeTree_of_error hl] at h
    have hnot : t.isDir base path = false :=
      isDir_eq_false hslash fun r hr => by rw [hentry, hl] at hr; cases hr
    cases cause <;> cases h
    exact hnot
  rw [removeTree_of_locate hl] at h
  rcases hg : t.get? p with _ | (_ | ⟨content, executable⟩ | target) <;> rw [hg] at h
  · cases h
    refine isDir_eq_false hslash fun r hr => ?_
    cases (hentry.trans hl).symm.trans hr
    exact hg
  · rcases hr : (t.clear p).removeDir base path with cause | v <;> rw [hr] at h
    · cases cause <;> cases h
      exact isDir_eq_false hslash fun r hl => get?_of_removeDir_notFound hr hl
    · cases h
      obtain ⟨r, hl, hne, rfl⟩ := removeDir_ok hr
      exact isDir_prune hslash hl hne
  · cases h
  · cases h
    refine isDir_prune hslash (hentry.trans hl) ?_
    rintro rfl
    rw [get?_nil] at hg
    cases hg

end Edit

/-! ### What is there -/

namespace FileTree

theorem grows_putAt (h : t.get? p = none) (e : Entry) : Grows t (t.putAt p e) := by
  intro q c hc
  rw [get?_putAt_of_ne e (by rintro rfl; rw [h] at hc; cases hc), hc]

theorem follow_of_walk {steps : List String} {followLast : Bool} {cur : Place}
    (htext : path.text ≠ "") (hnul : path.hasNul = false)
    (hcur : cur = if path.isAbsolute then [] else base) (hd : t.get? cur = some .directory)
    (hw : t.walk followLast linkLimit cur steps = .ok p) :
    t.follow base path steps followLast = .ok p := by
  unfold follow
  rw [if_neg htext, if_neg (by simp [hnul])]
  by_cases habs : path.isAbsolute = true
  · rw [if_pos habs] at hcur ⊢
    rwa [← hcur]
  · rw [if_neg habs] at hcur ⊢
    rw [← hcur, if_pos (by simpa [isDirectory] using hd), hw]

/-- A directory that has been made is there. -/
theorem isDir_of_makeDir (hends : path.EndsInName) (h : t.makeDir base path = .ok u) :
    u.isDir base path = true := by
  obtain ⟨r, hl, hnone, rfl⟩ := makeDir_ok h
  have hnul : path.hasNul = false := by
    rw [Bool.eq_false_iff]
    intro hnul
    cases hl.symm.trans (follow_of_hasNul hends.text_ne hnul)
  obtain ⟨cur, hcur, hw, hstart⟩ := follow_eq_walk hl
  have htext := hends.text_ne
  have hslash := hends.endsInSlash
  obtain ⟨name, hlast, hname⟩ := hends
  obtain ⟨init, hinit⟩ := List.getLast?_eq_some_iff.mp hlast
  have hnames : path.names = init.filter (· ≠ "") ++ [name] := by
    rw [Path.names, hinit, List.filter_append]
    simp [(isName_iff.mp hname).1]
  have hsteps := steps_names path
  rw [hnames] at hw hsteps
  obtain ⟨d, hd, hthere, rfl⟩ := walk_concat (fun s hs => hsteps s (List.mem_append_left _ hs)) hcur
    hname hw
  have hgrows := grows_putAt hnone .directory
  have hnew := get?_putAt_new hname hthere hnone .directory
  refine (isDir_of_resolve ?_).mpr hnew
  unfold resolve
  rw [steps_eq_names hslash, hnames]
  exact follow_of_walk htext hnul hstart (hgrows cur _ hcur) (walk_concat_of_directory hname
    (walk_of_grows hgrows (by simp [hthere]) hd) (hgrows d _ hthere)
    fun _ => plain_of_directory hnew)

end FileTree

namespace Edit

/-- **When directories have been made, the one that was asked for is there.** -/
theorem isDir_of_ensureDir (hends : path.EndsInName) {a : Unit}
    (h : (ensureDir base path).apply t = (.ok a, u)) : u.isDir base path = true := by
  rw [ensureDir, ancestors, apply_makeChain_cons _ hends.text_ne] at h
  rcases hm : t.makeDir base path with cause | v <;> rw [hm] at h
  swap
  · cases h
    exact isDir_of_makeDir hends hm
  by_cases hcause : cause = .notFound
  · subst hcause
    obtain ⟨_, v, -, hfind⟩ := apply_bind_ok h
    rw [apply_makeOrFind] at hfind
    rcases hm' : v.makeDir base path with cause | v' <;> rw [hm'] at hfind
    · simp only at hfind
      split_ifs at hfind with hdir
      · cases hfind
        exact hdir
      · cases hfind
    · cases hfind
      exact isDir_of_makeDir hends hm'
  · have hfound : (if t.isDir base path then (.ok ⟨⟩ : Except IoFailure Unit)
        else .error ⟨.createDirectory path, cause⟩, t) = (.ok a, u) := by
      cases cause <;> first | exact absurd rfl hcause | exact h
    split_ifs at hfound with hdir
    · cases hfound
      exact hdir
    · cases hfound

end Edit

/-! ### On the way up -/

namespace FileTree

/-- A path leads to a directory up to where only names remain. A path that never leads up does,
since it starts at the root. -/
def Grounded (t : FileTree) (path : Path) : Prop :=
  ∃ a names d, path.moves = a ++ names ∧ AreNames names ∧ t.walk true linkLimit [] a = .ok d ∧
    t.get? d = some .directory

theorem grounded_of_not_mem (h : Component.up ∉ path.inner) (t : FileTree) : t.Grounded path :=
  ⟨[], path.moves, [], rfl, areNames_moves h, walk_of_reached rfl linkLimit, by simp⟩

theorem Grounded.below {names : List String} (h : t.Grounded path) (hnames : AreNames names) :
    t.Grounded (path.below names) := by
  obtain ⟨a, b, d, hmoves, hb, hw, hd⟩ := h
  exact ⟨a, b ++ names, d, by rw [moves_below hnames, hmoves, List.append_assoc],
    hb.append hnames, hw, hd⟩

/-- The moves lead to a directory in which there is nothing by the last name. -/
structure Vacant (moves : List String) (d : Place) (name : String) (t : FileTree) : Prop where
  isName : isName name = true
  leads : ∃ a, moves = a ++ [name] ∧ t.walk true linkLimit [] a = .ok d
  there : t.get? d = some .directory
  free : t.get? (d ++ [name]) = none

/-- `v` is `t`, perhaps with more directories, and with a new one at the end of the moves. -/
def New (moves : List String) (t v : FileTree) : Prop :=
  ∃ u d name, Grows t u ∧ Vacant moves d name u ∧ v = u.putAt (d ++ [name]) .directory

section Vacant

variable {moves : List String} {d : Place} {name : String}

theorem Vacant.get?_putAt (h : Vacant moves d name t) :
    (t.putAt (d ++ [name]) .directory).get? (d ++ [name]) = some .directory :=
  get?_putAt_new h.isName h.there h.free .directory

theorem Vacant.walk_eq (h : Vacant moves d name t) :
    (t.putAt (d ++ [name]) .directory).walk true linkLimit [] moves = .ok (d ++ [name]) := by
  obtain ⟨a, rfl, hw⟩ := h.leads
  have hgrows := grows_putAt h.free .directory
  exact walk_concat_of_directory h.isName (walk_of_grows hgrows (by simp [h.there]) hw)
    (hgrows d _ h.there) fun _ => plain_of_directory h.get?_putAt

/-- In a new directory there is room for another one. -/
theorem Vacant.next (h : Vacant moves d name t) {next : String} (hnext : Path.isName next = true) :
    Vacant (moves ++ [next]) (d ++ [name]) next (t.putAt (d ++ [name]) .directory) where
  isName := hnext
  leads := ⟨moves, rfl, h.walk_eq⟩
  there := h.get?_putAt
  free := by
    rw [get?_putAt_of_ne _ (by simp)]
    exact get?_eq_none_beneath h.free (List.prefix_append _ _)

/-- What changes at the new directory leaves all else in place. -/
theorem Vacant.grows (h : Vacant moves d name t)
    (hw : Within (d ++ [name]) (t.putAt (d ++ [name]) .directory) u) : Grows t u := by
  intro q e he
  have hq : ¬ d ++ [name] <+: q := fun hpre => by
    rw [get?_eq_none_beneath h.free hpre] at he
    cases he
  have hthere := grows_putAt h.free .directory q e he
  rcases hw q with hsame | ⟨hpre, -⟩ | ⟨-, hnone, -⟩
  · rw [hsame, hthere]
  · exact absurd hpre hq
  · rw [hnone] at hthere
    cases hthere

/-- A new directory is empty. -/
theorem Vacant.emptied (h : Vacant moves d name t) :
    Emptied (d ++ [name]) (t.putAt (d ++ [name]) .directory)
      (t.putAt (d ++ [name]) .directory) := by
  intro q
  split_ifs with hup hdown
  · exact directory_above h.get?_putAt hup
  · have hne : q ≠ d ++ [name] := by
      rintro rfl
      exact hup hdown
    rw [get?_putAt_of_ne _ hne, get?_eq_none_beneath h.free hdown]
  · rfl

/-- A path to the directory with the new one leads straight to the new one. -/
theorem Vacant.straight {top : Path} (h : Vacant moves d name t) (hends : top.EndsInStep)
    (hresolve : t.resolve base top = .ok d) :
    Straight base top d [name] (t.putAt (d ++ [name]) .directory) where
  ends := hends
  areNames := areNames_singleton h.isName
  ne := List.cons_ne_nil name []
  resolve := resolve_of_grows (grows_putAt h.free _) (by simp [h.there]) hresolve
  there := .inl (grows_putAt h.free _ d _ h.there)
  way := by
    refine open_of_free (free_of_directory ?_)
    rw [List.dropLast_concat]
    exact grows_putAt h.free _ d _ h.there
  leads := fun _ hw => resolve_of_grows (h.grows hw) (by simp [h.there]) hresolve

theorem Vacant.makeDir {X : Path} (h : Vacant X.moves d name t) (habs : X.isAbsolute = true)
    (hends : X.EndsProper) (hnul : X.hasNul = false) :
    t.makeDir base X = .ok (t.putAt (d ++ [name]) .directory) := by
  obtain ⟨a, ha, hw⟩ := h.leads
  refine makeDir_of_none ?_ h.free
  rw [locateEntry_eq_walk habs hends hnul, ha]
  exact walk_concat_of_directory h.isName hw h.there fun hf => by cases hf

end Vacant

end FileTree

namespace Edit

theorem hasNul_of_makeChain {attempt : Attempt} {X : Path} (hX : X.text ≠ "") {above : List Path}
    {a : Unit} (h : (makeChain base attempt (X :: above)).apply t = (.ok a, v)) :
    X.hasNul = false := by
  rw [Bool.eq_false_iff]
  intro hnul
  rw [apply_makeChain_cons attempt hX, makeDir_of_error (follow_of_hasNul hX hnul)] at h
  simp only at h
  rw [isDir_of_error (follow_of_hasNul hX hnul)] at h
  cases h

/-- The parent of a directory that cannot be made for want of it is no directory: in a directory
something is there already or can be made at once. -/
theorem not_isDir_of_makeDir {X Y : Path} {places : List String} {name : String}
    (hm : t.makeDir base X = .error .notFound) (hname : isName name = true)
    (hlocate : t.locateEntry base X = t.walk false linkLimit [] (places ++ [name]))
    (hresolve : t.resolve base Y = t.walk true linkLimit [] places) : t.isDir base Y = false := by
  rw [Bool.eq_false_iff]
  intro hdir
  obtain ⟨d, hd, hthere⟩ := exists_resolve_of_isDir hdir
  rw [hresolve] at hd
  rw [walk_concat_of_directory hname hd hthere fun hf => by cases hf] at hlocate
  rcases hg : t.get? (d ++ [name]) with _ | e
  · rw [makeDir_of_none hlocate hg] at hm
    cases hm
  · rw [makeDir_of_some hlocate hg] at hm
    cases hm

/-- **Where there was no directory a new one is made**, and so are those above it that are missing.
-/
theorem new_of_makeChain (attempt : Attempt) {a : List String} {root : Place}
    (hroot : t.get? root = some .directory) (hw : t.walk true linkLimit [] a = .ok root) :
    ∀ {names : List String}, AreNames names → ∀ {X : Path} {v : FileTree}, X.isAbsolute = true →
      X.EndsProper → X.moves = a ++ names → t.isDir base X = false → ∀ n b,
      (makeChain base attempt (X :: climb n X)).apply t = (.ok b, v) → New X.moves t v := by
  intro names
  induction names using List.reverseRecOn with
  | nil =>
    intro _ X v habs hends hmoves hnot n b h
    have hnul := hasNul_of_makeChain (text_ne_of_isAbsolute habs) h
    have hresolve : t.resolve base X = .ok root := by
      rw [resolve_eq_walk habs hends hnul, hmoves, List.append_nil, hw]
    rw [(isDir_of_resolve hresolve).mpr hroot] at hnot
    cases hnot
  | append_singleton names name ih =>
    intro hnames X v habs hends hmoves hnot n b h
    have hX := text_ne_of_isAbsolute habs
    have hnul := hasNul_of_makeChain hX h
    have hname := hnames name (by simp)
    rw [← List.append_assoc] at hmoves
    have hlocate : t.locateEntry base X = t.walk false linkLimit [] (a ++ names ++ [name]) := by
      rw [locateEntry_eq_walk habs hends hnul, hmoves]
    rw [apply_makeChain_cons attempt hX] at h
    rcases hm : t.makeDir base X with cause | u <;> rw [hm] at h
    swap
    · -- there was a directory for it
      cases h
      obtain ⟨r, hr, hnone, rfl⟩ := makeDir_ok hm
      have hsteps := steps_moves X
      rw [hmoves] at hsteps
      obtain ⟨d, hd, hthere, rfl⟩ := walk_concat (fun s hs => hsteps s (List.mem_append_left _ hs))
        (get?_nil t) hname (hlocate.symm.trans hr)
      exact ⟨t, d, name, .refl t, ⟨hname, ⟨_, hmoves, hd⟩, hthere, hnone⟩, rfl⟩
    by_cases hcause : cause = .notFound
    swap
    · rw [hnot] at h
      cases cause <;> first | exact absurd rfl hcause | cases h
    subst hcause
    obtain ⟨Y, hparent, habsY, hmovesY, hendsY⟩ := moves_parent (p := X) (by simp [hmoves])
    rw [habs] at habsY
    rw [hmoves, List.dropLast_concat] at hmovesY
    rcases n with _ | n
    · cases h
    rw [climb, hparent] at h
    obtain ⟨_, u, hu, hfind⟩ := apply_bind_ok h
    have hnulY := hasNul_of_makeChain (text_ne_of_isAbsolute habsY) hu
    have hnotY : t.isDir base Y = false := by
      refine not_isDir_of_makeDir hm hname hlocate ?_
      rw [resolve_eq_walk habsY hendsY hnulY, hmovesY]
    obtain ⟨u', d, last, hgrows, hvacant, rfl⟩ :=
      ih hnames.of_append.1 habsY hendsY hmovesY hnotY n _ hu
    have hnext := hvacant.next hname
    rw [hmovesY, ← hmoves] at hnext
    rw [apply_makeOrFind, hnext.makeDir habs hends hnul] at hfind
    cases hfind
    exact ⟨_, _, _, hgrows.trans (grows_putAt hvacant.free _), hnext, rfl⟩

/-- A directory that is empty stays as it is when it is reset. -/
theorem resetDir_of_empty {names : List String} (h : Straight base path p names t)
    (hnul : (path.below names).hasNul = false) (hempty : Emptied (p ++ names) t t) :
    (resetDir base (path.below names)).apply t = (.ok ⟨⟩, t) := by
  have hparent := dropLast_directory hempty.there
  rcases apply_resetDir h hnul with ⟨-, -, u, hu, hemptied⟩ | ⟨hfile, -⟩
  · rw [hu, ext_get? fun q => (hemptied q).trans (hempty q).symm]
  · obtain ⟨content, executable, hfile⟩ := hfile (free_of_directory hparent)
    rw [hempty.there] at hfile
    cases hfile

/-- **A directory that has been reset is empty**, if nothing that is missing is on the way up to it;
and nothing changes when it is reset once more. -/
theorem empty_of_resetDir {name : String} (habs : path.isAbsolute = true) (hends : path.EndsInStep)
    (hname : isName name = true)
    (hground : ∀ u, (removeDirAll base (path.entry name)).apply t = (.ok ⟨⟩, u) →
      u.Grounded (path.entry name))
    {a : Unit} (h : (resetDir base (path.entry name)).apply t = (.ok a, v)) :
    (∃ q, v.resolve base (path.entry name) = .ok q ∧ v.contents q = emptyDirectory) ∧
      (resetDir base (path.entry name)).apply v = (.ok ⟨⟩, v) := by
  obtain ⟨_, u, hremove, hmake⟩ := apply_bind_ok h
  have hlast := endsInName_entry path hname
  have habs' : (path.entry name).isAbsolute = true := by rw [isAbsolute_entry, habs, Bool.or_true]
  have hnul := hasNul_of_makeChain (text_ne_of_isAbsolute habs') hmake
  obtain ⟨b, names, root, hmoves, hnames, hw, hroot⟩ := hground u hremove
  obtain ⟨w, d, last, -, hvacant, rfl⟩ := new_of_makeChain _ hroot hw hnames habs'
    (.inr hlast.endsInStep) hmoves (isDir_of_removeDirAll hlast.endsInSlash hremove) _ _ hmake
  -- the directory with the new one is that of the path above
  obtain ⟨c, hc, hd⟩ := hvacant.leads
  rw [moves_entry path hname] at hc
  obtain ⟨rfl, hname'⟩ := List.append_inj' hc rfl
  obtain rfl : name = last := List.singleton_inj.mp hname'
  have hnul' : path.hasNul = false := by
    rw [hasNul_entry hname, Bool.or_eq_false_iff] at hnul
    exact hnul.1
  have hresolve : w.resolve base path = .ok d := by
    rw [resolve_eq_walk habs (.inr hends) hnul', hd]
  rw [← show path.below [name] = path.entry name from rfl] at hnul ⊢
  have hstraight := hvacant.straight hends hresolve
  have hthere := hvacant.get?_putAt
  refine ⟨⟨d ++ [name], ?_, hvacant.emptied.contents⟩,
    resetDir_of_empty hstraight hnul hvacant.emptied⟩
  exact resolve_of_directory hstraight.toFound (plain_of_directory hthere) hnul
    (dropLast_directory hthere)

end Edit

/-! ### What is new -/

namespace FileTree

/-- What is in a directory that still is where it was, and was not there before, is new. -/
theorem new_of_isFile {dir : Path} {name : String} {d : Place} (hname : isName name = true)
    (hnone : u.lstat base (dir.entry name) = .error .notFound)
    (hu : u.resolve base dir = .ok d) (hud : u.get? d = some .directory)
    (hv : v.resolve base dir = .ok d) (hvd : v.get? d = some .directory)
    (hfile : v.isFile base (dir.entry name) = true) :
    u.get? (d ++ [name]) = none ∧ v.get? (d ++ [name]) ≠ none := by
  have hslash := (endsInName_entry dir hname).endsInSlash
  have hnul : (⟨name⟩ : Path).hasNul = false := by
    rw [Bool.eq_false_iff]
    intro hnul
    unfold lstat locate at hnone
    rw [follow_of_hasNul (endsInName_entry dir hname).text_ne
      (by rw [hasNul_entry hname, hnul, Bool.or_true])] at hnone
    cases hnone
  have hlocate : ∀ {w : FileTree}, w.resolve base dir = .ok d → w.get? d = some .directory →
      w.locateEntry base (dir.entry name) = .ok (d ++ [name]) :=
    fun hr hd => follow_entry hr hd hname hnul fun hf => by cases hf
  constructor
  · unfold lstat at hnone
    rw [← Edit.locateEntry_eq_locate hslash, hlocate hu hud] at hnone
    rcases hg : u.get? (d ++ [name]) with _ | e
    · rfl
    · simp [bind, Except.bind, entryAt, hg] at hnone
  · obtain ⟨q, hq, hthere⟩ : ∃ q, v.resolve base (dir.entry name) = .ok q ∧ v.get? q ≠ none := by
      unfold isFile at hfile
      rcases hs : v.stat base (dir.entry name) with cause | e <;> rw [hs] at hfile
      · cases hfile
      · obtain ⟨q, hq, he⟩ := stat_eq_ok_iff.mp hs
        exact ⟨q, hq, by simp [he]⟩
    obtain ⟨r, hr, hg⟩ := exists_locate_of_resolve hslash hq hthere
    cases (hlocate hv hvd).symm.trans hr
    exact hg

end FileTree

end SymbolDocs
