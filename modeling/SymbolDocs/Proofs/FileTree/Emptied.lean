import SymbolDocs.Proofs.FileTree.Confined
import SymbolDocs.Proofs.FileTree.Contents

/-! # Directories that are made and emptied

Where a path leads down without meeting a link (`Found`), only files can be in the way (`Free`). If
there are none, a directory can be made at the end of the path (`apply_ensureDir`) and can be
emptied (`apply_resetDir`), and nothing else changes; if there is one, the attempt to empty the
directory changes nothing at all. So the outcome depends on nothing but the place
(`local_resetDir`). -/

namespace SymbolDocs

open FileTree SymbolDocs.Path

namespace FileTree

variable {t u : FileTree} {base p q : Place} {path : Path} {names : List String}
  {followLast : Bool}

/-! ### What is in the way -/

theorem directory_of_parent (h : t.get? p.dropLast = some .directory) (hq : q <+: p)
    (hne : q ≠ p) : t.get? q = some .directory := by
  refine directory_above h ?_
  rcases List.eq_nil_or_concat p with rfl | ⟨dir, name, rfl⟩
  · exact absurd (List.prefix_nil.mp hq) hne
  · rw [List.concat_eq_append] at hq hne ⊢
    rw [List.dropLast_concat]
    exact (List.prefix_concat_iff.mp hq).resolve_left hne

theorem free_of_directory (h : t.get? p.dropLast = some .directory) : t.Free p :=
  fun _ hq hne => .inr (directory_of_parent h hq hne)

theorem free_of_none (h : t.get? p = none) (hq : t.Free p) {a : List String} :
    t.Free (p ++ a) := by
  intro r hr hne
  rcases List.prefix_or_prefix_of_prefix hr (List.prefix_append p a) with hrp | hpr
  · by_cases heq : r = p
    · exact .inl (heq ▸ h)
    · exact hq r hrp heq
  · exact .inl (get?_eq_none_beneath h hpr)

theorem dropLast_directory {e : Entry} (h : t.get? p = some e) :
    t.get? p.dropLast = some .directory := by
  rcases List.eq_nil_or_concat p with rfl | ⟨dir, name, rfl⟩
  · simp
  · rw [List.concat_eq_append] at h ⊢
    rw [List.dropLast_concat]
    exact get?_parent h

/-- A path leads into a directory. -/
theorem dropLast_of_resolve {X : Path} (h : t.resolve base X = .ok p) :
    t.get? p.dropLast = some .directory := by
  rcases (resolve_reachable h).placed with hd | ⟨dir, name, rfl, -, hd⟩
  · exact dropLast_directory hd
  · rwa [List.dropLast_concat]

theorem directory_of_dropLast (hne : names ≠ [])
    (h : t.get? (p ++ names).dropLast = some .directory) : t.get? p = some .directory := by
  rw [List.dropLast_append_of_ne_nil hne] at h
  exact directory_above h (List.prefix_append p names.dropLast)

theorem dropLast_append_cons (p : Place) (name next : String) (rest : List String) :
    (p ++ name :: next :: rest).dropLast = (p ++ [name] ++ (next :: rest)).dropLast := by
  simp

/-- A walk down from a directory gets to its end if there is a directory before the end; otherwise
it matters if there is a file in the way. -/
theorem walk_cases : ∀ {names : List String} {p : Place}, AreNames names → names ≠ [] →
    t.get? p = some .directory → t.Open p names → (followLast = true → t.Plain (p ++ names)) →
    ∀ n, t.get? (p ++ names).dropLast = some .directory ∧
        t.walk followLast n p names = .ok (p ++ names) ∨
      t.Free (p ++ names) ∧ t.get? (p ++ names).dropLast ≠ some .directory ∧
        t.walk followLast n p names = .error .notFound ∨
      ¬ t.Free (p ++ names) ∧ t.walk followLast n p names = .error .notADirectory
  | [], _, _, hne, _, _, _, _ => absurd rfl hne
  | [name], p, hnames, _, hp, _, hlast, n => by
    left
    rw [List.dropLast_concat]
    exact ⟨hp, walk_name (hnames name (by simp)) hlast n⟩
  | name :: next :: rest, p, hnames, _, hp, hopen, hlast, n => by
    have happ : ∀ l : List String, p ++ name :: l = p ++ [name] ++ l := by simp
    have hbelow : p ++ [name] <+: p ++ name :: next :: rest := by simp
    have hshort : p ++ [name] ≠ p ++ name :: next :: rest := by simp
    rcases walk_into (hnames name (by simp)) followLast (List.cons_ne_nil next rest)
      (hopen [name] (next :: rest) rfl (by simp) (by simp)) n with
      ⟨hd, hw⟩ | ⟨hnone, hw⟩ | ⟨⟨c, x, hfile⟩, hw⟩
    · rw [hw, happ]
      refine walk_cases (fun m hm => hnames m (by simp [hm])) (by simp) hd
        (fun a b hab ha hb => ?_) (fun hf => by rw [← happ]; exact hlast hf) n
      rw [← happ]
      exact hopen (name :: a) b (by rw [hab, List.cons_append]) (by simp) hb
    · refine .inr (.inl ⟨?_, ?_, hw⟩)
      · rw [happ]
        exact free_of_none hnone (free_of_directory (by rw [List.dropLast_concat]; exact hp))
      · rw [dropLast_append_cons, List.dropLast_append_of_ne_nil (by simp)]
        rw [get?_eq_none_beneath hnone (List.prefix_append _ _)]
        simp
    · refine .inr (.inr ⟨fun hfree => ?_, hw⟩)
      rcases hfree _ hbelow hshort with h | h <;> rw [hfile] at h <;> cases h

/-! ### Looking up what lies below a directory -/

section Found

variable (h : Found base path p names t) (hlast : followLast = true → t.Plain (p ++ names))

include h hlast

theorem follow_cases (hnul : (path.below names).hasNul = false) :
    t.get? (p ++ names).dropLast = some .directory ∧
      t.follow base (path.below names) (path.below names).names followLast = .ok (p ++ names) ∨
    t.Free (p ++ names) ∧ t.get? (p ++ names).dropLast ≠ some .directory ∧
      t.follow base (path.below names) (path.below names).names followLast = .error .notFound ∨
    ¬ t.Free (p ++ names) ∧
      t.follow base (path.below names) (path.below names).names followLast =
        .error .notADirectory := by
  rcases h.there with hd | ⟨hnone, -⟩
  · obtain ⟨n, hn⟩ := follow_eq_walk_below h.resolve hd h.areNames h.ne
    rw [hn, if_neg (by simp [hnul])]
    exact walk_cases h.areNames h.ne hd h.way hlast n
  · -- nothing lies below, and there is room for it
    have hfree : t.Free p := free_of_directory (dropLast_of_resolve h.resolve)
    refine .inr (.inl ⟨free_of_none hnone hfree, ?_, ?_⟩)
    · rw [List.dropLast_append_of_ne_nil h.ne,
        get?_eq_none_beneath hnone (List.prefix_append p names.dropLast)]
      simp
    · rw [follow_below_of_none followLast h.ends.endsInSlash h.resolve hnone h.areNames h.ne,
        if_neg (by simp [hnul])]

theorem follow_of_directory (hnul : (path.below names).hasNul = false)
    (hd : t.get? (p ++ names).dropLast = some .directory) :
    t.follow base (path.below names) (path.below names).names followLast = .ok (p ++ names) := by
  rcases follow_cases h hlast hnul with ⟨-, hf⟩ | ⟨-, hd', -⟩ | ⟨hfree, -⟩
  · exact hf
  · exact absurd hd hd'
  · exact absurd (free_of_directory hd) hfree

theorem follow_of_not_directory (hnul : (path.below names).hasNul = false)
    (hfree : t.Free (p ++ names)) (hd : t.get? (p ++ names).dropLast ≠ some .directory) :
    t.follow base (path.below names) (path.below names).names followLast = .error .notFound := by
  rcases follow_cases h hlast hnul with ⟨hd', -⟩ | ⟨-, -, hf⟩ | ⟨hfree', -⟩
  · exact absurd hd' hd
  · exact hf
  · exact absurd hfree hfree'

end Found

theorem follow_of_hasNul {X : Path} {steps : List String} (htext : X.text ≠ "")
    (hnul : X.hasNul = true) : t.follow base X steps followLast = .error .nulInPath := by
  unfold follow
  rw [if_neg htext, if_pos hnul]

theorem Found.text_ne (h : Found base path p names t) : (path.below names).text ≠ "" :=
  (endsInName_of_ne h.areNames h.ne).text_ne

theorem Found.steps_eq (h : Found base path p names t) :
    (path.below names).steps = (path.below names).names :=
  steps_eq_names (endsInName_of_ne h.areNames h.ne).endsInSlash

theorem locate_of_directory (h : Found base path p names t)
    (hnul : (path.below names).hasNul = false)
    (hd : t.get? (p ++ names).dropLast = some .directory) :
    t.locate base (path.below names) = .ok (p ++ names) := by
  unfold locate
  rw [h.steps_eq]
  exact follow_of_directory h (fun hf => by cases hf) hnul hd

theorem resolve_of_directory (h : Found base path p names t) (hplain : t.Plain (p ++ names))
    (hnul : (path.below names).hasNul = false)
    (hd : t.get? (p ++ names).dropLast = some .directory) :
    t.resolve base (path.below names) = .ok (p ++ names) := by
  unfold resolve
  rw [h.steps_eq]
  exact follow_of_directory h (fun _ => hplain) hnul hd

/-- What lies below a directory is what its path names. -/
theorem stat_of_exists (h : Found base path p names t) (hnul : (path.below names).hasNul = false)
    {e : Entry} (he : t.get? (p ++ names) = some e) (hplain : ∀ target, e ≠ .link target) :
    t.stat base (path.below names) = .ok e := by
  unfold stat
  rw [resolve_of_directory h (fun target h' => hplain target (Option.some.inj (he.symm.trans h')))
    hnul (dropLast_directory he)]
  change t.entryAt (p ++ names) = _
  unfold entryAt
  rw [he]

theorem lstat_of_exists (h : Found base path p names t) (hnul : (path.below names).hasNul = false)
    {e : Entry} (he : t.get? (p ++ names) = some e) :
    t.lstat base (path.below names) = .ok e := by
  unfold lstat
  rw [locate_of_directory h hnul (dropLast_directory he)]
  change t.entryAt (p ++ names) = _
  unfold entryAt
  rw [he]

/-! ### Directories all the way down -/

/-- `u` is `t` with directories all the way down to `p`. -/
def Reached (p : Place) (t u : FileTree) : Prop :=
  ∀ q, u.get? q = if q <+: p then some .directory else t.get? q

theorem Reached.refl (h : t.get? p = some .directory) : Reached p t t := by
  intro q
  split_ifs with hq
  · exact directory_above h hq
  · rfl

theorem reached_putAt (hp : t.get? p.dropLast = some .directory) (hnone : t.get? p = none)
    (hnames : AreNames p) : Reached p t (t.putAt p .directory) := by
  intro q
  rcases List.eq_nil_or_concat p with rfl | ⟨dir, name, rfl⟩
  · rw [get?_nil] at hnone
    cases hnone
  rw [List.concat_eq_append] at hp hnone hnames ⊢
  rw [List.dropLast_concat] at hp
  by_cases hq : q = dir ++ [name]
  · rw [if_pos (hq ▸ List.prefix_refl _), hq]
    have hreach : t.Reachable false (dir ++ [name]) :=
      ⟨.inr ⟨dir, name, rfl, hnames name (by simp), hp⟩, fun hf => by cases hf⟩
    exact get?_putAt_self hreach (by simp [hnone])
  · rw [get?_putAt_of_ne _ hq]
    split_ifs with hpre
    · exact directory_above hp ((List.prefix_concat_iff.mp hpre).resolve_left hq)
    · rfl

theorem Reached.within {r : Place} (h : Reached p t u) (ht : t.Free p)
    (hp : t.get? p = none ∨ t.get? p = some .directory) (hr : p <+: r) : Within r t u := by
  intro q
  rw [h q]
  split_ifs with hq
  · have hcases : t.get? q = none ∨ t.get? q = some .directory := by
      by_cases heq : q = p
      · exact heq ▸ hp
      · exact ht q hq heq
    rcases hcases with hnone | hd
    · exact .inr (.inr ⟨hq.trans hr, hnone, rfl⟩)
    · exact .inl hd.symm
  · exact .inl rfl

theorem areNames_place {e : Entry} (h : t.get? p = some e) : AreNames p :=
  isName_of_get? h

theorem isDir_below (h : Found base path p names t) (hnul : (path.below names).hasNul = false)
    (hd : t.get? (p ++ names) = some .directory) : t.isDir base (path.below names) = true := by
  unfold isDir
  rw [stat_of_exists h hnul hd (fun _ h => by cases h)]

theorem hasNul_below_concat {name : String} (hname : isName name = true)
    (h : (path.below (names ++ [name])).hasNul = false) : (path.below names).hasNul = false := by
  rw [below_concat, hasNul_entry hname, Bool.or_eq_false_iff] at h
  exact h.1

/-- Where only directories are on the way, no link is met. -/
theorem open_of_free (hfree : t.Free (p ++ names)) : t.Open p names := by
  intro a b hab ha hb target hlink
  rcases hfree (p ++ a) (by rw [hab]; simp) (by rw [hab]; simp [hb]) with h | h <;>
    rw [h] at hlink <;> cases hlink

theorem makeDir_reached (h : Found base path p names t) (hnul : (path.below names).hasNul = false)
    (hd : t.get? (p ++ names).dropLast = some .directory) (hnone : t.get? (p ++ names) = none) :
    t.makeDir base (path.below names) = .ok (t.putAt (p ++ names) .directory) ∧
      Reached (p ++ names) t (t.putAt (p ++ names) .directory) := by
  have hp := directory_of_dropLast h.ne hd
  exact ⟨makeDir_of_none (follow_of_directory h (fun hf => by cases hf) hnul hd) hnone,
    reached_putAt hd hnone ((areNames_place hp).append h.areNames)⟩

theorem makeDir_of_missing (h : Found base path p names t)
    (hnul : (path.below names).hasNul = false) (hfree : t.Free (p ++ names))
    (hd : t.get? (p ++ names).dropLast ≠ some .directory) :
    t.makeDir base (path.below names) = .error .notFound := by
  unfold makeDir locateEntry
  rw [follow_of_not_directory h (fun hf => by cases hf) hnul hfree hd]
  rfl

theorem Free.above {q : Place} (h : t.Free q) (hp : p <+: q) : t.Free p := by
  intro r hr hne
  refine h r (hr.trans hp) ?_
  rintro rfl
  exact hne (hr.eq_of_length_le hp.length_le)

theorem Reached.concat {c : List String} {name : String} {v : FileTree}
    (h1 : Reached (p ++ c) t u) (h2 : Reached (p ++ (c ++ [name])) u v) :
    Reached (p ++ (c ++ [name])) t v := by
  intro q
  rw [h2 q, h1 q]
  split_ifs with hq hq'
  · rfl
  · exact absurd (hq'.trans ⟨[name], by simp⟩) hq
  · rfl

/-! ### Nothing, or an empty directory -/

/-- Clearing a directory takes away only what lies in it. -/
theorem get?_clear_of_not_beneath {r q : Place} (hq : r <+: q → q = r) (t : FileTree) :
    (t.clear r).get? q = t.get? q := by
  have key : ∀ (l : List String) (t : FileTree),
      (l.foldl (fun t name => t.prune (r ++ [name])) t).get? q = t.get? q := by
    intro l
    induction l with
    | nil => exact fun _ => rfl
    | cons name l ih =>
      intro t
      rw [List.foldl_cons, ih]
      by_cases hnil : q = []
      · subst hnil
        simp
      · rw [get?_prune hnil, if_neg]
        intro hpre
        have hr := hq ((List.prefix_append r [name]).trans hpre)
        rw [hr] at hpre
        exact absurd hpre.length_le (by simp)
  exact key _ t

/-- `u` is `t` without what was at `p`. -/
def Removed (p : Place) (t u : FileTree) : Prop :=
  ∀ q, u.get? q = if p <+: q then none else t.get? q

theorem removed_prune (hp : p ≠ []) (t : FileTree) : Removed p t (t.prune p) := by
  intro q
  by_cases hq : q = []
  · subst hq
    rw [get?_nil, get?_nil, if_neg fun h => hp (List.prefix_nil.mp h)]
  · exact get?_prune hq

theorem Removed.refl (h : t.get? p = none) : Removed p t t := by
  intro q
  split_ifs with hq
  · exact get?_eq_none_beneath h hq
  · rfl

theorem Removed.within (h : Removed p t u) : Within p t u := by
  intro q
  rw [h q]
  split_ifs with hq
  · exact .inr (.inl ⟨hq, plain_of_none (by rw [h q, if_pos hq])⟩)
  · exact .inl rfl

/-- Where nothing was, nothing has been removed. -/
theorem Removed.eq_of_none (h : Removed p t u) (hnone : t.get? p = none) : u = t := by
  refine ext_get? fun q => ?_
  rw [h q]
  split_ifs with hq
  · rw [get?_eq_none_beneath hnone hq]
  · rfl

/-- A path leads the same way when the place of the names has been removed. -/
theorem Straight.removed (h : Straight base path p names t) (hr : Removed (p ++ names) t u) :
    Straight base path p names u := by
  rcases h.there with hd | ⟨hnone, -⟩
  · refine h.within hr.within ?_
    rw [hr, if_neg (not_beneath h.ne), hd]
  · rwa [hr.eq_of_none (get?_eq_none_beneath hnone (List.prefix_append p names))]

/-- `u` is `t` with an empty directory at `p`. -/
def Emptied (p : Place) (t u : FileTree) : Prop :=
  ∀ q, u.get? q = if q <+: p then some .directory else if p <+: q then none else t.get? q

theorem Emptied.contents (h : Emptied p t u) : u.contents p = emptyDirectory := by
  funext a
  rw [FileTree.contents, h, emptyDirectory]
  by_cases ha : a = []
  · simp [ha]
  · have hlength := List.length_pos_of_ne_nil ha
    rw [if_neg, if_pos (List.prefix_append p a), if_neg ha]
    intro hpre
    have := hpre.length_le
    rw [List.length_append] at this
    omega

theorem Emptied.there (h : Emptied p t u) : u.get? p = some .directory := by
  rw [h, if_pos (List.prefix_refl p)]

theorem Emptied.filled (h : Emptied p t u) (hfree : t.Free p) : Filled p t u := by
  intro q
  rw [h q]
  split_ifs with h1 h2
  · by_cases hq : q = p
    · exact .inr (.inl (hq ▸ List.prefix_refl _))
    · rcases hfree q h1 hq with hnone | hd
      · exact .inr (.inr ⟨h1, hnone, by rw [h.there]; simp⟩)
      · exact .inl hd.symm
  · exact .inr (.inl h2)
  · exact .inl rfl

end FileTree

namespace Edit

variable {t u : FileTree} {base p : Place} {path : Path} {names : List String}

/-- What is a directory already is left alone. -/
theorem apply_makeChain_of_exists (attempt : Attempt) {X : Path} (hX : X.text ≠ "")
    (above : List Path) (hmake : t.makeDir base X = .error .alreadyExists)
    (hdir : t.isDir base X = true) : (makeChain base attempt (X :: above)).apply t = (.ok ⟨⟩, t) := by
  rw [apply_makeChain_cons attempt hX, hmake]
  simp only
  rw [hdir]
  rfl

/-- A directory that is there, or that can be made at once. -/
theorem apply_makeChain_self (hends : path.EndsInStep) (attempt : Attempt) (above : List Path)
    (hresolve : t.resolve base path = .ok p)
    (hp : t.get? p = some .directory ∨ t.get? p = none ∧ t.locate base path = .ok p) :
    ∃ u, (makeChain base attempt (path :: above)).apply t = (.ok ⟨⟩, u) ∧ Reached p t u := by
  rcases hp with hp | ⟨hnone, hlocate⟩
  · exact ⟨t, apply_makeChain_of_exists attempt hends.text_ne above
      (makeDir_of_exists hends hresolve (by rw [hp]; simp)) ((isDir_of_resolve hresolve).mpr hp),
      .refl hp⟩
  · have hplace : AreNames p := by
      rcases (resolve_reachable hresolve).placed with hd | ⟨dir, name, rfl, hname, hd⟩
      · exact areNames_place hd
      · exact (areNames_place hd).append (areNames_singleton hname)
    unfold locate at hlocate
    rw [steps_eq_names hends.endsInSlash] at hlocate
    rw [apply_makeChain_cons attempt hends.text_ne]
    exact ⟨_, by rw [makeDir_of_none hlocate hnone],
      reached_putAt (dropLast_of_resolve hresolve) hnone hplace⟩

/-- Directories are made one after the other, as far as they are missing. -/
theorem apply_makeChain (hends : path.EndsInStep) (attempt : Attempt) (hnames : AreNames names) :
    ∀ {c : List String}, c <+: names → (path.below c).hasNul = false → ∀ {t : FileTree},
      t.LeadsPast base path (p ++ names) p →
      (t.get? p = some .directory ∨ t.get? p = none ∧ t.locate base path = .ok p) →
      t.Free (p ++ c) → (t.get? (p ++ c) = none ∨ t.get? (p ++ c) = some .directory) →
      ∀ n, c.length ≤ n →
      ∃ u, (makeChain base attempt (path.below c :: climb n (path.below c))).apply t = (.ok ⟨⟩, u) ∧
        Reached (p ++ c) t u := by
  intro c
  induction c using List.reverseRecOn with
  | nil =>
    intro _ _ t hleads hp _ _ n _
    rw [below_nil, List.append_nil]
    exact apply_makeChain_self hends attempt _ (hleads t (.refl _ t)) hp
  | append_singleton c name ih =>
    intro hdown hnul t hleads hp hfree hend n hn
    have hc : AreNames (c ++ [name]) := fun m hm => hnames m (hdown.subset hm)
    have hshort : c <+: names := (List.prefix_append c [name]).trans hdown
    have hX := (endsInStep_below hends hc).text_ne
    have habove : p ++ c <+: p ++ (c ++ [name]) := ⟨[name], by simp⟩
    have hdrop := dropLast_append_concat p c name
    have hfound : ∀ {v : FileTree}, v.LeadsPast base path (p ++ names) p →
        (v.get? p = some .directory ∨ v.get? p = none ∧ v.locate base path = .ok p) →
        v.Free (p ++ (c ++ [name])) → Found base path p (c ++ [name]) v := fun hleads hp hfree =>
      ⟨hends, hc, by simp, hleads _ (.refl _ _), hp, open_of_free hfree⟩
    have ht := hfound hleads hp hfree
    obtain ⟨n, rfl⟩ : ∃ k, n = k + 1 := ⟨n - 1, by simp at hn; omega⟩
    rw [climb_below hends hc]
    rcases hfree (p ++ c) habove (by simp) with hnone | hd
    · -- the directory above is missing, too
      rw [apply_makeChain_cons attempt hX,
        makeDir_of_missing ht hnul hfree (by rw [hdrop, hnone]; simp)]
      simp only
      obtain ⟨u, hu, hreached⟩ := ih hshort (hasNul_below_concat (hc name (by simp)) hnul) hleads hp
        (hfree.above habove) (.inl hnone) n (by simpa using hn)
      have huc : u.get? (p ++ c) = some .directory := by
        rw [hreached, if_pos (List.prefix_refl _)]
      have hunone : u.get? (p ++ (c ++ [name])) = none := by
        rw [hreached, if_neg fun hpre => absurd hpre.length_le (by simp)]
        exact get?_eq_none_beneath hnone habove
      have hwithin : Within (p ++ names) t u := hreached.within (hfree.above habove) (.inl hnone)
        ((List.prefix_append_right_inj p).mpr hshort)
      have hready := hfound (hleads.within hwithin)
        (.inl (directory_above huc (List.prefix_append p c))) (free_of_directory (by rw [hdrop, huc]))
      obtain ⟨hmade, hput⟩ := makeDir_reached hready hnul (by rw [hdrop, huc]) hunone
      refine ⟨_, ?_, hreached.concat hput⟩
      rw [apply_bind, hu]
      simp only
      rw [apply_makeOrFind, hmade]
    · rcases hend with hnone | hthere
      · obtain ⟨hmade, hput⟩ := makeDir_reached ht hnul (by rw [hdrop, hd]) hnone
        refine ⟨_, ?_, hput⟩
        rw [apply_makeChain_cons attempt hX, hmade]
      · have hmake := makeDir_of_some (follow_of_directory ht (fun hf => by cases hf) hnul
          (by rw [hdrop, hd])) hthere
        exact ⟨t, apply_makeChain_of_exists attempt hX _ hmake (isDir_below ht hnul hthere),
          .refl hthere⟩

/-- **A directory can be made** if no file is in the way. -/
theorem apply_ensureDir (h : Straight base path p names t)
    (hnul : (path.below names).hasNul = false) (hfree : t.Free (p ++ names))
    (hend : t.get? (p ++ names) = none ∨ t.get? (p ++ names) = some .directory) :
    ∃ u, (ensureDir base (path.below names)).apply t = (.ok ⟨⟩, u) ∧
      Reached (p ++ names) t u := by
  refine apply_makeChain h.ends _ h.areNames (List.prefix_refl _) hnul h.leads h.there hfree hend _
    ?_
  rw [length_segments_below h.ends h.areNames]
  omega

theorem apply_ensureDir_of_error {X : Path} (hX : X.text ≠ "") {cause : IoError}
    (hmake : t.makeDir base X = .error cause) (hcause : cause ≠ .notFound)
    (hdir : t.isDir base X = false) :
    (ensureDir base X).apply t = (.error ⟨.createDirectory X, cause⟩, t) := by
  unfold ensureDir
  rw [show X.ancestors = X :: climb (X.segments.length + 1) X from rfl,
    apply_makeChain_cons _ hX, hmake]
  cases cause <;> first | exact absurd rfl hcause | simp [hdir]

theorem makeDir_of_error {X : Path} {cause : IoError} (hl : t.locateEntry base X = .error cause) :
    t.makeDir base X = .error cause := by
  unfold makeDir
  rw [hl]
  rfl

theorem isDir_of_error {X : Path} {cause : IoError} (hr : t.resolve base X = .error cause) :
    t.isDir base X = false := by
  unfold isDir stat
  rw [hr]
  rfl

/-- If a directory has been made, no file is in the way. -/
theorem ensureDir_ok (h : Straight base path p names t) (hplain : t.Plain (p ++ names)) {a : Unit}
    (hmake : (ensureDir base (path.below names)).apply t = (.ok a, u)) :
    (path.below names).hasNul = false ∧ t.Free (p ++ names) ∧ Reached (p ++ names) t u := by
  have htext := h.text_ne
  have hresolve : ∀ x, t.follow base (path.below names) (path.below names).names true = x →
      t.resolve base (path.below names) = x := by
    intro x hx
    unfold resolve
    rw [h.steps_eq, hx]
  by_cases hnul : (path.below names).hasNul = true
  · rw [apply_ensureDir_of_error htext (makeDir_of_error (follow_of_hasNul htext hnul)) (by simp)
      (isDir_of_error (hresolve _ (follow_of_hasNul htext hnul)))] at hmake
    cases hmake
  rw [Bool.not_eq_true] at hnul
  by_cases hfree : t.Free (p ++ names)
  swap
  · have hblocked : ∀ followLast, t.follow base (path.below names) (path.below names).names
        followLast = .error .notADirectory := by
      intro followLast
      rcases follow_cases h.toFound (fun _ => hplain) hnul with ⟨hd, -⟩ | ⟨hfree', -⟩ | ⟨-, hf⟩
      · exact absurd (free_of_directory hd) hfree
      · exact absurd hfree' hfree
      · exact hf
    rw [apply_ensureDir_of_error htext (makeDir_of_error (hblocked false)) (by simp)
      (isDir_of_error (hresolve _ (hblocked true)))] at hmake
    cases hmake
  refine ⟨hnul, hfree, ?_⟩
  have hend : t.get? (p ++ names) = none ∨ t.get? (p ++ names) = some .directory := by
    rcases hg : t.get? (p ++ names) with _ | (_ | ⟨content, executable⟩ | target)
    · exact .inl rfl
    · exact .inr rfl
    · have hparent := dropLast_directory hg
      have hstat := stat_of_exists h.toFound hnul hg (fun _ he => by cases he)
      rw [apply_ensureDir_of_error htext (makeDir_of_some (follow_of_directory h.toFound
        (fun hf => by cases hf) hnul hparent) hg) (by simp)
        (by unfold isDir; rw [hstat])] at hmake
      cases hmake
    · exact absurd hg (hplain target)
  obtain ⟨v, hv, hreached⟩ := apply_ensureDir h hnul hfree hend
  rw [hv] at hmake
  cases hmake
  exact hreached

/-! ### Emptying -/

theorem names_ne_dots (h : Found base path p names t) :
    ∃ name, (path.below names).names.getLast? = some name ∧ name ≠ "." ∧ name ≠ ".." := by
  obtain ⟨init, name, hnames⟩ := (List.eq_nil_or_concat names).resolve_left h.ne
  rw [List.concat_eq_append] at hnames
  refine ⟨name, ?_, down_of_isName (h.areNames name (by simp [hnames]))⟩
  rw [names_below h.areNames, hnames, ← List.append_assoc, List.getLast?_concat]

theorem removeDir_of_empty (h : Found base path p names t)
    (hnul : (path.below names).hasNul = false) (hd : t.get? (p ++ names) = some .directory)
    (hempty : t.names (p ++ names) = []) :
    t.removeDir base (path.below names) = .ok (t.prune (p ++ names)) := by
  obtain ⟨name, hname, hdot, hup⟩ := names_ne_dots h
  unfold removeDir locateEntry
  rw [follow_of_directory h (fun hf => by cases hf) hnul (dropLast_directory hd)]
  simp only [bind, Except.bind, hname, hd, hempty, List.isEmpty_nil, if_true]

theorem removeTree_of_locate {X : Path} {q : Place} (hl : t.locate base X = .ok q) :
    removeTree base X t =
      match t.get? q with
      | none => (.error .notFound, t)
      | some (.file _ _) => (.error .notADirectory, t)
      | some (.link _) => (.ok (t.prune q), t)
      | some .directory => ((t.clear q).removeDir base X, t.clear q) := by
  unfold removeTree
  split
  · rename_i cause hcause
    cases hl.symm.trans hcause
  · rename_i q' hq'
    cases hl.symm.trans hq'
    rfl

theorem removeTree_of_error {X : Path} {cause : IoError} (hl : t.locate base X = .error cause) :
    removeTree base X t = (.error cause, t) := by
  unfold removeTree
  rw [hl]

theorem apply_removeDirAll_eq (X : Path) :
    (removeDirAll base X).apply t =
      match removeTree base X t with
      | (.ok u, _) => (.ok ⟨⟩, u)
      | (.error .notFound, u) => (.ok ⟨⟩, u)
      | (.error cause, u) => (.error ⟨.removeDirectory X, cause⟩, u) := by
  unfold removeDirAll
  rw [apply_bind, apply_get]
  simp only
  rcases removeTree base X t with ⟨cause | u, v⟩
  · cases cause <;> rfl
  · rfl

/-- A directory is removed with all that is in it. -/
theorem removeTree_of_directory (h : Straight base path p names t)
    (hnul : (path.below names).hasNul = false) (hg : t.get? (p ++ names) = some .directory) :
    ∃ u v, removeTree base (path.below names) t = (.ok u, v) ∧ Removed (p ++ names) t u := by
  have hw : Within (p ++ names) t (t.clear (p ++ names)) := within_clear (List.prefix_refl _)
  have hself : (t.clear (p ++ names)).get? (p ++ names) = some .directory := by
    rw [get?_clear_of_not_beneath (fun _ => rfl), hg]
  have hempty : (t.clear (p ++ names)).names (p ++ names) = [] := by
    refine List.eq_nil_iff_forall_not_mem.mpr fun name hname => ?_
    rw [mem_names, get?_clear (List.prefix_append _ _) (by simp)] at hname
    cases hname
  have hp : (t.clear (p ++ names)).get? p = some .directory :=
    directory_above hself (List.prefix_append p names)
  refine ⟨(t.clear (p ++ names)).prune (p ++ names), t.clear (p ++ names), ?_, fun q => ?_⟩
  · rw [removeTree_of_locate (locate_of_directory h.toFound hnul (dropLast_directory hg)), hg]
    simp only
    rw [removeDir_of_empty (h.within hw hp).toFound hnul hself hempty]
  · rw [removed_prune (by simp [h.ne])]
    split_ifs with hq
    · rfl
    · exact get?_clear_of_not_beneath (fun hpre => absurd hpre hq) t

/-- What is at the end of a path is removed, unless it is a file or a file is in the way. -/
theorem apply_removeDirAll (h : Straight base path p names t)
    (hnul : (path.below names).hasNul = false) :
    (t.Free (p ++ names) ∧ (∀ c x, t.get? (p ++ names) ≠ some (.file c x)) ∧
      ∃ u, (removeDirAll base (path.below names)).apply t = (.ok ⟨⟩, u) ∧
        Removed (p ++ names) t u) ∨
    ((t.Free (p ++ names) → ∃ c x, t.get? (p ++ names) = some (.file c x)) ∧
      (removeDirAll base (path.below names)).apply t =
        (.error ⟨.removeDirectory (path.below names), .notADirectory⟩, t)) := by
  have hlocate : ∀ x, t.follow base (path.below names) (path.below names).names false = x →
      t.locate base (path.below names) = x := by
    intro x hx
    unfold locate
    rw [h.steps_eq, hx]
  have hnever : false = true → t.Plain (p ++ names) := fun hf => by cases hf
  rw [apply_removeDirAll_eq]
  rcases follow_cases h.toFound hnever hnul with
    ⟨hd, hf⟩ | ⟨hfree, hd, hf⟩ | ⟨hfree, hf⟩
  · have hfree := free_of_directory hd
    rcases hg : t.get? (p ++ names) with _ | (_ | ⟨c, x⟩ | target)
    · rw [removeTree_of_locate (hlocate _ hf), hg]
      exact .inl ⟨hfree, by simp, t, rfl, .refl hg⟩
    · obtain ⟨u, v, hr, hremoved⟩ := removeTree_of_directory h hnul hg
      rw [hr]
      exact .inl ⟨hfree, by simp, u, rfl, hremoved⟩
    · rw [removeTree_of_locate (hlocate _ hf), hg]
      exact .inr ⟨fun _ => ⟨c, x, rfl⟩, rfl⟩
    · rw [removeTree_of_locate (hlocate _ hf), hg]
      exact .inl ⟨hfree, by simp, t.prune (p ++ names), rfl, removed_prune (by simp [h.ne]) t⟩
  · have hnone : t.get? (p ++ names) = none := by
      rcases hg : t.get? (p ++ names) with _ | e
      · rfl
      · exact absurd (dropLast_directory hg) hd
    rw [removeTree_of_error (hlocate _ hf)]
    exact .inl ⟨hfree, by simp [hnone], t, rfl, .refl hnone⟩
  · rw [removeTree_of_error (hlocate _ hf)]
    exact .inr ⟨fun h => absurd h hfree, rfl⟩

theorem apply_removeDirAll_of_hasNul (h : Found base path p names t)
    (hnul : (path.below names).hasNul = true) :
    (removeDirAll base (path.below names)).apply t =
      (.error ⟨.removeDirectory (path.below names), .nulInPath⟩, t) := by
  rw [apply_removeDirAll_eq, removeTree_of_error (follow_of_hasNul h.text_ne hnul)]

/-- **A directory is emptied**, unless there is a file instead of it or in the way; then nothing
changes. -/
theorem apply_resetDir (h : Straight base path p names t) (hnul : (path.below names).hasNul = false) :
    (t.Free (p ++ names) ∧ (∀ c x, t.get? (p ++ names) ≠ some (.file c x)) ∧
      ∃ u, (resetDir base (path.below names)).apply t = (.ok ⟨⟩, u) ∧
        Emptied (p ++ names) t u) ∨
    ((t.Free (p ++ names) → ∃ c x, t.get? (p ++ names) = some (.file c x)) ∧
      (resetDir base (path.below names)).apply t =
        (.error ⟨.removeDirectory (path.below names), .notADirectory⟩, t)) := by
  unfold resetDir
  rw [apply_bind]
  rcases apply_removeDirAll h hnul with ⟨hfree, hfile, u, hu, hremoved⟩ | ⟨hfile, he⟩
  · left
    have hready : Straight base path p names u := h.removed hremoved
    have hfreeu : u.Free (p ++ names) := fun q hq hne => by
      rw [hremoved q, if_neg fun hpre => hne (hq.eq_of_length_le hpre.length_le)]
      exact hfree q hq hne
    have hnone : u.get? (p ++ names) = none := by
      rw [hremoved, if_pos (List.prefix_refl _)]
    obtain ⟨v, hv, hreached⟩ := apply_ensureDir hready hnul hfreeu (.inl hnone)
    refine ⟨hfree, hfile, v, by rw [hu]; exact hv, fun q => ?_⟩
    rw [hreached q, hremoved q]
  · exact .inr ⟨hfile, by rw [he]⟩

theorem apply_resetDir_of_hasNul (h : Found base path p names t)
    (hnul : (path.below names).hasNul = true) :
    (resetDir base (path.below names)).apply t =
      (.error ⟨.removeDirectory (path.below names), .nulInPath⟩, t) := by
  unfold resetDir
  rw [apply_bind, apply_removeDirAll_of_hasNul h hnul]

/-- If a directory has been emptied, it was possible. -/
theorem resetDir_ok (h : Straight base path p names t) {a : Unit}
    (hr : (resetDir base (path.below names)).apply t = (.ok a, u)) :
    (path.below names).hasNul = false ∧ t.Free (p ++ names) ∧ Emptied (p ++ names) t u := by
  by_cases hnul : (path.below names).hasNul = true
  · rw [apply_resetDir_of_hasNul h.toFound hnul] at hr
    cases hr
  rw [Bool.not_eq_true] at hnul
  rcases apply_resetDir h hnul with ⟨hfree, -, v, hv, hemptied⟩ | ⟨-, he⟩
  · rw [hv] at hr
    cases hr
    exact ⟨hnul, hfree, hemptied⟩
  · rw [he] at hr
    cases hr

end Edit

end SymbolDocs
