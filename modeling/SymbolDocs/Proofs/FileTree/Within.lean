import SymbolDocs.Proofs.FileTree.Applied
import SymbolDocs.Proofs.FileTree.Below

/-! # Changes within a directory

A tree is changed within a place if all that is different lies there or beneath, except that
directories may have been made above it (`Within`). Such changes do not alter where a path leads
that gets to a directory above (`Ready.within`), and if no link was at the place or beneath, none
has come (`Cleared.within`). -/

namespace SymbolDocs.FileTree

open SymbolDocs.Path (isName AreNames)

variable {t u v : FileTree} {p q r : Place}

/-! ### Above and beneath -/

theorem get?_above {e : Entry} : ∀ {q p : Place}, t.get? p = some e → q <+: p → q ≠ p →
    t.get? q = some .directory := by
  intro q p
  induction p using List.reverseRecOn generalizing e with
  | nil => exact fun _ h hne => absurd (List.prefix_nil.mp h) hne
  | append_singleton p name ih =>
    intro h hpre hne
    have hp := get?_parent h
    rcases List.prefix_concat_iff.mp hpre with hq | hq
    · exact absurd hq hne
    · by_cases hqp : q = p
      · rw [hqp]; exact hp
      · exact ih hp hq hqp

theorem directory_above (h : t.get? p = some .directory) (hq : q <+: p) :
    t.get? q = some .directory := by
  by_cases hne : q = p
  · rw [hne]; exact h
  · exact get?_above h hq hne

/-- Beneath nothing there is nothing. -/
theorem get?_eq_none_beneath (h : t.get? p = none) (hq : p <+: q) : t.get? q = none := by
  rcases hg : t.get? q with _ | e
  · rfl
  · by_cases hne : p = q
    · rw [hne, hg] at h; cases h
    · rw [get?_above hg hq hne] at h; cases h

theorem plain_of_none (h : t.get? p = none) : t.Plain p :=
  fun target h' => by rw [h] at h'; cases h'

theorem plain_of_directory (h : t.get? p = some .directory) : t.Plain p :=
  fun target h' => by rw [h] at h'; cases h'

theorem plain_congr (h : u.get? p = t.get? p) : u.Plain p ↔ t.Plain p := by
  unfold Plain
  rw [h]

/-! ### The relation -/

/-- **`u` is `t` with changes within `p`.** No link has come with them. -/
def Within (p : Place) (t u : FileTree) : Prop :=
  ∀ q, u.get? q = t.get? q ∨ p <+: q ∧ u.Plain q ∨
    q <+: p ∧ t.get? q = none ∧ u.get? q = some .directory

namespace Within

theorem refl (p : Place) (t : FileTree) : Within p t t := fun _ => Or.inl rfl

theorem trans (h1 : Within p t u) (h2 : Within p u v) : Within p t v := by
  intro q
  rcases h2 q with h | h | ⟨hq, hu, hv⟩
  · rcases h1 q with h' | ⟨hq, hu⟩ | ⟨hq, ht, hu⟩
    · exact Or.inl (h.trans h')
    · exact Or.inr (Or.inl ⟨hq, (plain_congr h).mpr hu⟩)
    · exact Or.inr (Or.inr ⟨hq, ht, h.trans hu⟩)
  · exact Or.inr (Or.inl h)
  · rcases h1 q with h' | ⟨hq', -⟩ | ⟨-, -, hu'⟩
    · exact Or.inr (Or.inr ⟨hq, h' ▸ hu, hv⟩)
    · exact Or.inr (Or.inl ⟨hq', plain_of_directory hv⟩)
    · rw [hu'] at hu; cases hu

/-- Aside of the place nothing has changed. -/
theorem eq_aside (h : Within p t u) (h1 : ¬ p <+: q) (h2 : ¬ q <+: p) :
    u.get? q = t.get? q :=
  (h q).resolve_right fun h => h.elim (fun h => h1 h.1) fun h => h2 h.1

/-- What is there above the place has not changed. -/
theorem directory_of_ne (h : Within p t u) (hq : t.get? q = some .directory) (hne : ¬ p <+: q) :
    u.get? q = some .directory := by
  rcases h q with h | h | ⟨-, h, -⟩
  · rw [h, hq]
  · exact absurd h.1 hne
  · rw [h] at hq; cases hq

theorem plain (h : Within p t u) (hq : t.Plain q) : u.Plain q := by
  rcases h q with h | h | ⟨-, -, h⟩
  · exact (plain_congr h).mpr hq
  · exact h.2
  · exact plain_of_directory h

end Within

/-! ### Elementary changes -/

theorem get?_putAt_cases (t : FileTree) (r : Place) (e : Entry) :
    (t.putAt r e).get? r = some e ∨ (t.putAt r e).get? r = t.get? r := by
  rcases List.eq_nil_or_concat r with rfl | ⟨dir, name, rfl⟩
  · exact Or.inr rfl
  · rw [List.concat_eq_append]
    have hput : t.putAt (dir ++ [name]) e = t.put dir name e := by simp [putAt, splitPlace]
    rw [hput]
    by_cases ha : t.accepts dir name e = true
    · left; rw [get?_put ha, if_pos rfl]
    · right; rw [put_of_not_accepts (by simpa using ha)]

theorem within_putAt {e : Entry} (he : ∀ target, e ≠ .link target) (hr : p <+: r) :
    Within p t (t.putAt r e) := by
  intro q
  by_cases hq : q = r
  · subst hq
    rcases get?_putAt_cases t q e with h | h
    · exact Or.inr (Or.inl ⟨hr, fun target h' => he target (Option.some.inj (h.symm.trans h'))⟩)
    · exact Or.inl h
  · exact Or.inl (get?_putAt_of_ne e hq)

theorem within_putAt_directory (hnone : t.get? r = none) (hr : r <+: p ∨ p <+: r) :
    Within p t (t.putAt r .directory) := by
  rcases hr with hr | hr
  · intro q
    by_cases hq : q = r
    · subst hq
      rcases get?_putAt_cases t q .directory with h | h
      · exact Or.inr (Or.inr ⟨hr, hnone, h⟩)
      · exact Or.inl h
    · exact Or.inl (get?_putAt_of_ne _ hq)
  · exact within_putAt (fun _ h => by cases h) hr

theorem within_prune (hr : p <+: r) : Within p t (t.prune r) := by
  intro q
  by_cases hq : q = []
  · subst hq
    exact Or.inl (by simp)
  · rw [get?_prune hq]
    split_ifs with hrq
    · exact Or.inr (Or.inl ⟨hr.trans hrq, plain_of_none (by rw [get?_prune hq, if_pos hrq])⟩)
    · exact Or.inl rfl

theorem within_foldl_prune (hr : p <+: r) : ∀ (names : List String) {t : FileTree},
    Within p t (names.foldl (fun t name => t.prune (r ++ [name])) t)
  | [], t => .refl p t
  | name :: names, _ =>
    (within_prune (hr.trans (List.prefix_append r [name]))).trans (within_foldl_prune hr names)

theorem within_clear (hr : p <+: r) : Within p t (t.clear r) :=
  within_foldl_prune hr _

/-! ### Paths that lead to a directory above -/

/-- A path leads to a place, whatever there is at the place and beneath it, except for a link. -/
structure Leads (t : FileTree) (base : Place) (path : Path) (p : Place) : Prop where
  plain : t.Plain p
  resolves : ∀ u : FileTree, (∀ q, ¬ p <+: q → u.get? q = t.get? q) → u.Plain p →
    u.resolve base path = .ok p

/-- From a directory no link is met on the way down to the last of some names. -/
def Open (t : FileTree) (p : Place) (names : List String) : Prop :=
  ∀ a b, names = a ++ b → a ≠ [] → b ≠ [] → t.Plain (p ++ a)

/-- There is a directory to which a path leads, and no link is met on the way down from there to the
last of some names. -/
structure Ready (base : Place) (path : Path) (p : Place) (names : List String) (t : FileTree) :
    Prop where
  ends : path.EndsInName
  areNames : AreNames names
  ne : names ≠ []
  leads : t.Leads base path p
  there : t.get? p = some .directory
  way : t.Open p names

/-- There is, moreover, no link at the place of the names, nor beneath. -/
structure Cleared (base : Place) (path : Path) (p : Place) (names : List String) (t : FileTree) :
    Prop extends Ready base path p names t where
  inside : ∀ q, p ++ names <+: q → t.Plain q

/-- A path leads to `p`, whatever changes within `r`. -/
def LeadsPast (t : FileTree) (base : Place) (path : Path) (r p : Place) : Prop :=
  ∀ u, Within r t u → u.resolve base path = .ok p

/-- A path leads to a place at which there is a directory or nothing at all, not even a link that
leads nowhere, and no link is met on the way down from there to the last of some names. -/
structure Found (base : Place) (path : Path) (p : Place) (names : List String) (t : FileTree) :
    Prop where
  ends : path.EndsInStep
  areNames : AreNames names
  ne : names ≠ []
  resolve : t.resolve base path = .ok p
  there : t.get? p = some .directory ∨ t.get? p = none ∧ t.locate base path = .ok p
  way : t.Open p names

/-- It leads there, moreover, whatever changes at the place of the names. -/
structure Straight (base : Place) (path : Path) (p : Place) (names : List String) (t : FileTree) :
    Prop extends Found base path p names t where
  leads : t.LeadsPast base path (p ++ names) p

section Ready

variable {base : Place} {path : Path} {names : List String}

theorem Leads.resolve (h : t.Leads base path p) : t.resolve base path = .ok p :=
  h.resolves t (fun _ _ => rfl) h.plain

theorem Leads.congr (h : t.Leads base path p) (hsame : ∀ q, ¬ p <+: q → u.get? q = t.get? q)
    (hplain : u.Plain p) : u.Leads base path p where
  plain := hplain
  resolves := fun v hv => h.resolves v fun q hq => (hv q hq).trans (hsame q hq)

theorem not_beneath (h : names ≠ []) : ¬ p ++ names <+: p := by
  intro hpre
  have := hpre.length_le
  rw [List.length_append] at this
  exact h (List.length_eq_zero_iff.mp (by omega))

/-- In the current directory a name leads to the entry that it names. -/
theorem leads_of_isName {name : String} (hname : isName name = true)
    (hnul : (⟨name⟩ : Path).hasNul = false) (hbase : t.get? base = some .directory)
    (hplain : t.Plain (base ++ [name])) : t.Leads base ⟨name⟩ (base ++ [name]) where
  plain := hplain
  resolves := by
    intro u hsame hu
    have hsegments := Path.segments_of_isName hname
    have hends : (⟨name⟩ : Path).EndsInName := ⟨name, by rw [hsegments]; rfl, hname⟩
    have hdir : u.isDirectory base = true := by
      unfold isDirectory
      rw [hsame base (not_beneath (List.cons_ne_nil name [])), hbase]
      rfl
    unfold resolve follow
    rw [if_neg hends.text_ne, if_neg (by simp [hnul]), Path.isAbsolute_of_isName hname,
      if_neg (by simp), if_pos hdir, steps_eq_names hends.endsInSlash, Path.names_of_isName hname]
    exact walk_name hname (fun _ => hu) linkLimit

theorem Leads.within (h : t.Leads base path p) (hd : t.get? p = some .directory)
    (hw : Within (p ++ names) t u) : u.Leads base path p := by
  refine h.congr (fun q hq => ?_) (hw.plain h.plain)
  rcases hw q with h | ⟨hpre, -⟩ | ⟨hpre, hnone, -⟩
  · exact h
  · exact absurd ((List.prefix_append p names).trans hpre) hq
  · have hqp := (List.prefix_or_prefix_of_prefix hpre (List.prefix_append p names)).resolve_right hq
    rw [directory_above hd hqp] at hnone
    cases hnone

theorem Ready.within (h : Ready base path p names t) (hw : Within (p ++ names) t u) :
    Ready base path p names u where
  ends := h.ends
  areNames := h.areNames
  ne := h.ne
  leads := h.leads.within h.there hw
  there := hw.directory_of_ne h.there (not_beneath h.ne)
  way := fun a b hab ha hb => hw.plain (h.way a b hab ha hb)

/-- In the current directory a name leads to the entry that it names, whatever changes elsewhere. -/
theorem leadsPast_of_isName {name : String} (hname : isName name = true)
    (hnul : (⟨name⟩ : Path).hasNul = false) (hbase : t.get? base = some .directory)
    (hr : ¬ r <+: base) (hplain : t.Plain (base ++ [name])) :
    t.LeadsPast base ⟨name⟩ r (base ++ [name]) :=
  fun _ hw => (leads_of_isName hname hnul (hw.directory_of_ne hbase hr) (hw.plain hplain)).resolve

theorem LeadsPast.within (h : t.LeadsPast base path r p) (hw : Within r t u) :
    u.LeadsPast base path r p :=
  fun v hv => h v (hw.trans hv)

theorem Straight.within (h : Straight base path p names t) (hw : Within (p ++ names) t u)
    (hd : u.get? p = some .directory) : Straight base path p names u where
  ends := h.ends
  areNames := h.areNames
  ne := h.ne
  resolve := h.leads u hw
  there := .inl hd
  way := fun a b hab ha hb => hw.plain (h.way a b hab ha hb)
  leads := h.leads.within hw

theorem Ready.found (h : Ready base path p names t) : Found base path p names t where
  ends := h.ends.endsInStep
  areNames := h.areNames
  ne := h.ne
  resolve := h.leads.resolve
  there := .inl h.there
  way := h.way

theorem Ready.straight (h : Ready base path p names t) : Straight base path p names t where
  toFound := h.found
  leads := fun _ hw => (h.leads.within h.there hw).resolve

theorem Cleared.within (h : Cleared base path p names t) (hw : Within (p ++ names) t u) :
    Cleared base path p names u where
  toReady := h.toReady.within hw
  inside := fun q hq => hw.plain (h.inside q hq)

/-- Where there is nothing, there is no link. -/
theorem Ready.cleared (h : Ready base path p names t) (hnone : t.get? (p ++ names) = none) :
    Cleared base path p names t where
  toReady := h
  inside := fun _ hq => plain_of_none (get?_eq_none_beneath hnone hq)

theorem Open.shorten {a : List String} (h : t.Open p names) (ha : a <+: names) : t.Open p a := by
  obtain ⟨c, rfl⟩ := ha
  rintro a' b rfl ha' hb
  exact h a' (b ++ c) (by simp) ha' (by simp [hb])

theorem Cleared.open_append (h : Cleared base path p names t) (c : List String) :
    t.Open p (names ++ c) := by
  intro a b hab ha hb
  rcases List.append_eq_append_iff.mp hab with ⟨d, rfl, -⟩ | ⟨d, hd, -⟩
  · exact h.inside _ (by rw [← List.append_assoc]; exact List.prefix_append _ d)
  · by_cases hnil : d = []
    · subst hnil
      rw [List.append_nil] at hd
      exact h.inside _ (hd ▸ List.prefix_refl _)
    · exact h.way a d hd ha hnil

end Ready

end SymbolDocs.FileTree
