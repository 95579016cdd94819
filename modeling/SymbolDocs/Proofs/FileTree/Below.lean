import SymbolDocs.Proofs.FileTree.Written
import SymbolDocs.Proofs.Path.Entries

/-! # What lies below a directory

A path that leads to a directory, with names after it, leads straight down from there as long as it
meets no link (`follow_below`). So what is at an entry of the directory is what the path of the
entry names (`lstat_entry`). -/

namespace SymbolDocs.FileTree

open SymbolDocs.Path (isName AreNames)

variable {t : FileTree} {base p q : Place} {path : Path} {followLast : Bool}

/-! ### Straight down -/

theorem walk_names : ∀ {names : List String} {p q : Place} {n : Nat}, AreNames names → names ≠ [] →
    (∀ a b, names = a ++ b → a ≠ [] → b ≠ [] → t.Plain (p ++ a)) →
    (followLast = true → t.Plain (p ++ names)) → t.walk followLast n p names = .ok q →
      q = p ++ names
  | [], _, _, _, _, hne, _, _, _ => absurd rfl hne
  | [name], p, q, n, hnames, _, _, hlast, h => by
    rw [walk_name (hnames name (by simp)) hlast] at h
    cases h
    rfl
  | name :: next :: rest, p, q, n, hnames, _, hplain, hlast, h => by
    have hname := hnames name (by simp)
    have happ : ∀ l : List String, p ++ name :: l = p ++ [name] ++ l := by simp
    rcases walk_into hname followLast (List.cons_ne_nil next rest)
      (hplain [name] (next :: rest) rfl (by simp) (by simp)) n with
      ⟨-, hw⟩ | ⟨-, hw⟩ | ⟨-, hw⟩ <;> rw [hw] at h
    · rw [happ]
      refine walk_names (fun m hm => hnames m (by simp [hm])) (by simp) (fun a b hab ha hb => ?_)
        (fun hf => by rw [← happ]; exact hlast hf) h
      rw [← happ]
      exact hplain (name :: a) b (by rw [hab, List.cons_append]) (by simp) hb
    · cases h
    · cases h

/-! ### A closing slash -/

/-- A `.` in front of other steps changes nothing but what is left after a link. -/
theorem stroll_dot (t : FileTree) (followLast : Bool) {b : List String} (hb : b ≠ []) :
    ∀ (a : List String) (cur : Place),
      t.stroll followLast cur (a ++ "." :: b) = t.stroll followLast cur (a ++ b) ∨
      ∃ dir target rest,
        t.stroll followLast cur (a ++ "." :: b) = .ok (.atLink dir target (rest ++ "." :: b)) ∧
          t.stroll followLast cur (a ++ b) = .ok (.atLink dir target (rest ++ b))
  | [], cur => .inl (by rw [List.nil_append, List.nil_append, stroll, if_pos rfl])
  | step :: a, cur => by
    have hne : ∀ c : List String, c ≠ [] → a ++ c ≠ [] := fun c hc => by simp [hc]
    rw [List.cons_append, List.cons_append]
    by_cases hd : step = "."
    · rw [stroll, if_pos hd, stroll, if_pos hd]
      exact stroll_dot t followLast hb a cur
    by_cases hu : step = ".."
    · rw [stroll, if_neg hd, if_pos hu, stroll, if_neg hd, if_pos hu]
      exact stroll_dot t followLast hb a cur.dropLast
    by_cases he : t.get? (cur ++ [step]) = some .directory
    · rw [stroll_into ⟨hd, hu⟩ he, stroll_into ⟨hd, hu⟩ he]
      exact stroll_dot t followLast hb a (cur ++ [step])
    by_cases hl : t.Plain (cur ++ [step])
    · -- something that is not to be walked over is in the way of both
      left
      rcases stroll_stuck followLast ⟨hd, hu⟩ (hne _ (List.cons_ne_nil "." b)) he hl with
          ⟨h1, e1⟩ | ⟨⟨c, x, h1⟩, e1⟩ <;>
        rcases stroll_stuck followLast ⟨hd, hu⟩ (hne _ hb) he hl with
          ⟨h2, e2⟩ | ⟨⟨c', x', h2⟩, e2⟩ <;> rw [h1] at h2 <;> cases h2
      · rw [e1, e2]
      · rw [e1, e2]
    · obtain ⟨target, hlink⟩ := not_forall_not.mp hl
      refine .inr ⟨cur, target, a, ?_, ?_⟩
      · exact stroll_atLink ⟨hd, hu⟩ hlink fun h => hne _ (List.cons_ne_nil "." b) h.1
      · exact stroll_atLink ⟨hd, hu⟩ hlink fun h => hne _ hb h.1

theorem walk_dot (t : FileTree) (followLast : Bool) {b : List String} (hb : b ≠ []) :
    ∀ (n : Nat) (a : List String) (cur : Place),
      t.walk followLast n cur (a ++ "." :: b) = t.walk followLast n cur (a ++ b) := by
  intro n
  induction n with
  | zero =>
    intro a cur
    rcases stroll_dot t followLast hb a cur with h | ⟨dir, target, rest, h1, h2⟩
    · exact walk_eq_of_stroll h 0
    · unfold walk
      rw [h1, h2]
      rfl
  | succ n ih =>
    intro a cur
    rcases stroll_dot t followLast hb a cur with h | ⟨dir, target, rest, h1, h2⟩
    · exact walk_eq_of_stroll h (n + 1)
    by_cases ht : target.text = ""
    · unfold walk
      rw [h1, h2]
      simp only [bind, Except.bind, ht, if_true]
    · rw [walk_over h1 ht, walk_over h2 ht, ← List.append_assoc, ih, List.append_assoc]

/-! ### On from a directory -/

/-- Where a path leads on from, if it leads to a directory. -/
theorem exists_walk (h : t.resolve base path = .ok p) (hd : t.get? p = some .directory) :
    path.text ≠ "" ∧ path.hasNul = false ∧ ∃ cur n, (path.isAbsolute = true → cur = []) ∧
      (path.isAbsolute = false → cur = base ∧ t.isDirectory base = true) ∧
      ∀ followLast names, names ≠ [] →
        t.walk followLast linkLimit cur (path.names ++ names) = t.walk followLast n p names := by
  have hnames : ∀ cur n, (∀ followLast b, b ≠ [] →
      t.walk followLast linkLimit cur (path.steps ++ b) = t.walk followLast n p b) →
      ∀ followLast names, names ≠ [] →
        t.walk followLast linkLimit cur (path.names ++ names) = t.walk followLast n p names := by
    intro cur n hn followLast names hne
    rw [← hn followLast names hne]
    unfold Path.steps
    split_ifs
    · rw [List.append_assoc]
      exact (walk_dot t followLast hne linkLimit path.names cur).symm
    · rfl
  unfold resolve follow at h
  split_ifs at h with h1 h2 h3 h4
  · obtain ⟨n, hn⟩ := walk_append h hd
    exact ⟨h1, by simpa using h2, [], n, fun _ => rfl, fun hf => absurd h3 (by simp [hf]),
      hnames [] n hn⟩
  · obtain ⟨n, hn⟩ := walk_append h hd
    exact ⟨h1, by simpa using h2, base, n, fun ht => absurd ht h3, fun _ => ⟨rfl, h4⟩,
      hnames base n hn⟩

/-- A lookup of what is called `names` below a directory is a walk from the directory. -/
theorem follow_eq_walk_below (h : t.resolve base path = .ok p) (hd : t.get? p = some .directory)
    {names : List String} (hnames : AreNames names) (hne : names ≠ []) :
    ∃ n, ∀ followLast, t.follow base (path.below names) (path.below names).names followLast =
      if (path.below names).hasNul = true then .error .nulInPath
      else t.walk followLast n p names := by
  obtain ⟨-, -, cur, n, habs, hrel, hwalk⟩ := exists_walk h hd
  refine ⟨n, fun followLast => ?_⟩
  unfold follow
  rw [if_neg (Path.endsInName_of_ne hnames hne).text_ne]
  by_cases hnul : (path.below names).hasNul = true
  · rw [if_pos hnul, if_pos hnul]
  rw [if_neg hnul, if_neg hnul, Path.names_below hnames, Path.isAbsolute_below hnames]
  by_cases ha : path.isAbsolute = true
  · rw [if_pos ha, ← habs ha, hwalk followLast names hne]
  · rw [if_neg ha]
    obtain ⟨rfl, hbase⟩ := hrel (by simpa using ha)
    rw [if_pos hbase, hwalk followLast names hne]

/-- **Below a directory a path leads straight down** if it meets no link. -/
theorem follow_below (h : t.resolve base path = .ok p) (hd : t.get? p = some .directory)
    {names : List String} (hnames : AreNames names) (hne : names ≠ [])
    (hplain : ∀ a b, names = a ++ b → a ≠ [] → b ≠ [] → t.Plain (p ++ a))
    (hlast : followLast = true → t.Plain (p ++ names))
    (hq : t.follow base (path.below names) (path.below names).names followLast = .ok q) :
    q = p ++ names := by
  obtain ⟨n, hn⟩ := follow_eq_walk_below h hd hnames hne
  rw [hn] at hq
  split_ifs at hq
  exact walk_names hnames hne hplain hlast hq

/-! ### One entry -/

theorem follow_entry (h : t.resolve base path = .ok p) (hd : t.get? p = some .directory)
    {name : String} (hname : isName name = true) (hnul : (⟨name⟩ : Path).hasNul = false)
    (hlast : followLast = true → t.Plain (p ++ [name])) :
    t.follow base (path.entry name) (path.entry name).names followLast = .ok (p ++ [name]) := by
  obtain ⟨-, hnul', -⟩ := exists_walk h hd
  obtain ⟨n, hn⟩ := follow_eq_walk_below h hd (Path.areNames_singleton hname) (by simp)
  rw [show path.entry name = path.below [name] from rfl, hn,
    show path.below [name] = path.entry name from rfl, Path.hasNul_entry hname, hnul', hnul]
  exact walk_name hname hlast n

/-! ### Where there is no directory -/

/-- Over something that is neither a directory nor a link no walk goes on. -/
theorem stroll_append_of_not_directory (followLast : Bool) {a b : List String} (hb : b ≠ [])
    {cur q : Place} (hcur : t.get? cur = some .directory)
    (h : t.stroll true cur a = .ok (.reached q)) (hq : t.get? q ≠ some .directory) :
    ∃ e, t.stroll followLast cur (a ++ b) = .error e ∧ (t.get? q = none → e = .notFound) := by
  rw [stroll_eq_ok_iff] at h
  induction h with
  | done hx => cases hx; exact absurd hcur hq
  | here _ ih => exact ih hcur
  | up _ ih => exact ih (get?_dropLast hcur)
  | into hs hd _ ih =>
    rw [List.cons_append, stroll_into hs hd]
    exact ih hd
  | last hs hd hl hx =>
    cases hx
    rcases stroll_stuck followLast hs hb hd (hl rfl) with ⟨-, he⟩ | ⟨⟨c, x, hfile⟩, he⟩
    · exact ⟨_, he, fun _ => rfl⟩
    · exact ⟨_, he, fun hnone => by rw [hnone] at hfile; cases hfile⟩
  | atLink _ _ _ hx => cases hx

theorem walk_append_of_not_directory (followLast : Bool) {n : Nat} {cur q : Place}
    {a b : List String} (ha : FileTree.Steps a) (hcur : t.get? cur = some .directory) (hb : b ≠ [])
    (h : t.walk true n cur a = .ok q) (hq : t.get? q ≠ some .directory) :
    ∃ e, t.walk followLast n cur (a ++ b) = .error e ∧ (t.get? q = none → e = .notFound) := by
  rw [walk_eq_ok_iff] at h
  induction h with
  | @reached n cur a hs =>
    obtain ⟨e, he, hnone⟩ := stroll_append_of_not_directory followLast hb hcur hs hq
    exact ⟨e, walk_of_error he n, hnone⟩
  | @onward n cur a dir target rest hs ht _ ih =>
    obtain ⟨hdir, hrest⟩ := stroll_atLink_directory ha hcur hs
    rw [walk_over (stroll_append_of_atLink followLast hb hs) ht, ← List.append_assoc]
    exact ih ((steps_steps target).append hrest) (get?_origin hdir)

/-- Below what is missing nothing is found. -/
theorem follow_below_of_none (followLast : Bool) (hpath : path.endsInSlash = false)
    (h : t.resolve base path = .ok p) (hp : t.get? p = none) {names : List String}
    (hnames : AreNames names) (hne : names ≠ []) :
    t.follow base (path.below names) (path.below names).names followLast =
      if (path.below names).hasNul = true then .error .nulInPath else .error .notFound := by
  unfold resolve at h
  rw [steps_eq_names hpath] at h
  obtain ⟨cur, hcur, hw, hcur'⟩ := follow_eq_walk h
  obtain ⟨e, he, hnone⟩ := walk_append_of_not_directory followLast (steps_names path) hcur hne hw
    (by simp [hp])
  rw [hnone hp] at he
  unfold follow
  rw [if_neg (Path.endsInName_of_ne hnames hne).text_ne]
  by_cases hnul : (path.below names).hasNul = true
  · rw [if_pos hnul, if_pos hnul]
  rw [if_neg hnul, if_neg hnul, Path.names_below hnames, Path.isAbsolute_below hnames]
  by_cases ha : path.isAbsolute = true
  · rw [if_pos ha] at hcur' ⊢
    rw [← hcur', he]
  · rw [if_neg ha] at hcur' ⊢
    rw [← hcur', if_pos (by simpa [isDirectory] using hcur), he]

theorem follow_entry_of_not_directory (followLast : Bool) (hpath : path.EndsInName)
    (h : t.resolve base path = .ok p) (hd : t.get? p ≠ some .directory) {name : String}
    (hname : isName name = true) :
    ∃ e, t.follow base (path.entry name) (path.entry name).names followLast = .error e := by
  unfold resolve at h
  rw [steps_eq_names hpath.endsInSlash] at h
  obtain ⟨cur, hcur, hw, hcur'⟩ := follow_eq_walk h
  obtain ⟨e, he, -⟩ := walk_append_of_not_directory followLast (steps_names path) hcur
    (List.cons_ne_nil name []) hw hd
  rcases hf : t.follow base (path.entry name) (path.entry name).names followLast with e' | q
  · exact ⟨e', rfl⟩
  · obtain ⟨cur2, -, hw2, hcur2⟩ := follow_eq_walk hf
    rw [Path.isAbsolute_entry, Path.isAbsolute_of_isName hname, Bool.false_or, ← hcur'] at hcur2
    rw [hcur2, Path.names_entry _ hname, he] at hw2
    cases hw2

/-- **What the path of an entry names**, also where there is no directory and so no entry. -/
theorem lstat_entry (hpath : path.EndsInName) (h : t.resolve base path = .ok p) {name : String}
    (hname : isName name = true) (hnul : (⟨name⟩ : Path).hasNul = false) :
    (t.lstat base (path.entry name)).toOption = t.get? (p ++ [name]) := by
  have hsteps := steps_eq_names (Path.endsInName_entry path hname).endsInSlash
  unfold lstat locate
  rw [hsteps]
  by_cases hd : t.get? p = some .directory
  · rw [follow_entry h hd hname hnul (fun h => by cases h)]
    change (t.entryAt (p ++ [name])).toOption = _
    unfold entryAt
    rcases t.get? (p ++ [name]) with _ | e <;> rfl
  · obtain ⟨e, he⟩ := follow_entry_of_not_directory false hpath h hd hname
    rw [he]
    have hnone : t.get? (p ++ [name]) = none := by
      rcases hg : t.get? (p ++ [name]) with _ | e
      · rfl
      · exact absurd (get?_parent hg) hd
    rw [hnone]
    rfl

end SymbolDocs.FileTree
