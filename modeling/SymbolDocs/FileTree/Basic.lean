import SymbolDocs.Path

/-!
# File trees

A file tree is a finite map from places to entries, kept as a list in ascending order of places, so
that two trees with the same entries are equal. The root is a directory that is always there and is
not listed; everything else lies in a directory of the tree, under a name that a directory can hold.
Places are compared name by name, which puts a directory just before what it holds.

There are two elementary changes, `put` and `prune`; the view `get?` says what each of them does.
-/

namespace SymbolDocs

section

local instance decEqContent : DecidableEq ByteArray := ByteArray.instDecidableEq

/-- What lies at a place. -/
inductive Entry
  | directory
  | file (content : ByteArray) (executable : Bool)
  | link (target : Path)
deriving DecidableEq

end

namespace FileTree

/-! ### Ascending lists of entries -/

/-- The list with the entry at `p` added or replaced. -/
def insertEntry (p : Place) (e : Entry) : List (Place × Entry) → List (Place × Entry)
  | [] => [(p, e)]
  | (q, d) :: rest =>
    if p < q then (p, e) :: (q, d) :: rest
    else if p = q then (p, e) :: rest
    else (q, d) :: insertEntry p e rest

theorem place_lt_of_not {p q : Place} (h : ¬ p < q) (hne : p ≠ q) : q < p := by
  rcases List.le_iff_lt_or_eq.1 (List.not_lt.1 h) with h | h
  · exact h
  · exact absurd h.symm hne

theorem mem_insertEntry_of_ne {p q : Place} {e d : Entry} (h : q ≠ p) :
    ∀ {l : List (Place × Entry)}, (q, d) ∈ insertEntry p e l ↔ (q, d) ∈ l
  | [] => by simp [insertEntry, h]
  | (r, c) :: rest => by
    have ih := mem_insertEntry_of_ne (p := p) (q := q) (e := e) (d := d) h (l := rest)
    unfold insertEntry
    split
    · simp [h]
    · split
      · rename_i hpr
        subst hpr
        simp [h]
      · simp [ih]

theorem mem_insertEntry_self {p : Place} {e d : Entry} :
    ∀ {l : List (Place × Entry)}, l.Pairwise (·.1 < ·.1) →
      ((p, d) ∈ insertEntry p e l ↔ d = e)
  | [], _ => by simp [insertEntry]
  | (r, c) :: rest, hs => by
    obtain ⟨hlt, hrest⟩ := List.pairwise_cons.1 hs
    have ih := mem_insertEntry_self (p := p) (e := e) (d := d) hrest
    have hpr : r = p → (p, d) ∉ rest := by
      rintro rfl hm
      exact List.lt_irrefl r (hlt (r, d) hm)
    unfold insertEntry
    split
    · rename_i hlt'
      have h1 : p ≠ r := by rintro rfl; exact List.lt_irrefl _ hlt'
      have h2 : (p, d) ∉ rest :=
        fun hm => List.lt_irrefl p (List.lt_trans hlt' (hlt (p, d) hm))
      simp [h1, h2]
    · split
      · rename_i heq
        simp [hpr heq.symm]
      · rename_i hne
        simp [ih, hne]

theorem pairwise_insertEntry {p : Place} {e : Entry} :
    ∀ {l : List (Place × Entry)}, l.Pairwise (·.1 < ·.1) →
      (insertEntry p e l).Pairwise (·.1 < ·.1)
  | [], _ => by simp [insertEntry]
  | (r, c) :: rest, hs => by
    obtain ⟨hlt, hrest⟩ := List.pairwise_cons.1 hs
    unfold insertEntry
    split
    · rename_i h
      refine List.pairwise_cons.2 ⟨?_, hs⟩
      intro x hx
      rcases List.mem_cons.1 hx with rfl | hx
      · exact h
      · exact List.lt_trans h (hlt x hx)
    · rename_i hnot
      split
      · rename_i heq
        subst heq
        exact List.pairwise_cons.2 ⟨hlt, hrest⟩
      · rename_i hne
        refine List.pairwise_cons.2 ⟨?_, pairwise_insertEntry hrest⟩
        rintro ⟨q, d⟩ hq
        by_cases hqp : q = p
        · subst hqp
          exact place_lt_of_not hnot hne
        · exact hlt _ ((mem_insertEntry_of_ne hqp).1 hq)

theorem lookup_eq_some_iff {p : Place} {e : Entry} :
    ∀ {l : List (Place × Entry)}, l.Pairwise (·.1 < ·.1) → (l.lookup p = some e ↔ (p, e) ∈ l)
  | [], _ => by simp
  | (r, c) :: rest, hs => by
    obtain ⟨hlt, hrest⟩ := List.pairwise_cons.1 hs
    rw [List.lookup_cons]
    by_cases h : p = r
    · subst h
      have : (p, e) ∉ rest := fun hm => List.lt_irrefl p (hlt (p, e) hm)
      simp [this, eq_comm]
    · simp [beq_eq_false_iff_ne.2 h, lookup_eq_some_iff hrest, h]

end FileTree

/-- A tree of files, links and directories below a root. -/
structure FileTree where
  entries : List (Place × Entry)
  ascending : entries.Pairwise (·.1 < ·.1)
  rooted : ∀ dir name e, (dir ++ [name], e) ∈ entries →
    dir = [] ∨ (dir, Entry.directory) ∈ entries
  proper : ∀ e, ([], e) ∉ entries
  named : ∀ p e, (p, e) ∈ entries → ∀ name ∈ p, Path.isName name = true

namespace FileTree

/-- The tree that holds nothing. -/
def empty : FileTree where
  entries := []
  ascending := List.Pairwise.nil
  rooted := by simp
  proper := by simp
  named := by simp

instance : Inhabited FileTree := ⟨empty⟩

/-! ### The view -/

/-- What lies at a place, if anything does. -/
def get? (t : FileTree) (p : Place) : Option Entry :=
  if p = [] then some .directory else t.entries.lookup p

@[simp] theorem get?_nil (t : FileTree) : t.get? [] = some .directory := by simp [get?]

theorem get?_eq_some_iff {t : FileTree} {p : Place} {e : Entry} (hp : p ≠ []) :
    t.get? p = some e ↔ (p, e) ∈ t.entries := by
  simp [get?, hp, lookup_eq_some_iff t.ascending]

/-- The tree has a directory at `p`. -/
def isDirectory (t : FileTree) (p : Place) : Bool :=
  t.get? p = some .directory

/-- Whatever lies in a tree lies in a directory of it. -/
theorem get?_parent {t : FileTree} {dir : Place} {name : String} {e : Entry}
    (h : t.get? (dir ++ [name]) = some e) : t.get? dir = some .directory := by
  rcases t.rooted dir name e ((get?_eq_some_iff (by simp)).1 h) with rfl | hm
  · simp
  · by_cases hd : dir = []
    · simp [hd]
    · exact (get?_eq_some_iff hd).2 hm

/-- All names that lead to an entry are names. -/
theorem isName_of_get? {t : FileTree} {p : Place} {e : Entry} (h : t.get? p = some e) :
    ∀ name ∈ p, Path.isName name = true := by
  by_cases hp : p = []
  · simp [hp]
  · exact t.named p e ((get?_eq_some_iff hp).1 h)

/-- Two trees with the same view are the same tree. -/
theorem ext_get? {t u : FileTree} (h : ∀ p, t.get? p = u.get? p) : t = u := by
  have key : ∀ (l m : List (Place × Entry)), l.Pairwise (·.1 < ·.1) → m.Pairwise (·.1 < ·.1) →
      (∀ x, x ∈ l ↔ x ∈ m) → l = m := by
    intro l
    induction l with
    | nil =>
      intro m _ _ hm
      cases m with
      | nil => rfl
      | cons x m => exact absurd ((hm x).2 (by simp)) (by simp)
    | cons x l ih =>
      intro m hl hm hmem
      obtain ⟨hx, hl⟩ := List.pairwise_cons.1 hl
      cases m with
      | nil => exact absurd ((hmem x).1 (by simp)) (by simp)
      | cons y m =>
        obtain ⟨hy, hm'⟩ := List.pairwise_cons.1 hm
        have hxy : x = y := by
          rcases List.mem_cons.1 ((hmem x).1 (by simp)) with h1 | h1
          · exact h1
          · rcases List.mem_cons.1 ((hmem y).2 (by simp)) with h2 | h2
            · exact h2.symm
            · exact absurd (List.lt_trans (hx y h2) (hy x h1)) (List.lt_irrefl _)
        subst hxy
        have : l = m := by
          refine ih m hl hm' fun z => ?_
          constructor
          · intro hz
            rcases List.mem_cons.1 ((hmem z).1 (List.mem_cons_of_mem _ hz)) with rfl | h1
            · exact absurd (hx z hz) (List.lt_irrefl _)
            · exact h1
          · intro hz
            rcases List.mem_cons.1 ((hmem z).2 (List.mem_cons_of_mem _ hz)) with rfl | h1
            · exact absurd (hy z hz) (List.lt_irrefl _)
            · exact h1
        rw [this]
  have hent : t.entries = u.entries := by
    refine key _ _ t.ascending u.ascending ?_
    rintro ⟨p, e⟩
    by_cases hp : p = []
    · subst hp
      simp [t.proper, u.proper]
    · rw [← get?_eq_some_iff hp, ← get?_eq_some_iff hp, h]
  cases t
  cases u
  cases hent
  rfl

/-! ### The two elementary changes -/

/-- An entry may be put at `name` in `dir` if the one is a name and the other a directory, and if no
directory is to be replaced by something else. -/
def accepts (t : FileTree) (dir : Place) (name : String) (e : Entry) : Bool :=
  Path.isName name && t.isDirectory dir && (!t.isDirectory (dir ++ [name]) || e = .directory)

theorem accepts_iff {t : FileTree} {dir : Place} {name : String} {e : Entry} :
    t.accepts dir name e = true ↔ Path.isName name = true ∧ t.get? dir = some .directory ∧
      (t.get? (dir ++ [name]) = some .directory → e = .directory) := by
  by_cases h : t.get? (dir ++ [name]) = some .directory <;>
    simp [accepts, isDirectory, h, and_assoc]

/-- The tree with an entry added or replaced; a change that is not accepted does nothing. -/
def put (t : FileTree) (dir : Place) (name : String) (e : Entry) : FileTree :=
  if h : t.accepts dir name e = true then
    { entries := insertEntry (dir ++ [name]) e t.entries
      ascending := pairwise_insertEntry t.ascending
      rooted := by
        obtain ⟨-, hdir, hold⟩ := accepts_iff.1 h
        intro d n c hm
        by_cases hd : d = []
        · exact .inl hd
        right
        by_cases heq : d = dir ++ [name]
        · rw [heq, mem_insertEntry_self t.ascending]
          have hne : d ++ [n] ≠ dir ++ [name] := by
            rw [← heq]
            simp
          have := t.rooted d n c ((mem_insertEntry_of_ne hne).1 hm)
          rcases this with h1 | h1
          · exact absurd h1 hd
          · exact (hold (by rw [← heq]; exact (get?_eq_some_iff hd).2 h1)).symm
        · rw [mem_insertEntry_of_ne heq]
          by_cases hdn : d ++ [n] = dir ++ [name]
          · have : d = dir := by simpa using congrArg List.dropLast hdn
            subst this
            exact (get?_eq_some_iff hd).1 hdir
          · rcases t.rooted d n c ((mem_insertEntry_of_ne hdn).1 hm) with h1 | h1
            · exact absurd h1 hd
            · exact h1
      proper := by
        intro c hm
        exact t.proper c ((mem_insertEntry_of_ne (by simp)).1 hm)
      named := by
        obtain ⟨hname, hdir, -⟩ := accepts_iff.1 h
        intro p c hm n hn
        by_cases heq : p = dir ++ [name]
        · subst heq
          rcases List.mem_append.1 hn with hn | hn
          · exact isName_of_get? hdir n hn
          · rwa [List.mem_singleton.1 hn]
        · exact t.named p c ((mem_insertEntry_of_ne heq).1 hm) n hn }
  else t

/-- The tree without the entry at `p` and without everything beneath it. -/
def prune (t : FileTree) (p : Place) : FileTree where
  entries := t.entries.filter fun x => ¬ p <+: x.1
  ascending := t.ascending.filter _
  rooted := by
    intro d n c hm
    obtain ⟨hm, hp⟩ := List.mem_filter.1 hm
    rcases t.rooted d n c hm with h | h
    · exact .inl h
    · right
      refine List.mem_filter.2 ⟨h, ?_⟩
      simp only [decide_not, Bool.not_eq_eq_eq_not, Bool.not_true, decide_eq_false_iff_not] at hp ⊢
      exact fun hpre => hp (hpre.trans (List.prefix_append d [n]))
  proper := by
    intro c hm
    exact t.proper c (List.mem_filter.1 hm).1
  named := by
    intro q c hm
    exact t.named q c (List.mem_filter.1 hm).1

theorem get?_put {t : FileTree} {dir : Place} {name : String} {e : Entry}
    (h : t.accepts dir name e = true) (p : Place) :
    (t.put dir name e).get? p = if p = dir ++ [name] then some e else t.get? p := by
  by_cases hp : p = []
  · subst hp
    simp
  · apply Option.ext
    intro d
    rw [get?_eq_some_iff hp]
    simp only [put, h, ↓reduceDIte]
    by_cases hpd : p = dir ++ [name]
    · subst hpd
      simp [mem_insertEntry_self t.ascending, eq_comm]
    · rw [mem_insertEntry_of_ne hpd, if_neg hpd, get?_eq_some_iff hp]

theorem put_of_not_accepts {t : FileTree} {dir : Place} {name : String} {e : Entry}
    (h : t.accepts dir name e = false) : t.put dir name e = t := by
  simp [put, h]

theorem get?_prune {t : FileTree} {p q : Place} (hq : q ≠ []) :
    (t.prune p).get? q = if p <+: q then none else t.get? q := by
  apply Option.ext
  intro e
  rw [get?_eq_some_iff hq]
  by_cases h : p <+: q
  · simp [prune, h]
  · simp [prune, h, get?_eq_some_iff hq]

/-! ### What a directory holds -/

/-- The names in a directory, in ascending order. -/
def names (t : FileTree) (dir : Place) : List String :=
  t.entries.filterMap fun x => if x.1.dropLast = dir then x.1.getLast? else none

theorem mem_names {t : FileTree} {dir : Place} {name : String} :
    name ∈ t.names dir ↔ (t.get? (dir ++ [name])).isSome := by
  rw [Option.isSome_iff_exists]
  constructor
  · intro h
    obtain ⟨⟨p, e⟩, hm, hp⟩ := List.mem_filterMap.1 h
    refine ⟨e, (get?_eq_some_iff (by simp)).2 ?_⟩
    simp only at hp
    split at hp
    · rename_i hd
      have : p = dir ++ [name] := by
        obtain ⟨init, rfl⟩ := List.getLast?_eq_some_iff.1 hp
        simp [← hd]
      rwa [← this]
    · exact absurd hp (by simp)
  · rintro ⟨e, he⟩
    refine List.mem_filterMap.2 ⟨(dir ++ [name], e), (get?_eq_some_iff (by simp)).1 he, by simp⟩

/-- Everything beneath a directory, with places seen from it, each directory before what it holds.
-/
def beneath (t : FileTree) (dir : Place) : List (Place × Entry) :=
  t.entries.filterMap fun x =>
    if dir <+: x.1 ∧ x.1 ≠ dir then some (x.1.drop dir.length, x.2) else none

/-- The most names that lead to an entry. -/
def height (t : FileTree) : Nat :=
  t.entries.foldl (fun n x => max n x.1.length) 0

end FileTree

end SymbolDocs
