import SymbolDocs.Proofs.Path.Entries
import Mathlib.Logic.Function.Iterate

/-! # Paths without dots

Each `..` in a path takes back the name before it, or leads up if there is none. What is left says
where the path leads if no link is on the way (`lexical`). A joined path leads up and down from the
path on the left as the path on the right says (`lexical_join`). -/

namespace SymbolDocs.Path

/-- A path that leads up over some directories, or starts at the root, and then down over names. -/
structure Lexical where
  absolute : Bool := false
  ups : Nat := 0
  names : List String := []
deriving DecidableEq, Repr

namespace Lexical

/-- One directory up. There is none above the root. -/
def up (l : Lexical) : Lexical :=
  if l.names ≠ [] then { l with names := l.names.dropLast }
  else if l.absolute then l
  else { l with ups := l.ups + 1 }

/-- One component more. -/
def after (l : Lexical) : Component → Lexical
  | .root => { absolute := true }
  | .here => l
  | .up => l.up
  | .name s => { l with names := l.names ++ [s] }

/-- Down over some names. -/
def down (l : Lexical) (names : List String) : Lexical :=
  { l with names := l.names ++ names }

/-- From the place of `l` as `r` says. -/
def join (l r : Lexical) : Lexical :=
  if r.absolute then r else (up^[r.ups] l).down r.names

/-- Further down than `m` says, and not elsewhere. -/
def StrictlyInside (l m : Lexical) : Prop :=
  l.absolute = m.absolute ∧ l.ups = m.ups ∧ m.names <+: l.names ∧ l.names ≠ m.names

variable {l m r : Lexical} {names : List String} {c : Component}

@[simp] theorem down_nil (l : Lexical) : l.down [] = l := by simp [down]

theorem down_down (l : Lexical) (a b : List String) : (l.down a).down b = l.down (a ++ b) := by
  simp [down]

@[simp] theorem up_down_singleton (l : Lexical) (name : String) : (l.down [name]).up = l := by
  simp [up, down]

theorem up_down (h : names ≠ []) : (l.down names).up = l.down names.dropLast := by
  unfold up down
  rw [if_pos (by simp [h]), List.dropLast_append_of_ne_nil h]

@[simp] theorem join_nil (l : Lexical) : l.join {} = l := by simp [join]

/-- A component more on the right is a component more in the joined path. -/
theorem join_after (hr : r.absolute = false) (hc : .root ≠ c) :
    (r.after c).absolute = false ∧ l.join (r.after c) = (l.join r).after c := by
  cases c with
  | root => exact absurd rfl hc
  | here => exact ⟨hr, rfl⟩
  | name s => exact ⟨hr, by simp [join, after, hr, down]⟩
  | up =>
    by_cases hnames : r.names = []
    · have hup : r.up = { r with ups := r.ups + 1 } := by simp [up, hnames, hr]
      refine ⟨by simp [after, hup, hr], ?_⟩
      simp only [after, hup, join, hr, hnames, down_nil, Bool.false_eq_true, if_false,
        Function.iterate_succ_apply']
    · have hup : r.up = { r with names := r.names.dropLast } := if_pos hnames
      refine ⟨by simp [after, hup, hr], ?_⟩
      simp only [after, hup, join, hr, Bool.false_eq_true, if_false, up_down hnames]

theorem foldl_after {cs : List Component} (h : .root ∉ cs) (l : Lexical) :
    (cs.foldl after {}).absolute = false ∧ cs.foldl after l = l.join (cs.foldl after {}) := by
  induction cs using List.reverseRecOn with
  | nil => exact ⟨rfl, (join_nil l).symm⟩
  | append_singleton cs c ih =>
    rw [List.mem_append, List.mem_singleton, not_or] at h
    obtain ⟨hfalse, hl⟩ := ih h.1
    obtain ⟨hafter, hjoin⟩ := join_after (l := l) hfalse h.2
    rw [List.foldl_concat, List.foldl_concat, hl]
    exact ⟨hafter, hjoin.symm⟩

/-! ### Inside -/

theorem strictlyInside_down (h : names ≠ []) : (l.down names).StrictlyInside l :=
  ⟨rfl, rfl, List.prefix_append _ _, by simpa [down] using h⟩

theorem strictlyInside_down_iff : (l.down names).StrictlyInside l ↔ names ≠ [] :=
  ⟨fun h hn => h.2.2.2 (by simp [hn]), strictlyInside_down⟩

end Lexical

/-- Where a path leads if no link is on the way. -/
def lexical (p : Path) : Lexical :=
  p.components.foldl Lexical.after {}

variable {p q : Path} {name : String}

/-- Where a path that does not start at the root starts makes no difference. -/
theorem lexical_of_relative (hq : q.isAbsolute = false) :
    q.lexical = q.inner.foldl Lexical.after {} := by
  unfold lexical
  rw [components_eq, List.foldl_append, lead, hq]
  simp only [Bool.false_eq_true, if_false]
  split_ifs <;> rfl

theorem foldl_inner (q : Path) (l : Lexical) (hq : q.isAbsolute = false) :
    q.inner.foldl Lexical.after l = l.join q.lexical := by
  rw [lexical_of_relative hq]
  exact (Lexical.foldl_after q.root_not_mem_inner l).2

theorem absolute_lexical_of_isAbsolute (hq : q.isAbsolute = true) :
    q.lexical.absolute = true := by
  unfold lexical
  rw [components_eq, lead, if_pos hq, List.foldl_append, List.foldl_cons, List.foldl_nil,
    (Lexical.foldl_after q.root_not_mem_inner _).2]
  unfold Lexical.join
  rw [(Lexical.foldl_after q.root_not_mem_inner {}).1]
  have hups : ∀ n, (Lexical.up^[n] (Lexical.after {} .root)) = Lexical.after {} .root := by
    intro n
    induction n with
    | zero => rfl
    | succ n ih => rw [Function.iterate_succ_apply', ih]; rfl
  simp only [Bool.false_eq_true, if_false, hups]
  rfl

/-- **A joined path** leads from the path on the left as the path on the right says. -/
theorem lexical_join (p q : Path) : (p.join q).lexical = p.lexical.join q.lexical := by
  by_cases hq : q.isAbsolute = true
  · rw [join_of_isAbsolute hq, Lexical.join, if_pos (absolute_lexical_of_isAbsolute hq)]
  · rw [Bool.not_eq_true] at hq
    by_cases hp : p.text = ""
    · have hjoin : p.join q = q := by
        unfold join
        rw [if_neg (by simp [hq]), if_pos (.inl (by simp [hp])), hp]
        simp
      have hempty : p.lexical = {} := by
        rcases p with ⟨text⟩
        rw [show text = "" from hp]
        rfl
      rw [hjoin, hempty, ← foldl_inner q {} hq, lexical_of_relative hq]
    · rw [← foldl_inner q _ hq]
      unfold lexical
      rw [components_join hq hp, List.foldl_append]

theorem lexical_of_isName (h : isName name = true) : (⟨name⟩ : Path).lexical = { names := [name] } := by
  rw [lexical_of_relative (isAbsolute_of_isName h), inner_of_isName h]
  rfl

theorem lexical_entry (p : Path) (name : String) :
    (p.entry name).lexical = p.lexical.join (⟨name⟩ : Path).lexical :=
  lexical_join p ⟨name⟩

theorem lexical_entry_of_isName (p : Path) (h : isName name = true) :
    (p.entry name).lexical = p.lexical.down [name] := by
  rw [lexical_entry, lexical_of_isName h]
  rfl

end SymbolDocs.Path
