import SymbolDocs.Proofs.FileTree.Confined
import SymbolDocs.Proofs.Performance
import SymbolDocs.Unifier

/-! # Unification stays in its directory

Whatever comes of a unification, the tree has changed within the unified directory of the target
only (`within_merge`), provided that the scratch directory is found whatever lies in it and that no
link is on the way from there to the unified directory. -/

namespace SymbolDocs.Unifier

open FileTree SymbolDocs.Path

variable {host : Host} {w : World} {scratch : Scratch} {target : Target} {d : Place}

/-- The way from the scratch directory to the unified directory of a target. -/
def unifiedNames (target : Target) : List String :=
  ["symbol-graphs", "unified-symbol-graphs", target.dirName]

theorem unified_eq (scratch : Scratch) (target : Target) :
    scratch.unified target = scratch.dir.below (unifiedNames target) := rfl

theorem unified_entry (scratch : Scratch) (target : Target) (name : String) :
    (scratch.unified target).entry name = scratch.dir.below (unifiedNames target ++ [name]) := by
  rw [unified_eq, below_concat]

/-- Copying a snippet graph changes nothing elsewhere. -/
theorem within_copySnippet
    (h : Cleared host.directory scratch.dir d (unifiedNames target) w.files) (graph : Path) :
    Within (d ++ unifiedNames target) w.files
      ((copySnippet scratch target graph).perform host w).2.files := by
  unfold copySnippet
  rcases hname : graph.fileName with _ | name
  · exact .refl _ w.files
  simp only
  rw [Work.perform_bind, Act.perform_edit, unified_entry]
  have hcopy := Edit.keeps_copyFile (areNames_singleton (isName_of_fileName hname)) graph w.files h
  rcases hr : (Edit.copyFile host.directory graph
    (scratch.dir.below (unifiedNames target ++ [name]))).apply w.files with ⟨e | ⟨⟩, u⟩ <;>
    rw [hr] at hcopy
  · exact hcopy
  · exact hcopy

/-- **A unification changes the tree within the unified directory only.** -/
theorem within_merge
    (h : Ready host.directory scratch.dir d (unifiedNames target) w.files)
    (graphs snippetGraph : Path) :
    Within (d ++ unifiedNames target) w.files
      ((merge scratch target graphs snippetGraph).perform host w).2.files := by
  obtain ⟨hreset, hcleared⟩ := Edit.within_resetDir h
  unfold merge
  rw [Work.perform_bind, Act.perform_log]
  simp only
  rw [Work.perform_bind, reset, Act.perform_edit, unified_eq]
  simp only
  rcases hr : (Edit.resetDir host.directory (scratch.dir.below (unifiedNames target))).apply w.files
    with ⟨e | ⟨⟩, u⟩ <;> rw [hr] at hreset hcleared
  · exact hreset
  have hu := hcleared rfl
  simp only [Except.mapError]
  rw [Work.perform_bind, copyGraphs, Act.perform_edit, graphsCopy, unified_entry]
  have hcopy := Edit.keeps_copyTree h.ends h.areNames
    (areNames_singleton (show isName Scratch.targetCopyName = true by decide)) graphs u hu
  simp only
  rcases hg : (Edit.copyTree host.directory graphs
    (scratch.dir.below (unifiedNames target ++ [Scratch.targetCopyName]))).apply u
    with ⟨e | ⟨⟩, v⟩ <;> rw [hg] at hcopy
  · exact hreset.trans hcopy
  simp only [Except.mapError]
  rw [Work.perform_bind]
  generalize hw' : ({ files := v, emissions := _ } : World) = w'
  have hv : w'.files = v := by rw [← hw']
  have hsnippet : Within (d ++ unifiedNames target) w'.files
      ((copySnippet scratch target snippetGraph).perform host w').2.files :=
    within_copySnippet (hv.symm ▸ hu.within hcopy) snippetGraph
  rw [hv] at hsnippet
  rcases hc : (copySnippet scratch target snippetGraph).perform host w' with ⟨e | copy, w''⟩ <;>
    rw [hc] at hsnippet
  · exact (hreset.trans hcopy).trans hsnippet
  · exact (hreset.trans hcopy).trans hsnippet

end SymbolDocs.Unifier
