import SymbolDocs.Proofs.FileTree.Contents
import SymbolDocs.Proofs.Scratch.Directories
import SymbolDocs.Proofs.Unifier.Confined

/-! # Where things are in the scratch directory

The ways from the scratch directory to what is made in it. Those to the directories of targets part
from each other and from those to the snippet graphs and to the plan, as long as the targets have
different directory names. -/

namespace SymbolDocs

open FileTree SymbolDocs.Path

namespace Scratch

/-- The way to the graphs that the generator makes of a target. -/
def graphsNames (target : Target) : List String :=
  ["symbol-graphs", "targets", target.dirName]

/-- The way to the snippet graphs. -/
def snippetsNames : List String :=
  ["symbol-graphs", "snippet-symbol-graphs"]

/-- The file of the snippet graph of a package. -/
def snippetName (packageName : String) : String :=
  packageName ++ "-snippets.symbols.json"

/-- The way to the plan. -/
def planNames : List String :=
  ["docs-plan.json"]

variable (s : Scratch) (target : Target)

theorem targetGraphs_eq : s.targetGraphs target = s.dir.below (graphsNames target) := rfl

theorem snippetGraph_eq (name : String) :
    s.snippetGraph name = s.dir.below (snippetsNames ++ [snippetName name]) := rfl

theorem plan_eq : s.plan = s.dir.below planNames := rfl

/-! ### Names -/

variable {s target}

theorem areNames_graphsNames (h : target.Slashless) : AreNames (graphsNames target) := by
  intro name hname
  simp only [graphsNames, List.mem_cons, List.not_mem_nil, or_false] at hname
  rcases hname with rfl | rfl | rfl
  · decide
  · decide
  · exact Target.isName_dirName h

theorem areNames_unifiedNames (h : target.Slashless) : AreNames (Unifier.unifiedNames target) := by
  intro name hname
  simp only [Unifier.unifiedNames, List.mem_cons, List.not_mem_nil, or_false] at hname
  rcases hname with rfl | rfl | rfl
  · decide
  · decide
  · exact Target.isName_dirName h

theorem areNames_snippetsNames : AreNames snippetsNames := by
  intro name hname
  simp only [snippetsNames, List.mem_cons, List.not_mem_nil, or_false] at hname
  rcases hname with rfl | rfl <;> decide

theorem areNames_planNames : AreNames planNames :=
  areNames_singleton (by decide)

theorem isName_snippetName {name : String} (h : '/' ∉ name.toList) :
    isName (snippetName name) = true := by
  have htext : (snippetName name).toList = name.toList ++ "-snippets.symbols.json".toList := by
    simp [snippetName]
  have hdash : '-' ∈ (snippetName name).toList := by simp [htext]
  have hslash : '/' ∉ (snippetName name).toList := by simp [htext, h]
  rw [isName_iff]
  refine ⟨?_, ?_, ?_, hslash⟩ <;> rintro h <;> simp [h] at hdash

/-- What can be used for the one directory of a target can be used for the other. -/
theorem hasNul_unified (s : Scratch) (h : target.Slashless) :
    (s.unified target).hasNul = (s.targetGraphs target).hasNul := by
  have hname := Target.isName_dirName h
  have hnul : ∀ name ∈ ["symbol-graphs", "targets", "unified-symbol-graphs"],
      isName name = true ∧ (⟨name⟩ : Path).hasNul = false := by decide
  simp only [unified, targetGraphs, symbolGraphs, hasNul_entry hname,
    hasNul_entry (hnul "symbol-graphs" (by simp)).1, hasNul_entry (hnul "targets" (by simp)).1,
    hasNul_entry (hnul "unified-symbol-graphs" (by simp)).1, (hnul "targets" (by simp)).2,
    (hnul "unified-symbol-graphs" (by simp)).2]

/-- The snippet graph does not take the place of the copied graphs. -/
theorem snippetName_ne (name : String) : snippetName name ≠ targetCopyName := by
  intro h
  have hdot : '.' ∈ (snippetName name).toList := by simp [snippetName]
  rw [h] at hdot
  simp [targetCopyName] at hdot

theorem fileName_snippetGraph (s : Scratch) {name : String} (h : '/' ∉ name.toList) :
    (s.snippetGraph name).fileName = some (snippetName name) :=
  fileName_entry (text_entry_ne _ (by decide)) (isName_snippetName h)

/-! ### Ways that part -/

variable {x y : Target}

theorem aside_graphs (h : x.dirName ≠ y.dirName) : Aside (graphsNames x) (graphsNames y) := by
  simp [graphsNames, aside_cons, h]

theorem aside_unified (h : x.dirName ≠ y.dirName) :
    Aside (Unifier.unifiedNames x) (Unifier.unifiedNames y) := by
  simp [Unifier.unifiedNames, aside_cons, h]

theorem aside_graphs_unified (x y : Target) : Aside (graphsNames x) (Unifier.unifiedNames y) := by
  simp [graphsNames, Unifier.unifiedNames, aside_cons]

theorem aside_graphs_snippets (x : Target) : Aside (graphsNames x) snippetsNames := by
  simp [graphsNames, snippetsNames, aside_cons]

theorem aside_unified_snippets (x : Target) : Aside (Unifier.unifiedNames x) snippetsNames := by
  simp [Unifier.unifiedNames, snippetsNames, aside_cons]

theorem aside_graphs_plan (x : Target) : Aside (graphsNames x) planNames := by
  simp [graphsNames, planNames, aside_cons]

theorem aside_unified_plan (x : Target) : Aside (Unifier.unifiedNames x) planNames := by
  simp [Unifier.unifiedNames, planNames, aside_cons]

end Scratch

end SymbolDocs
