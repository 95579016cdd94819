import SymbolDocs.Proofs.Batch.History
import SymbolDocs.Proofs.Scratch.Inside

/-! # What a run leaves alone

What a run removes, empties or makes for the targets of a package is meant to lie among the symbol
graphs of the scratch directory. The paths say so if the names of the package and of its targets
have no slash, and then a run leaves everything else as it was, except for the plan (`run_outside`).
Other names may lead to any place: it depends on what they say as paths (`graphs_inside`). -/

namespace SymbolDocs

open FileTree SymbolDocs.Path

variable {base d q : Place} {ws : Workspace} {t u : FileTree} {r : Batch.Round}
  {outcome : Except Halt Plan}

/-- What is not among the symbol graphs is aside of the parts that belong to targets, or above all of
them. -/
theorem Scratch.aside_or_above {target : Target} (hq : ¬ d ++ ["symbol-graphs"] <+: q) :
    q <+: d ∨ ∀ part ∈ partsOf target, Aside q (d ++ part) := by
  by_cases habove : q <+: d
  · exact .inl habove
  refine .inr fun part hpart => ?_
  obtain ⟨rest, rfl⟩ : ["symbol-graphs"] <+: part := by
    simp only [partsOf, graphsNames, Unifier.unifiedNames, snippetsNames, List.mem_cons,
      List.not_mem_nil, or_false] at hpart
    rcases hpart with rfl | rfl | rfl <;> simp
  have haside : Aside q (d ++ ["symbol-graphs"]) := by
    refine ⟨fun h => ?_, hq⟩
    rcases List.prefix_concat_iff.mp h with rfl | h
    · exact hq (List.prefix_refl _)
    · exact habove h
  rw [← List.append_assoc]
  exact (haside.symm.beneath (List.prefix_append _ rest)).symm

namespace Batch

/-- **A run changes nothing outside of the symbol graphs** but the plan and, if there was nothing in
its place, the scratch directory. -/
theorem run_outside (hslashless : ∀ x ∈ ws.package.targets, x.Slashless)
    (hname : '/' ∉ ws.package.name.toList)
    (hnear : ws.root.isAbsolute = true ∨ ws.root.inner = []) (hfits : r.Fits base)
    (hlaid : Laid base ws d t) (h : Ended ws t (r, outcome) u)
    (hq : ¬ d ++ ["symbol-graphs"] <+: q) (hplan : q ≠ d ++ Scratch.planNames) :
    u.get? q = t.get? q ∨ q = d ∧ t.get? q = none ∧ u.get? q = some .directory := by
  rcases run_cases hslashless hname hnear hfits hlaid h with ⟨-, -, rfl⟩ |
    ⟨requested, files, w, hselect, hscratch, ⟨parts, hparts, hkeeps⟩, hends⟩
  · exact .inl rfl
  have hmade := (hlaid.made hscratch).1
  have hput : u.get? q = w.get? q := by
    rcases hends with ⟨-, -, rfl⟩ | ⟨plan, executable, -, hput⟩
    · rfl
    · rw [hput, if_neg hplan]
  have hworked : w.get? q = files.get? q := by
    by_cases habove : q <+: d
    · rw [directory_above hkeeps.laidOut.there habove, directory_above hmade.there habove]
    · have hsame := hkeeps.contents q fun part hpart => by
        obtain ⟨target, -, hpart⟩ := hparts part hpart
        exact ((Scratch.aside_or_above hq).resolve_left habove) part hpart
      simpa only [contents_nil] using congrFun hsame []
  rw [hput, hworked]
  rcases eq_of_makesScratch hlaid.leads hscratch with ⟨-, rfl⟩ | ⟨hnone, rfl⟩
  · exact .inl rfl
  · by_cases hd : q = d
    · subst hd
      exact .inr ⟨rfl, hnone, hmade.there⟩
    · exact .inl (get?_putAt_of_ne _ hd)

/-- **What is removed, emptied or made for targets and snippets** lies strictly inside the symbol
graphs just if the names retain it there, as they do if they have no slash. If no name of the package
has one, a run leaves everything outside of the symbol graphs as it was, except for the plan. -/
theorem graphs_inside (ws : Workspace) :
    (∀ target : Target,
      ((ws.scratch.targetGraphs target).lexical.StrictlyInside ws.scratch.symbolGraphs.lexical ↔
        ws.scratch.Retains target.dirName) ∧
      ((ws.scratch.unified target).lexical.StrictlyInside ws.scratch.symbolGraphs.lexical ↔
        ws.scratch.Retains target.dirName) ∧
      (target.Slashless → ws.scratch.Retains target.dirName)) ∧
    (∀ packageName : String,
      ((ws.scratch.snippetGraph packageName).lexical.StrictlyInside
        ws.scratch.symbolGraphs.lexical ↔ ws.scratch.Retains (Scratch.snippetName packageName)) ∧
      ('/' ∉ packageName.toList → ws.scratch.Retains (Scratch.snippetName packageName))) ∧
    ((∀ x ∈ ws.package.targets, x.Slashless) → '/' ∉ ws.package.name.toList →
      (ws.root.isAbsolute = true ∨ ws.root.inner = []) →
      ∀ base d t r outcome u, r.Fits base → Laid base ws d t → Ended ws t (r, outcome) u →
      ∀ q, ¬ d ++ ["symbol-graphs"] <+: q → q ≠ d ++ Scratch.planNames →
        u.get? q = t.get? q ∨ q = d ∧ t.get? q = none ∧ u.get? q = some .directory) := by
  refine ⟨fun target => ?_, fun packageName => ?_, ?_⟩
  · obtain ⟨hgraphs, hunified, -⟩ := ws.scratch.strictlyInside_paths target ""
    exact ⟨hgraphs, hunified, fun h => ws.scratch.retains_of_isName (Target.isName_dirName h)⟩
  · obtain ⟨-, -, hsnippets⟩ := ws.scratch.strictlyInside_paths default packageName
    exact ⟨hsnippets, fun h => ws.scratch.retains_of_isName (Scratch.isName_snippetName h)⟩
  · intro hslashless hname hnear base d t r outcome u hfits hlaid h q hq hplan
    exact run_outside hslashless hname hnear hfits hlaid h hq hplan

/-- A run for one of two targets succeeds, and the program outside of the scratch directory is still
there. -/
theorem graphs_inside_pair : ∃ plan u, Ended pairWorkspace toolFiles (pairRound "a", .ok plan) u ∧
    u.get? ["t"] = some (.file .empty true) ∧
    ∀ x ∈ pairWorkspace.package.targets, (pairWorkspace.scratch.targetGraphs x).lexical.StrictlyInside
      pairWorkspace.scratch.symbolGraphs.lexical := by
  have hok : (pairRun "a" toolFiles).1.toBool = true := by decide +kernel
  rcases hrun : pairRun "a" toolFiles with ⟨halt | plan, s⟩ <;> rw [hrun] at hok
  · cases hok
  have hended : Ended pairWorkspace toolFiles (pairRound "a", .ok plan) s.files :=
    ⟨{ files := toolFiles }, s, rfl, rfl, hrun⟩
  obtain ⟨htargets, -, houtside⟩ := graphs_inside pairWorkspace
  have hpair := separate_pairWorkspace
  refine ⟨plan, s.files, hended, ?_, fun x hx =>
    (htargets x).1.mpr ((htargets x).2.2 (hpair.slashless x hx))⟩
  have htool := houtside hpair.slashless hpair.name (.inl (by decide)) [] [".graphdoc"] _ _ _ _
    (fits_pairRound "a") laid_pairWorkspace hended ["t"] (by decide) (by decide)
  rcases htool with hsame | ⟨hd, -, -⟩
  · rw [hsame]
    decide +kernel
  · exact absurd hd (by decide)

/-- The directory of a target whose name leads up is elsewhere, and to empty it removes what lies
there. -/
example :
    let target : Target := { name := "../../../victim", id := "i", kind := .sourceModule .library }
    let s : Scratch := ⟨⟨"/p/.graphdoc"⟩⟩
    let t := [["p"], ["p", ".graphdoc"], ["p", ".graphdoc", "symbol-graphs"],
      ["p", ".graphdoc", "symbol-graphs", "targets"], ["p", "victim-i"]].foldl
        (fun t p => t.putAt p .directory) FileTree.empty |>.putAt ["p", "victim-i", "keep"]
          (.file .empty false)
    (s.targetGraphs target).lexical = { absolute := true, names := ["p", "victim-i"] } ∧
      ((Edit.resetDir [] (s.targetGraphs target)).apply t).2.get? ["p", "victim-i", "keep"] =
        none := by
  decide +kernel

end Batch

end SymbolDocs
