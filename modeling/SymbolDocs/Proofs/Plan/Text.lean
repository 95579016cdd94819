import SymbolDocs.Plan
import SymbolDocs.Proofs.Json.Unambiguous

/-! # What the text of a plan says

A plan is told from its text (`text_inj`). What may be missing in a plan is told by whether its key is
there, or by `null`, and none of these keys is that of another field. -/

namespace SymbolDocs

theorem AccessLevel.name_inj {a b : AccessLevel} : a.name = b.name ↔ a = b := by
  cases a <;> cases b <;> decide

namespace Plan

/-! ### Fields -/

theorem pathJson_inj {p q : Path} : pathJson p = pathJson q ↔ p = q := by
  rcases p with ⟨a⟩
  rcases q with ⟨b⟩
  simp [pathJson]

/-- A path that may be missing is told from the fields of an object, and from what comes after it,
where its key is that of no other field. -/
theorem optionalField_told {key : String} {a b : Option Path} {l m : List (String × Json)}
    (hl : ∀ field ∈ l.head?, field.1 ≠ key) (hm : ∀ field ∈ m.head?, field.1 ≠ key)
    (h : optionalField key a ++ l = optionalField key b ++ m) : a = b ∧ l = m := by
  rcases a with _ | p <;> rcases b with _ | q
  · exact ⟨rfl, h⟩
  · exact absurd rfl (hl (key, pathJson q) (by rw [show l = _ from h]; rfl))
  · exact absurd rfl (hm (key, pathJson p) (by rw [show m = _ from h.symm]; rfl))
  · obtain ⟨hfield, rfl⟩ := List.cons.inj h
    exact ⟨congrArg some (pathJson_inj.mp (Prod.mk.inj hfield).2), rfl⟩

/-- A path that may be `null` is told from it. -/
theorem pathJson_getD_inj {a b : Option Path} :
    (a.map pathJson).getD .null = (b.map pathJson).getD .null ↔ a = b := by
  rcases a with _ | p <;> rcases b with _ | q
  · simp
  · simp [pathJson]
  · simp [pathJson]
  · simp [pathJson_inj]

/-! ### Objects -/

theorem optionsJson_inj {a b : GraphOptions} : optionsJson a = optionsJson b ↔ a = b := by
  rcases a with ⟨level, synthesized, blocks⟩
  rcases b with ⟨level', synthesized', blocks'⟩
  simp [optionsJson, AccessLevel.name_inj]

/-- A result is told from its object, and with it whether it is single or unified. -/
theorem resultJson_inj {a b : GraphResult} : resultJson a = resultJson b ↔ a = b := by
  rcases a with dir | ⟨dir, graphs, snippetGraph⟩ <;>
    rcases b with dir' | ⟨dir', graphs', snippetGraph'⟩
  · simp [resultJson, pathJson_inj]
  · simp [resultJson]
  · simp [resultJson]
  · simp [resultJson, pathJson_inj, pathJson_getD_inj]

theorem entryJson_inj {a b : PlannedTarget} : entryJson a = entryJson b ↔ a = b := by
  refine ⟨fun h => ?_, fun h => h ▸ rfl⟩
  rcases a with ⟨name, id, options, dir, snippetGraph, archive, graphs⟩
  rcases b with ⟨name', id', options', dir', snippetGraph', archive', graphs'⟩
  simp only [entryJson, Json.object.injEq, List.cons_append, List.nil_append, List.cons.injEq,
    Prod.mk.injEq, Json.text.injEq, true_and, optionsJson_inj, pathJson_inj] at h
  obtain ⟨rfl, rfl, rfl, rfl, hrest⟩ := h
  obtain ⟨rfl, hlast⟩ := optionalField_told (by simp) (by simp) hrest
  simp only [List.cons.injEq, Prod.mk.injEq, true_and, and_true, pathJson_inj,
    resultJson_inj] at hlast
  obtain ⟨rfl, rfl⟩ := hlast
  rfl

/-! ### Plans -/

theorem json_inj {p q : Plan} : p.json = q.json ↔ p = q := by
  refine ⟨fun h => ?_, fun h => h ▸ rfl⟩
  rcases p with ⟨package, targets, combined⟩
  rcases q with ⟨package', targets', combined'⟩
  simp only [json, Json.object.injEq, List.cons_append, List.nil_append, List.cons.injEq,
    Prod.mk.injEq, Json.text.injEq, Json.array.injEq, true_and] at h
  obtain ⟨rfl, htargets, hcombined⟩ := h
  obtain rfl := (List.map_inj_right fun _ _ => entryJson_inj.mp).mp htargets
  rw [← List.append_nil (optionalField _ combined),
    ← List.append_nil (optionalField _ combined')] at hcombined
  obtain ⟨rfl, -⟩ := optionalField_told (by simp) (by simp) hcombined
  rfl

/-- **A plan is told from its text**: plans with the same text are the same plan, with the same
entries in the same order, the same paths that are there and the same ones that are missing, and the
same kind of result in each entry. Names, identifiers and paths may be any texts whatever. -/
theorem text_inj (p q : Plan) : p.text = q.text ↔ p = q :=
  Json.pretty_inj.trans json_inj

end Plan

end SymbolDocs
