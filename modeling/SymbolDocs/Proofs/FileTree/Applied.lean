import SymbolDocs.FileTree.Edit

/-! # What an edit does, step by step

An edit goes on from the tree that the part before has left, and ends where a part ends in a failure
(`apply_bind`). -/

namespace SymbolDocs.Edit

variable {α β : Type} {t u v : FileTree}

@[simp] theorem apply_pure (a : α) : (pure a : Edit α).apply t = (.ok a, t) := rfl

@[simp] theorem apply_throw (e : IoFailure) : (throw e : Edit α).apply t = (.error e, t) := rfl

@[simp] theorem apply_get : (get : Edit FileTree).apply t = (.ok t, t) := rfl

@[simp] theorem apply_set : (set u : Edit PUnit).apply t = (.ok ⟨⟩, u) := rfl

theorem apply_bind (x : Edit α) (f : α → Edit β) :
    (x >>= f).apply t =
      match x.apply t with
      | (.ok a, u) => (f a).apply u
      | (.error e, u) => (.error e, u) := by
  change (let (outcome, u) := x.apply t; (ExceptT.bindCont f outcome : StateM FileTree _) u) = _
  rcases x.apply t with ⟨_ | _, _⟩ <;> rfl

/-- An edit that has succeeded has succeeded in both of its parts. -/
theorem apply_bind_ok {x : Edit α} {f : α → Edit β} {b : β} (h : (x >>= f).apply t = (.ok b, v)) :
    ∃ a u, x.apply t = (.ok a, u) ∧ (f a).apply u = (.ok b, v) := by
  rw [apply_bind] at h
  rcases hx : x.apply t with ⟨_ | a, u⟩ <;> rw [hx] at h
  · simp at h
  · exact ⟨a, u, rfl, h⟩

/-- A single call succeeds and leaves another tree, or fails and leaves the tree alone. -/
theorem apply_call (attempt : Attempt) (change : FileTree → Except IoError FileTree) :
    (call attempt change).apply t =
      match change t with
      | .ok u => (.ok ⟨⟩, u)
      | .error cause => (.error ⟨attempt, cause⟩, t) := by
  unfold call
  rw [apply_bind, apply_get]
  simp only
  rcases change t with _ | _ <;> rfl

/-- A question leaves the tree alone. -/
theorem apply_ask (attempt : Attempt) (question : FileTree → Except IoError α) :
    (ask attempt question).apply t =
      ((question t).mapError fun cause => ⟨attempt, cause⟩, t) := by
  unfold ask
  rw [apply_bind, apply_get]
  simp only
  rcases question t with _ | _ <;> rfl

theorem apply_call_ok {attempt : Attempt} {change : FileTree → Except IoError FileTree} {a : Unit}
    (h : (call attempt change).apply t = (.ok a, u)) : change t = .ok u := by
  rw [apply_call] at h
  rcases hc : change t with _ | v <;> rw [hc] at h <;> cases h
  rfl

end SymbolDocs.Edit
