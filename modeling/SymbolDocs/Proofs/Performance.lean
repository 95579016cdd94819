import SymbolDocs.Session

/-! # What work does, step by step

An outcome and the state that is left, for each way of putting work together. Work that goes on
(`perform_bind`) goes on from where the first part ended, and ends where that ended if it failed; an
attempt (`perform_attempt`) never fails; a context (`perform_inside`) changes the failure only.

`perform_bind_ok` takes work apart that has succeeded. -/

namespace SymbolDocs

/-- A host on which nothing is a program. -/
def bareHost : Host where
  directory := []
  home := ⟨"/"⟩
  searchPath := ""
  program? _ := none

namespace Work

variable {σ α β : Type} {host : Host} {s : σ}

/-! ### Values, failures and states -/

@[simp] theorem perform_pure (a : α) : (pure a : Work σ α).perform host s = (.ok a, s) := rfl

@[simp] theorem perform_throw (halt : Halt) :
    (throw halt : Work σ α).perform host s = (.error halt, s) := rfl

@[simp] theorem perform_fail (cause : Cause) :
    (fail cause : Work σ α).perform host s = (.error (.failed { cause }), s) := rfl

@[simp] theorem perform_ofExcept {ε : Type} (cause : ε → Cause) (x : Except ε α) :
    (ofExcept cause x : Work σ α).perform host s =
      (x.mapError fun e => .failed { cause := cause e }, s) := by
  cases x <;> rfl

@[simp] theorem perform_ofOutcome (x : Except Halt α) :
    (ofOutcome x : Work σ α).perform host s = (x, s) := by
  cases x <;> rfl

@[simp] theorem perform_get : (get : Work σ σ).perform host s = (.ok s, s) := rfl

@[simp] theorem perform_read : (read : Work σ Host).perform host s = (.ok host, s) := rfl

@[simp] theorem perform_modify (f : σ → σ) :
    (modify f : Work σ PUnit).perform host s = (.ok ⟨⟩, f s) := rfl

/-! ### One after the other -/

theorem perform_bind (x : Work σ α) (f : α → Work σ β) :
    (x >>= f).perform host s =
      match x.perform host s with
      | (.ok a, s') => (f a).perform host s'
      | (.error halt, s') => (.error halt, s') := by
  change (let (outcome, s') := x.perform host s
    (ExceptT.bindCont (fun a => f a host) outcome : StateM σ _) s') = _
  rcases x.perform host s with ⟨_ | _, _⟩ <;> rfl

/-- Work that has succeeded has succeeded in both of its parts. -/
theorem perform_bind_ok {x : Work σ α} {f : α → Work σ β} {b : β} {s'' : σ}
    (h : (x >>= f).perform host s = (.ok b, s'')) :
    ∃ a s', x.perform host s = (.ok a, s') ∧ (f a).perform host s' = (.ok b, s'') := by
  rw [perform_bind] at h
  rcases hx : x.perform host s with ⟨_ | a, s'⟩ <;> rw [hx] at h
  · simp at h
  · exact ⟨a, s', rfl, h⟩

@[simp] theorem perform_map (x : Work σ α) (f : α → β) :
    (f <$> x).perform host s = ((x.perform host s).1.map f, (x.perform host s).2) := by
  rw [map_eq_pure_bind, perform_bind]
  rcases x.perform host s with ⟨_ | _, _⟩ <;> rfl

/-! ### Attempts and contexts -/

theorem perform_tryCatch (x : Work σ α) (handler : Halt → Work σ α) :
    (tryCatch x handler).perform host s =
      match x.perform host s with
      | (.ok a, s') => (.ok a, s')
      | (.error halt, s') => (handler halt).perform host s' := by
  unfold perform ExceptT.run StateT.run Id.run ReaderT.run
  simp only [tryCatch, tryCatchThe, MonadExceptOf.tryCatch, ExceptT.tryCatch, ExceptT.mk, bind,
    StateT.bind]
  rcases x host s with ⟨_ | _, _⟩ <;> rfl

@[simp] theorem perform_attempt (x : Work σ α) :
    (attempt x).perform host s = (.ok (x.perform host s).1, (x.perform host s).2) := by
  unfold attempt
  rw [perform_tryCatch, perform_bind]
  rcases x.perform host s with ⟨_ | _, _⟩ <;> rfl

/-- An outcome as a part of greater work. -/
def outcomeInside (purpose : String) : Except Halt α → Except Halt α
  | .ok a => .ok a
  | .error (.failed failure) => .error (.failed (failure.inside purpose))
  | .error (.crashed message) => .error (.crashed message)

@[simp] theorem perform_inside (purpose : String) (x : Work σ α) :
    (inside purpose x).perform host s =
      (outcomeInside purpose (x.perform host s).1, (x.perform host s).2) := by
  unfold inside
  rw [perform_tryCatch]
  rcases x.perform host s with ⟨(_ | _) | _, _⟩ <;> rfl

end Work

namespace Act

variable {α : Type} {host : Host} {w : World}

@[simp] theorem perform_emit (e : Emission) :
    (emit e).perform host w = (.ok ⟨⟩, { w with emissions := w.emissions ++ [e] }) := rfl

@[simp] theorem perform_log (level : Level) (text : String) :
    (log level text).perform host w =
      (.ok ⟨⟩, { w with emissions := w.emissions ++ [.event level text] }) := rfl

@[simp] theorem perform_files : files.perform host w = (.ok w.files, w) := rfl

@[simp] theorem perform_here : here.perform host w = (.ok host.directory, w) := rfl

@[simp] theorem perform_edit (work : Place → Edit α) :
    (edit work).perform host w =
      (((work host.directory).apply w.files).1.mapError fun e => .failed { cause := .io e },
        { w with files := ((work host.directory).apply w.files).2 }) := by
  unfold edit
  simp only [Work.perform_bind, perform_here, perform_files, Work.perform_modify,
    Work.perform_ofExcept]

theorem perform_edit_ok {work : Place → Edit α} {a : α} {w' : World}
    (h : (edit work).perform host w = (.ok a, w')) :
    ∃ u, (work host.directory).apply w.files = (.ok a, u) ∧ w' = { w with files := u } := by
  rw [perform_edit] at h
  rcases hx : (work host.directory).apply w.files with ⟨e | b, u⟩ <;> rw [hx] at h
  · cases h
  · cases h; exact ⟨u, rfl, rfl⟩

/-- A loop that tells one thing after the other. -/
theorem perform_forIn_emit {ι : Type} (e : ι → Emission) :
    ∀ (l : List ι) (w : World),
      (forIn l ⟨⟩ fun x _ => do emit (e x); pure (ForInStep.yield ⟨⟩) :
        Act PUnit).perform host w = (.ok ⟨⟩, { w with emissions := w.emissions ++ l.map e })
  | [], w => by simp
  | x :: l, w => by
    rw [List.forIn_cons, Work.perform_bind, Work.perform_bind, perform_emit]
    simp only [Work.perform_pure]
    rw [perform_forIn_emit e l]
    simp

/-- A loop that tells one event after the other. -/
theorem perform_forIn_log {ι : Type} (level : Level) (text : ι → String) (l : List ι) (w : World) :
    (forIn l ⟨⟩ fun x _ => do log level (text x); pure (ForInStep.yield ⟨⟩) :
      Act PUnit).perform host w =
      (.ok ⟨⟩, { w with emissions := w.emissions ++ l.map fun x => .event level (text x) }) :=
  perform_forIn_emit (fun x => .event level (text x)) l w

end Act

namespace Job

variable {α : Type} {host : Host} {s : Session}

@[simp] theorem perform_liftM (act : Act α) :
    (liftM act : Job α).perform host s =
      ((act.perform host s.toWorld).1,
        { s with toWorld := (act.perform host s.toWorld).2 }) := rfl

theorem liftM_pure (a : α) : (liftM (pure a : Act α) : Job α) = pure a := rfl

/-- Acts one after the other are parts of a job one after the other. -/
theorem liftM_bind {β : Type} (act : Act α) (f : α → Act β) :
    (liftM (act >>= f) : Job β) = (liftM act : Job α) >>= fun a => (liftM (f a) : Job β) := by
  funext host s
  change (liftM (act >>= f) : Job β).perform host s =
    ((liftM act : Job α) >>= fun a => (liftM (f a) : Job β)).perform host s
  rw [perform_liftM, Work.perform_bind, Work.perform_bind, perform_liftM]
  rcases act.perform host s.toWorld with ⟨_ | _, _⟩ <;> rfl

theorem perform_liftM_ok {act : Act α} {a : α} {s' : Session}
    (h : (liftM act : Job α).perform host s = (.ok a, s')) :
    ∃ w, act.perform host s.toWorld = (.ok a, w) ∧ s' = { s with toWorld := w } := by
  rw [perform_liftM] at h
  rcases hx : act.perform host s.toWorld with ⟨e | b, w⟩ <;> rw [hx] at h
  · cases h
  · cases h; exact ⟨w, rfl, rfl⟩

end Job

end SymbolDocs
