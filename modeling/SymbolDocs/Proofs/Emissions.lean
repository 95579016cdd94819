import SymbolDocs.Command
import SymbolDocs.Proofs.Performance

/-! # What work tells

What has been told stays told; an act adds to it (`Act.Tells`), and so does a job (`Job.Tells`).
Work that is put together adds what its parts add (`Act.Tells.bind`, `Job.Tells.bind`). -/

namespace SymbolDocs

/-- Some emissions, followed by others that have a property. -/
def Adds (P : Emission → Prop) (before after : List Emission) : Prop :=
  ∃ es, after = before ++ es ∧ ∀ e ∈ es, P e

namespace Adds

variable {P : Emission → Prop} {a b c : List Emission}

theorem refl (P : Emission → Prop) (a : List Emission) : Adds P a a :=
  ⟨[], by simp, by simp⟩

theorem trans (h1 : Adds P a b) (h2 : Adds P b c) : Adds P a c := by
  obtain ⟨ds, rfl, hd⟩ := h1
  obtain ⟨es, rfl, he⟩ := h2
  refine ⟨ds ++ es, by rw [List.append_assoc], fun e h => ?_⟩
  rcases List.mem_append.mp h with h | h
  · exact hd e h
  · exact he e h

theorem append {es : List Emission} (h : ∀ e ∈ es, P e) : Adds P a (a ++ es) :=
  ⟨es, rfl, h⟩

theorem imp {Q : Emission → Prop} (h : Adds P a b) (hPQ : ∀ e, P e → Q e) : Adds Q a b := by
  obtain ⟨es, rfl, hes⟩ := h
  exact ⟨es, rfl, fun e he => hPQ e (hes e he)⟩

theorem mem {e : Emission} (h : Adds P a b) (he : e ∈ b) : e ∈ a ∨ P e := by
  obtain ⟨es, rfl, hes⟩ := h
  exact (List.mem_append.mp he).imp_right (hes e)

/-- What is added is not seen by a filter that it does not pass. -/
theorem filter_eq {p : Emission → Bool} (h : Adds (fun e => p e = false) a b) :
    b.filter p = a.filter p := by
  obtain ⟨es, rfl, hes⟩ := h
  have hnone : es.filter p = [] := List.filter_eq_nil_iff.mpr fun e he => by simp [hes e he]
  rw [List.filter_append, hnone, List.append_nil]

end Adds

namespace Act

variable {α β : Type} {P : Emission → Prop}

/-- An act tells only what has a property, whether it succeeds or not. -/
def Tells (P : Emission → Prop) (act : Act α) : Prop :=
  ∀ host w, Adds P w.emissions (act.perform host w).2.emissions

namespace Tells

theorem imp {Q : Emission → Prop} {act : Act α} (h : Tells P act) (hPQ : ∀ e, P e → Q e) :
    Tells Q act :=
  fun host w => (h host w).imp hPQ

theorem pure (a : α) : Tells P (pure a) := fun _ w => .refl P w.emissions

theorem throw (halt : Halt) : Tells P (throw halt : Act α) := fun _ w => .refl P w.emissions

theorem fail (cause : Cause) : Tells P (Work.fail cause : Act α) := fun _ w => .refl P w.emissions

theorem bind {x : Act α} {f : α → Act β} (hx : Tells P x) (hf : ∀ a, Tells P (f a)) :
    Tells P (x >>= f) := by
  intro host w
  have h := hx host w
  rw [Work.perform_bind]
  rcases hx : x.perform host w with ⟨halt | a, w'⟩ <;> rw [hx] at h
  · exact h
  · exact h.trans (hf a host w')

theorem read : Tells P (read : Act Host) := fun _ w => .refl P w.emissions

theorem files : Tells P files := fun _ w => .refl P w.emissions

theorem here : Tells P here := fun _ w => .refl P w.emissions

theorem emit {e : Emission} (h : P e) : Tells P (emit e) := by
  intro host w
  rw [perform_emit]
  exact .append (by simpa using h)

theorem log {level : Level} {text : String} (h : P (.event level text)) :
    Tells P (log level text) :=
  emit h

theorem forIn_log {ι : Type} {level : Level} {text : ι → String}
    (h : ∀ x, P (.event level (text x))) (l : List ι) :
    Tells P (forIn l ⟨⟩ fun x _ => do Act.log level (text x); Pure.pure (ForInStep.yield ⟨⟩) :
      Act PUnit) := by
  intro host w
  rw [perform_forIn_log]
  refine .append fun e he => ?_
  obtain ⟨x, -, rfl⟩ := List.mem_map.mp he
  exact h x

theorem edit (work : Place → Edit α) : Tells P (edit work) := by
  intro host w
  rw [perform_edit]
  exact .refl P w.emissions

theorem inside (purpose : String) {x : Act α} (h : Tells P x) :
    Tells P (Work.inside purpose x) := by
  intro host w
  rw [Work.perform_inside]
  exact h host w

end Tells

end Act

namespace Job

variable {α β : Type} {P : Emission → Prop}

/-- A job tells only what has a property, whether it succeeds or not. -/
def Tells (P : Emission → Prop) (job : Job α) : Prop :=
  ∀ host s, Adds P s.emissions (job.perform host s).2.emissions

namespace Tells

/-- What a job has told when it has ended. -/
theorem adds {job : Job α} {host : Host} {s s' : Session} {outcome : Except Halt α}
    (h : Tells P job) (hend : job.perform host s = (outcome, s')) :
    Adds P s.emissions s'.emissions := by
  have hadds := h host s
  rwa [hend] at hadds

theorem pure (a : α) : Tells P (pure a) := fun _ s => .refl P s.emissions

theorem throw (halt : Halt) : Tells P (throw halt : Job α) := fun _ s => .refl P s.emissions

theorem get : Tells P (get : Job Session) := fun _ s => .refl P s.emissions

theorem bind {x : Job α} {f : α → Job β} (hx : Tells P x) (hf : ∀ a, Tells P (f a)) :
    Tells P (x >>= f) := by
  intro host s
  have h := hx host s
  rw [Work.perform_bind]
  rcases hx : x.perform host s with ⟨halt | a, s'⟩ <;> rw [hx] at h
  · exact h
  · exact h.trans (hf a host s')

theorem modify {f : Session → Session} (h : ∀ s, (f s).emissions = s.emissions) :
    Tells P (modify f : Job PUnit) := by
  intro host s
  rw [Work.perform_modify, h s]
  exact .refl P s.emissions

theorem act {x : Act α} (h : Act.Tells P x) : Tells P (liftM x : Job α) := by
  intro host s
  rw [perform_liftM]
  exact h host s.toWorld

theorem attempt {x : Job α} (h : Tells P x) : Tells P (Work.attempt x) := by
  intro host s
  rw [Work.perform_attempt]
  exact h host s

theorem ofOutcome (x : Except Halt α) : Tells P (Work.ofOutcome x : Job α) := by
  intro host s
  rw [Work.perform_ofOutcome]
  exact .refl P s.emissions

end Tells

end Job

namespace Command

variable {P : Emission → Prop}

/-- Running a command tells that it is started, and nothing else. -/
theorem tells_run {c : Command} (h : P (.launch c)) : c.run.Tells P := by
  unfold run
  refine (Act.Tells.emit h).bind fun _ => Act.Tells.read.bind fun host =>
    Act.Tells.files.bind fun t => ?_
  rcases c.launch host t with cause | completion
  · exact Act.Tells.fail _
  · exact fun _ w => .refl P w.emissions

theorem tells_check {c : Command} (h : P (.launch c)) : c.check.Tells P := by
  unfold check
  refine (tells_run h).bind fun output => ?_
  split
  · exact Act.Tells.pure output
  · exact Act.Tells.fail _

end Command

end SymbolDocs
