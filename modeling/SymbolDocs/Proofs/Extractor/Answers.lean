import SymbolDocs.Proofs.Command.Writer
import SymbolDocs.Proofs.Extractor.Program

/-! # Answers of the extractor

Questions come one after the other, and anything may happen to the files and to the program in
between. An answer for a package is kept once there is one, and a failure is not
(`lookup_memory_iff`), so that the program ends well at most once for a package
(`not_exits_again`). -/

namespace SymbolDocs

namespace Command

/-- A command can be run, and it ends well. -/
def endsWell (c : Command) (host : Host) (t : FileTree) : Bool :=
  match c.launch host t with
  | .ok done => done.status.succeeded
  | .error _ => false

theorem check_ok_iff {c : Command} {host : Host} {w : World} :
    (∃ output, (c.check.perform host w).1 = .ok output) ↔
      c.endsWell host w.files = true := by
  unfold check endsWell
  rw [Work.perform_bind, perform_run]
  rcases c.launch host w.files with cause | done
  · exact ⟨nofun, nofun⟩
  · simp only
    split_ifs with h
    · exact ⟨fun _ => h, fun _ => ⟨_, rfl⟩⟩
    · exact ⟨nofun, fun h' => absurd h' h⟩

end Command

namespace Extractor

open Work

/-! ### Questions and replies -/

/-- What the extractor is asked, and how things are when it is asked. -/
structure Question where
  host : Host
  session : Session
  package : Package
  target : Target

/-- The outcome of a question and the session after it, with some answers kept from before. -/
def reply (x : Extractor) (kept : List (String × Option Path)) (q : Question) :
    Except Halt (Option Path) × Session :=
  (x.ask q.package q.target).perform q.host { q.session with snippetGraphs := kept }

/-- The answers that are kept after some questions. -/
def memory (x : Extractor) (history : List Question) : List (String × Option Path) :=
  history.foldl (fun kept q => (x.reply kept q).2.snippetGraphs) []

variable {x : Extractor} {kept : List (String × Option Path)} {q : Question} {history : List Question}
  {name : String} {r : Option Path}

theorem memory_concat :
    x.memory (history ++ [q]) = (x.reply (x.memory history) q).2.snippetGraphs :=
  List.foldl_concat ..

/-- An answer that is kept is given again, and nothing else is done. -/
theorem reply_of_kept (hx : x.keeps = true) (h : kept.lookup q.package.name = some r) :
    x.reply kept q = (.ok r,
      { q.session with
        emissions := q.session.emissions ++ [.event .debug ("reusing snippet graph of `" ++
          q.package.name ++ "` for `" ++ q.target.name ++ "`")]
        snippetGraphs := kept }) := by
  unfold reply ask
  rw [hx]
  simp only [Bool.not_true, Bool.false_eq_true, if_false]
  rw [perform_bind, perform_get]
  simp only [h]
  rfl

/-- What is kept after an outcome: an answer is kept, and a failure is not. -/
def keep (name : String) (kept : List (String × Option Path)) :
    Except Halt (Option Path) → List (String × Option Path)
  | .ok r => (name, r) :: kept
  | .error _ => kept

/-- Without an answer that is kept one is looked for. -/
theorem reply_of_new (hx : x.keeps = true) (h : kept.lookup q.package.name = none) :
    x.reply kept q =
      (((x.answer q.package q.target).perform q.host q.session.toWorld).1,
        { q.session with
          toWorld := ((x.answer q.package q.target).perform q.host q.session.toWorld).2
          snippetGraphs := keep q.package.name kept
            ((x.answer q.package q.target).perform q.host q.session.toWorld).1 }) := by
  unfold reply ask
  rw [hx]
  simp only [Bool.not_true, Bool.false_eq_true, if_false]
  rw [perform_bind, perform_get]
  simp only [h]
  rw [perform_bind, Job.perform_liftM]
  rcases (x.answer q.package q.target).perform q.host q.session.toWorld with ⟨_ | _, _⟩ <;> rfl

/-! ### What is kept -/

/-- What is kept stays when an answer is added for a package that has none. -/
theorem lookup_cons_of_none {other : String} {answer : Option Path}
    (hnone : kept.lookup name = none) (h : kept.lookup other = some r) :
    ((name, answer) :: kept).lookup other = some r := by
  have hne : other ≠ name := by
    rintro rfl
    rw [hnone] at h
    cases h
  rw [List.lookup_cons, beq_eq_false_iff_ne.mpr hne]
  exact h

theorem kept_of_new (hx : x.keeps = true) (h : kept.lookup q.package.name = none) :
    (x.reply kept q).2.snippetGraphs = keep q.package.name kept (x.reply kept q).1 := by
  rw [reply_of_new hx h]

theorem kept_of_error (hx : x.keeps = true) {halt : Halt} (h : (x.reply kept q).1 = .error halt) :
    (x.reply kept q).2.snippetGraphs = kept := by
  rcases hk : kept.lookup q.package.name with _ | r
  · rw [kept_of_new hx hk, h]
    rfl
  · rw [reply_of_kept hx hk]

theorem lookup_of_ok (hx : x.keeps = true) (h : (x.reply kept q).1 = .ok r) :
    (x.reply kept q).2.snippetGraphs.lookup q.package.name = some r := by
  rcases hk : kept.lookup q.package.name with _ | r'
  · rw [kept_of_new hx hk, h]
    exact List.lookup_cons_self
  · rw [reply_of_kept hx hk] at h ⊢
    cases h
    exact hk

/-- A question for another package makes no difference. -/
theorem lookup_of_ne (hx : x.keeps = true) (h : name ≠ q.package.name) :
    (x.reply kept q).2.snippetGraphs.lookup name = kept.lookup name := by
  rcases hk : kept.lookup q.package.name with _ | r
  · rw [kept_of_new hx hk]
    rcases (x.reply kept q).1 with halt | r
    · rfl
    · rw [keep, List.lookup_cons, beq_eq_false_iff_ne.mpr h]
  · rw [reply_of_kept hx hk]

/-- What is kept for a package after a question. -/
theorem lookup_reply (hx : x.keeps = true) :
    (x.reply kept q).2.snippetGraphs.lookup name = some r ↔
      kept.lookup name = some r ∨ q.package.name = name ∧ (x.reply kept q).1 = .ok r := by
  by_cases hname : q.package.name = name
  · subst hname
    rcases hk : kept.lookup q.package.name with _ | r'
    · rcases ho : (x.reply kept q).1 with halt | r'
      · simp [kept_of_error hx ho, hk]
      · simp [lookup_of_ok hx ho]
    · simp [reply_of_kept hx hk, hk]
  · rw [lookup_of_ne hx (Ne.symm hname)]
    simp [hname]

/-- A question for a package has had an answer. -/
def Answered (x : Extractor) (history : List Question) (name : String) (r : Option Path) : Prop :=
  ∃ earlier a later, history = earlier ++ a :: later ∧ a.package.name = name ∧
    (x.reply (x.memory earlier) a).1 = .ok r

/-- **An answer is kept for a package just if a question for it has had this answer.** -/
theorem lookup_memory_iff (hx : x.keeps = true) :
    (x.memory history).lookup name = some r ↔ x.Answered history name r := by
  unfold Answered
  induction history using List.reverseRecOn with
  | nil =>
    refine ⟨nofun, ?_⟩
    rintro ⟨earlier, a, later, h, -, -⟩
    simp at h
  | append_singleton history q ih =>
    rw [memory_concat, lookup_reply hx, ih]
    constructor
    · rintro (⟨earlier, a, later, rfl, hname, ha⟩ | ⟨hname, hq⟩)
      · exact ⟨earlier, a, later ++ [q], by simp, hname, ha⟩
      · exact ⟨history, q, [], rfl, hname, hq⟩
    · rintro ⟨earlier, a, later, h, hname, ha⟩
      rcases List.eq_nil_or_concat later with rfl | ⟨later, b, rfl⟩
      · obtain ⟨rfl, hq⟩ := List.append_inj' h rfl
        cases hq
        exact .inr ⟨hname, ha⟩
      · rw [List.concat_eq_append, ← List.cons_append, ← List.append_assoc] at h
        exact .inl ⟨earlier, a, later, (List.append_inj' h rfl).1, hname, ha⟩

/-! ### Runs of the program -/

/-- There are snippets, and the program ends well if it is run for them. -/
def exitsWell (program : Path) (directory : String) (scratch : Scratch) (package : Package)
    (host : Host) (t : FileTree) : Bool :=
  !(listed directory package host.directory t).isEmpty &&
    match (makeRoom scratch package.name host.directory).apply t with
    | (.ok _, u) =>
      (listedCommand program directory scratch package host.directory t).endsWell host u
    | (.error _, _) => false

theorem runFor_ok_iff {package : Package} {output : Path} {number : Nat} {c : Command} {host : Host}
    {w : World} :
    (∃ r, ((runFor package output number c).perform host w).1 = .ok r) ↔
      c.endsWell host w.files = true := by
  rw [show w.files = (announced package number w).files from rfl, ← Command.check_ok_iff, perform_runFor]
  rcases c.check.perform host (announced package number w) with ⟨(f | m) | out, w1⟩
  · exact ⟨nofun, nofun⟩
  · exact ⟨nofun, nofun⟩
  · exact ⟨fun _ => ⟨_, rfl⟩, fun _ => ⟨_, (perform_found host w1 package output).1⟩⟩

/-- **An extraction succeeds just if there are no snippets or the program ends well.** -/
theorem extract_ok_iff {program : Path} {directory : String} {scratch : Scratch} {package : Package}
    {host : Host} {w : World} :
    (∃ r, ((extract program directory scratch package).perform host w).1 = .ok r) ↔
      listed directory package host.directory w.files = [] ∨
        exitsWell program directory scratch package host w.files = true := by
  rw [perform_extract]
  unfold exitsWell
  rcases hl : listed directory package host.directory w.files with _ | ⟨a, l⟩
  · exact ⟨fun _ => .inl rfl, fun _ => ⟨none, rfl⟩⟩
  · simp only [List.isEmpty_cons, Bool.false_eq_true, if_false, Bool.not_false, Bool.true_and,
      reduceCtorEq, false_or]
    rw [perform_bind, Act.perform_edit]
    rcases (makeRoom scratch package.name host.directory).apply w.files with ⟨e | ⟨⟩, u⟩
    · exact ⟨nofun, nofun⟩
    · exact runFor_ok_iff

/-- In answering a question the program is started, and it ends well. -/
def Exits (program : Path) (directory : String) (scratch : Scratch)
    (kept : List (String × Option Path)) (q : Question) : Prop :=
  (∃ c, .launch c ∈ ((ofProgram program directory scratch).reply kept q).2.emissions.drop
    q.session.emissions.length) ∧
  exitsWell program directory scratch q.package q.host q.session.files = true

variable {program : Path} {directory : String} {scratch : Scratch}

/-- The program is not started if there is an answer. -/
theorem lookup_of_exits (h : Exits program directory scratch kept q) :
    kept.lookup q.package.name = none := by
  rcases hk : kept.lookup q.package.name with _ | r
  · rfl
  obtain ⟨⟨c, hc⟩, -⟩ := h
  rw [reply_of_kept rfl hk] at hc
  simp at hc

theorem extract_of_new (h : kept.lookup q.package.name = none) :
    (((ofProgram program directory scratch).reply kept q).1,
      ((ofProgram program directory scratch).reply kept q).2.toWorld) =
      (extract program directory scratch q.package).perform q.host q.session.toWorld := by
  rw [reply_of_new rfl h]
  rfl

/-- There is an answer once the program has ended well. -/
theorem ok_of_exits (h : Exits program directory scratch kept q) :
    ∃ r, ((ofProgram program directory scratch).reply kept q).1 = .ok r := by
  rw [congrArg Prod.fst (extract_of_new (lookup_of_exits h))]
  exact extract_ok_iff.mpr (.inr h.2)

/-- As long as there is no answer for a package, each question for it makes the extractor try. -/
theorem extract_of_unanswered
    (h : ∀ r, ¬(ofProgram program directory scratch).Answered history q.package.name r) :
    (((ofProgram program directory scratch).reply
        ((ofProgram program directory scratch).memory history) q).1,
      ((ofProgram program directory scratch).reply
        ((ofProgram program directory scratch).memory history) q).2.toWorld) =
      (extract program directory scratch q.package).perform q.host q.session.toWorld := by
  refine extract_of_new (Option.eq_none_iff_forall_ne_some.mpr fun r hr => ?_)
  exact h r ((lookup_memory_iff rfl).mp hr)

/-- **The program ends well at most once for a package.** -/
theorem not_exits_again {earlier later : List Question} {a : Question}
    (hname : a.package.name = q.package.name)
    (ha : Exits program directory scratch
      ((ofProgram program directory scratch).memory earlier) a) :
    ¬Exits program directory scratch
      ((ofProgram program directory scratch).memory (earlier ++ a :: later)) q := by
  intro hq
  obtain ⟨r, hr⟩ := ok_of_exits ha
  have hkept := (lookup_memory_iff (x := ofProgram program directory scratch) rfl).mpr
    ⟨earlier, a, later, rfl, hname, hr⟩
  rw [lookup_of_exits hq] at hkept
  cases hkept

end Extractor

end SymbolDocs
