import Mathlib.Tactic.SplitIfs
import SymbolDocs.CommandLine
import SymbolDocs.Proofs.Performance

/-! # Messages of the command line

What is on the second output are messages: events, diagnostics, lines about a plan, and what is said
in the end (`stderr_transcript`). A message may quote a name or what a tool has said, whatever lines
there are in it; it is known from how it begins. No event, no diagnostic and no report of a failure
begins like a message about a finished target, so that such messages come from the announcement of a
plan only (`filter_asides`, `filter_announcement`). -/

namespace SymbolDocs.CommandLine

open Work

/-! ### Messages about finished targets -/

/-- What a run says on the second output, one message for each emission and one for the end. -/
def messages (d : Display) (outcome : Except Halt Unit) (emissions : List Emission) : List String :=
  emissions.map d.onStderr ++ [farewell d outcome]

theorem stderr_transcript (d : Display) (outcome : Except Halt Unit) (emissions : List Emission) :
    (transcript d outcome emissions).stderr = String.join (messages d outcome emissions) := by
  unfold transcript messages Display.stderr
  rw [String.join_append]
  simp [String.join]

/-- A message tells that an entry of a plan is finished. -/
def isFinished (message : String) : Bool :=
  "    Finished `".toList.isPrefixOf message.toList

theorem isFinished_finishedLine (entry : PlannedTarget) :
    isFinished (finishedLine entry) = true := by
  unfold isFinished finishedLine
  simp only [String.toList_append, List.append_assoc]
  rfl

theorem isFinished_headline (d : Diagnostic) (colour : Bool) (rest : String) :
    isFinished (d.headline colour ++ rest) = false := by
  obtain ⟨severity, message, context, suggestions, location⟩ := d
  unfold isFinished Diagnostic.headline
  cases colour <;> cases severity <;>
    simp only [String.toList_append, List.append_assoc] <;>
    rfl

theorem isFinished_format (d : Diagnostic) (colour : Bool) :
    isFinished (d.format colour) = false := by
  unfold Diagnostic.format
  rw [String.append_assoc, String.append_assoc]
  exact isFinished_headline d colour _

theorem isFinished_eventLine (d : Display) (level : Level) (text : String) :
    isFinished (d.eventLine level text) = false := by
  unfold Display.eventLine
  split_ifs
  · unfold isFinished Display.label
    cases d.colour <;> cases level <;>
      simp only [Bool.false_eq_true, if_true, if_false, String.toList_append, List.append_assoc] <;>
      rfl
  · rfl

theorem isFinished_report (d : Display) (failure : Failure) :
    isFinished (report d failure) = false := by
  unfold report
  split
  · exact isFinished_format _ _
  · exact isFinished_format _ _
  · exact isFinished_format _ _
  · unfold isFinished
    simp only [String.toList_append, List.append_assoc]
    rfl

/-- An emission is no output, and does not tell that anything is finished. -/
structure Aside (d : Display) (e : Emission) : Prop where
  silent : ∀ text, e ≠ .out text
  unfinished : isFinished (d.onStderr e) = false

theorem aside_event (d : Display) (level : Level) (text : String) : Aside d (.event level text) :=
  ⟨nofun, isFinished_eventLine d level text⟩

theorem aside_launch (d : Display) (c : Command) : Aside d (.launch c) :=
  ⟨nofun, isFinished_eventLine d .debug _⟩

theorem aside_diagnostic (d : Display) (diagnostic : Diagnostic) (colour : Bool) :
    Aside d (.err (diagnostic.format colour)) :=
  ⟨nofun, isFinished_format diagnostic colour⟩

theorem stdout_append (a b : List Emission) :
    Display.stdout (a ++ b) = Display.stdout a ++ Display.stdout b := by
  unfold Display.stdout
  rw [List.map_append, String.join_append]

theorem stderr_append (d : Display) (a b : List Emission) :
    d.stderr (a ++ b) = d.stderr a ++ d.stderr b := by
  unfold Display.stderr
  rw [List.map_append, String.join_append]

/-- What is no output does not appear on the first output. -/
theorem stdout_silent : ∀ {emissions : List Emission},
    (∀ e ∈ emissions, ∀ text, e ≠ .out text) → Display.stdout emissions = ""
  | [], _ => rfl
  | e :: emissions, h => by
    have hrest := stdout_silent fun x hx => h x (List.mem_cons_of_mem e hx)
    rw [← List.singleton_append, stdout_append, hrest]
    rcases e with ⟨level, text⟩ | c | text | text
    · rfl
    · rfl
    · exact absurd rfl (h _ (List.mem_cons_self ..) text)
    · rfl

theorem stdout_asides {d : Display} {emissions : List Emission} (h : ∀ e ∈ emissions, Aside d e) :
    Display.stdout emissions = "" :=
  stdout_silent fun e he => (h e he).silent

theorem filter_asides {d : Display} {emissions : List Emission} (h : ∀ e ∈ emissions, Aside d e) :
    (emissions.map d.onStderr).filter isFinished = [] := by
  refine List.filter_eq_nil_iff.mpr fun message hmem => ?_
  obtain ⟨e, he, rfl⟩ := List.mem_map.mp hmem
  simp [(h e he).unfinished]

theorem filter_messages_of_failed {d : Display} {emissions : List Emission} (failure : Failure)
    (h : ∀ e ∈ emissions, Aside d e) :
    (messages d (.error (.failed failure)) emissions).filter isFinished = [] := by
  unfold messages
  rw [List.filter_append, filter_asides h]
  simp [farewell, isFinished_report]

/-! ### What is told about a plan -/

/-- The line about the file of a plan. -/
def planLine (ws : Workspace) : String :=
  "        Plan " ++ ws.scratch.plan.text ++ "\n"

/-- What is told about a plan. -/
def announcement (ws : Workspace) (plan : Plan) (emitPlan : Bool) : List Emission :=
  if emitPlan then [.out (plan.text ++ "\n")]
  else plan.targets.map (fun entry => .err (finishedLine entry)) ++ [.err (planLine ws)]

theorem perform_announce (ws : Workspace) (plan : Plan) (emitPlan : Bool) (host : Host)
    (w : World) :
    (announce ws plan emitPlan).perform host w =
      (.ok ⟨⟩, { w with emissions := w.emissions ++ announcement ws plan emitPlan }) := by
  unfold announce announcement
  split_ifs
  · rfl
  · rw [perform_bind, Act.perform_forIn_emit]
    simp only
    rw [Act.perform_emit, List.append_assoc]
    rfl

theorem stdout_announcement (ws : Workspace) (plan : Plan) (emitPlan : Bool) :
    Display.stdout (announcement ws plan emitPlan) =
      if emitPlan then plan.text ++ "\n" else "" := by
  unfold announcement
  split_ifs
  · simp [Display.stdout, String.join]
  · refine stdout_silent fun e he text => ?_
    rcases List.mem_append.mp he with he | he
    · obtain ⟨entry, -, rfl⟩ := List.mem_map.mp he
      exact nofun
    · rw [List.mem_singleton.mp he]
      exact nofun

theorem onStderr_finished (d : Display) (plan : Plan) :
    (plan.targets.map fun entry => Emission.err (finishedLine entry)).map d.onStderr =
      plan.targets.map finishedLine := by
  rw [List.map_map]
  rfl

theorem stderr_announcement (d : Display) (ws : Workspace) (plan : Plan) (emitPlan : Bool) :
    d.stderr (announcement ws plan emitPlan) =
      if emitPlan then "" else String.join (plan.targets.map finishedLine) ++ planLine ws := by
  unfold announcement Display.stderr
  split_ifs
  · rfl
  · rw [List.map_append, onStderr_finished, String.join_append]
    rfl

theorem filter_announcement (d : Display) (ws : Workspace) (plan : Plan) (emitPlan : Bool) :
    ((announcement ws plan emitPlan).map d.onStderr).filter isFinished =
      if emitPlan then [] else plan.targets.map finishedLine := by
  unfold announcement
  split_ifs
  · rfl
  · have hplan : isFinished (planLine ws) = false := by
      unfold isFinished planLine
      simp only [String.toList_append, List.append_assoc]
      rfl
    have hlines : (plan.targets.map finishedLine).filter isFinished =
        plan.targets.map finishedLine := by
      refine List.filter_eq_self.mpr fun message hmem => ?_
      obtain ⟨entry, -, rfl⟩ := List.mem_map.mp hmem
      exact isFinished_finishedLine entry
    rw [List.map_append, List.filter_append, onStderr_finished, hlines]
    simp [Display.onStderr, Emission.logged?, hplan]

/-! ### What is quoted -/

/-- The text of a failure ends with that of its cause. -/
theorem message_endsWith (context : List String) (cause : Cause) :
    ∃ before, Failure.message ⟨context, cause⟩ = before ++ cause.message := by
  unfold Failure.message
  induction context with
  | nil => exact ⟨"", by simp⟩
  | cons purpose context ih =>
    obtain ⟨before, hbefore⟩ := ih
    rcases hcontext : context ++ [cause.message] with _ | ⟨next, rest⟩
    · simp at hcontext
    · refine ⟨purpose ++ ": " ++ before, ?_⟩
      rw [List.cons_append, hcontext, String.intercalate_cons_cons, ← hcontext, hbefore]
      simp only [String.append_assoc]

/-- What a tool has said is quoted in the report of its failure. -/
theorem report_quotes (d : Display) (context : List String) (command : String) (status : ExitStatus)
    (said : String) : ∃ before after, report d ⟨context, .toolFailed command status said⟩ =
      before ++ "\n" ++ said ++ "\n" ++ after := by
  obtain ⟨before, hbefore⟩ := message_endsWith context (.toolFailed command status said)
  have hmessage : Cause.message (.toolFailed command status said) =
      "`" ++ command ++ "` failed with exit code " ++ status.shown ++ "\n" ++ said := rfl
  obtain ⟨hint, hreport⟩ : ∃ hint, report d ⟨context, .toolFailed command status said⟩ =
      "error: " ++ Failure.message ⟨context, .toolFailed command status said⟩ ++ "\n" ++ hint :=
    ⟨_, rfl⟩
  refine ⟨"error: " ++ before ++ ("`" ++ command ++ "` failed with exit code " ++ status.shown),
    hint, ?_⟩
  rw [hreport, hbefore, hmessage]
  simp only [String.append_assoc]

/-- What the tool has said that has failed, if a run fails for this reason. -/
def complaint? : Except Halt Unit → Option String
  | .error (.failed ⟨_, .toolFailed _ _ said⟩) => some said
  | _ => none

/-- A tool that has failed is quoted on the second output. -/
theorem transcript_quotes {d : Display} {outcome : Except Halt Unit} {said : String}
    (h : complaint? outcome = some said) (emissions : List Emission) :
    (transcript d outcome emissions).exitCode = 1 ∧ ∃ before after,
      (transcript d outcome emissions).stderr = before ++ "\n" ++ said ++ "\n" ++ after := by
  unfold complaint? at h
  split at h <;> cases h
  rename_i context command status
  obtain ⟨before, after, hreport⟩ := report_quotes d context command status said
  refine ⟨rfl, d.stderr emissions ++ before, after, ?_⟩
  unfold transcript farewell
  simp only
  rw [hreport]
  simp only [String.append_assoc]

end SymbolDocs.CommandLine
