import Mathlib.Data.List.Basic
import SymbolDocs.Selection.Error

/-! # Diagnostics with colours and without

A terminal takes what begins with an escape and a bracket as a control sequence, and shows the rest
(`shown`). What a text shows, whatever follows it, is the text itself if there is no escape in it
(`Plain.shows`), and the bare word for a word in colour; so a diagnostic in colours shows the same as
the plain one (`shows_format`), which is the text of its lines (`format_eq`). For the cause of a failed
selection the first of them is the text of the error (`title_eq_message`), and the names it carries
stand in another (`context_listed`). -/

namespace SymbolDocs

namespace Diagnostic

variable {a b x y : String} {cs rest : List Char}

/-! ### What a terminal shows -/

/-- A character that may begin the inside of a control sequence, from `0` to `?`. -/
def isParameter (c : Char) : Bool :=
  '0' ≤ c && c ≤ '?'

/-- A character that may follow the parameters of a control sequence, from the blank to `/`. -/
def isIntermediate (c : Char) : Bool :=
  ' ' ≤ c && c ≤ '/'

/-- A character that ends a control sequence, from `@` to `~`. -/
def isFinal (c : Char) : Bool :=
  '@' ≤ c && c ≤ '~'

/-- What follows a control sequence, its escape and its bracket left out; `none` if it breaks off. -/
def afterSequence? (cs : List Char) : Option (List Char) :=
  match (cs.dropWhile isParameter).dropWhile isIntermediate with
  | [] => none
  | c :: rest => if isFinal c then some rest else none

theorem length_afterSequence? (h : afterSequence? cs = some rest) : rest.length < cs.length := by
  have hle := ((List.dropWhile_sublist isIntermediate).trans
    (List.dropWhile_sublist (l := cs) isParameter)).length_le
  unfold afterSequence? at h
  split at h
  · cases h
  · rename_i heq
    rw [heq] at hle
    split at h
    · cases h
      exact hle
    · cases h

/-- The characters of a text that are outside of control sequences. -/
def shown : List Char → List Char
  | [] => []
  | '\x1b' :: '[' :: cs =>
    match _ : afterSequence? cs with
    | some rest => shown rest
    | none => '\x1b' :: shown ('[' :: cs)
  | c :: cs => c :: shown cs
termination_by cs => cs.length
decreasing_by
  · have := length_afterSequence? ‹_›
    simp only [List.length_cons]
    omega
  · simp only [List.length_cons]
    omega
  · simp only [List.length_cons]
    omega

theorem shown_nil : shown [] = [] := by
  rw [shown]

theorem shown_cons {c : Char} (h : c ≠ '\x1b') (cs : List Char) : shown (c :: cs) = c :: shown cs := by
  rw [shown]
  rintro _ hc
  exact absurd hc h

theorem shown_sequence (h : afterSequence? cs = some rest) :
    shown ('\x1b' :: '[' :: cs) = shown rest := by
  rw [shown]
  split
  · rename_i heq
    rw [h] at heq
    cases heq
    rfl
  · rename_i heq
    rw [h] at heq
    cases heq

/-- There is no escape in the text. -/
def Plain (s : String) : Prop :=
  '\x1b' ∉ s.toList

instance (s : String) : Decidable (Plain s) :=
  inferInstanceAs (Decidable ('\x1b' ∉ s.toList))

theorem Plain.append (ha : Plain a) (hb : Plain b) : Plain (a ++ b) := by
  unfold Plain
  rw [String.toList_append, List.mem_append, not_or]
  exact ⟨ha, hb⟩

theorem plain_join {l : List String} (h : ∀ s ∈ l, Plain s) : Plain (String.join l) := by
  unfold Plain
  rw [String.toList_join, List.mem_flatMap]
  rintro ⟨s, hs, hmem⟩
  exact h s hs hmem

theorem plain_toString (n : Nat) : Plain (toString n) := by
  intro hmem
  rw [Nat.toString_eq_repr, Nat.toList_repr] at hmem
  exact absurd (Nat.isDigit_of_mem_toDigits (by decide) (by decide) hmem) (by decide)

/-- A text shows as another one, whatever follows it. -/
def Shows (a b : String) : Prop :=
  ∀ rest, shown (a.toList ++ rest) = b.toList ++ shown rest

theorem Shows.eq (h : Shows a b) : shown a.toList = b.toList := by
  have := h []
  rwa [List.append_nil, shown_nil, List.append_nil] at this

theorem Shows.append (hx : Shows a x) (hy : Shows b y) : Shows (a ++ b) (x ++ y) := by
  intro rest
  rw [String.toList_append, String.toList_append, List.append_assoc, List.append_assoc, hx, hy]

theorem shown_append : ∀ {cs : List Char}, '\x1b' ∉ cs →
    ∀ rest, shown (cs ++ rest) = cs ++ shown rest
  | [], _, _ => rfl
  | c :: cs, h, rest => by
    rw [List.mem_cons, not_or] at h
    rw [List.cons_append, shown_cons (Ne.symm h.1), shown_append h.2 rest, List.cons_append]

/-- A text without escapes shows as it is. -/
theorem Plain.shows (h : Plain a) : Shows a a :=
  shown_append h

/-- A word between a control sequence and the one that ends it shows as the word. -/
theorem Plain.shows_coloured (h : ∀ rest, afterSequence? (x.toList ++ rest) = some rest)
    (ha : Plain a) : Shows ("\x1b[" ++ x ++ a ++ "\x1b[0m") a := by
  intro rest
  simp only [String.toList_append, List.append_assoc]
  calc shown ('\x1b' :: '[' :: (x.toList ++ (a.toList ++ ('\x1b' :: '[' :: '0' :: 'm' :: rest))))
      = shown (a.toList ++ ('\x1b' :: '[' :: '0' :: 'm' :: rest)) := shown_sequence (h _)
    _ = a.toList ++ shown ('\x1b' :: '[' :: '0' :: 'm' :: rest) := ha.shows _
    _ = a.toList ++ shown rest := by
      rw [shown_sequence (show afterSequence? ('0' :: 'm' :: rest) = some rest from rfl)]

/-! ### The two forms -/

/-- The texts that are put into a diagnostic from outside. -/
def texts (d : Diagnostic) : List String :=
  d.message :: (d.location.toList.map Path.text ++ d.context ++ d.suggestions)

/-- The lines of a diagnostic, without colours. -/
def lines (d : Diagnostic) : List String :=
  [d.severity.word ++ ": " ++ d.message] ++
    (d.location.toList.map fun path => "  --> " ++ path.text) ++
    (d.context.map fun line => "  = " ++ line) ++
    if d.suggestions = [] then [] else
      ["", "help: consider:"] ++
        d.suggestions.mapIdx fun i s => "  " ++ toString (i + 1) ++ ". " ++ s

/-- Lines as a text, each with its end. -/
def ended (lines : List String) : String :=
  String.join (lines.map (· ++ "\n"))

theorem ended_append (l m : List String) : ended (l ++ m) = ended l ++ ended m := by
  rw [ended, List.map_append, String.join_append, ended, ended]

theorem ended_cons (s : String) (l : List String) : ended (s :: l) = s ++ "\n" ++ ended l := by
  rw [ended, List.map_cons, String.join_cons, ended]

theorem numbered_eq : ∀ (n : Nat) (l : List String),
    numbered n l = ended (l.mapIdx fun i s => "  " ++ toString (i + n) ++ ". " ++ s)
  | _, [] => rfl
  | n, s :: l => by
    have hnext : ∀ i, i + 1 + n = i + (n + 1) := fun i => by omega
    rw [numbered, numbered_eq (n + 1) l, List.mapIdx_cons, ended_cons, Nat.zero_add]
    simp only [hnext]

/-- The plain form of a diagnostic is the text of its lines. -/
theorem format_eq (d : Diagnostic) : d.format false = ended d.lines := by
  obtain ⟨severity, message, context, suggestions, location⟩ := d
  simp only [lines, ended_append, format, headline, help]
  congr 1
  · congr 1
    · congr 1
      cases location <;> rfl
    · simp only [ended, List.map_map]
      rfl
  · cases suggestions with
    | nil => rfl
    | cons s l =>
      rw [if_neg (List.cons_ne_nil s l), numbered_eq, ended_append]
      rfl

theorem shows_severityText (s : Severity) : Shows (severityText true s) (severityText false s) := by
  cases s
  · exact Plain.shows_coloured (x := "1;31m") (a := "error") (fun _ => rfl) (by decide)
  · exact Plain.shows_coloured (x := "1;33m") (a := "warning") (fun _ => rfl) (by decide)

theorem shows_helpText : Shows (helpText true) (helpText false) :=
  Plain.shows_coloured (x := "1;32m") (a := "help") (fun _ => rfl) (by decide)

theorem plain_numbered : ∀ {n : Nat} {l : List String}, (∀ s ∈ l, Plain s) → Plain (numbered n l)
  | _, [], _ => show Plain "" by decide
  | n, s :: l, h => by
    rw [List.forall_mem_cons] at h
    rw [numbered]
    exact ((((Plain.append (by decide) (plain_toString n)).append (by decide)).append h.1).append
      (by decide)).append (plain_numbered h.2)

/-- A diagnostic in colours shows as the plain one. -/
theorem shows_format (d : Diagnostic) (h : ∀ s ∈ d.texts, Plain s) :
    Shows (d.format true) (d.format false) := by
  obtain ⟨severity, message, context, suggestions, location⟩ := d
  simp only [texts, List.forall_mem_cons, List.forall_mem_append, List.forall_mem_map] at h
  obtain ⟨hmessage, ⟨hlocation, hcontext⟩, hsuggestions⟩ := h
  have plain : ∀ s, Plain s → Shows s s := fun s => Plain.shows
  refine (((?headline : Shows _ _).append ?location).append ?context).append ?help
  case headline =>
    exact (((shows_severityText severity).append (plain ": " (by decide))).append
      hmessage.shows).append (plain "\n" (by decide))
  case location =>
    cases location with
    | none => exact plain "" (by decide)
    | some path =>
      have hpath : Plain path.text := hlocation path (Option.mem_toList.2 rfl)
      exact (((show Plain "  --> " by decide).append hpath).append (by decide)).shows
  case context =>
    refine (plain_join fun s hs => ?_).shows
    obtain ⟨line, hline, rfl⟩ := List.mem_map.1 hs
    exact ((show Plain "  = " by decide).append (hcontext line hline)).append (by decide)
  case help =>
    cases suggestions with
    | nil => exact plain "" (by decide)
    | cons s l =>
      exact (((plain "\n" (by decide)).append shows_helpText).append
        (plain ": consider:\n" (by decide))).append (plain_numbered hsuggestions).shows

end Diagnostic

/-! ### Selections that fail -/

namespace SelectionError

variable {e : SelectionError} {names : List String}

theorem title_eq_message (e : SelectionError) : e.title = e.message := by
  cases e <;> rfl

/-- What the lists of names are headed with. -/
def headings : List String :=
  ["compatible products", "products with documentable targets", "compatible targets",
   "documentable targets"]

/-- The names of a list with commas between them. -/
def listed (names : List String) : String :=
  if names = [] then "(none)" else ", ".intercalate names

theorem listing_eq (names : List String) : listing names = listed names := by
  cases names <;> rfl

theorem context_listed (h : e.alternatives = some names) :
    ∃ heading ∈ headings, heading ++ ": " ++ listed names ∈ e.context := by
  rw [← listing_eq]
  cases e <;> cases h
  · exact ⟨"compatible products", by decide, List.mem_cons_self⟩
  · exact ⟨"products with documentable targets", by decide, List.mem_cons_of_mem _ List.mem_cons_self⟩
  · exact ⟨"compatible targets", by decide, List.mem_cons_self⟩
  · exact ⟨"documentable targets", by decide, List.mem_cons_of_mem _ List.mem_cons_self⟩
  · exact ⟨"documentable targets", by decide, List.mem_cons_self⟩

theorem format_diagnostic (e : SelectionError) :
    ∃ rest, e.diagnostic.format false = "error: " ++ e.message ++ "\n" ++ rest := by
  rw [Diagnostic.format_eq, ← title_eq_message]
  refine ⟨Diagnostic.ended (e.diagnostic.lines.drop 1), ?_⟩
  exact Diagnostic.ended_cons _ _

end SelectionError

open Diagnostic SelectionError in
/-- **The two forms of a diagnostic, and the diagnostic of a selection that fails.** With colours a
diagnostic shows the same as without, if no text in it has an escape; without colours it is the text of
its lines. The diagnostic of a selection that fails begins with the text of the error and lists the
names that the error carries. -/
theorem diagnostic_forms (d : Diagnostic) (e : SelectionError) :
    ((∀ s ∈ d.texts, '\x1b' ∉ s.toList) →
        shown (d.format true).toList = (d.format false).toList) ∧
      d.format false = String.join (d.lines.map (· ++ "\n")) ∧
      (∃ rest, e.diagnostic.format false = "error: " ++ e.message ++ "\n" ++ rest) ∧
      ∀ names, e.alternatives = some names → ∃ heading ∈ headings,
        "  = " ++ (heading ++ ": " ++ if names = [] then "(none)" else ", ".intercalate names) ∈
          e.diagnostic.lines := by
  refine ⟨fun h => (shows_format d h).eq, format_eq d, format_diagnostic e, fun names h => ?_⟩
  obtain ⟨heading, hheading, hmem⟩ := context_listed h
  refine ⟨heading, hheading, ?_⟩
  have hline : "  = " ++ (heading ++ ": " ++ listed names) ∈
      e.diagnostic.context.map fun line => "  = " ++ line :=
    List.mem_map_of_mem hmem
  exact List.mem_append_left _ (List.mem_append_right _ hline)

/-- The diagnostic of a product that is not there, with a path. -/
def missingProduct (names : List String) : Diagnostic :=
  { (SelectionError.unknownProduct "Core" names).diagnostic with location := some ⟨"Graphdoc.toml"⟩ }

/-- A product that is not there, in a package with two products. -/
theorem diagnostic_forms_unknownProduct :
    Diagnostic.shown ((missingProduct ["Kit", "Shop"]).format true).toList =
        ((missingProduct ["Kit", "Shop"]).format false).toList ∧
      (missingProduct ["Kit", "Shop"]).format false =
        String.join ((missingProduct ["Kit", "Shop"]).lines.map (· ++ "\n")) ∧
      (missingProduct ["Kit", "Shop"]).lines =
        ["error: no product named `Core`", "  --> Graphdoc.toml",
          "  = compatible products: Kit, Shop", "", "help: consider:",
          "  1. Check that the product name is spelled correctly",
          "  2. Run `graphdoc targets` to see documentable targets and products"] ∧
      ∃ heading ∈ SelectionError.headings, "  = " ++ (heading ++ ": " ++ "Kit, Shop") ∈
        (SelectionError.unknownProduct "Core" ["Kit", "Shop"]).diagnostic.lines := by
  obtain ⟨hshown, hlines, -, hlisted⟩ := diagnostic_forms (missingProduct ["Kit", "Shop"])
    (.unknownProduct "Core" ["Kit", "Shop"])
  refine ⟨hshown (by decide), hlines, by decide +kernel, ?_⟩
  obtain ⟨heading, hheading, hline⟩ := hlisted _ rfl
  exact ⟨heading, hheading, by simpa using hline⟩

end SymbolDocs
