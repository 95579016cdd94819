import SymbolDocs.Json

/-! # Texts that say one value only

The text of a JSON value shows where it ends: no other value has a text that begins in the same way
and goes on differently (`write_told`). For a character between quotes this is so because it can be
read back (`unescape?_escape`); for an array or an object because after each member there is a comma,
and after the last one the beginning of a line. So the text of a value is that of no other one
(`pretty_inj`). -/

namespace SymbolDocs.Json

variable {c d : Char} {r s : List Char} {depth : Nat}

/-! ### Characters -/

/-- The control that a letter after a backslash stands for. -/
def control? : Char → Option Char
  | '"' => some '"'
  | '\\' => some '\\'
  | 'b' => some '\x08'
  | 'f' => some '\x0c'
  | 'n' => some '\n'
  | 'r' => some '\r'
  | 't' => some '\t'
  | _ => none

/-- The first character of a text between quotes, and the rest of the text. -/
def unescape? : List Char → Option (Char × List Char)
  | '\\' :: 'u' :: '0' :: '0' :: high :: low :: rest => do
    return (Char.ofNat (16 * (← Text.hexValue? high) + (← Text.hexValue? low)), rest)
  | '\\' :: letter :: rest => return (← control? letter, rest)
  | c :: rest => some (c, rest)
  | [] => none

theorem unescape?_of_ne (h : c ≠ '\\') : unescape? (c :: r) = some (c, r) := by
  unfold unescape?
  split
  · rename_i heq; exact absurd (List.cons.inj heq).1 h
  · rename_i heq; exact absurd (List.cons.inj heq).1 h
  · rename_i heq; cases heq; rfl
  · rename_i heq; cases heq

/-- A character is read back from the way it is written. -/
theorem unescape?_escape (c : Char) (r : List Char) : unescape? (escape c ++ r) = some (c, r) := by
  unfold escape
  split
  any_goals rfl
  rename_i hquote hbackslash _ _ _ _ _
  by_cases hcontrol : c.toNat < 32
  · rw [if_pos hcontrol]
    have high := Text.hexValue?_hexDigit (c.toNat / 16) (by omega)
    have low := Text.hexValue?_hexDigit (c.toNat % 16) (by omega)
    have hc : Char.ofNat (16 * (c.toNat / 16) + c.toNat % 16) = c := by
      rw [Nat.div_add_mod]
      exact Char.ofNat_toNat c
    simp [unescape?, high, low, hc]
  · rw [if_neg hcontrol]
    exact unescape?_of_ne hbackslash

theorem escape_told (h : escape c ++ r = escape d ++ s) : c = d ∧ r = s := by
  have hread := unescape?_escape c r
  rw [h, unescape?_escape d s] at hread
  cases hread
  exact ⟨rfl, rfl⟩

/-- No character is written in a way that begins with a quote. -/
theorem escape_ne_quote (c : Char) (r s : List Char) : escape c ++ r ≠ '"' :: s := by
  unfold escape
  split
  any_goals simp
  rename_i hquote _ _ _ _ _ _
  split
  · simp
  · simpa using fun h => absurd h hquote

/-! ### Texts -/

theorem escapes_told : ∀ {a b : List Char} {r s : List Char},
    a.flatMap escape ++ '"' :: r = b.flatMap escape ++ '"' :: s → a = b ∧ r = s
  | [], [], _, _, h => ⟨rfl, (List.cons.inj h).2⟩
  | [], d :: b, _, _, h => by
    rw [List.flatMap_cons, List.append_assoc] at h
    exact absurd h.symm (escape_ne_quote d _ _)
  | c :: a, [], _, _, h => by
    rw [List.flatMap_cons, List.append_assoc] at h
    exact absurd h (escape_ne_quote c _ _)
  | c :: a, d :: b, _, _, h => by
    rw [List.flatMap_cons, List.flatMap_cons, List.append_assoc, List.append_assoc] at h
    obtain ⟨rfl, hrest⟩ := escape_told h
    obtain ⟨rfl, rfl⟩ := escapes_told hrest
    exact ⟨rfl, rfl⟩

theorem quote_told {a b : String} (h : quote a ++ r = quote b ++ s) : a = b ∧ r = s := by
  simp only [quote, List.append_assoc, List.cons_append, List.nil_append, List.cons.injEq,
    true_and] at h
  obtain ⟨hab, rfl⟩ := escapes_told h
  exact ⟨String.toList_inj.mp hab, rfl⟩

/-! ### Values -/

/-- The first character of a value's text. -/
def opening : Json → Char
  | .null => 'n'
  | .boolean b => if b then 't' else 'f'
  | .text _ => '"'
  | .array _ => '['
  | .object _ => '\x7b'

theorem write_eq_opening (j : Json) (depth : Nat) :
    ∃ rest, write depth j = opening j :: rest := by
  rcases j with _ | (_ | _) | a | (_ | ⟨item, l⟩) | (_ | ⟨⟨key, value⟩, l⟩) <;> exact ⟨_, rfl⟩

/-- Two values are of one kind; if there is nothing in them, they are the same value. -/
inductive Alike : Json → Json → Prop
  | null : Alike .null .null
  | boolean (b : Bool) : Alike (.boolean b) (.boolean b)
  | text (a b : String) : Alike (.text a) (.text b)
  | array (l m : List Json) : Alike (.array l) (.array m)
  | object (l m : List (String × Json)) : Alike (.object l) (.object m)

theorem alike_of_opening {j k : Json} (h : opening j = opening k) : Alike j k := by
  rcases j with _ | (_ | _) | a | l | l <;> rcases k with _ | (_ | _) | b | m | m <;>
    simp [opening] at h <;> constructor

theorem alike_told {j k : Json} (h : write depth j ++ r = write depth k ++ s) : Alike j k := by
  obtain ⟨a, ha⟩ := write_eq_opening j depth
  obtain ⟨b, hb⟩ := write_eq_opening k depth
  rw [ha, hb] at h
  exact alike_of_opening (List.cons.inj h).1

mutual

/-- **A value is told from its text**, whatever comes after it. -/
theorem write_told : ∀ (j k : Json) (depth : Nat) {r s : List Char},
    write depth j ++ r = write depth k ++ s → j = k ∧ r = s
  | .null, k, depth, r, s, h => by
    cases alike_told h
    exact ⟨rfl, List.append_cancel_left h⟩
  | .boolean b, k, depth, r, s, h => by
    cases alike_told h
    exact ⟨rfl, List.append_cancel_left h⟩
  | .text a, k, depth, r, s, h => by
    cases alike_told h
    obtain ⟨rfl, rfl⟩ := quote_told h
    exact ⟨rfl, rfl⟩
  | .array [], k, depth, r, s, h => by
    rcases alike_told h with _ | _ | _ | ⟨_, _ | ⟨item, m⟩⟩
    · exact ⟨rfl, List.append_cancel_left h⟩
    · simp [write, newline] at h
  | .array (item :: l), k, depth, r, s, h => by
    rcases alike_told h with _ | _ | _ | ⟨_, _ | ⟨item', m⟩⟩
    · simp [write, newline] at h
    simp only [write, List.append_assoc, List.cons_append, List.nil_append, List.cons.injEq,
      true_and, List.append_cancel_left_eq] at h
    obtain ⟨rfl, hrest⟩ := write_told item item' (depth + 1) h
    obtain ⟨rfl, hend⟩ := writeItems_told l m (depth + 1) hrest
    exact ⟨rfl, (List.cons.inj hend).2⟩
  | .object [], k, depth, r, s, h => by
    rcases alike_told h with _ | _ | _ | _ | ⟨_, _ | ⟨⟨key, value⟩, m⟩⟩
    · exact ⟨rfl, List.append_cancel_left h⟩
    · simp [write, newline] at h
  | .object ((key, value) :: l), k, depth, r, s, h => by
    rcases alike_told h with _ | _ | _ | _ | ⟨_, _ | ⟨⟨key', value'⟩, m⟩⟩
    · simp [write, newline] at h
    simp only [write, List.append_assoc, List.cons_append, List.nil_append, List.cons.injEq,
      true_and, List.append_cancel_left_eq] at h
    obtain ⟨rfl, hvalue⟩ := quote_told h
    simp only [List.cons.injEq, true_and] at hvalue
    obtain ⟨rfl, hrest⟩ := write_told value value' (depth + 1) hvalue
    obtain ⟨rfl, hend⟩ := writeFields_told l m (depth + 1) hrest
    exact ⟨rfl, (List.cons.inj hend).2⟩

/-- The elements of an array are told from their text, which the beginning of a line ends. -/
theorem writeItems_told : ∀ (l m : List Json) (depth : Nat) {above : Nat} {r s : List Char},
    writeItems depth l ++ (newline above ++ r) = writeItems depth m ++ (newline above ++ s) →
      l = m ∧ r = s
  | [], [], _, _, _, _, h => ⟨rfl, List.append_cancel_left h⟩
  | [], _ :: _, _, _, _, _, h => by simp [writeItems, newline] at h
  | _ :: _, [], _, _, _, _, h => by simp [writeItems, newline] at h
  | item :: l, item' :: m, depth, _, _, _, h => by
    simp only [writeItems, List.append_assoc, List.cons_append, List.cons.injEq, true_and,
      List.append_cancel_left_eq] at h
    obtain ⟨rfl, hrest⟩ := write_told item item' depth h
    obtain ⟨rfl, rfl⟩ := writeItems_told l m depth hrest
    exact ⟨rfl, rfl⟩

/-- The fields of an object are told from their text, which the beginning of a line ends. -/
theorem writeFields_told : ∀ (l m : List (String × Json)) (depth : Nat) {above : Nat}
    {r s : List Char},
    writeFields depth l ++ (newline above ++ r) = writeFields depth m ++ (newline above ++ s) →
      l = m ∧ r = s
  | [], [], _, _, _, _, h => ⟨rfl, List.append_cancel_left h⟩
  | [], _ :: _, _, _, _, _, h => by simp [writeFields, newline] at h
  | _ :: _, [], _, _, _, _, h => by simp [writeFields, newline] at h
  | (key, value) :: l, (key', value') :: m, depth, _, _, _, h => by
    simp only [writeFields, List.append_assoc, List.cons_append, List.nil_append, List.cons.injEq,
      true_and, List.append_cancel_left_eq] at h
    obtain ⟨rfl, hvalue⟩ := quote_told h
    simp only [List.cons.injEq, true_and] at hvalue
    obtain ⟨rfl, hrest⟩ := write_told value value' depth hvalue
    obtain ⟨rfl, rfl⟩ := writeFields_told l m depth hrest
    exact ⟨rfl, rfl⟩

end

/-- **The text of a value says one value only.** -/
theorem pretty_inj {j k : Json} : pretty j = pretty k ↔ j = k := by
  refine ⟨fun h => ?_, fun h => h ▸ rfl⟩
  have hwrite : write 0 j ++ [] = write 0 k ++ [] := by
    rw [String.ofList_injective h]
  exact (write_told j k 0 hwrite).1

end SymbolDocs.Json
