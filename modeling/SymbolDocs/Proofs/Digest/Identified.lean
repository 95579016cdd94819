import SymbolDocs.Digest.ShortId
import Mathlib.Data.List.Basic
import Mathlib.Tactic.SplitIfs

/-! # What a short identifier identifies

The message for a list of strings closes each of them with a NUL, and the bytes of a text hold a zero
for each NUL of the text and no other (`zero_mem_bytes_iff`). So strings without NUL are read back from
the message, the empty ones included (`identified_inj`), and a string with NULs counts for the strings
between them (`identified_flatMap_atNuls`): two lists have the same message just if they are the same
list once each string is cut at its NULs. -/

namespace SymbolDocs.Digest

variable {c : Char} {s t : String} {l m : List String}

/-! ### The bytes of a text -/

/-- The bytes that stand for a list of characters. -/
def bytes (cs : List Char) : List UInt8 :=
  cs.flatMap String.utf8EncodeChar

theorem toList_loop (b : ByteArray) (i : Nat) (r : List UInt8) :
    ByteArray.toList.loop b i r = r.reverse ++ b.data.toList.drop i := by
  fun_induction ByteArray.toList.loop b i r with
  | case1 i r hlt ih =>
    have hlen : i < b.data.toList.length := by simpa using hlt
    have hget : b.get! i = b.data[i]! := by cases b; rfl
    rw [ih, List.drop_eq_getElem_cons hlen, hget, getElem!_pos b.data i hlt]
    simp only [List.reverse_cons, List.append_assoc, List.singleton_append, Array.getElem_toList]
  | case2 i r hlt =>
    rw [List.drop_eq_nil_of_le (by simpa using Nat.le_of_not_lt hlt), List.append_nil]

theorem toUTF8_toList (s : String) : s.toUTF8.toList = bytes s.toList := by
  rw [ByteArray.toList, toList_loop, String.toUTF8_eq_toByteArray, ← String.utf8Encode_toList]
  simp only [List.utf8Encode, List.toList_data_toByteArray, List.reverse_nil, List.nil_append,
    List.drop_zero, bytes]

theorem bytes_inj (h : bytes s.toList = bytes t.toList) : s = t := by
  rw [← String.toByteArray_inj, ← String.utf8Encode_toList, ← String.utf8Encode_toList]
  exact congrArg List.toByteArray h

theorem bytes_cons (c : Char) (cs : List Char) :
    bytes (c :: cs) = String.utf8EncodeChar c ++ bytes cs :=
  List.flatMap_cons

/-- Only a NUL is written with a zero: all bytes of a character above 127 have their high bit. -/
theorem zero_mem_utf8EncodeChar_iff : 0 ∈ String.utf8EncodeChar c ↔ c = '\x00' := by
  refine ⟨fun h => ?_, fun h => by rw [h]; decide⟩
  have hzero : ∀ n < 256, (0 : UInt8) = UInt8.ofNat n → n = 0 := fun n hn h => by
    have := congrArg UInt8.toNat h
    simpa [Nat.mod_eq_of_lt hn] using this.symm
  have hhigh : ∀ n < 256, 127 < n → (0 : UInt8) ≠ UInt8.ofNat n := fun n hn hlow h => by
    have := hzero n hn h
    omega
  have hval : c.val.toNat = 0 := by
    unfold String.utf8EncodeChar at h
    simp only at h
    split_ifs at h
    · exact hzero _ (by omega) (List.mem_singleton.1 h)
    all_goals simp only [List.mem_cons, List.not_mem_nil, or_false] at h
    · rcases h with h | h <;> exact absurd h (hhigh _ (by omega) (by omega))
    · rcases h with h | h | h <;> exact absurd h (hhigh _ (by omega) (by omega))
    · rcases h with h | h | h | h <;> exact absurd h (hhigh _ (by omega) (by omega))
  exact Char.ext (UInt32.toNat_inj.1 hval)

theorem zero_mem_bytes_iff {cs : List Char} : 0 ∈ bytes cs ↔ '\x00' ∈ cs := by
  simp only [bytes, List.mem_flatMap, zero_mem_utf8EncodeChar_iff, exists_eq_right]

/-! ### Strings without NUL -/

theorem identified_nil : identified [] = [] := rfl

theorem identified_cons (s : String) (l : List String) :
    identified (s :: l) = bytes s.toList ++ 0 :: identified l := by
  rw [identified, List.flatMap_cons, toUTF8_toList, List.append_assoc, List.singleton_append,
    identified]

theorem identified_append (l m : List String) : identified (l ++ m) = identified l ++ identified m :=
  List.flatMap_append

/-- **Lists of strings without NUL have different messages.** The first zero of a message is the end of
the first string. -/
theorem identified_inj : ∀ {l m : List String}, (∀ s ∈ l, '\x00' ∉ s.toList) →
    (∀ s ∈ m, '\x00' ∉ s.toList) → identified l = identified m → l = m
  | [], [], _, _, _ => rfl
  | [], t :: m, _, _, h => by
    rw [identified_cons, identified_nil] at h
    exact absurd h.symm (List.append_ne_nil_of_right_ne_nil _ (List.cons_ne_nil _ _))
  | s :: l, [], _, _, h => by
    rw [identified_cons, identified_nil] at h
    exact absurd h (List.append_ne_nil_of_right_ne_nil _ (List.cons_ne_nil _ _))
  | s :: l, t :: m, hl, hm, h => by
    rw [List.forall_mem_cons] at hl hm
    have hs : 0 ∉ bytes s.toList := mt zero_mem_bytes_iff.1 hl.1
    have ht : 0 ∉ bytes t.toList := mt zero_mem_bytes_iff.1 hm.1
    rw [identified_cons, identified_cons] at h
    have hcut := congrArg (List.splitOn 0) h
    rw [List.splitOn_append_cons_self_of_not_mem hs,
      List.splitOn_append_cons_self_of_not_mem ht] at hcut
    have hfirst : bytes s.toList = bytes t.toList := (List.cons.inj hcut).1
    rw [hfirst] at h
    rw [bytes_inj hfirst, identified_inj hl.2 hm.2 (List.cons.inj (List.append_cancel_left h)).2]

/-! ### Strings with NULs -/

/-- The strings between the NULs of a string, with the ones before the first and after the last. -/
def atNuls (s : String) : List String :=
  (s.toList.splitOn '\x00').map String.ofList

theorem splitOn_nul_cons (h : c ≠ '\x00') (cs : List Char) :
    ∃ p ps, cs.splitOn '\x00' = p :: ps ∧ (c :: cs).splitOn '\x00' = (c :: p) :: ps := by
  obtain ⟨p, ps, hp⟩ := List.exists_cons_of_ne_nil (List.splitOn_ne_nil '\x00' cs)
  refine ⟨p, ps, hp, ?_⟩
  rw [List.splitOn_cons_eq_if_modifyHead, if_neg (by simpa using h), hp, List.modifyHead_cons]

theorem nul_not_mem_splitOn : ∀ (cs : List Char), ∀ p ∈ cs.splitOn '\x00', '\x00' ∉ p
  | [], p, h => by
    rw [List.splitOn_nil, List.mem_singleton] at h
    rw [h]
    exact List.not_mem_nil
  | c :: cs, p, h => by
    by_cases hc : c = '\x00'
    · rw [List.splitOn_cons_eq_if_modifyHead, if_pos (by simpa using hc)] at h
      rcases List.mem_cons.1 h with rfl | h
      · exact List.not_mem_nil
      · exact nul_not_mem_splitOn cs p h
    · obtain ⟨q, qs, hq, hcq⟩ := splitOn_nul_cons hc cs
      have ih := nul_not_mem_splitOn cs
      rw [hq, List.forall_mem_cons] at ih
      rw [hcq] at h
      rcases List.mem_cons.1 h with rfl | h
      · exact List.not_mem_cons_of_ne_of_not_mem (Ne.symm hc) ih.1
      · exact ih.2 p h

theorem nul_not_mem_atNuls (h : t ∈ atNuls s) : '\x00' ∉ t.toList := by
  obtain ⟨p, hp, rfl⟩ := List.mem_map.1 h
  rw [String.toList_ofList]
  exact nul_not_mem_splitOn _ p hp

/-- The zero of a NUL closes the string before it. -/
theorem identified_splitOn : ∀ cs : List Char,
    identified ((cs.splitOn '\x00').map String.ofList) = bytes cs ++ [0]
  | [] => by
    rw [List.splitOn_nil, List.map_singleton, identified_cons, identified_nil, String.toList_ofList]
  | c :: cs => by
    have ih := identified_splitOn cs
    by_cases hc : c = '\x00'
    · subst hc
      rw [List.splitOn_cons_eq_if_modifyHead, if_pos (by decide), List.map_cons, identified_cons, ih,
        String.toList_ofList, bytes_cons]
      rfl
    · obtain ⟨p, ps, hp, hcp⟩ := splitOn_nul_cons hc cs
      rw [hp, List.map_cons, identified_cons, String.toList_ofList] at ih
      rw [hcp, List.map_cons, identified_cons, String.toList_ofList, bytes_cons, bytes_cons,
        List.append_assoc, List.append_assoc, ih]

/-- Cutting strings at their NULs does not change their message. -/
theorem identified_flatMap_atNuls : ∀ l : List String, identified (l.flatMap atNuls) = identified l
  | [] => rfl
  | s :: l => by
    rw [List.flatMap_cons, identified_append, identified_flatMap_atNuls l, atNuls,
      identified_splitOn, identified_cons, List.append_assoc, List.singleton_append]

theorem identified_eq_iff : identified l = identified m ↔ l.flatMap atNuls = m.flatMap atNuls := by
  refine ⟨fun h => ?_, fun h => ?_⟩
  · have free : ∀ l : List String, ∀ s ∈ l.flatMap atNuls, '\x00' ∉ s.toList := fun l s hs => by
      obtain ⟨t, -, ht⟩ := List.mem_flatMap.1 hs
      exact nul_not_mem_atNuls ht
    rw [← identified_flatMap_atNuls l, ← identified_flatMap_atNuls m] at h
    exact identified_inj (free l) (free m) h
  · rw [← identified_flatMap_atNuls l, h, identified_flatMap_atNuls m]

/-! ### The digits -/

/-- A digit from `0` to `9` or from `a` to `f`. -/
def IsHexDigit (c : Char) : Prop :=
  '0' ≤ c ∧ c ≤ '9' ∨ 'a' ≤ c ∧ c ≤ 'f'

theorem isHexDigit_hexDigit : ∀ n < 16, IsHexDigit (Text.hexDigit n) := by
  unfold IsHexDigit
  decide

theorem isHexDigit_of_mem_hex {b : List UInt8} (h : c ∈ hex b) : IsHexDigit c := by
  obtain ⟨x, -, hx⟩ := List.mem_flatMap.1 h
  have hlt : x.toNat < 256 := x.toNat_lt
  simp only [List.mem_cons, List.not_mem_nil, or_false] at hx
  rcases hx with rfl | rfl
  · exact isHexDigit_hexDigit _ (by omega)
  · exact isHexDigit_hexDigit _ (by omega)

theorem length_hex : ∀ b : List UInt8, (hex b).length = 2 * b.length
  | [] => rfl
  | x :: b => by
    have ih := length_hex b
    simp only [hex, List.flatMap_cons, List.length_append, List.length_cons, List.length_nil] at ih ⊢
    omega

theorem length_sha256 (b : List UInt8) : (sha256 b).length = 32 := by
  simp only [sha256, State.words, List.flatMap_cons, List.flatMap_nil, List.length_append, bigEndian,
    List.length_map, List.length_range, List.length_nil]

theorem toList_shortId (l : List String) :
    (shortId l).toList = (hex (sha256 (identified l))).take shortIdLength :=
  String.toList_ofList

/-- **What a short identifier is a digest of.** Lists of strings without NUL have different messages,
and in general two lists have the same message just if they are the same once their strings are cut at
their NULs. The identifier is made of the first eight digits of the digest of the message. -/
theorem shortId_identifies (l m : List String) :
    ((∀ s ∈ l ++ m, '\x00' ∉ s.toList) → identified l = identified m → l = m) ∧
      (identified l = identified m ↔ l.flatMap atNuls = m.flatMap atNuls) ∧
      (shortId l).toList <+: (sha256Hex (identified l)).toList ∧
      (shortId l).toList.length = 8 ∧ ∀ c ∈ (shortId l).toList, IsHexDigit c := by
  refine ⟨fun free => ?_, identified_eq_iff, ?_, ?_, fun c hc => ?_⟩
  · rw [List.forall_mem_append] at free
    exact identified_inj free.1 free.2
  · rw [toList_shortId, sha256Hex, String.toList_ofList]
    exact List.take_prefix _ _
  · rw [toList_shortId, List.length_take, length_hex, length_sha256]
    rfl
  · rw [toList_shortId] at hc
    exact isHexDigit_of_mem_hex (List.mem_of_mem_take hc)

/-- A character that moves from one string to the next changes the message, and so does an empty string
that is added; a NUL does what the border between two strings does. -/
theorem shortId_identifies_pairs :
    identified ["ab", "c"] ≠ identified ["a", "bc"] ∧
      identified ["a", ""] ≠ identified ["a"] ∧
      identified ["a\x00b"] = identified ["a", "b"] := by
  refine ⟨fun h => ?_, fun h => ?_, ?_⟩
  · exact absurd ((shortId_identifies ["ab", "c"] ["a", "bc"]).1 (by decide) h) (by decide)
  · exact absurd ((shortId_identifies ["a", ""] ["a"]).1 (by decide) h) (by decide)
  · exact (shortId_identifies ["a\x00b"] ["a", "b"]).2.1.2 (by decide)

end SymbolDocs.Digest
