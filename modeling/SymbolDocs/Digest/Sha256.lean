import SymbolDocs.Text.Hexadecimal

/-!
# SHA-256

The digest of a message of bytes: the message is closed by a one bit, padded with zeros and its
length in bits to blocks of 64 bytes, and each block is mixed into eight words in 64 rounds.
-/

namespace SymbolDocs.Digest

/-! ### Words -/

/-- The word turned to the right by `n` bits. -/
def rotateRight (x : UInt32) (n : UInt32) : UInt32 :=
  (x >>> n) ||| (x <<< (32 - n))

/-- The words added in the rounds: the first bits of the fractions of the cube roots of the first 64
primes. -/
def roundConstants : List UInt32 :=
  [0x428a2f98, 0x71374491, 0xb5c0fbcf, 0xe9b5dba5, 0x3956c25b, 0x59f111f1, 0x923f82a4, 0xab1c5ed5,
   0xd807aa98, 0x12835b01, 0x243185be, 0x550c7dc3, 0x72be5d74, 0x80deb1fe, 0x9bdc06a7, 0xc19bf174,
   0xe49b69c1, 0xefbe4786, 0x0fc19dc6, 0x240ca1cc, 0x2de92c6f, 0x4a7484aa, 0x5cb0a9dc, 0x76f988da,
   0x983e5152, 0xa831c66d, 0xb00327c8, 0xbf597fc7, 0xc6e00bf3, 0xd5a79147, 0x06ca6351, 0x14292967,
   0x27b70a85, 0x2e1b2138, 0x4d2c6dfc, 0x53380d13, 0x650a7354, 0x766a0abb, 0x81c2c92e, 0x92722c85,
   0xa2bfe8a1, 0xa81a664b, 0xc24b8b70, 0xc76c51a3, 0xd192e819, 0xd6990624, 0xf40e3585, 0x106aa070,
   0x19a4c116, 0x1e376c08, 0x2748774c, 0x34b0bcb5, 0x391c0cb3, 0x4ed8aa4a, 0x5b9cca4f, 0x682e6ff3,
   0x748f82ee, 0x78a5636f, 0x84c87814, 0x8cc70208, 0x90befffa, 0xa4506ceb, 0xbef9a3f7, 0xc67178f2]

/-- The eight words of a digest. -/
structure State where
  a : UInt32
  b : UInt32
  c : UInt32
  d : UInt32
  e : UInt32
  f : UInt32
  g : UInt32
  h : UInt32
deriving DecidableEq, Repr

/-- The words before the first block: the first bits of the fractions of the square roots of the
first eight primes. -/
def initial : State :=
  ⟨0x6a09e667, 0xbb67ae85, 0x3c6ef372, 0xa54ff53a, 0x510e527f, 0x9b05688c, 0x1f83d9ab, 0x5be0cd19⟩

/-- The words of a digest, from left to right. -/
def State.words (s : State) : List UInt32 :=
  [s.a, s.b, s.c, s.d, s.e, s.f, s.g, s.h]

/-- The sums of the words of two states. -/
def State.add (s t : State) : State :=
  ⟨s.a + t.a, s.b + t.b, s.c + t.c, s.d + t.d, s.e + t.e, s.f + t.f, s.g + t.g, s.h + t.h⟩

/-- One round, with its constant `k` and its word `w` of the schedule. -/
def State.round (s : State) (k w : UInt32) : State :=
  let sum1 := rotateRight s.e 6 ^^^ rotateRight s.e 11 ^^^ rotateRight s.e 25
  let choice := (s.e &&& s.f) ^^^ ((~~~ s.e) &&& s.g)
  let t1 := s.h + sum1 + choice + k + w
  let sum0 := rotateRight s.a 2 ^^^ rotateRight s.a 13 ^^^ rotateRight s.a 22
  let majority := (s.a &&& s.b) ^^^ (s.a &&& s.c) ^^^ (s.b &&& s.c)
  ⟨t1 + (sum0 + majority), s.a, s.b, s.c, s.d + t1, s.e, s.f, s.g⟩

/-! ### Blocks -/

/-- The next word of a schedule, from the last sixteen, the oldest first. -/
def nextWord (recent : List UInt32) : UInt32 :=
  let w15 := recent.getD 1 0
  let w2 := recent.getD 14 0
  let s0 := rotateRight w15 7 ^^^ rotateRight w15 18 ^^^ (w15 >>> 3)
  let s1 := rotateRight w2 17 ^^^ rotateRight w2 19 ^^^ (w2 >>> 10)
  recent.getD 0 0 + s0 + recent.getD 9 0 + s1

/-- The first `n` words of the schedule that begins with the sixteen `recent` ones. -/
def schedule : Nat → List UInt32 → List UInt32
  | 0, _ => []
  | n + 1, recent => recent.headD 0 :: schedule n (recent.tail ++ [nextWord recent])

/-- Mixes a block of sixteen words into a state. -/
def compress (s : State) (block : List UInt32) : State :=
  ((roundConstants.zip (schedule 64 block)).foldl (fun s kw => s.round kw.1 kw.2) s).add s

/-- The bytes of a number, the highest first, in `n` bytes. -/
def bigEndian (n : Nat) (x : Nat) : List UInt8 :=
  (List.range n).map fun i => UInt8.ofNat (x / Nat.pow 256 (n - 1 - i))

/-- The message with its closing bit, its padding and its length. -/
def pad (message : List UInt8) : List UInt8 :=
  let n := message.length
  message ++ [0x80] ++ List.replicate ((119 - n % 64) % 64) 0 ++ bigEndian 8 (n * 8)

/-- Four bytes at a time as words. -/
def toWords : List UInt8 → List UInt32
  | a :: b :: c :: d :: rest =>
    ((a.toUInt32 <<< 24) ||| (b.toUInt32 <<< 16) ||| (c.toUInt32 <<< 8) ||| d.toUInt32) ::
      toWords rest
  | _ => []

/-- Mixes the words, sixteen at a time, into a state; `n` bounds the number of blocks. -/
def mix : Nat → State → List UInt32 → State
  | 0, s, _ => s
  | n + 1, s, words =>
    match words with
    | [] => s
    | _ => mix n (compress s (words.take 16)) (words.drop 16)

/-- The digest of a message, 32 bytes. -/
def sha256 (message : List UInt8) : List UInt8 :=
  let words := toWords (pad message)
  (mix words.length initial words).words.flatMap fun w => bigEndian 4 w.toNat

/-! ### Hexadecimal text -/

/-- Two lower-case digits for each byte. -/
def hex (bytes : List UInt8) : List Char :=
  bytes.flatMap fun b => [Text.hexDigit (b.toNat / 16), Text.hexDigit (b.toNat % 16)]

/-- The digest of a message in hexadecimal digits. -/
def sha256Hex (message : List UInt8) : String :=
  String.ofList (hex (sha256 message))

end SymbolDocs.Digest
