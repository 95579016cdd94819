/-!
# Bytes and text

Text is stored as UTF-8. Reading a text from bytes fails on bytes that are no UTF-8; reading what
a tool has printed does not fail, and each longest beginning of a character that breaks off, like
each byte that begins none, becomes the replacement character U+FFFD.
-/

namespace SymbolDocs.Text

/-- The bytes of a text. -/
def encode (s : String) : ByteArray :=
  s.toUTF8

/-- The text that the bytes spell, if they are UTF-8. -/
def decode? (bytes : ByteArray) : Option String :=
  String.fromUTF8? bytes

/-- A byte in the closed range from `lo` to `hi`. -/
def inRange (lo hi b : UInt8) : Bool :=
  lo ≤ b && b ≤ hi

/-- For a first byte, the range of the second byte and how many bytes follow; `none` if no character
of more than one byte begins with it. -/
def leadRule (b : UInt8) : Option (UInt8 × UInt8 × Nat) :=
  if inRange 0xC2 0xDF b then some (0x80, 0xBF, 1)
  else if b = 0xE0 then some (0xA0, 0xBF, 2)
  else if b = 0xED then some (0x80, 0x9F, 2)
  else if inRange 0xE1 0xEF b then some (0x80, 0xBF, 2)
  else if b = 0xF0 then some (0x90, 0xBF, 3)
  else if inRange 0xF1 0xF3 b then some (0x80, 0xBF, 3)
  else if b = 0xF4 then some (0x80, 0x8F, 3)
  else none

/-- The six low bits of a byte that continues a character. -/
def payload (b : UInt8) : Nat :=
  b.toNat % 64

/-- What a first byte contributes to the number of its character. -/
def leadPayload (b : UInt8) (following : Nat) : Nat :=
  if following = 1 then b.toNat % 32 else if following = 2 then b.toNat % 16 else b.toNat % 8

/-- How many of the `n` bytes that should follow do follow, the first of them in its own range. -/
def continues (lo hi : UInt8) : Nat → List UInt8 → Nat
  | 0, _ => 0
  | _, [] => 0
  | n + 1, b :: rest => if inRange lo hi b then continues 0x80 0xBF n rest + 1 else 0

/-- The character at the beginning of the bytes, and how many bytes stand for it; a character that
breaks off is U+FFFD. -/
def firstChar (b : UInt8) (rest : List UInt8) : Char × Nat :=
  if b < 0x80 then (Char.ofNat b.toNat, 1)
  else
    match leadRule b with
    | none => (Char.ofNat 0xFFFD, 1)
    | some (lo, hi, n) =>
      let k := continues lo hi n rest
      if k = n then
        let code := (rest.take n).foldl (fun acc c => acc * 64 + payload c) (leadPayload b n)
        (Char.ofNat code, n + 1)
      else (Char.ofNat 0xFFFD, k + 1)

/-- The characters of the bytes; `skip` bytes at the beginning belong to a character already read.
-/
def decodeFrom : Nat → List UInt8 → List Char
  | _, [] => []
  | skip + 1, _ :: rest => decodeFrom skip rest
  | 0, b :: rest =>
    let (c, n) := firstChar b rest
    c :: decodeFrom (n - 1) rest

/-- The text of the bytes, with U+FFFD for what is no character. -/
def decodeLossy (bytes : ByteArray) : String :=
  match decode? bytes with
  | some s => s
  | none => String.ofList (decodeFrom 0 bytes.toList)

end SymbolDocs.Text
