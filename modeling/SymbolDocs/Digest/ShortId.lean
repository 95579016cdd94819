import SymbolDocs.Digest.Sha256

/-!
# Short identifiers

A short stable identifier for a list of strings: the first eight hexadecimal digits of the digest of
the strings, each closed by a NUL so that the borders between them count.
-/

namespace SymbolDocs.Digest

/-- The message that identifies a list of strings: the bytes of each, closed by a NUL. -/
def identified (components : List String) : List UInt8 :=
  components.flatMap fun c => c.toUTF8.toList ++ [0]

/-- The number of digits of a short identifier. -/
def shortIdLength : Nat := 8

/-- The short identifier of a list of strings. -/
def shortId (components : List String) : String :=
  String.ofList ((hex (sha256 (identified components))).take shortIdLength)

end SymbolDocs.Digest
