import SymbolDocs.Number.Binary64

/-!
# The shortest decimal of a number

A number is written with the fewest digits that read back as the same number, and with the nearest
of those. No power of ten is written: zeros fill the places up to the point, and at least one digit
follows it.
-/

namespace SymbolDocs.Binary64

/-- The two decimals with the unit `10 ^ scale` between which the quotient lies. -/
def neighbours (num den : Nat) (scale : Int) : Nat × Nat :=
  let n := num * Nat.pow 10 (-scale).toNat
  let d := den * Nat.pow 10 scale.toNat
  (n / d, (n + d - 1) / d)

/-- The quotient is nearer to `lo` than to `hi`, in units of `10 ^ scale`. -/
def nearerLow (num den : Nat) (scale : Int) (lo hi : Nat) : Bool :=
  let n := num * Nat.pow 10 (-scale).toNat
  let d := den * Nat.pow 10 scale.toNat
  2 * n ≤ (lo + hi) * d

/-- Of the decimals with the unit `10 ^ scale`, one that reads back as the number, the nearest one
if there are two. -/
def onGrid (m : Nat) (e : Int) (scale : Int) : Option Nat :=
  let num := m * Nat.pow 2 e.toNat
  let den := Nat.pow 2 (-e).toNat
  let (lo, hi) := neighbours num den scale
  let fits (n : Nat) : Bool := ofDecimal false n scale = .finite false m e
  if fits lo && (!fits hi || nearerLow num den scale lo hi) then some lo
  else if fits hi then some hi
  else none

/-- The first decimal that reads back, on grids each ten times finer than the one before. -/
def search (m : Nat) (e : Int) : Nat → Int → Nat × Int
  | 0, scale => ((onGrid m e scale).getD 0, scale)
  | n + 1, scale =>
    match onGrid m e scale with
    | some digits => (digits, scale)
    | none => search m e n (scale - 1)

/-- The least power of ten that is greater than a positive number, roughly: it may be too great. -/
def leadingScale (m : Nat) (e : Int) : Int :=
  digitCount (m * Nat.pow 2 e.toNat) - digitCount (Nat.pow 2 (-e).toNat) + 1

/-- The digits of the shortest decimal of a positive number, with its unit as a power of ten. -/
def shortest (m : Nat) (e : Int) : Nat × Int :=
  search m e 20 (leadingScale m e)

/-- A decimal without a power of ten. -/
def positional (digits : Nat) (scale : Int) : String :=
  let text := Nat.toDigits 10 digits
  if 0 ≤ scale then String.ofList (text ++ List.replicate scale.toNat '0') ++ ".0"
  else
    let places := (-scale).toNat
    let text := List.replicate (places + 1 - text.length) '0' ++ text
    String.ofList (text.take (text.length - places)) ++ "." ++
      String.ofList (text.drop (text.length - places))

/-- The text of a number. -/
def text : Binary64 → String
  | .nan => "NaN"
  | .infinite negative => if negative then "-inf" else "inf"
  | .finite negative m e =>
    let (digits, scale) := if m = 0 then (0, 0) else shortest m e
    (if negative then "-" else "") ++ positional digits scale

end SymbolDocs.Binary64
