/-!
# Binary floating point numbers of 64 bits

A finite number is a mantissa below 2^53 times a power of two that is at least 2^-1074. A decimal is
read as the nearest of them, and as the one with the even mantissa if two are equally near; what is
too great becomes infinite.
-/

namespace SymbolDocs

/-- A binary floating point number of 64 bits. -/
inductive Binary64
  | nan
  | infinite (negative : Bool)
  /-- The number `mantissa * 2 ^ exponent` with its sign. -/
  | finite (negative : Bool) (mantissa : Nat) (exponent : Int)
deriving DecidableEq, Repr, Inhabited

namespace Binary64

/-- The quotient of two numbers, rounded to the nearest; a half goes to the even neighbour. -/
def roundDiv (num den : Nat) : Nat :=
  let q := num / den
  let r := num % den
  if 2 * r < den then q
  else if den < 2 * r then q + 1
  else if q % 2 = 0 then q else q + 1

/-- The quotient `num / den` scaled by `2 ^ -e`, as a quotient. -/
def scaled (num den : Nat) (e : Int) : Nat × Nat :=
  (num * Nat.pow 2 (-e).toNat, den * Nat.pow 2 e.toNat)

/-- The exponent at which the quotient of two positive numbers has a mantissa of 53 bits, or the
least exponent there is. -/
def fittingExponent (num den : Nat) : Int :=
  let guess : Int := (num.log2 : Int) - (den.log2 : Int) - 53
  let (n, d) := scaled num den guess
  max (-1074) (if n / d < Nat.pow 2 53 then guess else guess + 1)

/-- The number nearest to the quotient of two positive numbers. -/
def ofQuotient (negative : Bool) (num den : Nat) : Binary64 :=
  let e := fittingExponent num den
  let (n, d) := scaled num den e
  let m := roundDiv n d
  let (m, e) := if m = Nat.pow 2 53 then (Nat.pow 2 52, e + 1) else (m, e)
  if 971 < e then .infinite negative else .finite negative m e

/-- The number of decimal digits. -/
def digitCount (n : Nat) : Nat :=
  (Nat.toDigits 10 n).length

/-- The number nearest to `digits * 10 ^ scale`. -/
def ofDecimal (negative : Bool) (digits : Nat) (scale : Int) : Binary64 :=
  let magnitude := (digitCount digits : Int) + scale
  if digits = 0 ∨ magnitude < -330 then .finite negative 0 (-1074)
  else if 310 < magnitude then .infinite negative
  else ofQuotient negative (digits * Nat.pow 10 scale.toNat) (Nat.pow 10 (-scale).toNat)

end Binary64

end SymbolDocs
