/-!
# Binary floating point, taken apart and put together

A number of the language is a 64-bit binary floating-point number.

* `Parts.ofFloat` reads sign, significand and power of two off its bits.
* `nearest` is the number nearest to a quotient of two naturals, halves going to the even
  significand, computed in exact arithmetic.
-/

namespace LoxLang.Number

/-- What the bits of a number say.  A finite one has the absolute value
`significand * 2 ^ exponent`. -/
inductive Parts where
  | nan
  | infinite (negative : Bool)
  | finite (negative : Bool) (significand : Nat) (exponent : Int)
  deriving DecidableEq, Repr

/-- The exponent of the smallest positive number. -/
def leastExponent : Int := -1074

def Parts.ofFloat (x : Float) : Parts :=
  let bits := x.toBits.toNat
  let negative := bits / Nat.pow 2 63 == 1
  let field : Nat := bits / Nat.pow 2 52 % Nat.pow 2 11
  let fraction := bits % Nat.pow 2 52
  if field = 2047 then if fraction = 0 then .infinite negative else .nan
  else if field = 0 then .finite negative fraction leastExponent
  else .finite negative (Nat.pow 2 52 + fraction) (leastExponent - 1 + field)

/-- The whole number nearest to `num / den`; a half goes to the even neighbour. -/
def roundQuotient (num den : Nat) : Nat :=
  let q := num / den
  let r := num % den
  if 2 * r < den then q
  else if den < 2 * r then q + 1
  else q + q % 2

/-- The quotient `num / den` divided by `2 ^ e`, again as a quotient. -/
def unscale (num den : Nat) (e : Int) : Nat × Nat :=
  if e < 0 then (num * Nat.pow 2 (-e).toNat, den) else (num, den * Nat.pow 2 e.toNat)

/-- The power of two that leaves a significand of 53 bits, or the least one there is. -/
def exponentFor (num den : Nat) : Int :=
  let low : Int := (num.log2 : Int) - den.log2 - 53
  let (n, d) := unscale num den low
  max leastExponent (if n / d < Nat.pow 2 53 then low else low + 1)

/-- The bits of the positive number nearest to `num / den`.  A significand that rounds up to
`2 ^ 53` carries into the exponent by itself. -/
def nearestBits (num den : Nat) : Nat :=
  if num = 0 then 0 else
  let e := exponentFor num den
  let (n, d) := unscale num den e
  min ((e - leastExponent).toNat * Nat.pow 2 52 + roundQuotient n d) (2047 * Nat.pow 2 52)

/-- The number nearest to `num / den`, with a sign. -/
def nearest (negative : Bool) (num den : Nat) : Float :=
  Float.ofBits (nearestBits num den + if negative then Nat.pow 2 63 else 0).toUInt64

end LoxLang.Number
