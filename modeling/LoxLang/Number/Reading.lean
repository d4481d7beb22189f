import LoxLang.Number.Binary
import LoxLang.Text.DecimalDigit

/-!
# Numbers read from text

* `ofDecimal` is the number nearest to `digits * 10 ^ exponent`.
* `ofPlain` reads digits with an optional fraction, as they stand in source code.
* `read?` reads the wider form with blanks, a sign, an exponent and the names of the infinities
  and of the undefined number.
-/

namespace LoxLang.Number

open Text

/-- The number nearest to `digits * 10 ^ exponent`.  Beyond the bounds that are tested first every
decimal of that size is infinite or zero, so no huge power is computed. -/
def ofDecimal (negative : Bool) (digits : List Nat) (exponent : Int) : Float :=
  let value := digitsValue digits
  let size : Int := digits.length + exponent
  if value = 0 ∨ size < -400 then nearest negative 0 1
  else if exponent < 0 then nearest negative value (Nat.pow 10 (-exponent).toNat)
  else if 400 < exponent then nearest negative (Nat.pow 2 1024) 1
  else nearest negative (value * Nat.pow 10 exponent.toNat) 1

/-- The value of an ASCII digit. -/
def asciiDigit (c : Char) : Nat := c.toNat - '0'.toNat

/-- Digits, or digits, a point and digits. -/
def ofPlain (cs : List Char) : Float :=
  let whole := cs.takeWhile (· != '.')
  let fraction := (cs.dropWhile (· != '.')).drop 1
  ofDecimal false ((whole ++ fraction).map asciiDigit) (-(fraction.length : Int))

/-- Grouped digits, or none at all. -/
def optionalDigits? : List Char → Option (List Nat)
  | [] => some []
  | cs => groupedDigits? cs

/-- An unsigned decimal without an exponent: its digits and how many of them follow the point.
At least one digit stands before or after the point. -/
def mantissa? (cs : List Char) : Option (List Nat × Nat) :=
  match cs.dropWhile (· != '.') with
  | [] => (groupedDigits? cs).map fun ds => (ds, 0)
  | _ :: after => do
    let whole ← optionalDigits? (cs.takeWhile (· != '.'))
    let fraction ← optionalDigits? after
    if whole.isEmpty && fraction.isEmpty then none
    else return (whole ++ fraction, fraction.length)

/-- An unsigned decimal. -/
def unsigned? (negative : Bool) (cs : List Char) : Option Float := do
  let isMark (c : Char) : Bool := c == 'e' || c == 'E'
  let (digits, places) ← mantissa? (cs.takeWhile fun c => !isMark c)
  match cs.dropWhile fun c => !isMark c with
  | [] => return ofDecimal negative digits (-(places : Int))
  | _ :: '-' :: rest =>
    let e ← groupedDigits? rest
    return ofDecimal negative digits (-(digitsValue e : Int) - places)
  | _ :: '+' :: rest =>
    let e ← groupedDigits? rest
    return ofDecimal negative digits ((digitsValue e : Int) - places)
  | _ :: rest =>
    let e ← groupedDigits? rest
    return ofDecimal negative digits ((digitsValue e : Int) - places)

/-- A number by name or by digits. -/
def named? (negative : Bool) (cs : List Char) : Option Float :=
  let name := String.ofList (cs.map Char.toLower)
  if name = "inf" ∨ name = "infinity" then some (nearest negative (Nat.pow 2 1024) 1)
  else if name = "nan" then some (Float.ofBits 0x7ff8000000000000)
  else unsigned? negative cs

/-- A number in the wide form. -/
def read? (text : String) : Option Float :=
  match trim text.toList with
  | '-' :: cs => named? true cs
  | '+' :: cs => named? false cs
  | cs => named? false cs

end LoxLang.Number
