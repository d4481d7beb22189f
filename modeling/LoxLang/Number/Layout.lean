import LoxLang.Number.Shortest

/-!
# Numbers as text

A `Layout` holds the decisions of a number format; `Layout.write` applies them to the shortest
digits of a number.  `printed` is the format of the language's `print`, `listed` the one of token
listings.
-/

namespace LoxLang.Number

structure Layout where
  /-- The least decimal exponent that is written positionally. -/
  leastPositional : Int
  /-- The first decimal exponent that is not written positionally any more. -/
  positionalLimit : Int
  /-- The least count of digits of a written exponent. -/
  exponentWidth : Nat
  /-- What follows a whole number that is written positionally. -/
  wholeEnding : String
  nan : String
  infinity : String

/-- Whole numbers have no point; sixteen digits are the most before an exponent is used. -/
def printed : Layout := ⟨-4, 16, 2, "", "NaN", "Infinity"⟩

/-- As `printed`, but a whole number shows one decimal. -/
def listed : Layout := ⟨-4, 16, 2, ".0", "nan", "inf"⟩

def zeros (n : Nat) : List Char := List.replicate n '0'

/-- The text of the positive decimal with these digits, the first of them standing for the place
`10 ^ exponent`. -/
def Layout.writeDigits (layout : Layout) (digits : List Char) (exponent : Int) : List Char :=
  if layout.leastPositional ≤ exponent ∧ exponent < layout.positionalLimit then
    if exponent < 0 then
      '0' :: '.' :: zeros ((-exponent).toNat - 1) ++ digits
    else
      let whole := exponent.toNat + 1
      if digits.length ≤ whole then
        digits ++ zeros (whole - digits.length) ++ layout.wholeEnding.toList
      else digits.take whole ++ '.' :: digits.drop whole
  else
    let lead := match digits with
      | [] => []
      | [d] => [d]
      | d :: ds => d :: '.' :: ds
    let size := Nat.toDigits 10 exponent.natAbs
    lead ++ 'e' :: (if exponent < 0 then '-' else '+') ::
      zeros (layout.exponentWidth - size.length) ++ size

def dropTrailingZeros (digits : List Char) : List Char :=
  (digits.reverse.dropWhile (· == '0')).reverse

/-- The text of an absolute value. -/
def Layout.writeFinite (layout : Layout) (significand : Nat) (exponent : Int) : List Char :=
  if significand = 0 then '0' :: layout.wholeEnding.toList else
  let d := shortest significand exponent
  let digits := Nat.toDigits 10 d.digits
  layout.writeDigits (dropTrailingZeros digits) (d.exponent + digits.length - 1)

def withSign (negative : Bool) (text : List Char) : String :=
  String.ofList (if negative then '-' :: text else text)

/-- The text of a number. -/
def Layout.write (layout : Layout) (x : Float) : String :=
  match Parts.ofFloat x with
  | .nan => layout.nan
  | .infinite negative => withSign negative layout.infinity.toList
  | .finite negative significand exponent =>
    withSign negative (layout.writeFinite significand exponent)

end LoxLang.Number
