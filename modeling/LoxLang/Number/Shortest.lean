import LoxLang.Number.Binary

/-!
# The fewest decimal digits

`shortest` finds, for a positive number `m * 2 ^ e`, the decimal with the fewest digits among
those that are read back as that number, and of those the nearest to it.  All comparisons are
exact: on the grid of multiples of `10 ^ g` only the two neighbours of the number can be the
nearest point of the grid inside the interval of reals that round to it.
-/

namespace LoxLang.Number

/-- A decimal: its value is `digits * 10 ^ exponent`. -/
structure Decimal where
  digits : Nat
  exponent : Int
  deriving DecidableEq, Repr

/-- The count of decimal digits of a positive natural. -/
def decimalWidth (n : Nat) : Nat := (Nat.toDigits 10 n).length

/-- The least `k` with `m * 2 ^ e < 10 ^ k`. -/
def magnitude (m : Nat) (e : Int) : Int :=
  if 0 ≤ e then decimalWidth (m * Nat.pow 2 e.toNat)
  else
    let den := Nat.pow 2 (-e).toNat
    if den ≤ m then decimalWidth (m / den)
    else 1 - (decimalWidth ((den - 1) / m) : Int)

/-- A number beside the grid of multiples of `10 ^ g`.  Quarters of the number's last place and
points of the grid are compared after multiplying by `quarter` and by `point`. -/
structure Grid where
  quarter : Nat
  point : Nat

def Grid.beside (e g : Int) : Grid where
  quarter := Nat.pow 2 (e - 2).toNat * Nat.pow 10 (-g).toNat
  point := Nat.pow 2 (2 - e).toNat * Nat.pow 10 g.toNat

/-- Whether the `p`-th point of the grid is read back as `m * 2 ^ e`.  The interval reaches half
a place up and half a place down, a quarter only below a power of two; its ends belong to it iff
the significand is even. -/
def Grid.reads (grid : Grid) (m : Nat) (e : Int) (p : Nat) : Bool :=
  let low := 4 * m - (if m = Nat.pow 2 52 ∧ leastExponent < e then 1 else 2)
  let high := 4 * m + 2
  if m % 2 = 0 then
    low * grid.quarter ≤ p * grid.point && p * grid.point ≤ high * grid.quarter
  else
    low * grid.quarter < p * grid.point && p * grid.point < high * grid.quarter

/-- The point of the grid that is read back as `m * 2 ^ e` and nearest to it, if there is one;
of two at the same distance the even one. -/
def Grid.hit? (grid : Grid) (m : Nat) (e : Int) : Option Nat :=
  let value := 4 * m * grid.quarter
  let below := value / grid.point
  let above := below + 1
  match grid.reads m e below, grid.reads m e above with
  | true, true =>
    let middle := (2 * below + 1) * grid.point
    if 2 * value < middle then some below
    else if middle < 2 * value then some above
    else some (below + below % 2)
  | true, false => some below
  | false, true => some above
  | false, false => none

/-- The shortest decimal that is read back as `m * 2 ^ e`; seventeen digits always suffice. -/
def shortest (m : Nat) (e : Int) : Decimal :=
  let k := magnitude m e
  let found := (List.range' 1 17).findSome? fun (width : Nat) =>
    ((Grid.beside e (k - width)).hit? m e).map fun p => (⟨p, k - width⟩ : Decimal)
  found.getD ⟨m, e⟩

end LoxLang.Number
