import LoxLang.Text.Blank

/-!
# Decimal digits

The characters of the Unicode general category `Nd`.  They come in runs of ten, zero first, so
the table holds the zero of each run.
-/

namespace LoxLang.Text

/-- The digit zero of every decimal script. -/
def decimalZeros : List Nat :=
  [0x30, 0x660, 0x6f0, 0x7c0, 0x966, 0x9e6, 0xa66, 0xae6, 0xb66, 0xbe6, 0xc66, 0xce6, 0xd66,
   0xde6, 0xe50, 0xed0, 0xf20, 0x1040, 0x1090, 0x17e0, 0x1810, 0x1946, 0x19d0, 0x1a80, 0x1a90,
   0x1b50, 0x1bb0, 0x1c40, 0x1c50, 0xa620, 0xa8d0, 0xa900, 0xa9d0, 0xa9f0, 0xaa50, 0xabf0,
   0xff10, 0x104a0, 0x10d30, 0x11066, 0x110f0, 0x11136, 0x111d0, 0x112f0, 0x11450, 0x114d0,
   0x11650, 0x116c0, 0x11730, 0x118e0, 0x11950, 0x11c50, 0x11d50, 0x11da0, 0x16a60, 0x16ac0,
   0x16b50, 0x1d7ce, 0x1d7d8, 0x1d7e2, 0x1d7ec, 0x1d7f6, 0x1e140, 0x1e2f0, 0x1e950, 0x1fbf0]

/-- The value of a decimal digit of any script. -/
def decimalDigit? (c : Char) : Option Nat :=
  (decimalZeros.find? fun z => z ≤ c.toNat && c.toNat < z + 10).map fun z =>
    c.toNat - z

def isDecimalDigit (c : Char) : Bool := (decimalDigit? c).isSome

/-- The number that a string of digits denotes, most significant digit first. -/
def digitsValue (digits : List Nat) : Nat := digits.foldl (fun value d => value * 10 + d) 0

/-- Digits of any script, with single underscores allowed between two of them. -/
def groupedDigits? : List Char → Option (List Nat)
  | [] => none
  | [c] => (decimalDigit? c).map fun d => [d]
  | c :: '_' :: rest => do
    let d ← decimalDigit? c
    let ds ← groupedDigits? rest
    return d :: ds
  | c :: next :: rest => do
    let d ← decimalDigit? c
    let ds ← groupedDigits? (next :: rest)
    return d :: ds

/-- The most digits of a whole number, leading zeros included. -/
def maxDigits : Nat := 4300

/-- The value of grouped digits, if there are not too many of them. -/
def naturalNumber? (cs : List Char) : Option Nat :=
  match groupedDigits? cs with
  | none => none
  | some digits => if digits.length ≤ maxDigits then some (digitsValue digits) else none

/-- A whole number: blanks around it, an optional sign, grouped digits. -/
def wholeNumber? (cs : List Char) : Option Int :=
  match trim cs with
  | '-' :: rest => (naturalNumber? rest).map fun n => -(n : Int)
  | '+' :: rest => (naturalNumber? rest).map fun n => (n : Int)
  | rest => (naturalNumber? rest).map fun n => (n : Int)

end LoxLang.Text
