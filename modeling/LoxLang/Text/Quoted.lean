import LoxLang.Text.Printable

/-!
# Quoted text

`quote` writes a text between quotes on one line: single quotes, unless the text holds a single
quote and no double one.  The quote in use, the backslash and unprintable characters are escaped,
the last with as few hexadecimal digits as their code point allows: two, four or eight.
-/

namespace LoxLang.Text

/-- The hexadecimal digits of `n`, at least `width` of them. -/
def hex (width n : Nat) : List Char :=
  let digits := Nat.toDigits 16 n
  List.replicate (width - digits.length) '0' ++ digits

/-- How one character stands between quotes `mark`. -/
def escape (mark c : Char) : List Char :=
  if c = mark ∨ c = '\\' then ['\\', c]
  else if c = '\n' then ['\\', 'n']
  else if c = '\r' then ['\\', 'r']
  else if c = '\t' then ['\\', 't']
  else if isPrintable c then [c]
  else if c.toNat < 0x100 then '\\' :: 'x' :: hex 2 c.toNat
  else if c.toNat < 0x10000 then '\\' :: 'u' :: hex 4 c.toNat
  else '\\' :: 'U' :: hex 8 c.toNat

/-- The quote that a text is put between. -/
def quoteMark (text : String) : Char :=
  let cs := text.toList
  if cs.contains '\'' && !cs.contains '"' then '"' else '\''

def quote (text : String) : String :=
  let mark := quoteMark text
  String.ofList (mark :: text.toList.flatMap (escape mark) ++ [mark])

end LoxLang.Text
