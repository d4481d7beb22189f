/-!
# Lines of a text

* `lines` splits at every line boundary that Unicode knows, and has no last empty line.
* `unifyBreaks` turns `CR LF` and a lone `CR` into `LF`.
* `feedLines` cuts after every `LF` and keeps it, the way a terminal hands over its input.
-/

namespace LoxLang.Text

/-- The characters that end a line on their own. -/
def isLineBreak (c : Char) : Bool :=
  let n := c.toNat
  (0x0a ≤ n && n ≤ 0x0d) || (0x1c ≤ n && n ≤ 0x1e) || n == 0x85 || n == 0x2028 || n == 0x2029

/-- The lines of `cs`, the first of them continuing the reversed text `line`. -/
def linesFrom : List Char → List Char → List (List Char)
  | [], [] => []
  | line, [] => [line.reverse]
  | line, '\r' :: '\n' :: cs => line.reverse :: linesFrom [] cs
  | line, c :: cs =>
    if isLineBreak c then line.reverse :: linesFrom [] cs else linesFrom (c :: line) cs

/-- The lines of a text, without their breaks. -/
def lines (text : String) : List String := (linesFrom [] text.toList).map String.ofList

def unifyBreaksList : List Char → List Char
  | [] => []
  | '\r' :: '\n' :: cs => '\n' :: unifyBreaksList cs
  | c :: cs => (if c = '\r' then '\n' else c) :: unifyBreaksList cs

/-- The text with every line break written as `LF`. -/
def unifyBreaks (text : String) : String := String.ofList (unifyBreaksList text.toList)

def feedLinesFrom : List Char → List Char → List (List Char)
  | [], [] => []
  | line, [] => [line.reverse]
  | line, c :: cs =>
    if c = '\n' then (c :: line).reverse :: feedLinesFrom [] cs else feedLinesFrom (c :: line) cs

/-- The lines of a text, each with the `LF` that ends it. -/
def feedLines (text : String) : List String := (feedLinesFrom [] text.toList).map String.ofList

end LoxLang.Text
