/-!
# Lexemes of a schema text

Names, punctuation and quantifiers, with the place where each starts.  Blanks and comments from `#`
to the end of the line are skipped.  The first character that starts no lexeme ends the list.
-/

namespace LoxLang.Schema

inductive LexemeKind where
  | name
  | leftBrace
  | rightBrace
  | colon
  | comma
  | quantifier
  deriving DecidableEq, Repr

/-- A line and a column, both counted from one. -/
structure Position where
  line : Nat
  column : Nat
  deriving DecidableEq, Repr

/-- The position after a character. -/
def Position.after (p : Position) (c : Char) : Position :=
  if c = '\n' then ⟨p.line + 1, 1⟩ else ⟨p.line, p.column + 1⟩

/-- The position after a text without a line break. -/
def Position.along (p : Position) (count : Nat) : Position := ⟨p.line, p.column + count⟩

inductive Lexeme where
  | token (kind : LexemeKind) (text : String) (position : Position)
  | stray (c : Char) (position : Position)
  deriving DecidableEq, Repr

def isNameStart (c : Char) : Bool := ('a' ≤ c && c ≤ 'z') || ('A' ≤ c && c ≤ 'Z') || c == '_'

def isNameRest (c : Char) : Bool := isNameStart c || ('0' ≤ c && c ≤ '9')

def isLayout (c : Char) : Bool := c == ' ' || c == '\t' || c == '\x0c' || c == '\r' || c == '\n'

/-- The lexemes of a single character. -/
def punctuation? : Char → Option LexemeKind
  | '\x7b' => some .leftBrace
  | '\x7d' => some .rightBrace
  | ':' => some .colon
  | ',' => some .comma
  | '?' => some .quantifier
  | '*' => some .quantifier
  | _ => none

theorem length_dropWhile_le (p : Char → Bool) (cs : List Char) :
    (cs.dropWhile p).length ≤ cs.length :=
  (List.dropWhile_sublist p).length_le

/-- The lexemes of a text that starts at a position. -/
def lexemesFrom (position : Position) (text : List Char) : List Lexeme :=
  match text with
  | [] => []
  | c :: rest =>
    if isLayout c then lexemesFrom (position.after c) rest
    else if c = '#' then
      let comment := rest.takeWhile (· != '\n')
      lexemesFrom (position.along (comment.length + 1)) (rest.dropWhile (· != '\n'))
    else if isNameStart c then
      let name := c :: rest.takeWhile isNameRest
      .token .name (String.ofList name) position ::
        lexemesFrom (position.along name.length) (rest.dropWhile isNameRest)
    else
      match punctuation? c with
      | some kind =>
        .token kind (String.ofList [c]) position :: lexemesFrom (position.along 1) rest
      | none => [.stray c position]
termination_by text.length
decreasing_by
  · simp
  · have := length_dropWhile_le (· != '\n') rest
    simp only [List.length_cons]; omega
  · have := length_dropWhile_le isNameRest rest
    simp only [List.length_cons]; omega
  · simp

/-- The lexemes of a text. -/
def lexemes (text : String) : List Lexeme := lexemesFrom ⟨1, 1⟩ text.toList

end LoxLang.Schema
