import LoxLang.Token

/-!
# Pieces of a source text

`Piece.all` cuts a source text into tokens, blanks, comments, unexpected characters and a string
without end.  Nothing is lost: `flatMap_text_all` says that the texts of the pieces, one after
the other, are the source.
-/

namespace LoxLang

/-- A digit of a number. -/
def isDigit (c : Char) : Bool := '0' ≤ c && c ≤ '9'

/-- A letter of a word. -/
def isAlpha (c : Char) : Bool := ('a' ≤ c && c ≤ 'z') || ('A' ≤ c && c ≤ 'Z') || c == '_'

def isAlphanumeric (c : Char) : Bool := isAlpha c || isDigit c

inductive Piece where
  | token (kind : TokenKind) (text : List Char)
  | blank (c : Char)
  /-- From two slashes up to the end of the line. -/
  | comment (text : List Char)
  | unexpected (c : Char)
  /-- From a quote without a partner up to the end of the source. -/
  | unterminated (text : List Char)
  deriving DecidableEq, Repr

namespace Piece

def text : Piece → List Char
  | token _ text => text
  | blank c => [c]
  | comment text => text
  | unexpected c => [c]
  | unterminated text => text

/-- Tokens of a single character. -/
def punctuation? : Char → Option TokenKind
  | '(' => some .leftParen
  | ')' => some .rightParen
  | '\x7b' => some .leftBrace
  | '\x7d' => some .rightBrace
  | ',' => some .comma
  | '.' => some .dot
  | '-' => some .minus
  | '+' => some .plus
  | ';' => some .semicolon
  | '*' => some .star
  | _ => none

/-- Tokens that an equals sign may follow: the class without it and the class with it. -/
def comparison? : Char → Option (TokenKind × TokenKind)
  | '!' => some (.bang, .bangEqual)
  | '=' => some (.equal, .equalEqual)
  | '<' => some (.less, .lessEqual)
  | '>' => some (.greater, .greaterEqual)
  | _ => none

def isBlank (c : Char) : Bool := c == ' ' || c == '\r' || c == '\t' || c == '\n'

/-- A comparison that starts with `c`, and what follows it. -/
def comparison (plain withEqual : TokenKind) (c : Char) : List Char → Piece × List Char
  | '=' :: rest => (token withEqual [c, '='], rest)
  | rest => (token plain [c], rest)

/-- A division sign or a comment, and what follows it. -/
def slash : List Char → Piece × List Char
  | '/' :: rest => (comment ('/' :: '/' :: rest.takeWhile (· != '\n')), rest.dropWhile (· != '\n'))
  | rest => (token .slash ['/'], rest)

/-- A string whose opening quote has been read, and what follows it. -/
def string (rest : List Char) : Piece × List Char :=
  let inner := rest.takeWhile (· != '"')
  match rest.dropWhile (· != '"') with
  | [] => (unterminated ('"' :: inner), [])
  | quote :: after => (token .string ('"' :: inner ++ [quote]), after)

/-- The fraction of a number: a point and at least one digit, or nothing. -/
def fraction : List Char → List Char × List Char
  | '.' :: d :: rest =>
    if isDigit d then ('.' :: d :: rest.takeWhile isDigit, rest.dropWhile isDigit)
    else ([], '.' :: d :: rest)
  | rest => ([], rest)

/-- A number that starts with `c`, and what follows it. -/
def number (c : Char) (rest : List Char) : Piece × List Char :=
  let (places, after) := fraction (rest.dropWhile isDigit)
  (token .number (c :: rest.takeWhile isDigit ++ places), after)

/-- A word that starts with `c`, and what follows it. -/
def word (c : Char) (rest : List Char) : Piece × List Char :=
  let text := c :: rest.takeWhile isAlphanumeric
  (token (.ofWord (String.ofList text)) text, rest.dropWhile isAlphanumeric)

/-- The piece at the head of the text `c :: rest`, and what follows it. -/
def first (c : Char) (rest : List Char) : Piece × List Char :=
  match punctuation? c with
  | some kind => (token kind [c], rest)
  | none =>
    match comparison? c with
    | some (plain, withEqual) => comparison plain withEqual c rest
    | none =>
      if c = '/' then slash rest
      else if isBlank c then (blank c, rest)
      else if c = '"' then string rest
      else if isDigit c then number c rest
      else if isAlpha c then word c rest
      else (unexpected c, rest)

theorem comparison_append (plain withEqual : TokenKind) (c : Char) (rest : List Char) :
    (comparison plain withEqual c rest).1.text ++ (comparison plain withEqual c rest).2 =
      c :: rest := by
  unfold comparison
  split <;> rfl

theorem slash_append (rest : List Char) :
    (slash rest).1.text ++ (slash rest).2 = '/' :: rest := by
  unfold slash
  split <;> simp [text]

theorem string_append (rest : List Char) :
    (string rest).1.text ++ (string rest).2 = '"' :: rest := by
  have h := List.takeWhile_append_dropWhile (p := (· != '"')) (l := rest)
  unfold string
  split
  · next hd => simp only [hd, List.append_nil] at h; simp [text, h]
  · next hd => rw [hd] at h; simp [text, h]

theorem fraction_append (rest : List Char) : (fraction rest).1 ++ (fraction rest).2 = rest := by
  unfold fraction
  split
  · split <;> simp
  · rfl

theorem number_append (c : Char) (rest : List Char) :
    (number c rest).1.text ++ (number c rest).2 = c :: rest := by
  simp [number, text, fraction_append]

theorem word_append (c : Char) (rest : List Char) :
    (word c rest).1.text ++ (word c rest).2 = c :: rest := by
  simp [word, text]

/-- The first piece and what follows it are the text that was cut. -/
theorem first_append (c : Char) (rest : List Char) :
    (first c rest).1.text ++ (first c rest).2 = c :: rest := by
  unfold first
  split
  · rfl
  · split
    · exact comparison_append _ _ c rest
    · split
      · next h => subst h; exact slash_append rest
      · split
        · rfl
        · split
          · next h => subst h; exact string_append rest
          · split
            · exact number_append c rest
            · split
              · exact word_append c rest
              · rfl

/-- No piece is empty, so what follows the first one is shorter than the text. -/
theorem length_first_lt (c : Char) (rest : List Char) :
    (first c rest).2.length < (c :: rest).length := by
  have happend := congrArg List.length (first_append c rest)
  have hpos : 0 < (first c rest).1.text.length := by
    unfold first
    split
    · simp [text]
    · split
      · unfold comparison; split <;> simp [text]
      · split
        · unfold slash; split <;> simp [text]
        · split
          · simp [text]
          · split
            · unfold string; split <;> simp [text]
            · split
              · simp [number, text]
              · split <;> simp [word, text]
  simp only [List.length_append] at happend
  omega

/-- The pieces of a text, in order. -/
def all (source : List Char) : List Piece :=
  match source with
  | [] => []
  | c :: rest => (first c rest).1 :: all (first c rest).2
termination_by source.length
decreasing_by exact length_first_lt c rest

/-- The pieces of a text are the text. -/
theorem flatMap_text_all (source : List Char) : (all source).flatMap text = source := by
  fun_induction all source with
  | case1 => rfl
  | case2 c rest ih => rw [List.flatMap_cons, ih, first_append]

end Piece

end LoxLang
