import Mathlib.Data.List.Basic
import LoxLang.Token.Scan

/-!
# Longest matches

What the pieces of a source text are, said without the functions that cut it.  A token is the longest
text of its class at the head of what remains, a blank is one character, a comment reaches to the end
of its line, a character that no token starts with is unexpected, and a string without an end reaches
to the end of the source.

* `Lexeme` — the texts of each class, with the kinds and the values of the tokens.
* `Piece.Fits` — a piece is due at the head of what remains.
* `IsCut` — pieces that make up a source and are all due where they stand.

Principal results: `Piece.first_fits`, `Piece.Fits.first_eq`, `isCut_iff`,
`scan_cuts_at_longest_matches`.
-/

namespace LoxLang

/-! ## Classes of lexemes -/

/-- The tokens that are one sign. -/
def signs : List (Char × TokenKind) :=
  [('(', .leftParen), (')', .rightParen), ('\x7b', .leftBrace), ('\x7d', .rightBrace),
   (',', .comma), ('.', .dot), ('-', .minus), ('+', .plus), (';', .semicolon), ('*', .star),
   ('/', .slash)]

/-- The tokens that an equals sign may belong to, without it and with it. -/
def comparisons : List (Char × TokenKind × TokenKind) :=
  [('!', .bang, .bangEqual), ('=', .equal, .equalEqual), ('<', .less, .lessEqual),
   ('>', .greater, .greaterEqual)]

/-- The characters that only set tokens apart. -/
def blanks : List Char := [' ', '\t', '\r', '\n']

inductive LexemeClass where
  | sign
  | comparison
  | string
  | number
  | word

/-- The value of ASCII digits. -/
def decimalValue (digits : List Char) : Nat := Text.digitsValue (digits.map Number.asciiDigit)

/-- The number that is nearest to a decimal. -/
def nearestDecimal (digits places : List Char) : Float :=
  Number.nearest false (decimalValue (digits ++ places)) (Nat.pow 10 places.length)

/-- The texts of each class, with the kind and the value of the token that each of them is. -/
inductive Lexeme : LexemeClass → TokenKind → Literal → List Char → Prop where
  | sign {c : Char} {kind : TokenKind} : (c, kind) ∈ signs → Lexeme .sign kind .nil [c]
  | plain {c : Char} {kind withEqual : TokenKind} :
      (c, kind, withEqual) ∈ comparisons → Lexeme .comparison kind .nil [c]
  | withEqual {c : Char} {plain kind : TokenKind} :
      (c, plain, kind) ∈ comparisons → Lexeme .comparison kind .nil [c, '=']
  /-- The value of a string is its text without the quotes. -/
  | string {inner : List Char} : '"' ∉ inner →
      Lexeme .string .string (.str (String.ofList inner)) ('"' :: inner ++ ['"'])
  | whole {digits : List Char} : digits ≠ [] → (∀ c ∈ digits, isDigit c = true) →
      Lexeme .number .number (.num (nearestDecimal digits [])) digits
  | fraction {digits places : List Char} : digits ≠ [] → (∀ c ∈ digits, isDigit c = true) →
      places ≠ [] → (∀ c ∈ places, isDigit c = true) →
      Lexeme .number .number (.num (nearestDecimal digits places)) (digits ++ '.' :: places)
  | keyword {c : Char} {rest : List Char} {kind : TokenKind} : isAlpha c = true →
      (∀ d ∈ rest, isAlphanumeric d = true) → (String.ofList (c :: rest), kind) ∈ keywords →
      Lexeme .word kind .nil (c :: rest)
  | identifier {c : Char} {rest : List Char} : isAlpha c = true →
      (∀ d ∈ rest, isAlphanumeric d = true) →
      (∀ kind, (String.ofList (c :: rest), kind) ∉ keywords) →
      Lexeme .word .identifier .nil (c :: rest)

/-! ## Pieces -/

/-- A text of a class at the head of what remains, and no longer one is there. -/
structure Longest (cls : LexemeClass) (kind : TokenKind) (literal : Literal)
    (text after : List Char) : Prop where
  lexeme : Lexeme cls kind literal text
  longest : ∀ kind' literal' other, Lexeme cls kind' literal' other → other <+: text ++ after →
    other.length ≤ text.length

/-- A piece is due at the head of what remains, `after` being left behind it. -/
def Piece.Fits (after : List Char) : Piece → Prop
  | .token kind text => (∃ cls literal, Longest cls kind literal text after) ∧
      ¬ ['/', '/'] <+: text ++ after
  | .blank c => c ∈ blanks
  | .comment text => ['/', '/'] <+: text ∧ '\n' ∉ text ∧ ∀ c, after.head? = some c → c = '\n'
  | .unexpected c => c ∉ blanks ∧
      ∀ cls kind literal text, Lexeme cls kind literal text → text.head? ≠ some c
  | .unterminated text => (∃ inner, text = '"' :: inner ∧ '"' ∉ inner) ∧ after = []

/-- Pieces that make up a source, each of them due where it stands. -/
structure IsCut (source : List Char) (pieces : List Piece) : Prop where
  text : pieces.flatMap Piece.text = source
  fits : ∀ before p after, pieces = before ++ p :: after → p.Fits (after.flatMap Piece.text)

/-! ## Runs of characters -/

section Runs

variable {α : Type} {p : α → Bool} {xs : List α}

/-- A run of characters that what follows does not continue. -/
theorem takeWhile_run (hxs : ∀ x ∈ xs, p x = true) (after : List α)
    (hafter : ∀ x, after.head? = some x → p x = false) :
    (xs ++ after).takeWhile p = xs ∧ (xs ++ after).dropWhile p = after := by
  rw [List.takeWhile_append_of_pos hxs, List.dropWhile_append_of_pos hxs]
  cases after with
  | nil => simp
  | cons x after => simp [hafter x rfl]

/-- What follows the longest run does not continue it. -/
theorem head?_dropWhile_run (l : List α) {x : α} (h : (l.dropWhile p).head? = some x) :
    p x = false := by
  have hnot := List.head?_dropWhile_not p l
  rw [h] at hnot
  exact hnot

/-- A run at the head of a text is no longer than the longest there. -/
theorem length_le_takeWhile {l : List α} (hxs : ∀ x ∈ xs, p x = true) (h : xs <+: l) :
    xs.length ≤ (l.takeWhile p).length := by
  obtain ⟨ys, rfl⟩ := h
  rw [List.takeWhile_append_of_pos hxs, List.length_append]
  omega

end Runs

/-! ## First characters -/

theorem mem_signs {c : Char} {kind : TokenKind} :
    (c, kind) ∈ signs ↔ Piece.punctuation? c = some kind ∨ c = '/' ∧ kind = .slash := by
  constructor
  · intro h
    simp only [signs, List.mem_cons, Prod.mk.injEq, List.not_mem_nil, or_false] at h
    rcases h with ⟨rfl, rfl⟩ | ⟨rfl, rfl⟩ | ⟨rfl, rfl⟩ | ⟨rfl, rfl⟩ | ⟨rfl, rfl⟩ | ⟨rfl, rfl⟩ |
      ⟨rfl, rfl⟩ | ⟨rfl, rfl⟩ | ⟨rfl, rfl⟩ | ⟨rfl, rfl⟩ | ⟨rfl, rfl⟩
    all_goals simp [Piece.punctuation?]
  · rintro (h | ⟨rfl, rfl⟩)
    · unfold Piece.punctuation? at h
      split at h <;> cases h <;> simp [signs]
    · simp [signs]

theorem mem_comparisons {c : Char} {plain withEqual : TokenKind} :
    (c, plain, withEqual) ∈ comparisons ↔ Piece.comparison? c = some (plain, withEqual) := by
  constructor
  · intro h
    simp only [comparisons, List.mem_cons, Prod.mk.injEq, List.not_mem_nil, or_false] at h
    rcases h with ⟨rfl, rfl, rfl⟩ | ⟨rfl, rfl, rfl⟩ | ⟨rfl, rfl, rfl⟩ | ⟨rfl, rfl, rfl⟩ <;> rfl
  · intro h
    unfold Piece.comparison? at h
    split at h <;> cases h <;> simp [comparisons]

theorem mem_blanks {c : Char} : c ∈ blanks ↔ Piece.isBlank c = true := by
  simp only [blanks, Piece.isBlank, List.mem_cons, List.not_mem_nil, or_false, Bool.or_eq_true,
    beq_iff_eq]
  tauto

/-- Letters and digits start no other pieces than numbers and words. -/
theorem isAlphanumeric_other {c : Char} (h : isAlphanumeric c = true) :
    Piece.punctuation? c = none ∧ Piece.comparison? c = none ∧ c ≠ '/' ∧ Piece.isBlank c = false ∧
      c ≠ '"' := by
  refine ⟨?_, ?_, ?_, ?_, ?_⟩
  · unfold Piece.punctuation?
    split <;> first | rfl | cases h
  · unfold Piece.comparison?
    split <;> first | rfl | cases h
  · rintro rfl
    cases h
  · rw [Bool.eq_false_iff]
    intro hblank
    have hmem := mem_blanks.2 hblank
    simp only [blanks, List.mem_cons, List.not_mem_nil, or_false] at hmem
    rcases hmem with rfl | rfl | rfl | rfl <;> cases h
  · rintro rfl
    cases h

theorem not_blank_of_isAlphanumeric {c : Char} (h : isAlphanumeric c = true) : c ∉ blanks := by
  rw [mem_blanks, (isAlphanumeric_other h).2.2.2.1]
  exact Bool.false_ne_true

theorem not_blank_of_isDigit {c : Char} (h : isDigit c = true) : c ∉ blanks :=
  not_blank_of_isAlphanumeric (by rw [isAlphanumeric, h, Bool.or_true])

theorem isDigit_of_isAlpha {c : Char} (h : isAlpha c = true) : isDigit c = false := by
  rw [Bool.eq_false_iff]
  intro hd
  simp only [isAlpha, isDigit, Bool.or_eq_true, Bool.and_eq_true, decide_eq_true_eq, Char.le_def,
    UInt32.le_iff_toNat_le, beq_iff_eq] at h hd
  rcases h with (h | h) | rfl
  · exact absurd (Nat.le_trans h.1 hd.2) (by decide)
  · exact absurd (Nat.le_trans h.1 hd.2) (by decide)
  · exact absurd hd.2 (by decide)

namespace Piece

variable {c : Char} (rest : List Char)

theorem first_sign {kind : TokenKind} (h : punctuation? c = some kind) :
    first c rest = (.token kind [c], rest) := by
  rw [first, h]

theorem first_comparison {plain withEqual : TokenKind} (h : comparison? c = some (plain, withEqual)) :
    first c rest = comparison plain withEqual c rest := by
  have hsign : punctuation? c = none := by
    unfold comparison? at h
    split at h <;> first | rfl | cases h
  rw [first, hsign, h]

theorem first_slash : first '/' rest = slash rest := rfl

theorem first_string : first '"' rest = string rest := rfl

theorem first_blank (h : c ∈ blanks) : first c rest = (.blank c, rest) := by
  simp only [blanks, List.mem_cons, List.not_mem_nil, or_false] at h
  rcases h with rfl | rfl | rfl | rfl <;> rfl

theorem first_number (h : isDigit c = true) : first c rest = number c rest := by
  have hany : isAlphanumeric c = true := by rw [isAlphanumeric, h, Bool.or_true]
  obtain ⟨hsign, hcomparison, hslash, hblank, hquote⟩ := isAlphanumeric_other hany
  rw [first, hsign, hcomparison]
  simp [hslash, hblank, hquote, h]

theorem first_word (h : isAlpha c = true) : first c rest = word c rest := by
  have hany : isAlphanumeric c = true := by rw [isAlphanumeric, h, Bool.true_or]
  obtain ⟨hsign, hcomparison, hslash, hblank, hquote⟩ := isAlphanumeric_other hany
  rw [first, hsign, hcomparison]
  simp [hslash, hblank, hquote, isDigit_of_isAlpha h, h]

end Piece

/-! ## Cutting tokens -/

/-- A piece is a token, the longest of its class. -/
def Piece.IsLongest (cls : LexemeClass) (after : List Char) : Piece → Prop
  | .token kind text => Longest cls kind (.ofText kind text) text after
  | _ => False

/-- Only one text of a class is the longest. -/
theorem Longest.text_eq {cls : LexemeClass} {kind kind' : TokenKind} {literal literal' : Literal}
    {text text' after after' : List Char} (h : Longest cls kind literal text after)
    (h' : Longest cls kind' literal' text' after') (htext : text ++ after = text' ++ after') :
    text = text' ∧ after = after' := by
  have hle := h.longest _ _ _ h'.lexeme (htext ▸ List.prefix_append text' after')
  have hle' := h'.longest _ _ _ h.lexeme (htext ▸ List.prefix_append text after)
  exact List.append_inj htext (Nat.le_antisymm hle' hle)

theorem sign_isLongest {c : Char} {kind : TokenKind} (h : (c, kind) ∈ signs) (rest : List Char) :
    (Piece.token kind [c]).IsLongest .sign rest := by
  refine ⟨?_, fun _ _ other hother _ => ?_⟩
  · have hnil : Literal.ofText kind [c] = .nil := by
      simp only [signs, List.mem_cons, Prod.mk.injEq, List.not_mem_nil, or_false] at h
      rcases h with ⟨-, rfl⟩ | ⟨-, rfl⟩ | ⟨-, rfl⟩ | ⟨-, rfl⟩ | ⟨-, rfl⟩ | ⟨-, rfl⟩ | ⟨-, rfl⟩ |
        ⟨-, rfl⟩ | ⟨-, rfl⟩ | ⟨-, rfl⟩ | ⟨-, rfl⟩ <;> rfl
    rw [hnil]
    exact .sign h
  · cases hother with
    | sign _ => exact Nat.le_refl _

theorem comparison_isLongest {c : Char} {plain withEqual : TokenKind}
    (h : (c, plain, withEqual) ∈ comparisons) (rest : List Char) :
    (Piece.comparison plain withEqual c rest).1.IsLongest .comparison
      (Piece.comparison plain withEqual c rest).2 := by
  have hnil : ∀ text, Literal.ofText plain text = .nil ∧ Literal.ofText withEqual text = .nil := by
    intro text
    simp only [comparisons, List.mem_cons, Prod.mk.injEq, List.not_mem_nil, or_false] at h
    rcases h with ⟨-, rfl, rfl⟩ | ⟨-, rfl, rfl⟩ | ⟨-, rfl, rfl⟩ | ⟨-, rfl, rfl⟩ <;> exact ⟨rfl, rfl⟩
  unfold Piece.comparison
  split
  · refine ⟨?_, fun _ _ other hother _ => ?_⟩
    · rw [(hnil _).2]
      exact .withEqual h
    · cases hother <;> simp
  · rename_i hnot
    refine ⟨?_, fun _ _ other hother hhead => ?_⟩
    · rw [(hnil _).1]
      exact .plain h
    · cases hother with
      | plain _ => exact Nat.le_refl _
      | withEqual _ =>
        obtain ⟨more, hmore⟩ := hhead
        obtain ⟨rfl, hrest⟩ := List.cons.inj hmore
        exact absurd hrest.symm (hnot more)

/-- What a string has between its quotes is the run up to the next quote. -/
theorem string_run {inner : List Char} (h : '"' ∉ inner) (after : List Char) :
    (inner ++ '"' :: after).takeWhile (· != '"') = inner ∧
      (inner ++ '"' :: after).dropWhile (· != '"') = '"' :: after := by
  refine takeWhile_run (fun x hx => ?_) _ (by simp)
  rw [bne_iff_ne]
  rintro rfl
  exact h hx

theorem string_isLongest {inner : List Char} (h : '"' ∉ inner) (after : List Char) :
    Piece.string (inner ++ '"' :: after) = (.token .string ('"' :: inner ++ ['"']), after) ∧
      (Piece.token .string ('"' :: inner ++ ['"'])).IsLongest .string after := by
  obtain ⟨htake, hdrop⟩ := string_run h after
  refine ⟨?_, ?_, fun _ _ other hother hhead => ?_⟩
  · unfold Piece.string
    rw [htake, hdrop]
  · have hliteral : Literal.ofText .string ('"' :: inner ++ ['"']) = .str (String.ofList inner) := by
      simp [Literal.ofText]
    rw [hliteral]
    exact .string h
  · cases hother with
    | @string inner' h' =>
      obtain ⟨more, hmore⟩ := hhead
      simp only [List.cons_append, List.append_assoc, List.cons.injEq, true_and,
        List.nil_append] at hmore
      have htake' := (string_run h' more).1
      rw [hmore, htake] at htake'
      subst htake'
      exact Nat.le_refl _

/-! ### Words -/

/-- The class of a word, by the table of reserved words. -/
theorem lookup_keywords {word : String} {kind : TokenKind} :
    keywords.lookup word = some kind ↔ (word, kind) ∈ keywords := by
  constructor
  · intro h
    obtain ⟨before, after, heq, _⟩ := List.lookup_eq_some_iff.1 h
    rw [heq]
    exact List.mem_append_right _ List.mem_cons_self
  · intro h
    simp only [keywords, List.mem_cons, Prod.mk.injEq, List.not_mem_nil, or_false] at h
    rcases h with ⟨rfl, rfl⟩ | ⟨rfl, rfl⟩ | ⟨rfl, rfl⟩ | ⟨rfl, rfl⟩ | ⟨rfl, rfl⟩ | ⟨rfl, rfl⟩ |
      ⟨rfl, rfl⟩ | ⟨rfl, rfl⟩ | ⟨rfl, rfl⟩ | ⟨rfl, rfl⟩ | ⟨rfl, rfl⟩ | ⟨rfl, rfl⟩ | ⟨rfl, rfl⟩ |
      ⟨rfl, rfl⟩ | ⟨rfl, rfl⟩ | ⟨rfl, rfl⟩ <;> rfl

theorem word_lexeme {c : Char} {rest : List Char} (hc : isAlpha c = true)
    (h : ∀ d ∈ rest, isAlphanumeric d = true) :
    Lexeme .word (.ofWord (String.ofList (c :: rest)))
      (.ofText (.ofWord (String.ofList (c :: rest))) (c :: rest)) (c :: rest) := by
  unfold TokenKind.ofWord
  cases hlookup : keywords.lookup (String.ofList (c :: rest)) with
  | none =>
    refine .identifier hc h fun kind hmem => ?_
    rw [lookup_keywords.2 hmem] at hlookup
    cases hlookup
  | some kind =>
    have hmem := lookup_keywords.1 hlookup
    have hnil : Literal.ofText kind (c :: rest) = .nil := by
      clear hlookup
      simp only [keywords, List.mem_cons, Prod.mk.injEq, List.not_mem_nil, or_false] at hmem
      rcases hmem with ⟨-, rfl⟩ | ⟨-, rfl⟩ | ⟨-, rfl⟩ | ⟨-, rfl⟩ | ⟨-, rfl⟩ | ⟨-, rfl⟩ | ⟨-, rfl⟩ |
        ⟨-, rfl⟩ | ⟨-, rfl⟩ | ⟨-, rfl⟩ | ⟨-, rfl⟩ | ⟨-, rfl⟩ | ⟨-, rfl⟩ | ⟨-, rfl⟩ | ⟨-, rfl⟩ |
        ⟨-, rfl⟩ <;> rfl
    rw [Option.getD_some, hnil]
    exact .keyword hc h hmem

theorem word_isLongest {c : Char} (hc : isAlpha c = true) (rest : List Char) :
    (Piece.word c rest).1.IsLongest .word (Piece.word c rest).2 := by
  have hrun : ∀ d ∈ rest.takeWhile isAlphanumeric, isAlphanumeric d = true :=
    List.all_eq_true.1 List.all_takeWhile
  -- Another word at the same place is a run of letters and digits.
  have hother : ∀ {d : Char} {more : List Char}, (∀ x ∈ more, isAlphanumeric x = true) →
      d :: more <+: c :: rest.takeWhile isAlphanumeric ++ rest.dropWhile isAlphanumeric →
      (d :: more).length ≤ (c :: rest.takeWhile isAlphanumeric).length := by
    intro d more hmore hhead
    rw [List.cons_append, List.takeWhile_append_dropWhile] at hhead
    have hle := length_le_takeWhile hmore (List.cons_prefix_cons.1 hhead).2
    simp only [List.length_cons]
    omega
  refine ⟨word_lexeme hc hrun, fun _ _ other hlexeme hhead => ?_⟩
  cases hlexeme with
  | keyword _ hmore _ => exact hother hmore hhead
  | identifier _ hmore _ => exact hother hmore hhead

/-! ### Numbers -/

/-- A decimal with some of its digits behind the point. -/
theorem ofDecimal_places {digits : List Nat} {k : Nat} (h : k ≤ digits.length) :
    Number.ofDecimal false digits (-(k : Int)) =
      Number.nearest false (Text.digitsValue digits) (Nat.pow 10 k) := by
  have hsize : ¬ ((digits.length : Int) + -(k : Int) < -400) := by omega
  unfold Number.ofDecimal
  simp only [hsize, or_false]
  split
  · rename_i hzero
    simp [Number.nearest, Number.nearestBits, hzero]
  · cases k with
    | zero => simp
    | succ k =>
      rw [if_pos (by omega), Int.neg_neg, Int.toNat_natCast]

/-- The point is no digit. -/
theorem digits_ne_point {digits : List Char} (h : ∀ c ∈ digits, isDigit c = true) :
    ∀ c ∈ digits, (c != '.') = true := by
  intro c hc
  rw [bne_iff_ne]
  rintro rfl
  exact absurd (h '.' hc) (by decide)

theorem ofPlain_whole {digits : List Char} (h : ∀ c ∈ digits, isDigit c = true) :
    Number.ofPlain digits = nearestDecimal digits [] := by
  obtain ⟨htake, hdrop⟩ := takeWhile_run (digits_ne_point h) [] (by simp)
  rw [List.append_nil] at htake hdrop
  unfold Number.ofPlain
  simp only [htake, hdrop, List.drop_nil]
  exact ofDecimal_places (Nat.zero_le _)

theorem ofPlain_fraction {digits places : List Char} (h : ∀ c ∈ digits, isDigit c = true) :
    Number.ofPlain (digits ++ '.' :: places) = nearestDecimal digits places := by
  obtain ⟨htake, hdrop⟩ := takeWhile_run (digits_ne_point h) ('.' :: places) (by simp)
  unfold Number.ofPlain
  simp only [htake, hdrop, List.drop_succ_cons, List.drop_zero]
  refine ofDecimal_places ?_
  simp only [List.length_map, List.length_append]
  omega

/-- A fraction that is due: a point with digits behind it. -/
theorem fraction_due (d : Char) (rest : List Char) (h : isDigit d = true) :
    Piece.fraction ('.' :: d :: rest) =
      ('.' :: (d :: rest).takeWhile isDigit, (d :: rest).dropWhile isDigit) := by
  simp [Piece.fraction, h]

/-- No fraction is due. -/
theorem fraction_none {rest : List Char}
    (h : ∀ d more, rest = '.' :: d :: more → isDigit d = false) : Piece.fraction rest = ([], rest) := by
  unfold Piece.fraction
  split
  · rename_i d more
    rw [h d more rfl]
    rfl
  · rfl

/-- A number is a run of digits and the fraction behind it. -/
theorem number_run {c : Char} (hc : isDigit c = true) (rest : List Char) :
    Piece.number c rest =
      (.token .number ((c :: rest).takeWhile isDigit ++ (Piece.fraction ((c :: rest).dropWhile isDigit)).1),
        (Piece.fraction ((c :: rest).dropWhile isDigit)).2) := by
  simp [Piece.number, hc]

/-- Where a number has its point, the run of digits ends. -/
theorem digits_before_point {digits places l : List Char} (h : ∀ d ∈ digits, isDigit d = true)
    (hhead : digits ++ '.' :: places <+: l) :
    digits = l.takeWhile isDigit ∧ '.' :: places <+: l.dropWhile isDigit := by
  obtain ⟨more, rfl⟩ := hhead
  have hstop : ∀ x, ('.' :: places ++ more).head? = some x → isDigit x = false := by
    rintro x ⟨⟩
    rfl
  rw [List.append_assoc]
  obtain ⟨htake, hdrop⟩ := takeWhile_run h _ hstop
  exact ⟨htake.symm, more, hdrop.symm⟩

theorem number_isLongest {c : Char} (hc : isDigit c = true) (rest : List Char) :
    (Piece.number c rest).1.IsLongest .number (Piece.number c rest).2 := by
  have hsplit := List.takeWhile_append_dropWhile (p := isDigit) (l := c :: rest)
  have hdigits : ∀ d ∈ (c :: rest).takeWhile isDigit, isDigit d = true :=
    List.all_eq_true.1 List.all_takeWhile
  have hne : (c :: rest).takeWhile isDigit ≠ [] := by simp [hc]
  rw [number_run hc]
  by_cases hdue : ∃ d more, (c :: rest).dropWhile isDigit = '.' :: d :: more ∧ isDigit d = true
  · obtain ⟨d, more, htail, hd⟩ := hdue
    have hplaces : ∀ x ∈ (d :: more).takeWhile isDigit, isDigit x = true :=
      List.all_eq_true.1 List.all_takeWhile
    rw [htail] at hsplit
    rw [htail, fraction_due d more hd]
    refine ⟨?_, fun _ _ other hother hhead => ?_⟩
    · rw [Literal.ofText, ofPlain_fraction hdigits]
      exact .fraction hne hdigits (by simp [hd]) hplaces
    · rw [List.append_assoc, List.cons_append, List.takeWhile_append_dropWhile, hsplit] at hhead
      rw [List.length_append]
      cases hother with
      | whole _ hall =>
        have hle := length_le_takeWhile hall hhead
        omega
      | fraction _ hall _ hall' =>
        obtain ⟨rfl, hplace⟩ := digits_before_point hall hhead
        rw [htail] at hplace
        have hle := length_le_takeWhile hall' (List.cons_prefix_cons.1 hplace).2
        simp only [List.length_append, List.length_cons]
        omega
  · have hnot : ∀ d more, (c :: rest).dropWhile isDigit = '.' :: d :: more → isDigit d = false := by
      intro d more heq
      rw [Bool.eq_false_iff]
      exact fun hd => hdue ⟨d, more, heq, hd⟩
    rw [fraction_none hnot, List.append_nil]
    refine ⟨?_, fun _ _ other hother hhead => ?_⟩
    · rw [Literal.ofText, ofPlain_whole hdigits]
      exact .whole hne hdigits
    · rw [hsplit] at hhead
      cases hother with
      | whole _ hall => exact length_le_takeWhile hall hhead
      | fraction _ hall hne' hall' =>
        obtain ⟨rfl, more, hmore⟩ := digits_before_point hall hhead
        obtain ⟨d, places, rfl⟩ := List.exists_cons_of_ne_nil hne'
        have hd := hnot d (places ++ more) hmore.symm
        rw [hall' d List.mem_cons_self] at hd
        cases hd

/-! ## Cutting pieces -/

/-- Lexemes are not empty, and no blank is at their head. -/
theorem Lexeme.initial {cls : LexemeClass} {kind : TokenKind} {literal : Literal} {text : List Char}
    (h : Lexeme cls kind literal text) : ∃ c more, text = c :: more ∧ c ∉ blanks := by
  cases h with
  | sign hmem =>
    refine ⟨_, [], rfl, ?_⟩
    simp only [signs, List.mem_cons, Prod.mk.injEq, List.not_mem_nil, or_false] at hmem
    rcases hmem with ⟨rfl, -⟩ | ⟨rfl, -⟩ | ⟨rfl, -⟩ | ⟨rfl, -⟩ | ⟨rfl, -⟩ | ⟨rfl, -⟩ | ⟨rfl, -⟩ |
      ⟨rfl, -⟩ | ⟨rfl, -⟩ | ⟨rfl, -⟩ | ⟨rfl, -⟩ <;> decide
  | plain hmem | withEqual hmem =>
    refine ⟨_, _, rfl, ?_⟩
    simp only [comparisons, List.mem_cons, Prod.mk.injEq, List.not_mem_nil, or_false] at hmem
    rcases hmem with ⟨rfl, -⟩ | ⟨rfl, -⟩ | ⟨rfl, -⟩ | ⟨rfl, -⟩ <;> decide
  | string _ => exact ⟨'"', _, rfl, by decide⟩
  | whole hne hall =>
    obtain ⟨c, more, rfl⟩ := List.exists_cons_of_ne_nil hne
    exact ⟨c, more, rfl, not_blank_of_isDigit (hall c List.mem_cons_self)⟩
  | fraction hne hall _ _ =>
    obtain ⟨c, more, rfl⟩ := List.exists_cons_of_ne_nil hne
    exact ⟨c, _, rfl, not_blank_of_isDigit (hall c List.mem_cons_self)⟩
  | keyword hc _ _ | identifier hc _ _ =>
    refine ⟨_, _, rfl, not_blank_of_isAlphanumeric ?_⟩
    rw [isAlphanumeric, hc, Bool.true_or]

theorem Lexeme.string_kind {kind : TokenKind} {literal : Literal} {text : List Char}
    (h : Lexeme .string kind literal text) : kind = .string := by
  cases h
  rfl

theorem Lexeme.number_kind {kind : TokenKind} {literal : Literal} {text : List Char}
    (h : Lexeme .number kind literal text) : kind = .number := by
  cases h <;> rfl

/-- A text of a class has one kind. -/
theorem Lexeme.kind_eq {cls : LexemeClass} {kind kind' : TokenKind} {literal literal' : Literal}
    {text : List Char} (h : Lexeme cls kind literal text) (h' : Lexeme cls kind' literal' text) :
    kind = kind' := by
  cases h with
  | sign hmem =>
    cases h' with
    | sign hmem' =>
      rw [mem_signs] at hmem hmem'
      rcases hmem with hmem | ⟨rfl, rfl⟩
      · rcases hmem' with hmem' | ⟨rfl, rfl⟩
        · exact Option.some.inj (hmem.symm.trans hmem')
        · cases hmem
      · rcases hmem' with hmem' | ⟨-, rfl⟩
        · cases hmem'
        · rfl
  | plain hmem =>
    cases h' with
    | plain hmem' =>
      rw [mem_comparisons] at hmem hmem'
      exact congrArg Prod.fst (Option.some.inj (hmem.symm.trans hmem'))
  | withEqual hmem =>
    cases h' with
    | withEqual hmem' =>
      rw [mem_comparisons] at hmem hmem'
      exact congrArg Prod.snd (Option.some.inj (hmem.symm.trans hmem'))
  | string _ => exact h'.string_kind.symm
  | whole _ _ | fraction _ _ _ _ => exact h'.number_kind.symm
  | keyword _ _ hmem =>
    cases h' with
    | keyword _ _ hmem' =>
      rw [← lookup_keywords] at hmem hmem'
      exact Option.some.inj (hmem.symm.trans hmem')
    | identifier _ _ hnot => exact absurd hmem (hnot _)
  | identifier _ _ hnot =>
    cases h' with
    | keyword _ _ hmem' => exact absurd hmem' (hnot _)
    | identifier _ _ _ => rfl

namespace Piece

theorem slash_token {rest : List Char} (h : ¬ ['/', '/'] <+: '/' :: rest) :
    slash rest = (.token .slash ['/'], rest) := by
  unfold slash
  split
  · rename_i more
    exact absurd ⟨more, rfl⟩ h
  · rfl

/-- Where a lexeme stands that starts no comment, the longest of its class is cut off. -/
theorem first_isLongest {cls : LexemeClass} {kind : TokenKind} {literal : Literal} {c : Char}
    {text rest : List Char} (h : Lexeme cls kind literal text) (hhead : text <+: c :: rest)
    (hcomment : ¬ ['/', '/'] <+: c :: rest) :
    (first c rest).1.IsLongest cls (first c rest).2 := by
  -- The class is known from the first character of the text.
  obtain ⟨after, hafter⟩ := hhead
  cases h with
  | sign hmem =>
    obtain ⟨rfl, -⟩ := List.cons.inj hafter
    obtain hsign | ⟨rfl, rfl⟩ := mem_signs.1 hmem
    · rw [first_sign rest hsign]
      exact sign_isLongest hmem rest
    · rw [first_slash, slash_token hcomment]
      exact sign_isLongest hmem rest
  | plain hmem | withEqual hmem =>
    obtain ⟨rfl, -⟩ := List.cons.inj hafter
    rw [first_comparison rest (mem_comparisons.1 hmem)]
    exact comparison_isLongest hmem rest
  | string hinner =>
    rw [List.cons_append, List.cons_append, List.append_assoc, List.singleton_append] at hafter
    obtain ⟨rfl, rfl⟩ := List.cons.inj hafter
    obtain ⟨hstring, hlongest⟩ := string_isLongest hinner after
    rw [first_string, hstring]
    exact hlongest
  | whole hne hall =>
    obtain ⟨d, more, rfl⟩ := List.exists_cons_of_ne_nil hne
    obtain ⟨rfl, -⟩ := List.cons.inj hafter
    have hd := hall d List.mem_cons_self
    rw [first_number rest hd]
    exact number_isLongest hd rest
  | fraction hne hall _ _ =>
    obtain ⟨d, more, rfl⟩ := List.exists_cons_of_ne_nil hne
    obtain ⟨rfl, -⟩ := List.cons.inj hafter
    have hd := hall d List.mem_cons_self
    rw [first_number rest hd]
    exact number_isLongest hd rest
  | keyword hc _ _ | identifier hc _ _ =>
    obtain ⟨rfl, -⟩ := List.cons.inj hafter
    rw [first_word rest hc]
    exact word_isLongest hc rest

theorem IsLongest.eq_token {cls : LexemeClass} {after : List Char} {p : Piece}
    (h : p.IsLongest cls after) :
    ∃ kind text, p = .token kind text ∧ Longest cls kind (.ofText kind text) text after := by
  cases p with
  | token kind text => exact ⟨kind, text, rfl, h⟩
  | blank _ | comment _ | unexpected _ | unterminated _ => exact h.elim

/-- A character that starts nothing else is unexpected. -/
theorem first_unexpected {c : Char} (hblank : c ∉ blanks) (hquote : c ≠ '"')
    (hnone : ∀ cls kind literal, ¬ Lexeme cls kind literal [c]) (rest : List Char) :
    first c rest = (.unexpected c, rest) := by
  have hsign : punctuation? c = none := by
    rw [Option.eq_none_iff_forall_ne_some]
    exact fun kind h => hnone _ _ _ (.sign (mem_signs.2 (.inl h)))
  have hcomparison : comparison? c = none := by
    rw [Option.eq_none_iff_forall_ne_some]
    exact fun kinds h => hnone _ _ _ (.plain (mem_comparisons.2 h))
  have hslash : c ≠ '/' := fun h => hnone _ _ _ (.sign (mem_signs.2 (.inr ⟨h, rfl⟩)))
  have hdigit : isDigit c = false := by
    rw [Bool.eq_false_iff]
    exact fun h => hnone _ _ _ (.whole (List.cons_ne_nil c []) (by simpa using h))
  have halpha : isAlpha c = false := by
    rw [Bool.eq_false_iff]
    exact fun h => hnone _ _ _ (word_lexeme h (by simp))
  rw [mem_blanks, Bool.not_eq_true] at hblank
  rw [first, hsign, hcomparison]
  simp [hslash, hblank, hquote, hdigit, halpha]

/-- A quote that no other follows. -/
theorem first_unterminated {inner : List Char} (h : '"' ∉ inner) :
    first '"' inner = (.unterminated ('"' :: inner), []) := by
  have hrun : ∀ x ∈ inner, (x != '"') = true := by
    intro x hx
    rw [bne_iff_ne]
    rintro rfl
    exact h hx
  obtain ⟨htake, hdrop⟩ := takeWhile_run hrun [] (by simp)
  rw [List.append_nil] at htake hdrop
  rw [first_string, string, htake, hdrop]

/-- Two slashes, and the run up to the end of the line. -/
theorem first_comment {inner after : List Char} (h : '\n' ∉ inner)
    (hafter : ∀ c, after.head? = some c → c = '\n') :
    first '/' ('/' :: inner ++ after) = (.comment ('/' :: '/' :: inner), after) := by
  have hrun : ∀ x ∈ inner, (x != '\n') = true := by
    intro x hx
    rw [bne_iff_ne]
    rintro rfl
    exact h hx
  obtain ⟨htake, hdrop⟩ := takeWhile_run hrun after
    (fun x hx => by simp [hafter x hx])
  rw [first_slash, List.cons_append, slash, htake, hdrop]

end Piece

/-- Only strings have no texts of one character. -/
theorem Lexeme.single {cls : LexemeClass} {kind : TokenKind} {literal : Literal} {text : List Char}
    {c : Char} (h : Lexeme cls kind literal text) (hc : text.head? = some c) (hquote : c ≠ '"') :
    ∃ kind literal, Lexeme cls kind literal [c] := by
  cases h with
  | sign hmem =>
    cases hc
    exact ⟨_, _, .sign hmem⟩
  | plain hmem | withEqual hmem =>
    cases hc
    exact ⟨_, _, .plain hmem⟩
  | string _ =>
    cases hc
    exact absurd rfl hquote
  | whole hne hall =>
    refine ⟨_, _, .whole (List.cons_ne_nil c []) ?_⟩
    simpa using hall c (List.mem_of_mem_head? hc)
  | fraction hne hall _ _ =>
    rw [List.head?_append_of_ne_nil _ hne] at hc
    refine ⟨_, _, .whole (List.cons_ne_nil c []) ?_⟩
    simpa using hall c (List.mem_of_mem_head? hc)
  | keyword hc' _ _ | identifier hc' _ _ =>
    cases hc
    exact ⟨_, _, word_lexeme hc' (by simp)⟩

/-- The longest text of its class is cut off, and its value is read from it. -/
theorem Longest.first_eq {cls : LexemeClass} {kind : TokenKind} {literal : Literal}
    {text after rest : List Char} {c : Char} (h : Longest cls kind literal text after)
    (htext : text ++ after = c :: rest) (hcomment : ¬ ['/', '/'] <+: text ++ after) :
    Piece.first c rest = (.token kind text, after) ∧ Lexeme cls kind (.ofText kind text) text := by
  rw [htext] at hcomment
  obtain ⟨kind', text', hpiece, hlongest⟩ :=
    (Piece.first_isLongest h.lexeme (htext ▸ List.prefix_append _ _) hcomment).eq_token
  have happend := Piece.first_append c rest
  rw [hpiece] at happend
  obtain ⟨rfl, rfl⟩ := hlongest.text_eq h (happend.trans htext.symm)
  obtain rfl := h.lexeme.kind_eq hlongest.lexeme
  exact ⟨Prod.ext hpiece rfl, hlongest.lexeme⟩

namespace Piece

/-- **The piece that is cut off is due.** -/
theorem first_fits (c : Char) (rest : List Char) : (first c rest).1.Fits (first c rest).2 := by
  by_cases hcomment : ['/', '/'] <+: c :: rest
  · obtain ⟨more, hmore⟩ := hcomment
    obtain ⟨rfl, rfl⟩ := List.cons.inj hmore
    have hline := List.all_eq_true.1 (List.all_takeWhile (p := (· != '\n')) (l := more))
    refine ⟨⟨_, rfl⟩, ?_, fun c hc => ?_⟩
    · rw [List.mem_cons, List.mem_cons]
      rintro (h | h | h)
      · cases h
      · cases h
      · exact absurd (hline _ h) (by simp)
    · simpa using head?_dropWhile_run _ hc
  by_cases hlexeme : ∃ cls kind literal text, Lexeme cls kind literal text ∧ text <+: c :: rest
  · obtain ⟨cls, _, _, _, h, hhead⟩ := hlexeme
    obtain ⟨kind, text, hpiece, hlongest⟩ := (first_isLongest h hhead hcomment).eq_token
    have happend := first_append c rest
    rw [hpiece] at happend ⊢
    exact ⟨⟨cls, _, hlongest⟩, by rwa [← happend] at hcomment⟩
  by_cases hblank : c ∈ blanks
  · rw [first_blank rest hblank]
    exact hblank
  by_cases hquote : c = '"'
  · subst hquote
    have hnone : '"' ∉ rest := by
      intro hmem
      obtain ⟨inner, after, rfl, hinner⟩ := List.eq_append_cons_of_mem hmem
      exact hlexeme ⟨_, _, _, _, .string hinner, after, by simp⟩
    rw [first_unterminated hnone]
    exact ⟨⟨rest, rfl, hnone⟩, rfl⟩
  have hsingle : ∀ cls kind literal, ¬ Lexeme cls kind literal [c] := fun cls kind literal h =>
    hlexeme ⟨cls, kind, literal, [c], h, rest, rfl⟩
  rw [first_unexpected hblank hquote hsingle]
  refine ⟨hblank, fun cls kind literal text h hhead => ?_⟩
  obtain ⟨_, _, h'⟩ := h.single hhead hquote
  exact hsingle _ _ _ h'

/-- **The piece that is due is cut off.** -/
theorem Fits.first_eq {p : Piece} {c : Char} {rest after : List Char} (h : p.Fits after)
    (htext : p.text ++ after = c :: rest) : first c rest = (p, after) := by
  cases p with
  | token kind text =>
    obtain ⟨⟨cls, literal, hlongest⟩, hcomment⟩ := h
    exact (hlongest.first_eq htext hcomment).1
  | blank b =>
    obtain ⟨rfl, rfl⟩ := List.cons.inj htext
    exact first_blank _ h
  | comment text =>
    obtain ⟨⟨inner, rfl⟩, hline, hafter⟩ := h
    obtain ⟨rfl, rfl⟩ := List.cons.inj htext
    exact first_comment (fun hmem => hline (List.mem_append_right _ hmem)) hafter
  | unexpected d =>
    obtain ⟨rfl, rfl⟩ := List.cons.inj htext
    obtain ⟨hblank, hnone⟩ := h
    refine first_unexpected hblank ?_ (fun _ _ _ h => hnone _ _ _ _ h rfl) _
    rintro rfl
    exact hnone _ _ _ _ (.string (List.not_mem_nil (a := '"'))) rfl
  | unterminated text =>
    obtain ⟨⟨inner, rfl, hinner⟩, rfl⟩ := h
    rw [text, List.append_nil] at htext
    obtain ⟨rfl, rfl⟩ := List.cons.inj htext
    exact first_unterminated hinner

theorem Fits.text_ne_nil {p : Piece} {after : List Char} (h : p.Fits after) : p.text ≠ [] := by
  cases p with
  | token kind text =>
    obtain ⟨⟨_, _, hlongest⟩, _⟩ := h
    obtain ⟨c, more, rfl, _⟩ := hlongest.lexeme.initial
    exact List.cons_ne_nil c more
  | blank c | unexpected c => exact List.cons_ne_nil c []
  | comment text =>
    obtain ⟨⟨inner, rfl⟩, _⟩ := h
    exact List.cons_ne_nil _ _
  | unterminated text =>
    obtain ⟨⟨inner, rfl, _⟩, _⟩ := h
    exact List.cons_ne_nil _ _

end Piece

/-! ## Cutting a source -/

theorem isCut_nil (source : List Char) : IsCut source [] ↔ source = [] := by
  refine ⟨fun h => h.text.symm, ?_⟩
  rintro rfl
  exact ⟨rfl, fun before p after h => by simp at h⟩

theorem isCut_cons (source : List Char) (p : Piece) (pieces : List Piece) :
    IsCut source (p :: pieces) ↔ p.Fits (pieces.flatMap Piece.text) ∧
      p.text ++ pieces.flatMap Piece.text = source ∧ IsCut (pieces.flatMap Piece.text) pieces := by
  constructor
  · intro h
    exact ⟨h.fits [] p pieces rfl, h.text, rfl, fun before q after heq =>
      h.fits (p :: before) q after (congrArg (p :: ·) heq)⟩
  · rintro ⟨hfits, htext, hrest⟩
    refine ⟨htext, fun before q after heq => ?_⟩
    cases before with
    | nil =>
      obtain ⟨rfl, rfl⟩ := List.cons.inj heq
      exact hfits
    | cons r before =>
      exact hrest.fits before q after (List.cons.inj heq).2

/-- **A source has one cut, and scanning finds it.** -/
theorem isCut_iff (source : List Char) (pieces : List Piece) :
    IsCut source pieces ↔ pieces = Piece.all source := by
  constructor
  · intro h
    induction pieces generalizing source with
    | nil =>
      rw [isCut_nil] at h
      subst h
      rw [Piece.all]
    | cons p pieces ih =>
      obtain ⟨hfits, htext, hrest⟩ := (isCut_cons source p pieces).1 h
      cases source with
      | nil => exact absurd (List.append_eq_nil_iff.1 htext).1 hfits.text_ne_nil
      | cons c rest =>
        rw [Piece.all, hfits.first_eq htext, ← ih _ hrest]
  · rintro rfl
    fun_induction Piece.all source with
    | case1 => exact (isCut_nil []).2 rfl
    | case2 c rest ih =>
      have htext := Piece.flatMap_text_all (Piece.first c rest).2
      rw [isCut_cons, htext]
      exact ⟨Piece.first_fits c rest, Piece.first_append c rest, ih⟩

/-! ## Reading pieces off -/

/-- Pieces, each with all that stands before it. -/
def placed (before : List Char) : List Piece → List (List Char × Piece)
  | [] => []
  | p :: rest => (before, p) :: placed (before ++ p.text) rest

/-- The line on which a piece ends. -/
def endLine (place : List Char × Piece) : Nat := 1 + lineFeeds (place.1 ++ place.2.text)

def Piece.isToken : Piece → Bool
  | .token _ _ => true
  | _ => false

/-- A piece is read as a token. -/
structure ReadAs (place : List Char × Piece) (t : Token) : Prop where
  piece : place.2 = .token t.kind t.lexeme.toList
  lexeme : ∃ cls, Lexeme cls t.kind t.literal t.lexeme.toList
  line : t.line = endLine place

/-- The message about a piece that belongs to no program. -/
def message? (place : List Char × Piece) : Option String :=
  match place.2 with
  | .unexpected _ =>
    some ("[line " ++ toString (endLine place) ++ "] Error: " ++ "Unexpected character.")
  | .unterminated _ =>
    some ("[line " ++ toString (endLine place) ++ "] Error: " ++ "Unterminated string.")
  | _ => none

/-- The value of a token that is due is read from its text. -/
theorem Piece.Fits.lexeme {kind : TokenKind} {text after : List Char}
    (h : (Piece.token kind text).Fits after) : ∃ cls, Lexeme cls kind (.ofText kind text) text := by
  obtain ⟨⟨cls, literal, hlongest⟩, hcomment⟩ := h
  obtain ⟨c, more, htext, _⟩ := hlongest.lexeme.initial
  have hcons : text ++ after = c :: (more ++ after) := by rw [htext, List.cons_append]
  exact ⟨cls, (hlongest.first_eq hcons hcomment).2⟩

/-- A problem at no token, as it is reported. -/
theorem render_unnamed (line : Nat) (problem : Problem) :
    (Diagnostic.mk line .unnamed problem).render =
      "[line " ++ toString line ++ "] Error: " ++ problem.message := by
  have hcolon : "] Error" ++ ("" ++ (": " ++ problem.message)) = "] Error: " ++ problem.message := by
    rw [String.empty_append, ← String.append_assoc]
    rfl
  simp only [Diagnostic.render, staticErrorText, Place.text, String.append_assoc]
  rw [hcolon]
  rfl

/-- Pieces that are due are read off in order. -/
theorem scanPieces_placed {source : List Char} {pieces : List Piece} (before : List Char)
    (h : IsCut source pieces) :
    (scanPieces (1 + lineFeeds before) pieces).stop =
        ⟨.endOfInput, "", .nil, 1 + lineFeeds (before ++ source)⟩ ∧
      List.Forall₂ ReadAs ((placed before pieces).filter (·.2.isToken))
        (scanPieces (1 + lineFeeds before) pieces).tokens ∧
      (scanPieces (1 + lineFeeds before) pieces).found.map Diagnostic.render =
        (placed before pieces).filterMap message? := by
  induction pieces generalizing source before with
  | nil =>
    rw [isCut_nil] at h
    subst h
    rw [List.append_nil]
    exact ⟨rfl, .nil, rfl⟩
  | cons p pieces ih =>
    obtain ⟨hfits, rfl, hrest⟩ := (isCut_cons source p pieces).1 h
    have hline : 1 + lineFeeds before + lineFeeds p.text = 1 + lineFeeds (before ++ p.text) := by
      rw [lineFeeds, lineFeeds, lineFeeds, List.count_append, Nat.add_assoc]
    obtain ⟨hstop, htokens, hfound⟩ := ih (before ++ p.text) hrest
    rw [List.append_assoc] at hstop
    cases p with
    | token kind text =>
      simp only [scanPieces, hline]
      refine ⟨hstop, .cons ⟨?_, ?_, rfl⟩ htokens, hfound⟩
      · rw [String.toList_ofList]
      · rw [String.toList_ofList]
        exact hfits.lexeme
    | blank c | comment text =>
      simp only [scanPieces, hline]
      exact ⟨hstop, htokens, hfound⟩
    | unexpected c | unterminated text =>
      simp only [scanPieces, hline]
      refine ⟨hstop, htokens, ?_⟩
      rw [List.map_cons, hfound, render_unnamed]
      rfl

/-- **Scanning cuts a source at the longest matches.**  A source is made up of pieces in one way only
where each piece is due; the tokens are the token pieces in order, and the end of the input; the
messages are about the pieces that belong to no program. -/
theorem scan_cuts_at_longest_matches (source : String) :
    ∃ pieces tokens, (∀ pieces', IsCut source.toList pieces' ↔ pieces' = pieces) ∧
      (scan source).all = tokens ++ [⟨.endOfInput, "", .nil, 1 + lineFeeds source.toList⟩] ∧
      List.Forall₂ ReadAs ((placed [] pieces).filter (·.2.isToken)) tokens ∧
      (scan source).found.map Diagnostic.render = (placed [] pieces).filterMap message? := by
  obtain ⟨hstop, htokens, hfound⟩ := scanPieces_placed [] ((isCut_iff source.toList _).2 rfl)
  refine ⟨_, (scan source).tokens, isCut_iff source.toList, ?_, htokens, hfound⟩
  rw [Scanned.all]
  exact congrArg (_ ++ [·]) hstop

end LoxLang
