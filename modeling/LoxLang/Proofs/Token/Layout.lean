import LoxLang.Proofs.Token.Longest

/-!
# Layout

The tokens of a source, written down again with anything between them that only sets tokens apart, are
the same tokens.  What carries the proof is that no lexeme but a string has a blank in it: a lexeme
that a blank follows is the longest of its class, whatever else stands behind it.

Principal results: `Lexeme.longest`, `Separator.all_append`, `layout_does_not_matter`.
-/

namespace LoxLang

/-! ## Separators -/

/-- Blanks and comments, each comment with the end of its line. -/
inductive Separator : List Char → Prop where
  | nil : Separator []
  | blank {c : Char} {rest : List Char} : c ∈ blanks → Separator rest → Separator (c :: rest)
  | comment {body rest : List Char} : '\n' ∉ body → Separator rest →
      Separator ('/' :: '/' :: body ++ '\n' :: rest)

/-- A text in front of which no lexeme goes on: it is empty, or starts with a blank. -/
def Parts (after : List Char) : Prop := ∀ c, after.head? = some c → c ∈ blanks

/-- Separators that set the tokens before them apart from what follows: each starts with a blank, or
is empty with nothing behind it. -/
structure SetApart (separators : List String) : Prop where
  separator : ∀ w ∈ separators, Separator w.toList
  blank : ∀ before w after, separators = before ++ w :: after →
    (∃ c ∈ blanks, w.toList.head? = some c) ∨ w = "" ∧ after = []

/-- Tokens written down, with a separator behind each. -/
def spread (tokens : List Token) (separators : List String) : String :=
  String.join (tokens.zipWith (fun t w => t.lexeme ++ w) separators)

/-- A token without its place. -/
def Token.shape (t : Token) : TokenKind × String × Literal := (t.kind, t.lexeme, t.literal)

/-! ## Lexemes before a blank -/

/-- Only strings have blanks in them. -/
theorem Lexeme.not_mem_blanks {cls : LexemeClass} {kind : TokenKind} {literal : Literal}
    {text : List Char} (h : Lexeme cls kind literal text) (hcls : cls ≠ .string) :
    ∀ c ∈ text, c ∉ blanks := by
  obtain ⟨d, more, htext, hd⟩ := h.initial
  cases h with
  | sign _ | plain _ =>
    obtain ⟨rfl, -⟩ := List.cons.inj htext
    simpa using hd
  | withEqual _ =>
    obtain ⟨rfl, -⟩ := List.cons.inj htext
    rw [List.forall_mem_cons, List.forall_mem_singleton]
    exact ⟨hd, by decide⟩
  | string _ => exact absurd rfl hcls
  | whole _ hall => exact fun c hc => not_blank_of_isDigit (hall c hc)
  | fraction _ hall _ hall' =>
    rw [List.forall_mem_append, List.forall_mem_cons]
    exact ⟨fun c hc => not_blank_of_isDigit (hall c hc), by decide,
      fun c hc => not_blank_of_isDigit (hall' c hc)⟩
  | keyword _ hall _ | identifier _ hall _ =>
    obtain ⟨rfl, -⟩ := List.cons.inj htext
    rw [List.forall_mem_cons]
    exact ⟨hd, fun c hc => not_blank_of_isAlphanumeric (hall c hc)⟩

/-- **A lexeme that a blank follows is the longest of its class.** -/
theorem Lexeme.longest {cls : LexemeClass} {kind : TokenKind} {literal : Literal}
    {text after : List Char} (h : Lexeme cls kind literal text) (hafter : Parts after) :
    Longest cls kind literal text after := by
  refine ⟨h, fun kind' literal' other hother hhead => ?_⟩
  by_cases hcls : cls = .string
  · subst hcls
    cases h with
    | string hinner => exact (string_isLongest hinner after).2.longest _ _ _ hother hhead
  · -- A longer one would have the blank in it.
    by_contra hlong
    obtain ⟨more, rfl⟩ := List.prefix_of_prefix_length_le (List.prefix_append text after) hhead
      (Nat.le_of_not_le hlong)
    obtain ⟨end', hend⟩ := List.prefix_append_right_inj text |>.1 hhead
    cases more with
    | nil => simp at hlong
    | cons c more =>
      have hblank : c ∈ blanks := hafter c (by rw [← hend]; rfl)
      exact hother.not_mem_blanks hcls c (by simp) hblank

/-- No lexeme starts a comment. -/
theorem Lexeme.not_comment {cls : LexemeClass} {kind : TokenKind} {literal : Literal}
    {text after : List Char} (h : Lexeme cls kind literal text) (hafter : Parts after) :
    ¬ ['/', '/'] <+: text ++ after := by
  rintro ⟨more, hmore⟩
  have hother : isAlphanumeric '/' ≠ true := by decide
  cases h with
  | sign _ | plain _ =>
    -- A slash alone, with a blank behind it.
    obtain ⟨-, rfl⟩ := List.cons.inj hmore
    exact absurd (hafter '/' rfl) (by decide)
  | withEqual _ =>
    obtain ⟨-, hmore⟩ := List.cons.inj hmore
    exact absurd (List.cons.inj hmore).1 (by decide)
  | string _ => exact absurd (List.cons.inj hmore).1 (by decide)
  | whole hne hall | fraction hne hall _ _ =>
    obtain ⟨d, digits, rfl⟩ := List.exists_cons_of_ne_nil hne
    obtain ⟨rfl, -⟩ := List.cons.inj hmore
    exact hother (by rw [isAlphanumeric, hall _ List.mem_cons_self, Bool.or_true])
  | keyword hc _ _ | identifier hc _ _ =>
    obtain ⟨rfl, -⟩ := List.cons.inj hmore
    exact hother (by rw [isAlphanumeric, hc, Bool.true_or])

/-- A lexeme that a blank follows is cut off. -/
theorem Lexeme.all_append {cls : LexemeClass} {kind : TokenKind} {literal : Literal}
    {text after : List Char} (h : Lexeme cls kind literal text) (hafter : Parts after) :
    Piece.all (text ++ after) = .token kind text :: Piece.all after := by
  obtain ⟨c, more, htext, -⟩ := h.initial
  have hcons : text ++ after = c :: (more ++ after) := by rw [htext, List.cons_append]
  have hfirst := ((h.longest hafter).first_eq hcons (h.not_comment hafter)).1
  rw [hcons, Piece.all, hfirst]

/-! ## Cutting separators -/

/-- Whether nothing is read off from a piece. -/
def Piece.isSilent : Piece → Bool
  | .blank _ => true
  | .comment _ => true
  | _ => false

/-- A separator is cut into blanks and comments, and what follows it as if it stood alone. -/
theorem Separator.all_append {w : List Char} (h : Separator w) (after : List Char) :
    ∃ pieces, Piece.all (w ++ after) = pieces ++ Piece.all after ∧
      ∀ p ∈ pieces, p.isSilent = true := by
  induction h with
  | nil => exact ⟨[], rfl, by simp⟩
  | @blank c rest hc _ ih =>
    obtain ⟨pieces, hall, hsilent⟩ := ih
    refine ⟨.blank c :: pieces, ?_, List.forall_mem_cons.2 ⟨rfl, hsilent⟩⟩
    rw [List.cons_append, Piece.all, Piece.first_blank _ hc, hall, List.cons_append]
  | @comment body rest hbody _ ih =>
    obtain ⟨pieces, hall, hsilent⟩ := ih
    refine ⟨.comment ('/' :: '/' :: body) :: .blank '\n' :: pieces, ?_,
      List.forall_mem_cons.2 ⟨rfl, List.forall_mem_cons.2 ⟨rfl, hsilent⟩⟩⟩
    have hfirst : Piece.first '/' ('/' :: body ++ ('\n' :: (rest ++ after))) =
        (.comment ('/' :: '/' :: body), '\n' :: (rest ++ after)) :=
      Piece.first_comment hbody (fun c hc => (Option.some.inj hc).symm)
    have htext : '/' :: '/' :: body ++ '\n' :: rest ++ after =
        '/' :: ('/' :: body ++ '\n' :: (rest ++ after)) := by
      simp
    rw [htext, Piece.all, hfirst, Piece.all, Piece.first_blank _ (by decide), hall, List.cons_append,
      List.cons_append]

/-- Nothing is read off from blanks and comments. -/
theorem scanPieces_silent {pieces : List Piece} (h : ∀ p ∈ pieces, p.isSilent = true) (line : Nat)
    (rest : List Piece) : ∃ line', scanPieces line (pieces ++ rest) = scanPieces line' rest := by
  induction pieces generalizing line with
  | nil => exact ⟨line, rfl⟩
  | cons p pieces ih =>
    rw [List.forall_mem_cons] at h
    obtain ⟨line', hline'⟩ := ih h.2 (line + lineFeeds p.text)
    cases p with
    | blank c | comment text => exact ⟨line', hline'⟩
    | token _ _ | unexpected _ | unterminated _ => cases h.1

/-! ## Reading tokens again -/

/-- A token that has been read: a lexeme, with the value that its text has. -/
structure Token.IsRead (t : Token) : Prop where
  literal : t.literal = .ofText t.kind t.lexeme.toList
  lexeme : ∃ cls, Lexeme cls t.kind t.literal t.lexeme.toList

theorem isRead_of_isCut {source : List Char} {pieces : List Piece} (h : IsCut source pieces)
    (line : Nat) : ∀ t ∈ (scanPieces line pieces).tokens, t.IsRead := by
  induction pieces generalizing source line with
  | nil => simp [scanPieces]
  | cons p pieces ih =>
    obtain ⟨hfits, -, hrest⟩ := (isCut_cons source p pieces).1 h
    have hih := ih hrest (line + lineFeeds p.text)
    cases p with
    | token kind text =>
      refine List.forall_mem_cons.2 ⟨⟨?_, ?_⟩, hih⟩
      · rw [String.toList_ofList]
      · rw [String.toList_ofList]
        exact hfits.lexeme
    | blank _ | comment _ | unexpected _ | unterminated _ => exact hih

theorem SetApart.parts {w : String} {separators : List String} (h : SetApart (w :: separators))
    {after : List Char} (hlast : separators = [] → after = []) : Parts (w.toList ++ after) := by
  obtain ⟨c, hc, hhead⟩ | ⟨rfl, hnil⟩ := h.blank [] w separators rfl
  · rintro d hd
    rw [List.head?_append, hhead] at hd
    cases hd
    exact hc
  · rw [hlast hnil]
    rintro c ⟨⟩

theorem SetApart.tail {w : String} {separators : List String} (h : SetApart (w :: separators)) :
    SetApart separators :=
  ⟨fun v hv => h.separator v (List.mem_cons_of_mem _ hv), fun before v after heq =>
    h.blank (w :: before) v after (congrArg (w :: ·) heq)⟩

theorem spread_nil (separators : List String) : (spread [] separators).toList = [] := rfl

theorem spread_cons (t : Token) (tokens : List Token) (w : String) (separators : List String) :
    (spread (t :: tokens) (w :: separators)).toList =
      t.lexeme.toList ++ (w.toList ++ (spread tokens separators).toList) := by
  simp [spread]

/-- Tokens that are set apart are read again. -/
theorem scanPieces_spread {tokens : List Token} {separators : List String}
    (hcount : separators.length = tokens.length) (hapart : SetApart separators)
    (htokens : ∀ t ∈ tokens, t.IsRead) (line : Nat) :
    (scanPieces line (Piece.all (spread tokens separators).toList)).found = [] ∧
      (scanPieces line (Piece.all (spread tokens separators).toList)).tokens.map Token.shape =
        tokens.map Token.shape := by
  induction tokens generalizing separators line with
  | nil =>
    rw [spread_nil, Piece.all]
    exact ⟨rfl, rfl⟩
  | cons t tokens ih =>
    obtain ⟨w, separators, rfl⟩ := List.exists_cons_of_length_pos (l := separators) (by simp [hcount])
    rw [List.length_cons, List.length_cons, Nat.add_right_cancel_iff] at hcount
    rw [List.forall_mem_cons] at htokens
    obtain ⟨⟨hliteral, cls, hlexeme⟩, htokens⟩ := htokens
    have hlast : separators = [] → (spread tokens separators).toList = [] := by
      rintro rfl
      rw [List.eq_nil_of_length_eq_zero hcount.symm]
      rfl
    obtain ⟨pieces, hall, hsilent⟩ := (hapart.separator w List.mem_cons_self).all_append
      (spread tokens separators).toList
    obtain ⟨line', hline'⟩ := scanPieces_silent hsilent (line + lineFeeds t.lexeme.toList)
      (Piece.all (spread tokens separators).toList)
    obtain ⟨hfound, hshape⟩ := ih hcount hapart.tail htokens line'
    rw [spread_cons, hlexeme.all_append (hapart.parts hlast), hall]
    simp only [scanPieces, Piece.text, hline']
    refine ⟨hfound, ?_⟩
    rw [List.map_cons, List.map_cons, hshape, Token.shape, String.ofList_toList, ← hliteral]
    rfl

theorem length_tokens (line : Nat) (pieces : List Piece) :
    (scanPieces line pieces).tokens.length = pieces.countP Piece.isToken := by
  induction pieces generalizing line with
  | nil => rfl
  | cons p pieces ih =>
    rw [List.countP_cons, ← ih (line + lineFeeds p.text)]
    cases p <;> rfl

theorem scanPieces_stop (line : Nat) (pieces : List Piece) :
    (scanPieces line pieces).stop.shape = (.endOfInput, "", .nil) := by
  induction pieces generalizing line with
  | nil => rfl
  | cons p pieces ih =>
    cases p <;> exact ih _

/-- **Layout does not matter.**  The tokens of any source, written down again behind a separator and
with a separator behind each of them, are read again without a problem. -/
theorem layout_does_not_matter (source first : String) (separators : List String)
    (hfirst : Separator first.toList)
    (hcount : separators.length = (scan source).tokens.length) (hapart : SetApart separators) :
    (scan (first ++ spread (scan source).tokens separators)).found = [] ∧
      (scan (first ++ spread (scan source).tokens separators)).all.map Token.shape =
        (scan source).all.map Token.shape := by
  obtain ⟨pieces, hall, hsilent⟩ :=
    hfirst.all_append (spread (scan source).tokens separators).toList
  obtain ⟨line, hline⟩ := scanPieces_silent hsilent 1
    (Piece.all (spread (scan source).tokens separators).toList)
  obtain ⟨hfound, hshape⟩ := scanPieces_spread hcount hapart
    (isRead_of_isCut ((isCut_iff source.toList _).2 rfl) 1) line
  have hscan : scan (first ++ spread (scan source).tokens separators) =
      scanPieces line (Piece.all (spread (scan source).tokens separators).toList) := by
    rw [scan, String.toList_append, hall, hline]
  rw [hscan]
  refine ⟨hfound, ?_⟩
  rw [Scanned.all, Scanned.all, List.map_append, List.map_append, hshape, List.map_singleton,
    List.map_singleton, scanPieces_stop, scan, scanPieces_stop]

/-! ### A source with problems in it, written down again -/

/-- The tokens `a`, `!=`, `1`, `.`, a string with a line feed in it, and `/`. -/
def crowded : String := "a!=1.#\"x\ny\"/\""

def spacing : List String := ["\t", " // c\n", "\n", "\r", "  //\n\n", ""]

theorem setApart_empty : SetApart [""] := by
  refine ⟨by simpa using Separator.nil, fun before w after h => .inr ?_⟩
  obtain ⟨rfl, h⟩ | ⟨_, rfl, h⟩ := List.cons_eq_append_iff.1 h
  · exact ⟨(List.cons.inj h).1.symm, (List.cons.inj h).2.symm⟩
  · simp at h

theorem SetApart.cons {c : Char} {w : String} {rest : List Char} {separators : List String}
    (hw : w.toList = c :: rest) (hc : c ∈ blanks) (hrest : Separator rest)
    (h : SetApart separators) : SetApart (w :: separators) := by
  refine ⟨List.forall_mem_cons.2 ⟨hw ▸ .blank hc hrest, h.separator⟩, fun before v after heq => ?_⟩
  cases before with
  | nil =>
    obtain ⟨rfl, -⟩ := List.cons.inj heq
    exact .inl ⟨c, hc, by rw [hw, List.head?_cons]⟩
  | cons u before => exact h.blank before v after (List.cons.inj heq).2

theorem spacing_setApart : SetApart spacing :=
  have hcomment : Separator ['/', '/', '\n', '\n'] :=
    .comment (by decide : '\n' ∉ []) (.blank (by decide) .nil)
  have hblanks : Separator (' ' :: ['/', '/', '\n', '\n']) := .blank (by decide) hcomment
  have hnote : Separator ['/', '/', ' ', 'c', '\n'] :=
    .comment (by decide : '\n' ∉ [' ', 'c']) .nil
  .cons rfl (by decide) .nil <| .cons rfl (by decide) hnote <| .cons rfl (by decide) .nil <|
    .cons rfl (by decide) .nil <| .cons rfl (by decide) hblanks setApart_empty

theorem crowded_spread :
    (scan ("//\n" ++ spread (scan crowded).tokens spacing)).found = [] ∧
      (scan ("//\n" ++ spread (scan crowded).tokens spacing)).all.map Token.shape =
        (scan crowded).all.map Token.shape := by
  refine layout_does_not_matter crowded "//\n" spacing ?_ ?_ spacing_setApart
  · exact .comment (by decide : '\n' ∉ []) .nil
  · rw [scan, length_tokens]
    decide +kernel

end LoxLang
