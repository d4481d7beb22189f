import Mathlib.Data.List.Forall2
import LoxLang.Example
import LoxLang.Proofs.Session.Copies
import LoxLang.Proofs.Text.Breaks
import LoxLang.Proofs.Token.Longest

/-!
# Lines of tokens and lines of expectations

The line of a token is counted by line feeds, the line of an expectation by all breaks between lines.
Both counts are from one, and the last character of a token is never a break; so the two differ by the
breaks before that character that hold no line feed.

* `beforeEnd` — the source up to the last character of a piece.

Principal result: `token_line_lacks_stray_breaks`.
-/

namespace LoxLang

/-! ## Last characters of lexemes -/

theorem not_isLineBreak_of_isAlphanumeric {c : Char} (h : isAlphanumeric c = true) :
    Text.isLineBreak c = false := by
  have hrange : '0'.toNat ≤ c.toNat ∧ c.toNat ≤ 'z'.toNat := by
    simp only [isAlphanumeric, isAlpha, isDigit, Bool.or_eq_true, Bool.and_eq_true,
      decide_eq_true_eq, beq_iff_eq] at h
    rcases h with ((⟨hle, hge⟩ | ⟨hle, hge⟩) | rfl) | ⟨hle, hge⟩
    · exact ⟨Nat.le_trans (by decide) hle, hge⟩
    · exact ⟨Nat.le_trans (by decide) hle, Nat.le_trans hge (by decide)⟩
    · decide
    · exact ⟨hle, Nat.le_trans hge (by decide)⟩
  obtain ⟨hlow, hhigh⟩ := hrange
  simp only [Char.reduceToNat] at hlow hhigh
  simp only [Text.isLineBreak, Bool.or_eq_false_iff, Bool.and_eq_false_iff, decide_eq_false_iff_not,
    beq_eq_false_iff_ne]
  omega

theorem not_isLineBreak_of_isDigit {c : Char} (h : isDigit c = true) : Text.isLineBreak c = false :=
  not_isLineBreak_of_isAlphanumeric (by rw [isAlphanumeric, h, Bool.or_true])

/-- A text that is not empty has a last character, which is among its characters. -/
theorem exists_last {cs : List Char} (h : cs ≠ []) : ∃ before c, cs = before ++ [c] ∧ c ∈ cs :=
  ⟨cs.dropLast, cs.getLast h, (List.dropLast_append_getLast h).symm, List.getLast_mem h⟩

/-- No lexeme ends in a break between lines. -/
theorem Lexeme.last {cls : LexemeClass} {kind : TokenKind} {literal : Literal} {text : List Char}
    (h : Lexeme cls kind literal text) :
    ∃ before c, text = before ++ [c] ∧ Text.isLineBreak c = false := by
  cases h with
  | @sign c kind hmem =>
    refine ⟨[], c, rfl, ?_⟩
    have hall : ∀ entry ∈ signs, Text.isLineBreak entry.1 = false := by decide
    exact hall _ hmem
  | @plain c kind withEqual hmem =>
    refine ⟨[], c, rfl, ?_⟩
    have hall : ∀ entry ∈ comparisons, Text.isLineBreak entry.1 = false := by decide
    exact hall _ hmem
  | @withEqual c plain kind hmem => exact ⟨[c], '=', rfl, rfl⟩
  | @string inner _ => exact ⟨'"' :: inner, '"', rfl, rfl⟩
  | whole hne hall =>
    obtain ⟨before, c, rfl, hmem⟩ := exists_last hne
    exact ⟨before, c, rfl, not_isLineBreak_of_isDigit (hall c hmem)⟩
  | @fraction digits places _ _ hne hall =>
    obtain ⟨before, c, rfl, hmem⟩ := exists_last hne
    exact ⟨digits ++ '.' :: before, c, by simp, not_isLineBreak_of_isDigit (hall c hmem)⟩
  | @keyword c rest kind hc hrest _ | @identifier c rest hc hrest _ =>
    have hall : ∀ d ∈ c :: rest, isAlphanumeric d = true :=
      List.forall_mem_cons.2 ⟨by rw [isAlphanumeric, hc, Bool.true_or], hrest⟩
    obtain ⟨before, d, htext, hmem⟩ := exists_last (List.cons_ne_nil c rest)
    exact ⟨before, d, htext, not_isLineBreak_of_isAlphanumeric (hall d hmem)⟩

/-! ## Lines of tokens -/

/-- The source up to the last character of a piece. -/
def beforeEnd (place : List Char × Piece) : List Char := (place.1 ++ place.2.text).dropLast

/-- Each piece stands in the source behind what is before it. -/
theorem placed_source {before : List Char} {pieces : List Piece} {place : List Char × Piece}
    (h : place ∈ placed before pieces) :
    ∃ after, before ++ pieces.flatMap Piece.text = place.1 ++ place.2.text ++ after := by
  induction pieces generalizing before with
  | nil => cases h
  | cons p pieces ih =>
    rw [placed, List.mem_cons] at h
    rcases h with rfl | h
    · exact ⟨pieces.flatMap Piece.text, by simp⟩
    · obtain ⟨after, hafter⟩ := ih h
      exact ⟨after, by rw [← hafter, List.flatMap_cons, List.append_assoc]⟩

/-- The line of a token and the line that its last character is on. -/
theorem ReadAs.lineAt {source : String} {place : List Char × Piece} {t : Token}
    (h : ReadAs place t) {after : List Char}
    (hsource : source.toList = place.1 ++ place.2.text ++ after) :
    Text.lineAt (beforeEnd place).length (Text.rows source) =
      t.line + Text.strayBreaks (beforeEnd place) := by
  obtain ⟨cls, hlexeme⟩ := h.lexeme
  obtain ⟨before, c, htext, hc⟩ := hlexeme.last
  have hplace : place.1 ++ place.2.text = (place.1 ++ before) ++ [c] := by
    rw [h.piece, Piece.text, htext, List.append_assoc]
  have hend : beforeEnd place = place.1 ++ before := by
    rw [beforeEnd, hplace, List.dropLast_concat]
  have hfeed : c ≠ '\n' := fun hfeed => by
    subst hfeed
    cases hc
  have hline : t.line = 1 + (place.1 ++ before).count '\n' := by
    rw [h.line, endLine, lineFeeds, hplace, List.count_append, List.count_singleton,
      if_neg (by simpa using hfeed), Nat.add_zero]
  rw [hplace, List.append_assoc, List.singleton_append] at hsource
  have hcount := Text.lineAt_rowsFrom (place.1 ++ before) [] hc after
  rw [List.length_nil, Nat.zero_add, ← hsource] at hcount
  rw [hend, Text.rows, hcount, hline]

/-- **The line of a token lacks the stray breaks before its end.**  The tokens of a source are read off
its token pieces in order, and the line of each of them is that of its last character, as an example
counts lines, exactly if no break that holds no line feed is before that character; each such break
puts the count of the example one further. -/
theorem token_line_lacks_stray_breaks (source : String) :
    List.Forall₂ (fun place t => ReadAs place t ∧
        Text.lineAt (beforeEnd place).length (Text.rows source) =
          t.line + Text.strayBreaks (beforeEnd place) ∧
        (t.line = Text.lineAt (beforeEnd place).length (Text.rows source) ↔
          Text.strayBreaks (beforeEnd place) = 0))
      ((placed [] (Piece.all source.toList)).filter (·.2.isToken)) (scan source).tokens := by
  obtain ⟨-, htokens, -⟩ := scanPieces_placed [] ((isCut_iff source.toList _).2 rfl)
  have hplaced : ∀ place ∈ (placed [] (Piece.all source.toList)).filter (·.2.isToken),
      ∃ after, source.toList = place.1 ++ place.2.text ++ after := by
    intro place hmem
    obtain ⟨after, hafter⟩ := placed_source (List.mem_of_mem_filter hmem)
    rw [Piece.flatMap_text_all, List.nil_append] at hafter
    exact ⟨after, hafter⟩
  refine ((List.forall₂_and_left _ _).2 ⟨hplaced, htokens⟩).imp fun place t ⟨⟨after, hafter⟩, hread⟩ => ?_
  have hline := hread.lineAt hafter
  exact ⟨hread, hline, by omega⟩

/-! ### A form feed in a comment -/

/-- The form feed behind the comment ends a line of its own. -/
def paged : String := "// page one\x0c\nvar 1 = 2; // Error at '1': Expect variable name.\n"

/-- The first token of the second line, counted by line feeds. -/
def pagedWord : List Char × Piece := ("// page one\x0c\n".toList, .token .kwVar "var".toList)

/-- The report of the error, by line feeds. -/
def pagedReport : Transcript := [⟨.err, "[line 2] Error at '1': Expect variable name.\n"⟩]

theorem paged_evaluated :
    (scan paged).found = [] ∧
      ((placed [] (Piece.all paged.toList)).filter (·.2.isToken)).head? = some pagedWord ∧
      endLine pagedWord = 2 ∧
      Text.lineAt (beforeEnd pagedWord).length (Text.rows paged) = 3 ∧
      (Example.ofSource paged).errors = ["[line 3] Error at '1': Expect variable name."] ∧
      ((Example.ofSource paged).eval 9 0).transcript? = some pagedReport ∧
      (Example.ofSource paged).compare pagedReport = some .errors := by
  decide +kernel

/-- The source scans without an error, and the example counts its tokens on the third line: there it
expects the error that is reported on the second. -/
theorem paged_line_differs :
    (scan paged).found = [] ∧
      (∃ t ∈ (scan paged).tokens, ReadAs pagedWord t ∧ t.line = 2 ∧
        Text.lineAt (beforeEnd pagedWord).length (Text.rows paged) = 3) ∧
      (Example.ofSource paged).errors = ["[line 3] Error at '1': Expect variable name."] ∧
      ∃ s, (Example.ofSource paged).eval 9 0 = .ended s pagedReport ∧
        (Example.ofSource paged).compare pagedReport = some .errors := by
  obtain ⟨hfound, hfirst, hend, hcounted, herrors, hrun, hcompare⟩ := paged_evaluated
  obtain ⟨s, hended⟩ := Run.transcript?_eq_some hrun
  obtain ⟨rest, hplaced⟩ := List.head?_eq_some_iff.1 hfirst
  obtain ⟨-, hread, -⟩ := scanPieces_placed [] ((isCut_iff paged.toList _).2 rfl)
  rw [hplaced] at hread
  obtain ⟨t, tokens, hread, -, htokens⟩ := List.forall₂_cons_left_iff.1 hread
  have hmem : t ∈ (scan paged).tokens := by
    rw [show (scan paged).tokens = t :: tokens from htokens]
    exact List.mem_cons_self
  have hline : t.line = 2 := hread.line.trans hend
  exact ⟨hfound, ⟨t, hmem, hread, hline, hcounted⟩, herrors, s, hended, hcompare⟩

end LoxLang
