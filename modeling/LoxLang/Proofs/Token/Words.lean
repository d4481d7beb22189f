import LoxLang.Token.Scan

/-!
# Words

A word of a source text is a token of the class that its text tells: an identifier is never spelled
like a reserved word, and a reserved word never in another way.
-/

namespace LoxLang

/-- The classes of words: identifiers and reserved words. -/
def TokenKind.isWord : TokenKind → Bool
  | .identifier | .kwAnd | .kwClass | .kwElse | .kwFalse | .kwFun | .kwFor | .kwIf | .kwNil | .kwOr
  | .kwPrint | .kwReturn | .kwSuper | .kwThis | .kwTrue | .kwVar | .kwWhile => true
  | _ => false

/-- The class of a word is the one that its text tells. -/
def Token.Genuine (t : Token) : Prop := t.kind.isWord = true → t.kind = .ofWord t.lexeme

/-- Reserved words of one class have one spelling. -/
theorem TokenKind.ofWord_eq {word : String} {kind : TokenKind} (h : TokenKind.ofWord word = kind)
    (hk : kind ≠ .identifier) : (word, kind) ∈ keywords := by
  unfold TokenKind.ofWord at h
  cases hl : keywords.lookup word with
  | none => rw [hl] at h; exact absurd h.symm hk
  | some kind' =>
    rw [hl] at h
    obtain rfl : kind' = kind := h
    obtain ⟨before, after, heq, _⟩ := List.lookup_eq_some_iff.1 hl
    rw [heq]
    exact List.mem_append_right _ (List.mem_cons_self ..)

theorem Token.Genuine.this {t : Token} (h : t.Genuine) (hk : t.kind = .kwThis) :
    t.lexeme = "this" := by
  have hmem := TokenKind.ofWord_eq (h (by rw [hk]; rfl)).symm (by rw [hk]; decide)
  rw [hk] at hmem
  simpa [keywords] using hmem

theorem Token.Genuine.super {t : Token} (h : t.Genuine) (hk : t.kind = .kwSuper) :
    t.lexeme = "super" := by
  have hmem := TokenKind.ofWord_eq (h (by rw [hk]; rfl)).symm (by rw [hk]; decide)
  rw [hk] at hmem
  simpa [keywords] using hmem

/-- An identifier is not spelled like the implicit variables. -/
theorem Token.Genuine.identifier {t : Token} (h : t.Genuine) (hk : t.kind = .identifier) :
    t.lexeme ≠ "this" ∧ t.lexeme ≠ "super" := by
  have hword := h (by rw [hk]; rfl)
  rw [hk] at hword
  constructor <;> intro hlex <;> rw [hlex] at hword <;> exact absurd hword (by decide)

namespace Piece

/-- A piece that is a token is genuine. -/
def Genuine : Piece → Prop
  | token kind text => kind.isWord = true → kind = .ofWord (String.ofList text)
  | _ => True

theorem first_genuine (c : Char) (rest : List Char) : (first c rest).1.Genuine := by
  unfold first
  split
  · rename_i kind h
    intro hword
    unfold punctuation? at h
    split at h <;> cases h <;> cases hword
  · split
    · rename_i plain withEqual h
      unfold comparison? at h
      unfold comparison
      split at h <;> cases h <;> split <;> intro hword <;> cases hword
    · split
      · unfold slash
        split
        · trivial
        · intro hword; cases hword
      · split
        · trivial
        · split
          · unfold string
            split
            · trivial
            · intro hword; cases hword
          · split
            · intro hword; cases hword
            · split
              · exact fun _ => rfl
              · trivial

theorem all_genuine (source : List Char) : ∀ piece ∈ all source, piece.Genuine := by
  fun_induction all source with
  | case1 => simp
  | case2 c rest ih => exact List.forall_mem_cons.2 ⟨first_genuine c rest, ih⟩

end Piece

theorem scanPieces_genuine : ∀ (line : Nat) (pieces : List Piece),
    (∀ piece ∈ pieces, piece.Genuine) → ∀ t ∈ (scanPieces line pieces).tokens, t.Genuine
  | _, [], _ => by simp [scanPieces]
  | line, piece :: rest, h => by
    obtain ⟨hpiece, hrest⟩ := List.forall_mem_cons.1 h
    have ih := scanPieces_genuine (line + lineFeeds piece.text) rest hrest
    cases piece with
    | token kind text => exact List.forall_mem_cons.2 ⟨hpiece, ih⟩
    | blank c => exact ih
    | comment text => exact ih
    | unexpected c => exact ih
    | unterminated text => exact ih

/-- **Every token of a source text has the class that its text tells.** -/
theorem scan_genuine (source : String) : ∀ t ∈ (scan source).tokens, t.Genuine :=
  scanPieces_genuine 1 _ (Piece.all_genuine source.toList)

end LoxLang
