import LoxLang.Proofs.Tree.Copies
import LoxLang.Token.Scan

/-!
# Texts one below the other

A line feed ends every piece of a text but a string without an end.  So the tokens of two texts with a
line feed between them are those of the first, and below them those of the second.

Principal results: `Piece.all_below`, `scan_below`.
-/

namespace LoxLang

/-- The problem some lines further down. -/
def Diagnostic.moved (k : Nat) (d : Diagnostic) : Diagnostic := { d with line := d.line + k }

/-! ## Stopping at a line feed -/

section While

variable {α : Type} {p : α → Bool}

/-- A run of characters ends where it ended before, or else at the first that does not belong. -/
theorem takeWhile_append_stop {x : α} (hx : p x = false) (xs ys : List α) :
    (xs ++ x :: ys).takeWhile p = xs.takeWhile p := by
  induction xs with
  | nil => simp [hx]
  | cons a xs ih =>
    rw [List.cons_append, List.takeWhile_cons, List.takeWhile_cons, ih]

theorem dropWhile_append_stop {x : α} (hx : p x = false) (xs ys : List α) :
    (xs ++ x :: ys).dropWhile p = xs.dropWhile p ++ x :: ys := by
  induction xs with
  | nil => simp [hx]
  | cons a xs ih =>
    rw [List.cons_append, List.dropWhile_cons, List.dropWhile_cons, ih]
    split <;> rfl

/-- A run of characters that ends in a text ends there in every longer text. -/
theorem takeWhile_append_of_dropWhile {xs : List α} (h : xs.dropWhile p ≠ []) (ys : List α) :
    (xs ++ ys).takeWhile p = xs.takeWhile p ∧
      (xs ++ ys).dropWhile p = xs.dropWhile p ++ ys := by
  induction xs with
  | nil => exact absurd rfl h
  | cons a xs ih =>
    rw [List.dropWhile_cons] at h
    rw [List.cons_append, List.takeWhile_cons, List.takeWhile_cons, List.dropWhile_cons,
      List.dropWhile_cons]
    cases hp : p a with
    | false => exact ⟨rfl, rfl⟩
    | true =>
      rw [hp] at h
      obtain ⟨htake, hdrop⟩ := ih h
      simp only [if_true, htake, hdrop, and_self]

end While

namespace Piece

/-- Whether a piece is a string without an end. -/
def isUnterminated : Piece → Bool
  | unterminated _ => true
  | _ => false

theorem fraction_below (rest below : List Char) :
    fraction (rest ++ '\n' :: below) =
      ((fraction rest).1, (fraction rest).2 ++ '\n' :: below) := by
  have hfeed : isDigit '\n' = false := by decide
  match rest with
  | [] => rfl
  | [c] =>
    by_cases hc : c = '.'
    · subst hc
      simp [fraction, hfeed]
    · simp [fraction, hc]
  | c :: d :: rest =>
    by_cases hc : c = '.'
    · subst hc
      simp only [List.cons_append, fraction]
      split
      · rw [takeWhile_append_stop hfeed, dropWhile_append_stop hfeed]
      · rfl
    · simp [fraction, hc]

theorem number_below (c : Char) (rest below : List Char) :
    number c (rest ++ '\n' :: below) = ((number c rest).1, (number c rest).2 ++ '\n' :: below) := by
  have hfeed : isDigit '\n' = false := by decide
  unfold number
  rw [takeWhile_append_stop hfeed, dropWhile_append_stop hfeed, fraction_below]

theorem word_below (c : Char) (rest below : List Char) :
    word c (rest ++ '\n' :: below) = ((word c rest).1, (word c rest).2 ++ '\n' :: below) := by
  have hfeed : isAlphanumeric '\n' = false := by decide
  unfold word
  rw [takeWhile_append_stop hfeed, dropWhile_append_stop hfeed]

theorem comparison_below (plain withEqual : TokenKind) (c : Char) (rest below : List Char) :
    comparison plain withEqual c (rest ++ '\n' :: below) =
      ((comparison plain withEqual c rest).1,
        (comparison plain withEqual c rest).2 ++ '\n' :: below) := by
  match rest with
  | [] => rfl
  | d :: rest =>
    by_cases hd : d = '='
    · subst hd
      rfl
    · simp [comparison, hd]

theorem slash_below (rest below : List Char) :
    slash (rest ++ '\n' :: below) = ((slash rest).1, (slash rest).2 ++ '\n' :: below) := by
  match rest with
  | [] => rfl
  | d :: rest =>
    by_cases hd : d = '/'
    · subst hd
      simp only [List.cons_append, slash]
      rw [takeWhile_append_stop (p := (· != '\n')) rfl, dropWhile_append_stop (p := (· != '\n')) rfl]
    · simp [slash, hd]

theorem string_below (rest below : List Char) (h : (string rest).1.isUnterminated = false) :
    string (rest ++ below) = ((string rest).1, (string rest).2 ++ below) := by
  have hends : rest.dropWhile (· != '"') ≠ [] := by
    intro hnil
    unfold string at h
    rw [hnil] at h
    cases h
  obtain ⟨htake, hdrop⟩ := takeWhile_append_of_dropWhile hends below
  unfold string
  rw [htake, hdrop]
  cases hrest : rest.dropWhile (· != '"') with
  | nil => exact absurd hrest hends
  | cons quote after => rfl

/-- The first piece of a text stays the first with another text below. -/
theorem first_below (c : Char) (rest below : List Char)
    (h : (first c rest).1.isUnterminated = false) :
    first c (rest ++ '\n' :: below) = ((first c rest).1, (first c rest).2 ++ '\n' :: below) := by
  unfold first at h ⊢
  cases hp : punctuation? c with
  | some kind => rfl
  | none =>
    simp only [hp] at h
    cases hc : comparison? c with
    | some kinds => exact comparison_below kinds.1 kinds.2 c rest below
    | none =>
      simp only [hc] at h
      simp only
      split
      · exact slash_below rest below
      · rename_i hslash
        rw [if_neg hslash] at h
        split
        · rfl
        · rename_i hblank
          rw [if_neg hblank] at h
          split
          · rename_i hquote
            rw [if_pos hquote] at h
            exact string_below rest _ h
          · split
            · exact number_below c rest below
            · split
              · exact word_below c rest below
              · rfl

/-- **The pieces of two texts one below the other.** -/
theorem all_below (source below : List Char)
    (h : ∀ piece ∈ all source, piece.isUnterminated = false) :
    all (source ++ '\n' :: below) = all source ++ blank '\n' :: all below := by
  fun_induction all source with
  | case1 =>
    rw [List.nil_append, List.nil_append, all]
    rfl
  | case2 c rest ih =>
    rw [List.forall_mem_cons] at h
    rw [List.cons_append, all, first_below c rest below h.1, ih h.2]
    rfl

end Piece

/-! ## Scanning -/

/-- The count of line feeds in pieces. -/
def pieceFeeds (pieces : List Piece) : Nat := lineFeeds (pieces.flatMap Piece.text)

theorem pieceFeeds_cons (piece : Piece) (pieces : List Piece) :
    pieceFeeds (piece :: pieces) = lineFeeds piece.text + pieceFeeds pieces := by
  simp [pieceFeeds, lineFeeds]

theorem scanPieces_append (line : Nat) (ps qs : List Piece) :
    (scanPieces line (ps ++ qs)).tokens =
        (scanPieces line ps).tokens ++ (scanPieces (line + pieceFeeds ps) qs).tokens ∧
      (scanPieces line (ps ++ qs)).found =
        (scanPieces line ps).found ++ (scanPieces (line + pieceFeeds ps) qs).found := by
  induction ps generalizing line with
  | nil => exact ⟨rfl, rfl⟩
  | cons piece ps ih =>
    obtain ⟨htokens, hfound⟩ := ih (line + lineFeeds piece.text)
    rw [pieceFeeds_cons, ← Nat.add_assoc, List.cons_append]
    cases piece with
    | token kind text => exact ⟨congrArg (_ :: ·) htokens, hfound⟩
    | blank c | comment text => exact ⟨htokens, hfound⟩
    | unexpected c | unterminated text => exact ⟨htokens, congrArg (_ :: ·) hfound⟩

/-- Pieces further down give the same tokens further down. -/
theorem scanPieces_moved (k line : Nat) (pieces : List Piece) :
    (scanPieces (line + k) pieces).tokens = (scanPieces line pieces).tokens.map (Token.moved k) ∧
      (scanPieces (line + k) pieces).found =
        (scanPieces line pieces).found.map (Diagnostic.moved k) := by
  induction pieces generalizing line with
  | nil => exact ⟨rfl, rfl⟩
  | cons piece pieces ih =>
    have hline : line + k + lineFeeds piece.text = line + lineFeeds piece.text + k := by omega
    obtain ⟨htokens, hfound⟩ := ih (line + lineFeeds piece.text)
    cases piece with
    | token kind text =>
      simp only [scanPieces, hline]
      exact ⟨congrArg (_ :: ·) htokens, hfound⟩
    | blank c | comment text =>
      simp only [scanPieces, hline]
      exact ⟨htokens, hfound⟩
    | unexpected c | unterminated text =>
      simp only [scanPieces, hline]
      exact ⟨htokens, congrArg (_ :: ·) hfound⟩

/-- Where no problem is found, every string ends. -/
theorem terminated_of_scanPieces {pieces : List Piece} {line : Nat}
    (h : (scanPieces line pieces).found = []) : ∀ piece ∈ pieces, piece.isUnterminated = false := by
  induction pieces generalizing line with
  | nil => simp
  | cons piece pieces ih =>
    rw [List.forall_mem_cons]
    cases piece with
    | token kind text => exact ⟨rfl, ih h⟩
    | blank c => exact ⟨rfl, ih h⟩
    | comment text => exact ⟨rfl, ih h⟩
    | unexpected c => cases h
    | unterminated text => cases h

/-- The line feeds before a text that stands below another. -/
def feedsAbove (above : String) : Nat := lineFeeds above.toList + 1

/-- **The tokens of two texts one below the other.** -/
theorem scan_below {above : String} (h : (scan above).found = []) (below : String) :
    (scan (above ++ "\n" ++ below)).tokens =
        (scan above).tokens ++ (scan below).tokens.map (Token.moved (feedsAbove above)) ∧
      (scan (above ++ "\n" ++ below)).found =
        (scan above).found ++ (scan below).found.map (Diagnostic.moved (feedsAbove above)) := by
  have htext : (above ++ "\n" ++ below).toList = above.toList ++ '\n' :: below.toList := by
    simp
  have hfeeds : pieceFeeds (Piece.all above.toList) = lineFeeds above.toList := by
    rw [pieceFeeds, Piece.flatMap_text_all]
  have hline : 1 + lineFeeds above.toList + 1 = 1 + feedsAbove above := by
    unfold feedsAbove
    omega
  obtain ⟨htokens, hfound⟩ := scanPieces_append 1 (Piece.all above.toList)
    (Piece.blank '\n' :: Piece.all below.toList)
  obtain ⟨htokens', hfound'⟩ := scanPieces_moved (feedsAbove above) 1 (Piece.all below.toList)
  have hblank : ∀ line pieces,
      scanPieces line (Piece.blank '\n' :: pieces) = scanPieces (line + 1) pieces :=
    fun _ _ => rfl
  rw [hblank, hfeeds, hline] at htokens hfound
  unfold scan at h ⊢
  rw [htext, Piece.all_below _ _ (terminated_of_scanPieces h)]
  exact ⟨htokens.trans (congrArg _ htokens'), hfound.trans (congrArg _ hfound')⟩

end LoxLang
