import Mathlib.Data.List.TakeWhile
import LoxLang.Text.Lines

/-!
# Breaks between lines

A text is cut into lines behind a carriage return and a line feed, and behind every other character
that ends a line.  Everything about lines follows from what stands at the head of a text: a character
of its first line, a pair that ends the line, or a single character that does (`headInduction`).

* `rows` — the lines of a text, each with the break that ends it; `lineAt` — the number of the line
  that a character of the text belongs to.
* `strayBreaks` — the count of breaks that are not or do not hold a line feed.

Principal results: `linesFrom_feed`, `linesFrom_eq_rows`, `lineAt_rowsFrom`.
-/

namespace LoxLang.Text

/-! ## The head of a text -/

/-- A break of one character: no carriage return before a line feed. -/
structure IsSingleBreak (c : Char) (after : List Char) : Prop where
  ends : isLineBreak c = true
  alone : c = '\r' → after.head? ≠ some '\n'

/-- What holds of the empty text, and of a text whose head is a character of a line, a pair or a
single break if it holds of the rest, holds of every text. -/
@[elab_as_elim]
theorem headInduction {P : List Char → Prop} (nil : P [])
    (char : ∀ c cs, isLineBreak c = false → P cs → P (c :: cs))
    (pair : ∀ cs, P cs → P ('\r' :: '\n' :: cs))
    (single : ∀ c cs, IsSingleBreak c cs → P cs → P (c :: cs)) : ∀ cs, P cs
  | [] => nil
  | [c] => by
    cases hc : isLineBreak c with
    | false => exact char c [] hc nil
    | true => exact single c [] ⟨hc, fun _ => by simp⟩ nil
  | c :: d :: cs => by
    cases hc : isLineBreak c with
    | false => exact char c _ hc (headInduction nil char pair single (d :: cs))
    | true =>
      by_cases hpair : c = '\r' ∧ d = '\n'
      · obtain ⟨rfl, rfl⟩ := hpair
        exact pair cs (headInduction nil char pair single cs)
      · refine single c _ ⟨hc, fun h hd => hpair ⟨h, ?_⟩⟩
          (headInduction nil char pair single (d :: cs))
        simpa using hd

section Lines

variable (line cs : List Char)

theorem linesFrom_nil : linesFrom [] [] = [] := rfl

theorem linesFrom_stop (c : Char) : linesFrom (c :: line) [] = [(c :: line).reverse] := rfl

theorem linesFrom_pair :
    linesFrom line ('\r' :: '\n' :: cs) = line.reverse :: linesFrom [] cs := by
  cases line <;> rfl

variable {cs} {c : Char}

theorem ne_return_of_not_break (h : isLineBreak c = false) : c ≠ '\r' := fun hc => by
  subst hc
  cases h

theorem linesFrom_char (h : isLineBreak c = false) :
    linesFrom line (c :: cs) = linesFrom (c :: line) cs := by
  rw [linesFrom, if_neg (by simp [h])]
  exact fun _ hc _ => ne_return_of_not_break h hc

theorem linesFrom_single (h : IsSingleBreak c cs) :
    linesFrom line (c :: cs) = line.reverse :: linesFrom [] cs := by
  rw [linesFrom, if_pos h.ends]
  intro rest hc hcs
  exact h.alone hc (by rw [hcs]; rfl)

theorem linesFrom_unbroken {cs : List Char} (h : ∀ c ∈ cs, isLineBreak c = false)
    (after : List Char) : linesFrom line (cs ++ after) = linesFrom (cs.reverse ++ line) after := by
  induction cs generalizing line with
  | nil => rfl
  | cons c cs ih =>
    obtain ⟨hc, hcs⟩ := List.forall_mem_cons.1 h
    rw [List.cons_append, linesFrom_char line hc, ih _ hcs, List.reverse_cons, List.append_assoc]
    rfl

end Lines

/-! ## Line feeds -/

theorem isSingleBreak_feed (after : List Char) : IsSingleBreak '\n' after :=
  ⟨rfl, fun h => absurd h (by decide)⟩

theorem isSingleBreak_of_ne {c : Char} (h : isLineBreak c = true) (hc : c ≠ '\r')
    (after : List Char) : IsSingleBreak c after := ⟨h, fun hreturn => absurd hreturn hc⟩

/-- What follows the character behind a break does not matter to it. -/
theorem IsSingleBreak.congr {c d : Char} {cs : List Char} (h : IsSingleBreak c (d :: cs))
    (after : List Char) : IsSingleBreak c (d :: after) := ⟨h.ends, h.alone⟩

/-- No character of a line makes a pair with the break before it. -/
theorem IsSingleBreak.before {c d : Char} {cs : List Char} (h : IsSingleBreak c cs)
    (hd : isLineBreak d = false) (after : List Char) : IsSingleBreak c (d :: after) := by
  refine ⟨h.ends, fun _ hhead => ?_⟩
  cases hhead
  cases hd

/-- **A line feed ends a line**, alone or behind a carriage return. -/
theorem linesFrom_feed (cs below line : List Char) :
    linesFrom line (cs ++ '\n' :: below) = linesFrom line (cs ++ ['\n']) ++ linesFrom [] below := by
  induction cs using headInduction generalizing line with
  | nil => simp [linesFrom_single _ (isSingleBreak_feed _), linesFrom_nil]
  | char c cs hc ih => rw [List.cons_append, List.cons_append, linesFrom_char _ hc,
      linesFrom_char _ hc, ih]
  | pair cs ih => simp [linesFrom_pair, ih]
  | single c cs hc ih =>
    cases cs with
    | nil =>
      by_cases hreturn : c = '\r'
      · subst hreturn
        simp [linesFrom_pair, linesFrom_nil]
      · have halone := isSingleBreak_of_ne hc.ends hreturn
        simp [linesFrom_single _ (halone _), linesFrom_single _ (isSingleBreak_feed _),
          linesFrom_nil]
    | cons d cs =>
      simp only [List.cons_append] at ih ⊢
      rw [linesFrom_single _ (hc.congr _), linesFrom_single _ (hc.congr _), ih, List.cons_append]

/-- A line that a line feed ends. -/
theorem linesFrom_line {line : List Char} (h : ∀ c ∈ line, isLineBreak c = false)
    (below : List Char) : linesFrom [] (line ++ '\n' :: below) = line :: linesFrom [] below := by
  rw [linesFrom_unbroken [] h, List.append_nil, linesFrom_single _ (isSingleBreak_feed below),
    List.reverse_reverse]

/-- A line feed at the end adds no line, or one that is empty. -/
theorem linesFrom_end (cs line : List Char) : linesFrom line (cs ++ ['\n']) = linesFrom line cs ∨
    linesFrom line (cs ++ ['\n']) = linesFrom line cs ++ [[]] := by
  induction cs using headInduction generalizing line with
  | nil =>
    cases line with
    | nil => exact .inr rfl
    | cons c line => exact .inl rfl
  | char c cs hc ih =>
    rw [List.cons_append, linesFrom_char _ hc, linesFrom_char _ hc]
    exact ih (c :: line)
  | pair cs ih =>
    simp only [List.cons_append, linesFrom_pair, List.cons.injEq, true_and]
    exact ih []
  | single c cs hc ih =>
    rw [linesFrom_single line hc]
    cases cs with
    | nil =>
      by_cases hreturn : c = '\r'
      · subst hreturn
        exact .inl (linesFrom_pair line [])
      · refine .inr ?_
        have halone := isSingleBreak_of_ne hc.ends hreturn ['\n']
        simp [linesFrom_single _ halone, linesFrom_single _ (isSingleBreak_feed _), linesFrom_nil]
    | cons d cs =>
      simp only [List.cons_append] at ih ⊢
      rw [linesFrom_single _ (hc.congr _)]
      simp only [List.cons.injEq, true_and]
      exact ih []

/-- A text without breaks before the line feed at the end belongs to the last line. -/
theorem linesFrom_last (cs line : List Char) {tail : List Char} (hne : tail ≠ [])
    (h : ∀ c ∈ tail, isLineBreak c = false) :
    ∃ before start, linesFrom line (cs ++ tail ++ ['\n']) = before ++ [start ++ tail] := by
  induction cs using headInduction generalizing line with
  | nil =>
    refine ⟨[], line.reverse, ?_⟩
    rw [List.nil_append, linesFrom_unbroken line h, linesFrom_single _ (isSingleBreak_feed []),
      List.reverse_append, List.reverse_reverse]
    rfl
  | char c cs hc ih =>
    obtain ⟨before, start, hlines⟩ := ih (c :: line)
    exact ⟨before, start, by rw [List.cons_append, List.cons_append, linesFrom_char _ hc, hlines]⟩
  | pair cs ih =>
    obtain ⟨before, start, hlines⟩ := ih []
    refine ⟨line.reverse :: before, start, ?_⟩
    simp only [List.cons_append, linesFrom_pair, hlines]
  | single c cs hc ih =>
    obtain ⟨before, start, hlines⟩ := ih []
    refine ⟨line.reverse :: before, start, ?_⟩
    have hsingle : IsSingleBreak c (cs ++ tail ++ ['\n']) := by
      cases cs with
      | nil =>
        obtain ⟨d, tail, rfl⟩ := List.exists_cons_of_ne_nil hne
        exact hc.before (h d List.mem_cons_self) _
      | cons d cs => exact hc.congr _
    rw [List.cons_append, List.cons_append, linesFrom_single _ hsingle, hlines, List.cons_append]

/-- There is no break in a line. -/
theorem linesFrom_no_break (cs line : List Char) (h : ∀ c ∈ line, isLineBreak c = false) :
    ∀ l ∈ linesFrom line cs, ∀ c ∈ l, isLineBreak c = false := by
  have hreverse : ∀ c ∈ line.reverse, isLineBreak c = false := fun c hc =>
    h c (List.mem_reverse.1 hc)
  induction cs using headInduction generalizing line with
  | nil =>
    cases line with
    | nil => simp [linesFrom_nil]
    | cons c line => exact List.forall_mem_singleton.2 hreverse
  | char c cs hc ih =>
    rw [linesFrom_char _ hc]
    have hline : ∀ d ∈ c :: line, isLineBreak d = false := List.forall_mem_cons.2 ⟨hc, h⟩
    exact ih _ hline fun d hd => hline d (List.mem_reverse.1 hd)
  | pair cs ih =>
    rw [linesFrom_pair]
    exact List.forall_mem_cons.2 ⟨hreverse, ih [] (by simp) (by simp)⟩
  | single c cs hc ih =>
    rw [linesFrom_single _ hc]
    exact List.forall_mem_cons.2 ⟨hreverse, ih [] (by simp) (by simp)⟩

theorem lines_feed (above below : String) :
    lines (above ++ "\n" ++ below) = lines (above ++ "\n") ++ lines below := by
  unfold lines
  rw [String.toList_append, String.toList_append, List.append_assoc, ← List.map_append]
  exact congrArg _ (linesFrom_feed above.toList below.toList [])

theorem lines_end (text : String) :
    lines (text ++ "\n") = lines text ∨ lines (text ++ "\n") = lines text ++ [""] := by
  unfold lines
  rw [String.toList_append, show "\n".toList = ['\n'] from rfl]
  rcases linesFrom_end text.toList [] with h | h
  · exact .inl (by rw [h])
  · exact .inr (by rw [h, List.map_append]; rfl)

theorem lines_no_break (text : String) :
    ∀ line ∈ lines text, ∀ c ∈ line.toList, isLineBreak c = false := by
  intro line hline
  obtain ⟨cs, hcs, rfl⟩ := List.mem_map.1 hline
  rw [String.toList_ofList]
  exact linesFrom_no_break text.toList [] (by simp) cs hcs

theorem lines_line {line : String} (h : ∀ c ∈ line.toList, isLineBreak c = false) :
    lines (line ++ "\n") = [line] := by
  unfold lines
  rw [String.toList_append, show "\n".toList = ['\n'] from rfl, linesFrom_line h, linesFrom_nil,
    List.map_singleton, String.ofList_toList]

theorem lines_last (above : String) {tail : String} (hne : tail ≠ "")
    (h : ∀ c ∈ tail.toList, isLineBreak c = false) :
    ∃ before start, lines (above ++ tail ++ "\n") = before ++ [start ++ tail] := by
  have htail : tail.toList ≠ [] := fun hnil => hne (String.toList_eq_nil_iff.1 hnil)
  obtain ⟨before, start, hlines⟩ := linesFrom_last above.toList [] htail h
  refine ⟨before.map String.ofList, String.ofList start, ?_⟩
  unfold lines
  rw [String.toList_append, String.toList_append, show "\n".toList = ['\n'] from rfl, hlines,
    List.map_append, List.map_singleton, String.ofList_append, String.ofList_toList]

/-! ## Lines with their breaks -/

/-- The lines of `cs` with the breaks that end them, the first of them continuing the reversed text
`row`. -/
def rowsFrom : List Char → List Char → List (List Char)
  | [], [] => []
  | row, [] => [row.reverse]
  | row, '\r' :: '\n' :: cs => (row.reverse ++ ['\r', '\n']) :: rowsFrom [] cs
  | row, c :: cs =>
    if isLineBreak c then (row.reverse ++ [c]) :: rowsFrom [] cs else rowsFrom (c :: row) cs

/-- The lines of a text, each with the break that ends it. -/
def rows (text : String) : List (List Char) := rowsFrom [] text.toList

/-- A row without the break that ends it. -/
def untilBreak (row : List Char) : List Char := row.takeWhile fun c => !isLineBreak c

/-- The number, counted from one, of the row that holds the character at a position. -/
def lineAt (position : Nat) : List (List Char) → Nat
  | [] => 1
  | row :: rows =>
    if position < row.length then 1 else lineAt (position - row.length) rows + 1

/-- The count of breaks other than a line feed, alone or behind a carriage return. -/
def strayBreaks : List Char → Nat
  | [] => 0
  | '\r' :: '\n' :: cs => strayBreaks cs
  | c :: cs => (if isLineBreak c && c != '\n' then 1 else 0) + strayBreaks cs

section Rows

variable (row cs : List Char)

theorem rowsFrom_stop (c : Char) : rowsFrom (c :: row) [] = [(c :: row).reverse] := rfl

theorem rowsFrom_pair : rowsFrom row ('\r' :: '\n' :: cs) =
    (row.reverse ++ ['\r', '\n']) :: rowsFrom [] cs := by
  cases row <;> rfl

variable {cs} {c : Char}

theorem rowsFrom_char (h : isLineBreak c = false) :
    rowsFrom row (c :: cs) = rowsFrom (c :: row) cs := by
  rw [rowsFrom, if_neg (by simp [h])]
  exact fun _ hc _ => ne_return_of_not_break h hc

theorem rowsFrom_single (h : IsSingleBreak c cs) :
    rowsFrom row (c :: cs) = (row.reverse ++ [c]) :: rowsFrom [] cs := by
  rw [rowsFrom, if_pos h.ends]
  intro rest hc hcs
  exact h.alone hc (by rw [hcs]; rfl)

end Rows

/-- **The rows of a text make up the text.** -/
theorem flatten_rowsFrom (cs row : List Char) : (rowsFrom row cs).flatten = row.reverse ++ cs := by
  induction cs using headInduction generalizing row with
  | nil =>
    cases row with
    | nil => rfl
    | cons c row => simp [rowsFrom_stop]
  | char c cs hc ih => rw [rowsFrom_char _ hc, ih, List.reverse_cons, List.append_assoc]; rfl
  | pair cs ih => simp [rowsFrom_pair, ih]
  | single c cs hc ih => simp [rowsFrom_single _ hc, ih]

section Unbroken

variable {line : List Char} (h : ∀ c ∈ line, isLineBreak c = false)

include h

theorem untilBreak_unbroken : untilBreak line = line := by
  refine List.takeWhile_eq_self_iff.2 fun c hc => ?_
  rw [h c hc]
  rfl

theorem untilBreak_append {c : Char} (hc : isLineBreak c = true) (after : List Char) :
    untilBreak (line ++ c :: after) = line := by
  rw [untilBreak, List.takeWhile_append_of_pos (fun c hc => by rw [h c hc]; rfl),
    List.takeWhile_cons_of_neg (by simp [hc]), List.append_nil]

end Unbroken

/-- **The rows of a text up to their breaks are its lines.** -/
theorem linesFrom_eq_rows (cs row : List Char) (h : ∀ c ∈ row, isLineBreak c = false) :
    linesFrom row cs = (rowsFrom row cs).map untilBreak := by
  have hrow : ∀ c ∈ row.reverse, isLineBreak c = false := fun c hc => h c (List.mem_reverse.1 hc)
  induction cs using headInduction generalizing row with
  | nil =>
    cases row with
    | nil => rfl
    | cons c row => rw [linesFrom_stop, rowsFrom_stop, List.map_singleton,
        untilBreak_unbroken hrow]
  | char c cs hc ih =>
    have hnext : ∀ d ∈ c :: row, isLineBreak d = false := List.forall_mem_cons.2 ⟨hc, h⟩
    rw [linesFrom_char _ hc, rowsFrom_char _ hc]
    exact ih _ hnext fun d hd => hnext d (List.mem_reverse.1 hd)
  | pair cs ih =>
    rw [linesFrom_pair, rowsFrom_pair, List.map_cons, untilBreak_append hrow rfl,
      ih [] (by simp) (by simp)]
  | single c cs hc ih =>
    rw [linesFrom_single _ hc, rowsFrom_single _ hc, List.map_cons, untilBreak_append hrow hc.ends,
      ih [] (by simp) (by simp)]

theorem lines_eq_rows (text : String) :
    lines text = (rows text).map fun row => String.ofList (untilBreak row) := by
  rw [lines, linesFrom_eq_rows text.toList [] (by simp), List.map_map]
  rfl

/-! ## Counting lines -/

theorem strayBreaks_pair (cs : List Char) : strayBreaks ('\r' :: '\n' :: cs) = strayBreaks cs := rfl

theorem strayBreaks_char {c : Char} (h : isLineBreak c = false) (cs : List Char) :
    strayBreaks (c :: cs) = strayBreaks cs := by
  rw [strayBreaks, h]
  · exact Nat.zero_add _
  · exact fun _ hc _ => ne_return_of_not_break h hc

theorem strayBreaks_single {c : Char} {cs : List Char} (h : IsSingleBreak c cs) :
    strayBreaks (c :: cs) = (if c = '\n' then 0 else 1) + strayBreaks cs := by
  rw [strayBreaks, h.ends]
  · simp
  · intro rest hc hcs
    exact h.alone hc (by rw [hcs]; rfl)

/-- A row that has begun is the first. -/
theorem rowsFrom_cons (cs row : List Char) (h : row ≠ []) :
    ∃ more rest, rowsFrom row cs = (row.reverse ++ more) :: rest := by
  induction cs using headInduction generalizing row with
  | nil =>
    cases row with
    | nil => exact absurd rfl h
    | cons c row => exact ⟨[], [], by rw [rowsFrom_stop, List.append_nil]⟩
  | char c cs hc ih =>
    obtain ⟨more, rest, hrows⟩ := ih (c :: row) (by simp)
    exact ⟨c :: more, rest, by rw [rowsFrom_char _ hc, hrows]; simp⟩
  | pair cs ih => exact ⟨_, _, rowsFrom_pair row cs⟩
  | single c cs hc ih => exact ⟨_, _, rowsFrom_single row hc⟩

/-- **The row of a character is counted by the breaks before it**, if it is no break itself. -/
theorem lineAt_rowsFrom (before row : List Char) {c : Char} (hc : isLineBreak c = false)
    (after : List Char) : lineAt (row.length + before.length) (rowsFrom row (before ++ c :: after)) =
      1 + before.count '\n' + strayBreaks before := by
  induction before using headInduction generalizing row with
  | nil =>
    obtain ⟨more, rest, hrows⟩ := rowsFrom_cons after (c :: row) (by simp)
    rw [List.nil_append, rowsFrom_char _ hc, hrows, lineAt, if_pos (by simp)]
    rfl
  | char b before hb ih =>
    have hlength : row.length + (b :: before).length = (b :: row).length + before.length := by
      simp only [List.length_cons]
      omega
    have hfeed : b ≠ '\n' := fun h => by
      subst h
      cases hb
    rw [List.cons_append, rowsFrom_char _ hb, hlength, ih, strayBreaks_char hb,
      List.count_cons_of_ne hfeed]
  | pair before ih =>
    have hbefore : ¬ row.length + ('\r' :: '\n' :: before).length <
        (row.reverse ++ ['\r', '\n']).length := by simp
    have hrest : row.length + ('\r' :: '\n' :: before).length -
        (row.reverse ++ ['\r', '\n']).length = ([] : List Char).length + before.length := by
      simp only [List.length_append, List.length_reverse, List.length_cons, List.length_nil]
      omega
    have hcount : ('\r' :: '\n' :: before).count '\n' = before.count '\n' + 1 := by simp
    rw [List.cons_append, List.cons_append, rowsFrom_pair, lineAt, if_neg hbefore, hrest, ih, hcount,
      strayBreaks_pair]
    omega
  | single b before hb ih =>
    have hsingle : IsSingleBreak b (before ++ c :: after) := by
      cases before with
      | nil => exact hb.before hc _
      | cons d before => exact hb.congr _
    have hbefore : ¬ row.length + (b :: before).length < (row.reverse ++ [b]).length := by simp
    have hrest : row.length + (b :: before).length - (row.reverse ++ [b]).length =
        ([] : List Char).length + before.length := by
      simp only [List.length_append, List.length_reverse, List.length_cons, List.length_nil]
      omega
    rw [List.cons_append, rowsFrom_single _ hsingle, lineAt, if_neg hbefore, hrest, ih,
      strayBreaks_single hb, List.count_cons]
    by_cases hfeed : b = '\n'
    · simp only [hfeed, beq_self_eq_true, if_true]
      omega
    · simp only [hfeed, beq_iff_eq, if_false]
      omega

end LoxLang.Text
