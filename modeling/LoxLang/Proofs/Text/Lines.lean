import LoxLang.Text.Lines

/-!
# Lines of an input

An input is cut after every line feed, so that only its last line may lack one.  Lines can be left
out of it: the rest is cut into the lines that are left.

Principal result: `feedLines_join_filter`.
-/

namespace LoxLang.Text

/-- Lines that an input is cut into: only the last one may lack its line feed. -/
inductive Fed : List (List Char) → Prop where
  | nil : Fed []
  | last {line : List Char} : line ≠ [] → '\n' ∉ line → Fed [line]
  | cons {line : List Char} {lines : List (List Char)} :
      '\n' ∉ line → Fed lines → Fed ((line ++ ['\n']) :: lines)

theorem fed_feedLinesFrom : ∀ (cs line : List Char), '\n' ∉ line → Fed (feedLinesFrom line cs)
  | [], [], _ => .nil
  | [], c :: cs, h => .last (by simp) (by rwa [List.mem_reverse])
  | c :: cs, line, h => by
    rw [feedLinesFrom]
    split
    · rename_i hc
      rw [List.reverse_cons, hc]
      exact .cons (by simpa using h) (fed_feedLinesFrom cs [] (by simp))
    · rename_i hc
      exact fed_feedLinesFrom cs (c :: line) (by simp [h, Ne.symm hc])

theorem feedLinesFrom_line (cs : List Char) : ∀ (line before : List Char), '\n' ∉ line →
    feedLinesFrom before (line ++ '\n' :: cs) =
      (before.reverse ++ line ++ ['\n']) :: feedLinesFrom [] cs
  | [], before, _ => by simp [feedLinesFrom]
  | c :: line, before, h => by
    rw [List.mem_cons, not_or] at h
    rw [List.cons_append, feedLinesFrom, if_neg (Ne.symm h.1), feedLinesFrom_line cs line _ h.2]
    simp

theorem feedLinesFrom_last : ∀ (line before : List Char), '\n' ∉ line → before ++ line ≠ [] →
    feedLinesFrom before line = [before.reverse ++ line]
  | [], [], _, hne => absurd rfl hne
  | [], _ :: _, _, _ => by simp [feedLinesFrom]
  | c :: line, before, h, _ => by
    rw [List.mem_cons, not_or] at h
    rw [feedLinesFrom, if_neg (Ne.symm h.1), feedLinesFrom_last line _ h.2 (by simp)]
    simp

theorem Fed.feed {lines : List (List Char)} (h : Fed lines) :
    feedLinesFrom [] lines.flatten = lines := by
  induction h with
  | nil => rfl
  | @last line hne hline =>
    rw [List.flatten_cons, List.flatten_nil, List.append_nil]
    exact feedLinesFrom_last line [] hline hne
  | @cons line lines hline _ ih =>
    rw [List.flatten_cons, List.append_assoc, List.singleton_append,
      feedLinesFrom_line _ line [] hline, ih]
    rfl

theorem Fed.filter {lines : List (List Char)} (h : Fed lines) (p : List Char → Bool) :
    Fed (lines.filter p) := by
  induction h with
  | nil => exact .nil
  | @last line hne hline =>
    rw [List.filter_cons]
    split
    · exact .last hne hline
    · exact .nil
  | @cons line lines hline _ ih =>
    rw [List.filter_cons]
    split
    · exact .cons hline ih
    · exact ih

/-- **An input without some of its lines is cut into the others.** -/
theorem feedLines_join_filter (p : String → Bool) (input : String) :
    feedLines (String.join ((feedLines input).filter p)) = (feedLines input).filter p := by
  have hfed := (fed_feedLinesFrom input.toList [] (by simp)).filter (p ∘ String.ofList)
  have hback : String.toList ∘ String.ofList = id := funext fun cs => String.toList_ofList
  have hflatten : ∀ lines : List (List Char),
      (lines.map String.ofList).flatMap String.toList = lines.flatten := by
    intro lines
    rw [List.flatMap_map, ← List.flatMap_id]
    exact congrArg (List.flatMap · lines) hback
  unfold feedLines
  rw [List.filter_map, String.toList_join, hflatten, hfed.feed]

end LoxLang.Text
