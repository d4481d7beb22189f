import LoxLang.Command
import LoxLang.Proofs.Example.Expectations
import LoxLang.Proofs.Example.LineNumbers
import LoxLang.Proofs.Session.Pieces
import LoxLang.Proofs.Session.Reports

/-!
# What a passing example predicts

The report of static errors ends with a full stop, and that of a runtime error with a line that tells
only a number.  So neither is what an example expects of the other class: an expected static error
goes on behind its number, and the report of an expected runtime error ends with a bracket.  An
example that passes expects the class of errors that the run has.

* `lineMark` — the last line of the report of a runtime error.

Principal results: `Example.exitStatus_eq`, `passing_example_predicts_exit`.
-/

namespace LoxLang

/-! ## Ends of reports -/

theorem getLast?_toList_append (a : String) {b : String} {c : Char}
    (h : b.toList.getLast? = some c) : (a ++ b).toList.getLast? = some c := by
  rw [String.toList_append, List.getLast?_append, h, Option.some_or]

/-- Every message about a source is a sentence. -/
theorem Problem.message_last (problem : Problem) :
    problem.message.toList.getLast? = some '.' := by
  cases problem with
  | expected what => exact getLast?_toList_append _ (by decide)
  | _ => rfl

/-- The report of a static error ends with a full stop. -/
theorem Diagnostic.render_last (d : Diagnostic) : ∃ start, d.render = start ++ "." := by
  have hlast : d.render.toList.getLast? = some '.' :=
    getLast?_toList_append _ d.problem.message_last
  obtain ⟨start, hstart⟩ := List.getLast?_eq_some_iff.1 hlast
  refine ⟨String.ofList start, ?_⟩
  rw [← String.toList_inj, hstart, String.toList_append, String.toList_ofList]
  rfl

/-- What is below the message of a runtime error. -/
def lineMark (line : Nat) : String := "[line " ++ toString line ++ "]"

theorem mem_lineMark {line : Nat} {c : Char} (h : c ∈ (lineMark line).toList) :
    c ∈ "[line ]".toList ∨ isDigit c = true := by
  rw [lineMark, String.toList_append, String.toList_append, List.mem_append, List.mem_append] at h
  rcases h with (h | h) | h
  · exact .inl (List.mem_append_left [']'] h)
  · rw [Nat.toString_eq_repr, Nat.toList_repr] at h
    exact .inr (Nat.isDigit_of_mem_toDigits (by decide) (by decide) h)
  · exact .inl (List.mem_append_right "[line ".toList h)

theorem lineMark_no_break (line : Nat) :
    ∀ c ∈ (lineMark line).toList, Text.isLineBreak c = false := by
  intro c hc
  rcases mem_lineMark hc with hword | hdigit
  · have hall : ∀ d ∈ "[line ]".toList, Text.isLineBreak d = false := by simp [Text.isLineBreak]
    exact hall c hword
  · exact not_isLineBreak_of_isDigit hdigit

/-- The last line of the report of a runtime error tells of no static error. -/
theorem lineMark_ne_error (line : Nat) (given more : String) :
    lineMark line ≠ "[line " ++ given ++ "] Error" ++ more := by
  intro h
  have hmem : 'E' ∈ (lineMark line).toList := by
    rw [h]
    simp
  rcases mem_lineMark hmem with hword | hdigit
  · exact absurd hword (by decide)
  · cases hdigit

/-- The last line of the report of a runtime error ends with a bracket. -/
theorem lineMark_ne_sentence (line : Nat) (start : String) : lineMark line ≠ start ++ "." := by
  intro h
  have hbracket : (lineMark line).toList.getLast? = some ']' := getLast?_toList_append _ rfl
  rw [h, getLast?_toList_append start (c := '.') rfl] at hbracket
  cases hbracket

theorem RuntimeError.text_eq (e : RuntimeError) :
    e.text = e.cause.message ++ "\n" ++ lineMark e.token.line := by
  have hword : ∀ rest : String, "\n" ++ ("[line " ++ rest) = "\n[line " ++ rest := by
    intro rest
    rw [← String.append_assoc]
    rfl
  rw [text, runtimeErrorText, lineMark, String.append_assoc, String.append_assoc, String.append_assoc,
    String.append_assoc, hword]
  rfl

/-! ## Lines of standard error -/

/-- A report of static errors ends with the last of them. -/
theorem lines_of_problems {t : Transcript} {ds : List Diagnostic} (hne : ds ≠ [])
    (h : t.Tells (ds.map Diagnostic.render)) :
    ∃ before start, Text.lines (t.on .err) = before ++ [start ++ "."] := by
  obtain ⟨before, d, rfl⟩ := (List.eq_nil_or_concat ds).resolve_left hne
  rw [List.concat_eq_append, List.map_append, List.map_singleton] at h
  obtain ⟨above, habove⟩ := h.last
  obtain ⟨start, hstart⟩ := d.render_last
  rw [habove, hstart, ← String.append_assoc]
  exact Text.lines_last _ (by decide) (by simp [Text.isLineBreak])

/-- The report of a runtime error ends with the line that tells its number. -/
theorem lines_of_error {t : Transcript} {e : RuntimeError} (h : t.Tells [e.text]) :
    ∃ before, Text.lines (t.on .err) = before ++ [lineMark e.token.line] := by
  have htells : t.Tells ([] ++ [e.text]) := h
  obtain ⟨above, habove⟩ := htells.last
  refine ⟨Text.lines (above ++ e.cause.message ++ "\n"), ?_⟩
  have hwritten : t.on .err =
      above ++ e.cause.message ++ "\n" ++ (lineMark e.token.line ++ "\n") := by
    rw [habove, e.text_eq]
    simp only [String.append_assoc]
  rw [hwritten, Text.lines_feed, Text.lines_line (lineMark_no_break _)]

/-! ## Passing examples -/

namespace Example

theorem exitStatus_static {e : Example} (h : e.errors ≠ []) : e.exitStatus = .dataError := by
  simp [exitStatus, h]

theorem exitStatus_runtime {e : Example} (h : e.errors = []) {error : String × Nat}
    (hruntime : e.runtimeError = some error) : e.exitStatus = .software := by
  simp [exitStatus, h, hruntime]

theorem exitStatus_none {e : Example} (h : e.errors = []) (hruntime : e.runtimeError = none) :
    e.exitStatus = .ok := by
  simp [exitStatus, h, hruntime]

/-- Static errors are matched by expected static errors only. -/
theorem ErrorsMatch.of_problems {e : Example} {t : Transcript} (h : e.ErrorsMatch (t.on .err))
    {ds : List Diagnostic} (hne : ds ≠ []) (htells : t.Tells (ds.map Diagnostic.render)) :
    e.exitStatus = .dataError := by
  obtain ⟨before, start, hlines⟩ := lines_of_problems hne htells
  cases h with
  | static herrors _ => exact exitStatus_static herrors
  | @runtime text line _ _ hwritten =>
    rw [hlines] at hwritten
    have hlast : before ++ [start ++ "."] = [text] ++ [lineMark line] := hwritten
    obtain ⟨-, hmark⟩ := List.append_inj' hlast rfl
    exact absurd (List.singleton_inj.1 hmark).symm (lineMark_ne_sentence line start)
  | none _ _ hempty => exact absurd (List.map_eq_nil_iff.1 (htells.eq_nil hempty)) hne

/-- A runtime error is matched by an expected runtime error only. -/
theorem ErrorsMatch.of_error {source : String} {t : Transcript}
    (h : (ofSource source).ErrorsMatch (t.on .err)) {e : RuntimeError} (htells : t.Tells [e.text]) :
    (ofSource source).exitStatus = .software := by
  cases h with
  | static herrors hwritten =>
    obtain ⟨before, hlines⟩ := lines_of_error htells
    rw [hlines] at hwritten
    have hmem : lineMark e.token.line ∈ (ofSource source).errors := by
      rw [← hwritten]
      simp
    obtain ⟨given, more, hmark⟩ := ofSource_errors hmem
    exact absurd hmark (lineMark_ne_error _ _ _)
  | runtime hnil hruntime _ => exact exitStatus_runtime hnil hruntime
  | none _ _ hempty => exact absurd (htells.eq_nil hempty) (List.cons_ne_nil _ _)

/-- Nothing is matched by no expected error only. -/
theorem ErrorsMatch.of_nothing {e : Example} (h : e.ErrorsMatch "") : e.exitStatus = .ok := by
  cases h with
  | static herrors hwritten => exact absurd hwritten.symm herrors
  | runtime _ _ hwritten => cases hwritten
  | none hnil hruntime _ => exact exitStatus_none hnil hruntime

/-- **The class of the errors is the one that is expected**, if the run matches the expectations. -/
theorem exitStatus_eq {source : String} {n : Nat} {clock : Clock} {s : Session} {t : Transcript}
    (hrun : (ofSource source).eval n clock = .ended s t)
    (hmatch : (ofSource source).ErrorsMatch (t.on .err)) :
    s.report.exitStatus = (ofSource source).exitStatus := by
  rw [eval_ofSource] at hrun
  by_cases hflawless : Flawless source
  · obtain ⟨error, herror, hruntime, -, htells⟩ :=
      Session.run_flawless hflawless rfl rfl rfl hrun
    cases error with
    | none =>
      have hempty : t.on .err = "" := htells
      rw [hempty] at hmatch
      rw [hmatch.of_nothing]
      simp [Report.exitStatus, herror, hruntime, Session.start]
    | some e =>
      rw [hmatch.of_error htells]
      simp [Report.exitStatus, herror, hruntime]
  · obtain ⟨s₁, t₁, hended, herror, ds, hne, htells⟩ :=
      Session.run_flawed (s := .start {} clock) hflawless rfl rfl n
    rw [hrun] at hended
    cases hended
    rw [hmatch.of_problems hne htells, Report.exitStatus, if_pos herror]

end Example

/-- **A passing example predicts the exit status.**  If the run of an example comes to its end with
what is expected, then the command on a file that holds the same source, with the same readings of
the clock, ends with the status that the expectations predict. -/
theorem passing_example_predicts_exit {source : String} {n : Nat} {clock : Clock}
    (hpasses : (Example.ofSource source).Passes n clock) (path : String) {bytes : ByteArray}
    (hbytes : decodeText bytes = some source) {k : Nat} (hle : n ≤ k) :
    (∃ t, runScript k (.start {} clock) path (.ok bytes) =
      .exit (Example.ofSource source).exitStatus t) ∧
      (Example.ofSource source).exitStatus.code ∈ [65, 70, 0] := by
  obtain ⟨s, t, hrun, hcompare⟩ := hpasses
  obtain ⟨-, hmatch⟩ := Example.compare_eq_none.1 hcompare
  have hstatus := Example.exitStatus_eq hrun hmatch
  constructor
  · rw [Example.eval_ofSource] at hrun
    refine ⟨t, ?_⟩
    simp only [runScript, hbytes]
    rw [Session.run_ended_steady hle hrun, Ending.ofRun, hstatus]
  · unfold Example.exitStatus
    split
    · decide
    · split <;> decide

/-! ### A variable that is not defined -/

/-- The message quotes a name. -/
def undefinedName : String := "print x; // expect runtime error: Undefined variable 'x'.\n"

/-- The report of the missing variable. -/
def undefinedReport : Transcript := [⟨.err, "Undefined variable 'x'.\n[line 1]\n"⟩]

theorem undefinedName_evaluated :
    ((Example.ofSource undefinedName).eval 9 0).transcript? = some undefinedReport ∧
      (Example.ofSource undefinedName).compare undefinedReport = none ∧
      (Example.ofSource undefinedName).exitStatus = .software ∧
      Text.unifyBreaks undefinedName = undefinedName := by
  decide +kernel

/-- A text without other line breaks than line feeds is read from a file as it is. -/
theorem decodeText_toUTF8 {text : String} (h : Text.unifyBreaks text = text) :
    decodeText text.toUTF8 = some text := by
  have hdecode : String.fromUTF8? text.toUTF8 = some text := by
    simp only [String.fromUTF8?, String.toUTF8_eq_toByteArray, dif_pos text.isValidUTF8]
    rfl
  rw [decodeText, hdecode, Option.map_some, h]

theorem passing_example_predicts_software :
    (Example.ofSource undefinedName).Passes 9 0 ∧
      decodeText undefinedName.toUTF8 = some undefinedName ∧
      ∃ t, runScript 10 (.start {} 0) "undefined.lox" (.ok undefinedName.toUTF8) =
        .exit .software t := by
  obtain ⟨hrun, hcompare, hstatus, hbreaks⟩ := undefinedName_evaluated
  obtain ⟨s, hended⟩ := Run.transcript?_eq_some hrun
  have hpasses : (Example.ofSource undefinedName).Passes 9 0 := ⟨s, _, hended, hcompare⟩
  have hdecode := decodeText_toUTF8 hbreaks
  obtain ⟨⟨t, hexit⟩, -⟩ := passing_example_predicts_exit hpasses "undefined.lox" hdecode
    (by decide : 9 ≤ 10)
  exact ⟨hpasses, hdecode, t, hstatus ▸ hexit⟩

/-! ### A name that is looked up later -/

/-- A name is looked up from some time on. -/
def lateName : String := "if (clock() > 1000000000) print nope;\n"

/-- The report of the name that is missing at the later time. -/
def lateReport : Transcript := [⟨.err, "Undefined variable 'nope'.\n[line 1]\n"⟩]

theorem lateName_evaluated :
    ((Example.ofSource lateName).eval 20 0).transcript? = some [] ∧
      (Example.ofSource lateName).compare [] = none ∧
      (Example.ofSource lateName).exitStatus = .ok ∧ Text.unifyBreaks lateName = lateName ∧
      ((Session.start {} lateClock).run 20 lateName).transcript? =
        some lateReport ∧
      ((Session.start {} lateClock).run 20 lateName).report? =
        some ⟨["Undefined variable 'nope'.\n[line 1]"], false, true⟩ := by
  decide +kernel

/-- An example that passes does not predict how the command ends at a later time. -/
theorem later_exit_is_not_predicted :
    (Example.ofSource lateName).Passes 20 0 ∧ decodeText lateName.toUTF8 = some lateName ∧
      (Example.ofSource lateName).exitStatus = .ok ∧
      ∃ t, runScript 20 (.start {} lateClock) "late.lox" (.ok lateName.toUTF8) =
        .exit .software t := by
  obtain ⟨hrun, hcompare, hstatus, hbreaks, hlater, hreport⟩ := lateName_evaluated
  obtain ⟨s, hended⟩ := Run.transcript?_eq_some hrun
  obtain ⟨s', hended'⟩ := Run.transcript?_eq_some hlater
  have hdecode := decodeText_toUTF8 hbreaks
  refine ⟨⟨s, _, hended, hcompare⟩, hdecode, hstatus, lateReport, ?_⟩
  simp only [runScript, hdecode, hended', Ending.ofRun, Run.report_of_ended hended' hreport]
  rfl

end LoxLang
