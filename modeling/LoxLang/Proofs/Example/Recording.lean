import LoxLang.Proofs.Example.Expectations
import LoxLang.Proofs.Session.Pieces
import LoxLang.Proofs.Session.Reports
import LoxLang.Proofs.Text.Breaks
import LoxLang.Proofs.Token.Layout

/-!
# Recording what an example prints

An example that has no expectations can be given those that it meets: a comment for each line that it
prints, below its source.  Comments are not read, so the program stays the same; and each of them is
on a line of its own, where it expects the line that was printed, whatever is in it.

* `note`, `notes` — the comment that expects a line, and the comments that expect lines.
* `annotated` — a source with comments below it.

Principal results: `notes_flawless`, `lines_annotated`, `recorded_output_passes`.
-/

namespace LoxLang

/-! ## Comments -/

/-- The comment that expects a line of output. -/
def note (line : String) : String := "// expect: " ++ line

/-- Comments that expect lines of output, each on a line of its own. -/
def notes (lines : List String) : String := String.join (lines.map fun line => note line ++ "\n")

/-- A source with comments below it that expect these lines. -/
def annotated (source : String) (lines : List String) : String := source ++ "\n" ++ notes lines

@[simp] theorem notes_nil : notes [] = "" := rfl

@[simp] theorem notes_cons (line : String) (lines : List String) :
    notes (line :: lines) = note line ++ "\n" ++ notes lines := by
  rw [notes, List.map_cons, String.join_cons]
  rfl

section Notes

variable {lines : List String}
  (h : ∀ line ∈ lines, ∀ c ∈ line.toList, Text.isLineBreak c = false)

theorem note_no_break {line : String} (h : ∀ c ∈ line.toList, Text.isLineBreak c = false) :
    ∀ c ∈ (note line).toList, Text.isLineBreak c = false := by
  intro c hc
  rw [note, String.toList_append, List.mem_append] at hc
  rcases hc with hc | hc
  · have hall : ∀ d ∈ "// expect: ".toList, Text.isLineBreak d = false := by
      simp [Text.isLineBreak]
    exact hall c hc
  · exact h c hc

include h

/-- Each comment is a line. -/
theorem lines_notes : Text.lines (notes lines) = lines.map note := by
  induction lines with
  | nil => rfl
  | cons line lines ih =>
    obtain ⟨hline, hlines⟩ := List.forall_mem_cons.1 h
    rw [notes_cons, Text.lines_feed, Text.lines_line (note_no_break hline), ih hlines,
      List.map_cons, List.singleton_append]

/-- Comments only set tokens apart. -/
theorem notes_separator : Separator (notes lines).toList := by
  induction lines with
  | nil => exact .nil
  | cons line lines ih =>
    obtain ⟨hline, hlines⟩ := List.forall_mem_cons.1 h
    have hbody : '\n' ∉ " expect: ".toList ++ line.toList := by
      intro hmem
      rw [List.mem_append] at hmem
      rcases hmem with hmem | hmem
      · exact absurd hmem (by decide)
      · exact absurd (hline _ hmem) (by decide)
    have hcomment := Separator.comment hbody (ih hlines)
    have htext : (notes (line :: lines)).toList =
        '/' :: '/' :: (" expect: ".toList ++ line.toList) ++ '\n' :: (notes lines).toList := by
      rw [notes_cons, note]
      simp
    rw [htext]
    exact hcomment

end Notes

/-- A text in which nothing is read is a program without statements. -/
theorem Separator.programOf {text : String} (h : Separator text.toList) (s : Session) :
    (scan text).found = [] ∧ s.programOf text = ⟨[], [], s.nextId⟩ := by
  obtain ⟨pieces, hall, hsilent⟩ := h.all_append []
  obtain ⟨line, hline⟩ := scanPieces_silent hsilent 1 []
  have hscan : scan text = ⟨[], ⟨.endOfInput, "", .nil, line⟩, []⟩ := by
    rw [List.append_nil, Piece.all] at hall
    rw [scan, hall, hline]
    rfl
  rw [Session.programOf, hscan]
  exact ⟨rfl, rfl⟩

theorem Separator.flawless {text : String} (h : Separator text.toList) : Flawless text := by
  obtain ⟨hfound, hprogram⟩ := h.programOf (.start {} 0)
  have hread : readNew text = ⟨[], [], 1⟩ := hprogram
  exact ⟨hfound, by rw [hread], by rw [hread]; rfl⟩

/-! ## Expectations below a source -/

/-- A comment expects the line that is in it. -/
theorem ofLine?_note (line : String) : Expectation.ofLine? (note line) = some (.output line) := by
  have htext : (note line).toList = "// expect:".toList ++ ' ' :: line.toList := by
    rw [note, String.toList_append]
    rfl
  have hread : Expectation.output? (note line).toList = some (.output line) := by
    rw [htext, Expectation.output?, Expectation.after?_append, Option.map_some]
    exact congrArg (fun text => some (Expectation.output text)) String.ofList_toList
  -- the comment begins with what is looked for, so nothing is further to the left
  have hleft : Expectation.leftmost Expectation.output? (note line).toList =
      some (.output line) := by
    generalize (note line).toList = cs at hread
    cases cs with
    | nil => exact hread
    | cons c cs => rw [Expectation.leftmost, hread, Option.some_or]
  simp only [Expectation.ofLine?, hleft, Option.some_or]

/-- Behind the lines of a source, and possibly an empty one, come the comments. -/
theorem lines_annotated (source : String) {lines : List String}
    (h : ∀ line ∈ lines, ∀ c ∈ line.toList, Text.isLineBreak c = false) :
    Text.lines (annotated source lines) = Text.lines source ++ lines.map note ∨
      Text.lines (annotated source lines) = Text.lines source ++ [""] ++ lines.map note := by
  rw [annotated, Text.lines_feed, lines_notes h]
  rcases Text.lines_end source with hend | hend
  · exact .inl (by rw [hend])
  · exact .inr (by rw [hend])

/-- **The comments are all that is expected** below a source without expectations. -/
theorem ofSource_annotated {source : String} {lines : List String}
    (hnone : (Text.lines source).filterMap Expectation.ofLine? = [])
    (h : ∀ line ∈ lines, ∀ c ∈ line.toList, Text.isLineBreak c = false) :
    Example.ofSource (annotated source lines) = ⟨annotated source lines, lines, [], none⟩ := by
  have hnotes : (lines.map note).filterMap Expectation.ofLine? = lines.map .output := by
    rw [List.filterMap_map, ← List.filterMap_eq_map]
    exact congrArg (List.filterMap · lines) (funext ofLine?_note)
  refine Example.ofSource_of_outputs ?_
  rcases lines_annotated source h with hlines | hlines
  · rw [hlines, List.filterMap_append, hnone, hnotes, List.nil_append]
  · have hempty : [""].filterMap Expectation.ofLine? = [] := rfl
    rw [hlines, List.filterMap_append, List.filterMap_append, hnone, hempty, hnotes, List.nil_append,
      List.nil_append]

/-! ## Running with comments below -/

/-- Behind a run of its own, a text in which nothing is read comes to its end, and writes nothing. -/
theorem Separator.run {text : String} (h : Separator text.toList) {s : Session}
    (hclear : s.report.hadError = false) (hverbose : s.settings.verbose = false)
    (hprint : s.settings.printTree = false) (hstart : s.machine.output = #[]) (n : Nat) :
    ∃ s₁ t, s.run n text = .ended s₁ t ∧ t.on .out = "" ∧ t.on .err = "" := by
  have hends : (executeProgram n (s.programOf text).stmts (s.learnt text)).ends? =
      some (s.learnt text, none) := by
    rw [(h.programOf s).2]
    rfl
  obtain ⟨t, hrun, hwrites⟩ := Session.run_of_ends h.flawless hclear hprint hends
  have hout : (s.learnt text).output = #[] := hstart
  refine ⟨_, t, hrun, ?_, hwrites.quiet hverbose⟩
  rw [hwrites.out, hout]
  rfl

/-- **With comments below it, a quiet source does what it does without them.** -/
theorem run_annotated {source text : String} (h : Separator text.toList) {n : Nat} {clock : Clock}
    {s : Session} {t : Transcript} (hrun : (Session.start {} clock).run n source = .ended s t)
    (hsilent : t.on .err = "") :
    ∃ s' t', (Session.start {} clock).run n (source ++ "\n" ++ text) = .ended s' t' ∧
      t'.on .out = t.on .out ∧ t'.on .err = "" := by
  obtain ⟨hsource, hquiet⟩ := Session.run_silent rfl rfl rfl hrun hsilent
  obtain ⟨m, -, rfl, -⟩ := Session.run_quiet hsource rfl rfl hrun hquiet
  have hsame := sameRuns (.start {} clock) rfl rfl hsource h.flawless hrun hquiet (Nat.le_refl n)
  obtain ⟨s₂, t₂, hended, hout, herr⟩ := h.run (s := { Session.start {} clock with
    machine := { m with output := #[] }
    nextId := ((Session.start {} clock).programOf source).nextId }) rfl rfl rfl rfl n
  rw [hended] at hsame
  generalize (Session.start {} clock).run n (source ++ "\n" ++ text) = r at hsame
  cases hsame with
  | @ended _ s' _ t' hend =>
    obtain ⟨error, error', hbelow, -, -, -, -, -, hwritten⟩ := hend.err
    obtain ⟨-, herr₂, herr'⟩ := hwritten rfl
    have hnone : error = none := by
      rw [herr] at herr₂
      simpa using (Session.errorLines_tells error).eq_nil herr₂.symm
    have hnone' : error' = none := by
      have hisSome := hbelow.isSome_eq
      rwa [hnone, Option.isSome_none, Option.isSome_eq_false_iff, Option.isNone_iff_eq_none]
        at hisSome
    refine ⟨s', t', rfl, ?_, ?_⟩
    · rw [hend.out, hout, String.append_empty]
    · rw [herr', hnone']
      rfl

/-- **Recorded output can be annotated back.**  If an example without expectations comes to its end
and writes nothing to standard error, then with a comment below it for each line of its output it is
an example that expects these lines, and that passes with the same readings of the clock. -/
theorem recorded_output_passes {source : String} {n : Nat} {clock : Clock} {s : Session}
    {t : Transcript} (houtputs : (Example.ofSource source).outputs = [])
    (herrors : (Example.ofSource source).errors = [])
    (hruntime : (Example.ofSource source).runtimeError = none)
    (hrun : (Example.ofSource source).eval n clock = .ended s t) (hsilent : t.on .err = "") :
    (Example.ofSource (annotated source (Text.lines (t.on .out)))).outputs =
        Text.lines (t.on .out) ∧
      (Example.ofSource (annotated source (Text.lines (t.on .out)))).Passes n clock := by
  have hbreaks := Text.lines_no_break (t.on .out)
  have hexample := ofSource_annotated (Example.ofSource_of_none houtputs herrors hruntime) hbreaks
  rw [Example.eval_ofSource] at hrun
  obtain ⟨s', t', hrun', hout, herr⟩ := run_annotated (notes_separator hbreaks) hrun hsilent
  rw [hexample]
  refine ⟨rfl, s', t', hrun', Example.compare_eq_none.2 ⟨?_, .none rfl rfl herr⟩⟩
  rw [hout]

/-! ### Pages of output -/

/-- What is printed looks like an expectation, and is broken by a form feed. -/
def printedPages : String := "print \"// exp\" + \"ect: one\x0c two\";\nprint \"\";"

/-- What is printed, as it is written. -/
def writtenPages : Transcript := [⟨.out, "// expect: one\x0c two\n"⟩, ⟨.out, "\n"⟩]

theorem printedPages_evaluated :
    ((Example.ofSource printedPages).eval 9 0).transcript? = some writtenPages ∧
      (Example.ofSource printedPages).outputs = [] ∧ (Example.ofSource printedPages).errors = [] ∧
      (Example.ofSource printedPages).runtimeError = none ∧ writtenPages.on .err = "" ∧
      Text.lines (writtenPages.on .out) = ["// expect: one", " two", ""] := by
  decide +kernel

theorem recorded_output_passes_for_pages :
    Text.lines (writtenPages.on .out) = ["// expect: one", " two", ""] ∧
      (∃ s, (Example.ofSource printedPages).eval 9 0 = .ended s writtenPages) ∧
      (Example.ofSource (annotated printedPages (Text.lines (writtenPages.on .out)))).outputs =
        Text.lines (writtenPages.on .out) ∧
      (Example.ofSource (annotated printedPages (Text.lines (writtenPages.on .out)))).Passes 9 0 := by
  obtain ⟨hrun, houtputs, herrors, hruntime, hsilent, hlines⟩ := printedPages_evaluated
  obtain ⟨s, hended⟩ := Run.transcript?_eq_some hrun
  exact ⟨hlines, ⟨s, hended⟩, recorded_output_passes houtputs herrors hruntime hended hsilent⟩

/-! ### An answer that changes -/

/-- What is printed depends on the time. -/
def timedAnswer : String := "print clock() > 1000000000;\n"

theorem timedAnswer_evaluated :
    ((Example.ofSource timedAnswer).eval 20 0).transcript? = some [.line .out "false"] ∧
      (Example.ofSource timedAnswer).outputs = [] ∧ (Example.ofSource timedAnswer).errors = [] ∧
      (Example.ofSource timedAnswer).runtimeError = none ∧
      ((Example.ofSource (annotated timedAnswer ["false"])).eval 20 lateClock).transcript? =
        some [.line .out "true"] ∧
      (Example.ofSource (annotated timedAnswer ["false"])).compare [.line .out "true"] =
        some .output := by
  decide +kernel

/-- What was recorded is not what an example prints at a later time, with any allowance. -/
theorem recorded_output_fails_later :
    (Example.ofSource timedAnswer).outputs = [] ∧ (Example.ofSource timedAnswer).errors = [] ∧
      (Example.ofSource timedAnswer).runtimeError = none ∧
      (∃ s, (Example.ofSource timedAnswer).eval 20 0 = .ended s [.line .out "false"]) ∧
      ∀ n, ¬ (Example.ofSource (annotated timedAnswer ["false"])).Passes n lateClock := by
  obtain ⟨hrun, houtputs, herrors, hruntime, hlater, hdiffers⟩ := timedAnswer_evaluated
  obtain ⟨s, hended⟩ := Run.transcript?_eq_some hrun
  obtain ⟨s₁, hended₁⟩ := Run.transcript?_eq_some hlater
  refine ⟨houtputs, herrors, hruntime, ⟨s, hended⟩, ?_⟩
  rintro n ⟨s₂, t₂, hended₂, hcompare⟩
  rw [Example.eval_ofSource] at hended₁ hended₂
  -- the run ends with any allowance as it does with 20, or not at all
  have hsame := Session.run_ended_steady (Nat.le_max_left 20 n) hended₁
  rw [Session.run_ended_steady (Nat.le_max_right 20 n) hended₂] at hsame
  cases hsame
  rw [hdiffers] at hcompare
  cases hcompare

end LoxLang
