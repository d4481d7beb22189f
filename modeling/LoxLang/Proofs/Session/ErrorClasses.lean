import Mathlib
import LoxLang.Proofs.Session.History

/-!
# Error classes

A source is either rejected as a whole or executed.  If it is rejected, the errors are static, they
come from one of the two stages only, and nothing of it is executed.  If it is executed, there is no
static error, and at most one runtime error, which comes last.  Once a static error is on record
nothing is executed until the next reset.

Principal results: `Session.run_of_misread`, `Session.run_of_misscoped`, `Session.run_of_clean`,
`error_classes_never_mix`.
-/

namespace LoxLang

/-! ## Reports -/

theorem Report.addAll_eq (ds : List Diagnostic) : ∀ r : Report, r.addAll ds =
    ⟨r.messages ++ ds.map Diagnostic.render, r.hadError || !ds.isEmpty, r.hadRuntimeError⟩ := by
  induction ds with
  | nil => simp [addAll]
  | cons d ds ih =>
    intro r
    rw [show r.addAll (d :: ds) = (r.add d).addAll ds from rfl, ih]
    simp [add, staticError, emit, Diagnostic.render]

/-! ## What is written -/

/-- What goes to standard output. -/
def Transcript.printed (t : Transcript) : Transcript := t.filter (·.stream == .out)

@[simp] theorem Transcript.printed_append (t t' : Transcript) :
    Transcript.printed (t ++ t') = t.printed ++ t'.printed := List.filter_append ..

namespace Session

@[simp] theorem diagnosticLines_printed (ds : List Diagnostic) :
    (diagnosticLines ds).printed = [] := by
  simp [Transcript.printed, diagnosticLines, Written.line]

@[simp] theorem log_printed (s : Session) (text : String) : (s.log text).printed = [] := by
  unfold log
  split <;> rfl

@[simp] theorem treeLines_printed (s : Session) (stmts : List Stmt) :
    (s.treeLines stmts).printed = s.treeLines stmts := by
  unfold treeLines
  split
  · simp [Transcript.printed, Written.line]
  · rfl

/-! ## Rejected sources -/

variable (s : Session) (source : String)

/-- What the grammar makes of a source. -/
def programOf : Program := Program.read (scan source).tokens (scan source).stop s.nextId

/-- What is wrong with the words and the grammar of a source. -/
def readingProblems : List Diagnostic := (scan source).found ++ (s.programOf source).found

/-- What is wrong with the scopes of a source. -/
def scopingProblems : List Diagnostic := (Resolution.ofProgram (s.programOf source).stmts).found

/-- The run of a source comes to nothing but these static errors: there is no program to execute,
only the trees of its statements are printed, and the machine is as before. -/
structure Rejects (problems : List Diagnostic) (s₁ : Session) (t : Transcript) : Prop where
  program : (s.prepare source).1 = none
  messages : s₁.report.messages = s.report.messages ++ problems.map Diagnostic.render
  hadError : s₁.report.hadError = true
  hadRuntimeError : s₁.report.hadRuntimeError = s.report.hadRuntimeError
  printed : t.printed = s.treeLines (s.programOf source).stmts
  machine : s₁.machine = s.machine

variable {s source}

/-- A run of a source for which there is no program. -/
theorem run_of_rejected {problems : List Diagnostic}
    (herror : (s.report.addAll problems).hadError = true)
    (hprepare : ∃ t, s.prepare source = (none, { s with
        report := s.report.addAll problems
        nextId := (s.programOf source).nextId }, t) ∧
      t.printed = s.treeLines (s.programOf source).stmts) (n : Nat) :
    ∃ s₁ t, s.run n source = .ended s₁ t ∧ s.Rejects source problems s₁ t := by
  obtain ⟨t, hprepare, hprinted⟩ := hprepare
  refine ⟨{ s with report := s.report.addAll problems, nextId := (s.programOf source).nextId }, t,
    ?_, ?_, ?_, herror, ?_, hprinted, rfl⟩
  · exact run_of_unprepared hprepare n
  · rw [hprepare]
  · rw [Report.addAll_eq]
  · rw [Report.addAll_eq]

theorem reading_report (s : Session) (source : String) :
    (s.report.addAll (scan source).found).addAll (s.programOf source).found =
      s.report.addAll (s.readingProblems source) := by
  unfold Report.addAll readingProblems
  rw [List.foldl_append]

/-- A source that cannot be read is rejected, and so is every source if a static error is on
record. -/
theorem run_of_misread (h : s.report.hadError = true ∨ s.readingProblems source ≠ []) (n : Nat) :
    ∃ s₁ t, s.run n source = .ended s₁ t ∧ s.Rejects source (s.readingProblems source) s₁ t := by
  have hreport := s.reading_report source
  have herror : (s.report.addAll (s.readingProblems source)).hadError = true := by
    rw [Report.addAll_eq]
    rcases h with hset | hproblems
    · simp [hset]
    · simp [hproblems]
  have hprogram : Program.read (scan source).tokens (scan source).stop s.nextId =
      s.programOf source := rfl
  refine run_of_rejected herror ?_ n
  unfold prepare
  simp only [hprogram, hreport, herror, if_true]
  refine ⟨_, rfl, ?_⟩
  simp only [Transcript.printed_append, diagnosticLines_printed, log_printed, treeLines_printed,
    List.nil_append, List.append_nil]
  rfl

/-- A source that is read, but not resolved without a problem, is rejected. -/
theorem run_of_misscoped (hclear : s.report.hadError = false)
    (hreading : s.readingProblems source = []) (hscoping : s.scopingProblems source ≠ [])
    (n : Nat) : ∃ s₁ t, s.run n source = .ended s₁ t ∧
      s.Rejects source (s.scopingProblems source) s₁ t := by
  have hreport : (s.report.addAll (scan source).found).addAll (s.programOf source).found =
      s.report := by
    rw [s.reading_report source, hreading]
    rfl
  have herror : (s.report.addAll (s.scopingProblems source)).hadError = true := by
    rw [Report.addAll_eq]
    simp [hscoping]
  have hprogram : Program.read (scan source).tokens (scan source).stop s.nextId =
      s.programOf source := rfl
  have hfound : (Resolution.ofProgram (s.programOf source).stmts).found =
      s.scopingProblems source := rfl
  refine run_of_rejected herror ?_ n
  unfold prepare
  simp only [hprogram, hreport, hfound, hclear, herror, Bool.false_eq_true, if_false, if_true]
  refine ⟨_, rfl, ?_⟩
  simp only [Transcript.printed_append, diagnosticLines_printed, log_printed, treeLines_printed,
    List.nil_append, List.append_nil]
  rfl

end Session

/-! ## Executed sources -/

/-- A runtime error as it is reported. -/
def RuntimeError.text (e : RuntimeError) : String := runtimeErrorText e.token.line e.cause.message

/-- The machine that a program leaves behind, and the error that ended it. -/
def Outcome.ends? : Outcome Unit → Option (Machine × Option RuntimeError)
  | .done _ m => some (m, none)
  | .raised e m => some (m, some e)
  | .fault .. => none
  | .exhausted => none

namespace Session

variable (s : Session) (source : String)

/-- The run of a source without a static error: its program is executed, and ends with this runtime
error, if any.  The error is written behind everything that the program prints. -/
structure Executes (n : Nat) (error : Option RuntimeError) (s₁ : Session) (t : Transcript) :
    Prop where
  reading : s.readingProblems source = []
  scoping : s.scopingProblems source = []
  start : s.machine.output = #[]
  messages : s₁.report.messages = s.report.messages ++ error.toList.map RuntimeError.text
  hadError : s₁.report.hadError = false
  hadRuntimeError : s₁.report.hadRuntimeError = (s.report.hadRuntimeError || error.isSome)
  execution : ∃ m before,
    (executeProgram n (s.programOf source).stmts
      (s.machine.learn (Resolution.ofProgram (s.programOf source).stmts).table)).ends? =
        some (m, error) ∧
    s₁.machine = { m with output := #[] } ∧
    Transcript.printed before = s.treeLines (s.programOf source).stmts ∧
    t = before ++ m.output.toList.map (Written.line .out) ++
      error.toList.map (fun e => Written.line .err e.text) ++
      s₁.log ("global scope:\n" ++ s₁.globalsText)

variable {s source}

/-- What is left when the program of a source has come to its end. -/
theorem finish_executes (hclear : s.report.hadError = false)
    (hreading : s.readingProblems source = []) (hscoping : s.scopingProblems source = [])
    (hstart : s.machine.output = #[]) {n : Nat} {m : Machine} {error : Option RuntimeError}
    {s' : Session} {before : Transcript}
    (hend : (executeProgram n (s.programOf source).stmts
      (s.machine.learn (Resolution.ofProgram (s.programOf source).stmts).table)).ends? =
        some (m, error))
    (hreport : s'.report = s.report)
    (hbefore : before.printed = s.treeLines (s.programOf source).stmts) :
    s.Executes source n error (s'.finish m error).1 (before ++ (s'.finish m error).2) := by
  cases error with
  | none =>
    refine ⟨hreading, hscoping, hstart, ?_, ?_, ?_, m, before, hend, rfl, hbefore, ?_⟩
    · simp [finish, hreport]
    · simp [finish, hreport, hclear]
    · simp [finish, hreport]
    · simp [finish]
  | some e =>
    refine ⟨hreading, hscoping, hstart, ?_, ?_, ?_, m, before, hend, rfl, hbefore, ?_⟩
    · simp [finish, hreport, Report.runtimeError, Report.emit, RuntimeError.text]
    · simp [finish, hreport, Report.runtimeError, Report.emit, hclear]
    · simp [finish, Report.runtimeError]
    · simp [finish, RuntimeError.text]

/-- A source without a problem is executed. -/
theorem run_of_clean (hclear : s.report.hadError = false) (hreading : s.readingProblems source = [])
    (hscoping : s.scopingProblems source = []) (hstart : s.machine.output = #[]) (n : Nat) :
    (∃ reason, s.run n source = .fault reason) ∨ s.run n source = .exhausted ∨
      ∃ s₁ t error, s.run n source = .ended s₁ t ∧ s.Executes source n error s₁ t := by
  obtain ⟨hscan, hprogram⟩ := List.append_eq_nil_iff.1 hreading
  have hread : Program.read (scan source).tokens (scan source).stop s.nextId =
      s.programOf source := rfl
  have hrun := run_of_prepare (prepare_of_clean hclear hscan hread hprogram hscoping) n
  have hbefore : ∀ table,
      (s.preparing (scan source).tokens (s.programOf source).stmts table).printed =
        s.treeLines (s.programOf source).stmts := by
    intro table
    simp [preparing]
  simp only at hrun
  rw [hrun]
  cases hend : executeProgram n (s.programOf source).stmts
    (s.machine.learn (Resolution.ofProgram (s.programOf source).stmts).table) with
  | done value m =>
    have hends := congrArg Outcome.ends? hend
    exact .inr (.inr ⟨_, _, none, rfl,
      finish_executes hclear hreading hscoping hstart hends rfl (hbefore _)⟩)
  | raised e m =>
    have hends := congrArg Outcome.ends? hend
    exact .inr (.inr ⟨_, _, some e, rfl,
      finish_executes hclear hreading hscoping hstart hends rfl (hbefore _)⟩)
  | fault reason m => exact .inl ⟨reason, rfl⟩
  | exhausted => exact .inr (.inl rfl)

end Session

/-! ## Both kinds of errors -/

namespace Session

/-- The run of a source comes to static errors, of one stage only. -/
def FailsStatically (s : Session) (source : String) (s₁ : Session) (t : Transcript) : Prop :=
  ∃ problems, problems ≠ [] ∧ s.Rejects source problems s₁ t ∧
    (problems = s.readingProblems source ∨
      s.readingProblems source = [] ∧ problems = s.scopingProblems source)

/-- The run of a source comes to the execution of its program. -/
def RunsProgram (s : Session) (source : String) (n : Nat) (s₁ : Session) (t : Transcript) : Prop :=
  ∃ error, s.Executes source n error s₁ t

theorem FailsStatically.not_runsProgram {s s₁ : Session} {source : String} {n : Nat}
    {t : Transcript} (h : s.FailsStatically source s₁ t) : ¬ s.RunsProgram source n s₁ t := by
  rintro ⟨error, hexecutes⟩
  obtain ⟨problems, _, hrejects, _⟩ := h
  have hset := hrejects.hadError
  rw [hexecutes.hadError] at hset
  cases hset

end Session

/-- Between runs nothing is left to be printed. -/
theorem History.output_eq_empty {s : Session} {tasks : List Task} (h : History s tasks) :
    s.machine.output = #[] := by
  induction h with
  | start settings clock => rfl
  | @run s s₁ tasks n source t _ hrun ih =>
    have hkeeps := s.prepare_keeps source
    cases hprepare : s.prepare source with
    | mk program? rest =>
      obtain ⟨s₂, before⟩ := rest
      rw [hprepare] at hkeeps
      cases program? with
      | none =>
        rw [Session.run_of_unprepared hprepare] at hrun
        cases hrun
        rw [hkeeps.1]
        exact ih
      | some program =>
        rw [Session.run_of_prepare hprepare] at hrun
        unfold Session.conclude at hrun
        split at hrun <;> cases hrun <;> rfl
  | reset _ ih => exact ih
  | clock _ _ ih => exact ih

/-- **Error classes never mix, and static errors are all or nothing.**  A run of a source on a
session without a static error, after any history, comes to no end or to exactly one of two.  It
fails statically: there are one or more static errors, all from reading the source or all from
resolving it, only trees are printed, and the machine stays as it was.  Or its program is executed:
there is no static error and at most one runtime error, behind everything that the program prints.
With a static error on record, a run executes nothing. -/
theorem error_classes_never_mix {s : Session} {tasks : List Task} (h : History s tasks) (n : Nat)
    (source : String) :
    (s.report.hadError = false → s.run n source = .exhausted ∨ ∃ s₁ t,
      s.run n source = .ended s₁ t ∧
      (s.FailsStatically source s₁ t ∨ s.RunsProgram source n s₁ t) ∧
      ¬ (s.FailsStatically source s₁ t ∧ s.RunsProgram source n s₁ t)) ∧
    (s.report.hadError = true → ∃ s₁ t, s.run n source = .ended s₁ t ∧
      s.Rejects source (s.readingProblems source) s₁ t) := by
  constructor
  · intro hclear
    by_cases hreading : s.readingProblems source = []
    · by_cases hscoping : s.scopingProblems source = []
      · rcases Session.run_of_clean hclear hreading hscoping h.output_eq_empty n with
          ⟨reason, hfault⟩ | hexhausted | ⟨s₁, t, error, hended, hexecutes⟩
        · -- no session comes to a fault
          rcases h.kept.run n source with ⟨s₁, t, hended, _⟩ | hexhausted
          · rw [hfault] at hended
            cases hended
          · exact .inl hexhausted
        · exact .inl hexhausted
        · refine .inr ⟨s₁, t, hended, .inr ⟨error, hexecutes⟩, ?_⟩
          exact fun hboth => hboth.1.not_runsProgram hboth.2
      · obtain ⟨s₁, t, hended, hrejects⟩ := Session.run_of_misscoped hclear hreading hscoping n
        have hfails : s.FailsStatically source s₁ t :=
          ⟨_, hscoping, hrejects, .inr ⟨hreading, rfl⟩⟩
        exact .inr ⟨s₁, t, hended, .inl hfails, fun hboth => hfails.not_runsProgram hboth.2⟩
    · obtain ⟨s₁, t, hended, hrejects⟩ := Session.run_of_misread (.inr hreading) n
      have hfails : s.FailsStatically source s₁ t := ⟨_, hreading, hrejects, .inl rfl⟩
      exact .inr ⟨s₁, t, hended, .inl hfails, fun hboth => hfails.not_runsProgram hboth.2⟩
  · intro hset
    exact Session.run_of_misread (.inl hset) n

/-! ### A return at top level -/

theorem return_reading : (Session.start {} 0).readingProblems "return;" = [] := by cbv

theorem return_scoping : (Session.start {} 0).scopingProblems "return;" =
    [⟨1, .atText "return", .returnAtTopLevel⟩] := by cbv

/-- The source fails statically, and the next one is not executed. -/
theorem error_classes_never_mix_after_return :
    ∃ s₁ t₁ s₂ t₂, (Session.start {} 0).run 9 "return;" = .ended s₁ t₁ ∧
      (Session.start {} 0).FailsStatically "return;" s₁ t₁ ∧
      s₁.run 9 "print 1;" = .ended s₂ t₂ ∧
      s₁.Rejects "print 1;" (s₁.readingProblems "print 1;") s₂ t₂ := by
  have hscoping : (Session.start {} 0).scopingProblems "return;" ≠ [] := by
    rw [return_scoping]
    exact List.cons_ne_nil _ _
  obtain ⟨s₁, t₁, hrun, hrejects⟩ := Session.run_of_misscoped rfl return_reading hscoping 9
  rcases (error_classes_never_mix (.start {} 0) 9 "return;").1 rfl with
    hexhausted | ⟨s', t', hrun', hfails | ⟨error, hexecutes⟩, _⟩
  · rw [hrun] at hexhausted
    cases hexhausted
  · rw [hrun] at hrun'
    cases hrun'
    have hnext := error_classes_never_mix (.run (.start {} 0) hrun) 9 "print 1;"
    obtain ⟨s₂, t₂, hrun₂, hrejects₂⟩ := hnext.2 hrejects.hadError
    exact ⟨s₁, t₁, s₂, t₂, hrun, hfails, hrun₂, hrejects₂⟩
  · exact absurd hexecutes.scoping hscoping

end LoxLang
