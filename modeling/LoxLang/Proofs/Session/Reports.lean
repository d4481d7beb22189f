import LoxLang.Proofs.Session.Ending

/-!
# Reports on standard error

Without a log, standard error holds what is added to the report and nothing else, a line for each
message.  So it is empty exactly if the source has no errors and its program none at runtime.

* `Transcript.Tells` — standard error holds these messages.

Principal results: `Session.run_flawed`, `Session.run_flawless`, `Session.run_silent`.
-/

namespace LoxLang

/-- Standard error holds these messages, each on lines of its own. -/
def Transcript.Tells (t : Transcript) (messages : List String) : Prop :=
  t.on .err = String.join (messages.map (· ++ "\n"))

namespace Transcript.Tells

variable {t t' : Transcript} {messages messages' : List String}

theorem append (h : t.Tells messages) (h' : t'.Tells messages') :
    Transcript.Tells (t ++ t') (messages ++ messages') := by
  unfold Tells at *
  rw [Transcript.on_append, h, h', List.map_append, String.join_append]

theorem silent (h : t.Tells messages) (h' : t'.Tells []) : Transcript.Tells (t ++ t') messages := by
  have happend := h.append h'
  rwa [List.append_nil] at happend

/-- Standard error ends with the last message. -/
theorem last {message : String} (h : t.Tells (messages ++ [message])) :
    ∃ before, t.on .err = before ++ message ++ "\n" := by
  refine ⟨String.join (messages.map (· ++ "\n")), ?_⟩
  rw [h, List.map_append, String.join_append, List.map_singleton, String.append_assoc]
  simp

theorem eq_nil (h : t.Tells messages) (hempty : t.on .err = "") : messages = [] := by
  rcases List.eq_nil_or_concat messages with rfl | ⟨before, message, rfl⟩
  · rfl
  · rw [List.concat_eq_append] at h
    obtain ⟨text, htext⟩ := h.last
    rw [hempty] at htext
    have hchars := congrArg String.toList htext
    simp at hchars

end Transcript.Tells

theorem Report.addAll_addAll (r : Report) (ds ds' : List Diagnostic) :
    (r.addAll ds).addAll ds' = r.addAll (ds ++ ds') := List.foldl_append.symm

namespace Session

variable {s s₁ : Session} {source : String} {t : Transcript} {n : Nat}

theorem diagnosticLines_tells (ds : List Diagnostic) :
    (diagnosticLines ds).Tells (ds.map Diagnostic.render) := by
  have hall : (diagnosticLines ds).filter (·.stream == .err) = diagnosticLines ds := by
    simp [diagnosticLines, Written.line]
  rw [Transcript.Tells, Transcript.on, hall, diagnosticLines, List.map_map, List.map_map]
  rfl

/-- Problems are told behind others. -/
theorem tells_lines {ds : List Diagnostic} (h : t.Tells (ds.map Diagnostic.render))
    (ds' : List Diagnostic) :
    Transcript.Tells (t ++ diagnosticLines ds') ((ds ++ ds').map Diagnostic.render) := by
  rw [List.map_append]
  exact h.append (diagnosticLines_tells ds')

theorem treeLines_tells (s : Session) (stmts : List Stmt) : (s.treeLines stmts).Tells [] := by
  unfold treeLines
  split
  · have hlines : (stmts.map fun stmt => Written.line .out stmt.render) =
        (stmts.map Stmt.render).map (Written.line .out) := by rw [List.map_map]; rfl
    rw [hlines]
    exact Transcript.on_err_lines _
  · rfl

theorem log_tells (h : s.settings.verbose = false) (text : String) : (s.log text).Tells [] := by
  unfold log
  rw [h]
  rfl

theorem errorLines_tells (error : Option RuntimeError) :
    (errorLines error).Tells (error.toList.map RuntimeError.text) := by
  cases error with
  | none => rfl
  | some e => rfl

/-- What is written while a source is read, in a session that has this log. -/
theorem parsing_tells (hverbose : s.settings.verbose = false) (words trees : String)
    (ds : List Diagnostic) (program : Program) :
    Transcript.Tells (diagnosticLines ds ++ s.log words ++ diagnosticLines program.found ++
        s.log trees ++ s.treeLines program.stmts) ((ds ++ program.found).map Diagnostic.render) := by
  have hwords := (diagnosticLines_tells ds).silent (log_tells hverbose words)
  have htrees := (tells_lines hwords program.found).silent (log_tells hverbose trees)
  exact htrees.silent (s.treeLines_tells program.stmts)

/-- What is wrong with a source is reported and written. -/
theorem prepare_tells (hverbose : s.settings.verbose = false) (source : String) :
    ∃ ds : List Diagnostic, (s.prepare source).2.1.report = s.report.addAll ds ∧
      (s.prepare source).2.2.Tells (ds.map Diagnostic.render) := by
  unfold prepare
  simp only
  split
  · exact ⟨_, Report.addAll_addAll _ _ _, parsing_tells hverbose _ _ _ _⟩
  · have hreport : ∀ (report : Report) (ds ds' ds'' : List Diagnostic),
        ((report.addAll ds).addAll ds').addAll ds'' = report.addAll (ds ++ ds' ++ ds'') := by
      intro report ds ds' ds''
      rw [Report.addAll_addAll, Report.addAll_addAll, List.append_assoc]
    -- the session behind resolution differs in its report only
    split <;> exact ⟨_, hreport _ _ _ _,
      (tells_lines (parsing_tells hverbose _ _ _ _) _).silent (log_tells hverbose _)⟩

/-! ## Runs that tell -/

/-- A source with errors is rejected, and they are told. -/
theorem run_flawed (hsource : ¬ Flawless source) (hclear : s.report.hadError = false)
    (hverbose : s.settings.verbose = false) (n : Nat) :
    ∃ s₁ t, s.run n source = .ended s₁ t ∧ s₁.report.hadError = true ∧
      ∃ ds : List Diagnostic, ds ≠ [] ∧ t.Tells (ds.map Diagnostic.render) := by
  obtain ⟨ds, hreport, htells⟩ := prepare_tells hverbose source
  obtain ⟨s₁, t, hrun, ⟨_, _, hrejects, _⟩, _⟩ := run_of_flawed hsource hclear n
  have hended := run_of_unprepared (Prod.ext hrejects.program rfl) n
  have herror := hrejects.hadError
  rw [hrun] at hended
  cases hended
  refine ⟨_, _, hrun, herror, ds, ?_, htells⟩
  rintro rfl
  rw [hreport, Report.addAll_eq, List.isEmpty_nil, hclear] at herror
  cases herror

/-- A source without errors is executed, and the runtime error that ends it is told. -/
theorem run_flawless (hsource : Flawless source) (hclear : s.report.hadError = false)
    (hverbose : s.settings.verbose = false) (hprint : s.settings.printTree = false)
    (hrun : s.run n source = .ended s₁ t) :
    ∃ error : Option RuntimeError, s₁.report.hadError = false ∧
      s₁.report.hadRuntimeError = (s.report.hadRuntimeError || error.isSome) ∧
      s₁.report.messages = s.report.messages ++ error.toList.map RuntimeError.text ∧
      t.Tells (error.toList.map RuntimeError.text) := by
  obtain ⟨m, error, -, rfl, hwrites⟩ := run_eq_ended hsource hclear hprint hrun
  refine ⟨error, ?_, ?_, ?_, ?_⟩
  · rw [finish_hadError, hclear]
  · rw [finish_hadRuntimeError]
  · rw [finish_messages]
  · rw [Transcript.Tells, hwrites.quiet hverbose]
    exact errorLines_tells error

/-- A run that writes nothing to standard error has no error at all. -/
theorem run_silent (hclear : s.report.hadError = false) (hverbose : s.settings.verbose = false)
    (hprint : s.settings.printTree = false) (hrun : s.run n source = .ended s₁ t)
    (hsilent : t.on .err = "") : Flawless source ∧ s₁.report.messages = s.report.messages := by
  by_cases hsource : Flawless source
  · obtain ⟨error, -, -, hmessages, htells⟩ :=
      run_flawless hsource hclear hverbose hprint hrun
    rw [htells.eq_nil hsilent, List.append_nil] at hmessages
    exact ⟨hsource, hmessages⟩
  · obtain ⟨s₂, t₂, hended, -, ds, hne, htells⟩ := run_flawed hsource hclear hverbose n
    rw [hrun] at hended
    cases hended
    exact absurd (List.map_eq_nil_iff.1 (htells.eq_nil hsilent)) hne

end Session

end LoxLang
