import LoxLang.Proofs.Session.Copies

/-!
# What a run leaves behind

If a source has no errors, its run writes what its program prints, the runtime error that ends the
program, and a log.  The report is the same but for that error.

`Transcript.errors` is standard error without the log: no report of a runtime error looks like a line
of the log.

Principal results: `Session.finish_written`, `Session.run_eq_ended`, `Session.run_of_ends`.
-/

namespace LoxLang

/-! ## What is written -/

/-- A line of the log. -/
def Written.isLogged (w : Written) : Bool :=
  w.stream == .err && "DEBUG lox.driver: ".toList.isPrefixOf w.text.toList

/-- What is written to standard error, the log aside. -/
def Transcript.errors (t : Transcript) : Transcript :=
  t.filter fun w => w.stream == .err && !w.isLogged

@[simp] theorem Transcript.errors_append (t t' : Transcript) :
    Transcript.errors (t ++ t') = t.errors ++ t'.errors := List.filter_append ..

@[simp] theorem Session.log_errors (s : Session) (text : String) : (s.log text).errors = [] := by
  have hlogged : (Written.line .err ("DEBUG lox.driver: " ++ text)).isLogged = true := by
    simp [Written.isLogged, Written.line]
  unfold log
  split
  · simp [Transcript.errors, hlogged]
  · rfl

@[simp] theorem Transcript.errors_out (texts : List String) :
    Transcript.errors (texts.map (Written.line .out)) = [] := by
  simp [Transcript.errors, Written.line]

@[simp] theorem Transcript.on_append (t t' : Transcript) (stream : Stream) :
    Transcript.on (t ++ t') stream = t.on stream ++ t'.on stream := by
  rw [on, List.filter_append, List.map_append, String.join_append]
  rfl

@[simp] theorem Session.log_on_out (s : Session) (text : String) : (s.log text).on .out = "" := by
  unfold log
  split <;> rfl

@[simp] theorem Transcript.on_out_lines (texts : List String) :
    Transcript.on (texts.map (Written.line .out)) .out = String.join (texts.map (· ++ "\n")) := by
  induction texts with
  | nil => rfl
  | cons text texts ih =>
    rw [List.map_cons, List.map_cons, String.join_cons, ← ih]
    exact String.join_cons

@[simp] theorem Transcript.on_err_lines (texts : List String) :
    Transcript.on (texts.map (Written.line .out)) .err = "" := by
  have hnone : (texts.map (Written.line .out)).filter (·.stream == .err) = [] := by
    simp [Written.line]
  rw [on, hnone]
  rfl

/-- A text that does not begin like a line of the log. -/
def UnlikeLog (text : String) : Prop := ∃ c cs, text.toList = c :: cs ∧ c ≠ 'D'

theorem UnlikeLog.append {a : String} (h : UnlikeLog a) (b : String) : UnlikeLog (a ++ b) := by
  obtain ⟨c, cs, ha, hc⟩ := h
  exact ⟨c, cs ++ b.toList, by rw [String.toList_append, ha, List.cons_append], hc⟩

theorem UnlikeLog.isLogged {text : String} (h : UnlikeLog text) (stream : Stream) :
    Written.isLogged ⟨stream, text⟩ = false := by
  obtain ⟨c, cs, htext, hc⟩ := h
  have hlog : ∃ rest, "DEBUG lox.driver: ".toList = 'D' :: rest := by simp
  obtain ⟨rest, hlog⟩ := hlog
  rw [Written.isLogged, htext, hlog, List.isPrefixOf_cons_cons, beq_false_of_ne (Ne.symm hc),
    Bool.false_and, Bool.and_false]

theorem OperandError.message_unlikeLog (error : OperandError) : UnlikeLog error.message := by
  cases error with
  | needsNumber | needsNumbers | needsNumbersOrStrings => simp [UnlikeLog, message]

theorem Cause.message_unlikeLog (cause : Cause) : UnlikeLog cause.message := by
  cases cause with
  | operands error => exact error.message_unlikeLog
  | undefinedVariable name =>
    have hstart : UnlikeLog "Undefined variable '" := by simp [UnlikeLog]
    exact (hstart.append name).append _
  | undefinedProperty name =>
    have hstart : UnlikeLog "Undefined property '" := by simp [UnlikeLog]
    exact (hstart.append name).append _
  | wrongArity expected got =>
    have hstart : UnlikeLog "Expected " := by simp [UnlikeLog]
    exact (((hstart.append _).append _).append _).append _
  | propertyOfNonInstance =>
    show UnlikeLog "Only instances have properties."
    simp [UnlikeLog]
  | fieldOfNonInstance =>
    show UnlikeLog "Only instances have fields."
    simp [UnlikeLog]
  | notCallable =>
    show UnlikeLog "Can only call functions and classes."
    simp [UnlikeLog]
  | stackOverflow =>
    show UnlikeLog "Stack overflow."
    simp [UnlikeLog]
  | superclassNotClass =>
    show UnlikeLog "Superclass must be a class."
    simp [UnlikeLog]

/-- The report of a runtime error does not look like the log. -/
theorem RuntimeError.not_logged (e : RuntimeError) : (Written.line .err e.text).isLogged = false :=
  ((((e.cause.message_unlikeLog.append _).append _).append _).append "\n").isLogged .err

/-- The report of a runtime error, if there is one. -/
def errorLines (error : Option RuntimeError) : Transcript :=
  error.toList.map fun e => .line .err e.text

@[simp] theorem errors_errorLines (error : Option RuntimeError) :
    (errorLines error).errors = errorLines error := by
  cases error with
  | none => rfl
  | some e =>
    rw [errorLines, Option.toList_some, List.map_singleton, Transcript.errors,
      List.filter_cons_of_pos, List.filter_nil]
    rw [e.not_logged]
    rfl

@[simp] theorem errorLines_on_out (error : Option RuntimeError) :
    (errorLines error).on .out = "" := by
  cases error with
  | none => rfl
  | some e => rfl

/-! ## Runs of sources without errors -/

namespace Session

variable {s s₁ : Session} {source : String} {t t₁ : Transcript}

/-- What is written when a program has ended. -/
theorem finish_written (s : Session) (m : Machine) (error : Option RuntimeError) :
    (s.finish m error).2 = m.output.toList.map (Written.line .out) ++ errorLines error ++
      s.log ("global scope:\n" ++ m.store.chainText Store.globalFrame) := by
  cases error with
  | none =>
    rw [finish_done, errorLines, Option.toList_none, List.map_nil, List.append_nil]
  | some e =>
    rw [finish_raised, errorLines, Option.toList_some, List.map_singleton, List.append_assoc]
    rfl

@[simp] theorem finish_messages (s : Session) (m : Machine) (error : Option RuntimeError) :
    (s.finish m error).1.report.messages =
      s.report.messages ++ error.toList.map RuntimeError.text := by
  cases error with
  | none => exact (List.append_nil _).symm
  | some e => rfl

@[simp] theorem finish_hadError (s : Session) (m : Machine) (error : Option RuntimeError) :
    (s.finish m error).1.report.hadError = s.report.hadError := by
  cases error with
  | none => rfl
  | some e => rfl

@[simp] theorem finish_hadRuntimeError (s : Session) (m : Machine) (error : Option RuntimeError) :
    (s.finish m error).1.report.hadRuntimeError = (s.report.hadRuntimeError || error.isSome) := by
  cases error with
  | none => exact (Bool.or_false _).symm
  | some e => exact (Bool.or_true _).symm

@[simp] theorem finish_machine (s : Session) (m : Machine) (error : Option RuntimeError) :
    (s.finish m error).1.machine = { m with output := #[] } := by
  cases error with
  | none => rfl
  | some e => rfl

@[simp] theorem finish_nextId (s : Session) (m : Machine) (error : Option RuntimeError) :
    (s.finish m error).1.nextId = s.nextId := by
  cases error with
  | none => rfl
  | some e => rfl

@[simp] theorem finish_settings (s : Session) (m : Machine) (error : Option RuntimeError) :
    (s.finish m error).1.settings = s.settings := by
  cases error with
  | none => rfl
  | some e => rfl

theorem conclude_of_ends {o : Outcome Unit} {m : Machine} {error : Option RuntimeError}
    (h : o.ends? = some (m, error)) :
    s.conclude t o = .ended (s.finish m error).1 (t ++ (s.finish m error).2) := by
  cases o with
  | done _ m₁ | raised e m₁ =>
    cases h
    rfl
  | fault reason m₁ => cases h
  | exhausted => cases h

theorem conclude_eq_ended {o : Outcome Unit} (h : s.conclude t o = .ended s₁ t₁) :
    ∃ m error, o.ends? = some (m, error) ∧ s₁ = (s.finish m error).1 ∧
      t₁ = t ++ (s.finish m error).2 := by
  cases o with
  | done _ m =>
    cases h
    exact ⟨m, none, rfl, rfl, rfl⟩
  | raised e m =>
    cases h
    exact ⟨m, some e, rfl, rfl, rfl⟩
  | fault reason m => cases h
  | exhausted => cases h

/-- A source without errors runs its program. -/
theorem run_of_flawless (h : Flawless source) (hclear : s.report.hadError = false) (n : Nat) :
    s.run n source = Session.conclude { s with nextId := (s.programOf source).nextId }
      (s.preparing (scan source).tokens (s.programOf source).stmts
        (Resolution.ofProgram (s.programOf source).stmts).table)
      (executeProgram n (s.programOf source).stmts (s.learnt source)) :=
  run_of_prepare (prepare_of_flawless h hclear) n

end Session

/-- What a run writes if trees are not printed: the lines of the program, the error that ended it,
and the log unless it is switched off. -/
structure Writes (t : Transcript) (verbose : Bool) (lines : Array String)
    (error : Option RuntimeError) : Prop where
  out : t.on .out = String.join (lines.toList.map (· ++ "\n"))
  errors : t.errors = errorLines error
  quiet : verbose = false → t.on .err = (errorLines error).on .err

theorem Session.run_writes {s : Session} (hprint : s.settings.printTree = false)
    (tokens : List Token) (stmts : List Stmt) (table : Distances) (next : Nat) (m : Machine)
    (error : Option RuntimeError) :
    Writes (s.preparing tokens stmts table ++ (Session.finish { s with nextId := next } m error).2)
      s.settings.verbose m.output error := by
  have hsilent : s.treeLines stmts = [] := by
    unfold treeLines
    rw [hprint]
    rfl
  rw [finish_written, preparing, hsilent, List.append_nil]
  refine ⟨by simp, by simp, fun hverbose => ?_⟩
  have hlog : ∀ text, s.log text = [] := fun text => by simp [log, hverbose]
  have hlog' : ∀ text, Session.log { s with nextId := next } text = [] := hlog
  rw [hlog, hlog, hlog, hlog', List.nil_append, List.nil_append, List.nil_append, List.append_nil,
    Transcript.on_append, Transcript.on_err_lines, String.empty_append]

section Ended

variable {s s₁ : Session} {source : String} {n : Nat} {t₁ : Transcript}

/-- What a run of a source without errors leaves, if it comes to its end. -/
theorem Session.run_eq_ended (hsource : Flawless source) (hclear : s.report.hadError = false)
    (hprint : s.settings.printTree = false) (hrun : s.run n source = .ended s₁ t₁) :
    ∃ m error, (executeProgram n (s.programOf source).stmts (s.learnt source)).ends? =
        some (m, error) ∧
      s₁ = (Session.finish { s with nextId := (s.programOf source).nextId } m error).1 ∧
      Writes t₁ s.settings.verbose m.output error := by
  rw [run_of_flawless hsource hclear] at hrun
  obtain ⟨m, error, hends, hsession, rfl⟩ := conclude_eq_ended hrun
  exact ⟨m, error, hends, hsession, Session.run_writes hprint _ _ _ _ m error⟩

/-- What a quiet run of a source without errors leaves. -/
theorem Session.run_quiet (hsource : Flawless source) (hclear : s.report.hadError = false)
    (hprint : s.settings.printTree = false) (hrun : s.run n source = .ended s₁ t₁)
    (hquiet : s₁.report.messages = s.report.messages) :
    ∃ m, executeProgram n (s.programOf source).stmts (s.learnt source) = .done () m ∧
      s₁ = { s with machine := { m with output := #[] }, nextId := (s.programOf source).nextId } ∧
      Writes t₁ s.settings.verbose m.output none := by
  obtain ⟨m, error, hends, hsession, hwrites⟩ := run_eq_ended hsource hclear hprint hrun
  cases error with
  | some e =>
    rw [hsession, finish_messages] at hquiet
    simp at hquiet
  | none =>
    refine ⟨m, ?_, hsession, hwrites⟩
    generalize executeProgram n (s.programOf source).stmts (s.learnt source) = o at hends
    cases o with
    | done _ _ =>
      cases hends
      rfl
    | raised _ _ | fault _ _ => cases hends
    | exhausted => cases hends

/-- A source without errors whose program comes to its end is run to that end. -/
theorem Session.run_of_ends {m : Machine} {error : Option RuntimeError} (hsource : Flawless source)
    (hclear : s.report.hadError = false) (hprint : s.settings.printTree = false)
    (hends : (executeProgram n (s.programOf source).stmts (s.learnt source)).ends? =
      some (m, error)) :
    ∃ t, s.run n source =
        .ended (Session.finish { s with nextId := (s.programOf source).nextId } m error).1 t ∧
      Writes t s.settings.verbose m.output error := by
  rw [run_of_flawless hsource hclear, conclude_of_ends hends]
  exact ⟨_, rfl, Session.run_writes hprint _ _ _ _ m error⟩

end Ended

end LoxLang
