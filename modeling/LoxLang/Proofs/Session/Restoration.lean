import LoxLang.Proofs.Run.CallDepth
import LoxLang.Proofs.Session.Agreement

/-!
# What a run leaves behind

Between two runs of a session the current frame is the global one and no call is active, whatever
the runs before came to.  During a run the depth is the count of the calls under way, and it is
never larger than allowed.

Principal results: `Session.run_back`, `History.idle`, `frame_and_depth_are_restored`.
-/

namespace LoxLang

/-- A session that is back where it was, with functions all of whose nodes satisfy `N`. -/
structure Session.Back (N : Node → Prop) (s s₁ : Session) : Prop where
  settings : s₁.settings = s.settings
  frame : s₁.machine.frame = s.machine.frame
  depth : s₁.machine.depth = s.machine.depth
  maxDepth : s₁.machine.maxDepth = s.machine.maxDepth
  code : s₁.machine.store.CodeIs N

/-- The program that a source is prepared as has only nodes that satisfy `N`. -/
def Session.PreparesOnly (s : Session) (N : Node → Prop) (source : String) : Prop :=
  ∀ program s₁ t, s.prepare source = (some program, s₁, t) → ∀ node ∈ walkBody program.stmts, N node

section

variable {N : Node → Prop} {s s₁ : Session} {tasks : List Task} {n : Nat} {source : String}
  {t : Transcript}

theorem Session.prepare_settings (s : Session) (source : String) :
    (s.prepare source).2.1.settings = s.settings := by
  unfold Session.prepare
  simp only
  split
  · rfl
  · split
    · rfl
    · rfl

/-- **A run puts the session back**, and adds only functions of its source. -/
theorem Session.run_back (hcode : s.machine.store.CodeIs N) (hsource : s.PreparesOnly N source)
    (hrun : s.run n source = .ended s₁ t) : s.Back N s₁ := by
  have hkeeps := s.prepare_keeps source
  have hsettings := s.prepare_settings source
  cases hprepare : s.prepare source with
  | mk program? rest =>
    obtain ⟨s₂, t₂⟩ := rest
    rw [hprepare] at hkeeps hsettings
    cases program? with
    | none =>
      rw [Session.run_of_unprepared hprepare] at hrun
      cases hrun
      have hmachine : s₁.machine = s.machine := hkeeps.1
      rw [← hmachine] at hcode
      exact ⟨hsettings, congrArg Machine.frame hmachine, congrArg Machine.depth hmachine,
        congrArg Machine.maxDepth hmachine, hcode⟩
    | some program =>
      have hmachine : s₂.machine = s.machine := hkeeps.1
      rw [Session.run_of_prepare hprepare, hmachine] at hrun
      have hback : ∀ m, (executeProgram n program.stmts
          (s.machine.learn program.table)).machine? = some m →
          (s.machine.learn program.table).Back N m := fun m hm =>
        Task.CodeIs.back (t := .program n program.stmts _)
          ⟨hsource program s₂ t₂ hprepare, hcode⟩ hm
      generalize executeProgram n program.stmts (s.machine.learn program.table) = o at hrun hback
      cases o with
      | done v m | raised e m =>
        cases hrun
        obtain ⟨hframe, hdepth, hmax, _, hcode₁⟩ := hback m rfl
        exact ⟨hsettings, hframe, hdepth, hmax, hcode₁⟩
      | fault reason m => cases hrun
      | exhausted => cases hrun

/-- **Between two runs of a session no call is active.** -/
theorem History.idle (h : History s tasks) :
    s.machine.depth = 0 ∧ s.machine.maxDepth = s.settings.maxDepth := by
  induction h with
  | start settings clock => exact ⟨rfl, rfl⟩
  | @run s s₁ tasks n source t _ hrun ih =>
    have hback := Session.run_back (N := fun _ => True) (fun _ _ _ _ _ => trivial)
      (fun _ _ _ _ _ _ => trivial) hrun
    rw [hback.depth, hback.maxDepth, hback.settings]
    exact ih
  | reset _ ih => exact ih
  | clock _ _ ih => exact ih

/-- **The current frame and the depth are restored, and the depth is bounded.**  A task of any kind
that ends on any machine, with a value, a `return` on its way or an error, leaves the frame and the
depth as they were.  In a run after any history, with tasks `t :: ts` under way, the depth at the
start and at the end of `t` is the count of the calls that passed their checks and have not ended,
which is not larger than allowed, where fewer than none is none.  After the run the frame is the
global one and the depth is zero. -/
theorem frame_and_depth_are_restored (h : History s tasks) (n : Nat) (source : String) :
    (∀ (t : Task) m₁, t.end? = some m₁ →
      m₁.frame = t.machine.frame ∧ m₁.depth = t.machine.depth) ∧
    (∀ task, s.task? n source = some task → ∀ t ts, task.UnderWay (t :: ts) →
      t.machine.depth = ts.countP Task.isAdmitted ∧
      (∀ m₁, t.end? = some m₁ → m₁.depth = ts.countP Task.isAdmitted) ∧
      (t.machine.depth : Int) ≤ max s.settings.maxDepth 0) ∧
    ∀ s₁ transcript, s.run n source = .ended s₁ transcript →
      s₁.machine.frame = Store.globalFrame ∧ s₁.machine.depth = 0 := by
  refine ⟨fun t m₁ hend => ⟨(Task.back hend).frame, (Task.back hend).depth⟩, ?_, ?_⟩
  · intro task htask t ts hunder
    obtain ⟨hzero, hmax⟩ := h.idle
    obtain ⟨program, tokens, hi, _, rfl⟩ := Session.task?_eq_some htask
    have hstart : (program.task n s.machine).machine.depth = 0 := hzero
    have hlimit : (program.task n s.machine).machine.maxDepth = s.settings.maxDepth := hmax
    obtain ⟨hdepth, _, hbound⟩ := hunder.depth
    rw [hstart, Nat.zero_add] at hdepth
    rw [hstart, hlimit] at hbound
    refine ⟨hdepth, fun m₁ hend => (Task.back hend).depth.trans hdepth, hbound ?_⟩
    omega
  · intro s₁ transcript hrun
    have hafter := h.run hrun
    exact ⟨hafter.kept.frame, hafter.idle.1⟩

end

/-! ### A return out of a block -/

/-- The statement `return;` on the first line. -/
def returnStatement : Stmt := .ret 1 ⟨.kwReturn, "return", .nil, 1⟩ none

/-- The function `fun f() { { return; } }`. -/
def returnsFromBlock : Function := ⟨3, nameToken "f", [], [.block 2 [returnStatement]]⟩

def closingParen : Token := ⟨.rightParen, ")", .nil, 1⟩

/-- The expression `f()`. -/
def callOfF : Expr := .call 5 (.var 4 (nameToken "f")) closingParen []

/-- The program `fun f() { { return; } } f();`. -/
def earlyReturn : List Stmt := [.function returnsFromBlock, .expression 6 callOfF]

def earlyReturnSource : String := "fun f() \x7b \x7b return; \x7d \x7d f();"

theorem earlyReturn_task : (Session.start {} 0).task? 20 earlyReturnSource =
    some (.program 20 earlyReturn (learntBy earlyReturn)) :=
  task?_start 20 7 (by cbv) (by cbv) (by cbv)

/-- The machine once the function is declared. -/
def functionDeclared : Machine := (learntBy earlyReturn).declareFunction returnsFromBlock

theorem functionDeclared_callee : evaluate 18 (.var 4 (nameToken "f")) functionDeclared =
    .done (.function 0) functionDeclared := by
  have hglobal : (learntBy earlyReturn).table[4]? = none := by
    rw [learntBy, Machine.learn_table]
    cbv
  have htable : functionDeclared.table[4]? = none := hglobal
  rw [evaluate, Machine.lookup, htable]
  rfl

theorem earlyReturn_done :
    ∃ m, executeProgram 20 earlyReturn (learntBy earlyReturn) = .done () m := by
  have hcall : ∃ v m, evaluate 19 callOfF functionDeclared = .done v m := by
    rw [callOfF, evaluate, functionDeclared_callee]
    exact ⟨_, _, rfl⟩
  obtain ⟨v, m, hcall⟩ := hcall
  have hfirst : execute 20 (.function returnsFromBlock) (learntBy earlyReturn) =
      .done .normal functionDeclared := rfl
  refine ⟨m, ?_⟩
  show executeProgram 20 [.function returnsFromBlock, .expression 6 callOfF] _ = _
  rw [executeProgram, hfirst, Outcome.bind_done, executeProgram, execute, hcall]
  rfl

theorem frame_and_depth_are_restored_after_return :
    (∃ m m₁ ts, Task.UnderWay (.program 20 earlyReturn (learntBy earlyReturn))
        (.execute 10 returnStatement m :: ts) ∧
      execute 10 returnStatement m = .done (.returned .nil) m₁ ∧ ts.countP Task.isAdmitted = 1 ∧
      m.depth = 1 ∧ m₁.depth = 1) ∧
    (∃ m₁, call 18 (.function 0) [] closingParen functionDeclared = .done .nil m₁ ∧
      m₁.frame = functionDeclared.frame ∧ m₁.depth = functionDeclared.depth) ∧
    ∃ s₁ t, (Session.start {} 0).run 20 earlyReturnSource = .ended s₁ t ∧
      s₁.machine.frame = Store.globalFrame ∧ s₁.machine.depth = 0 := by
  obtain ⟨hback, hdepth, hafter⟩ :=
    frame_and_depth_are_restored (.start {} 0) 20 earlyReturnSource
  refine ⟨?_, ?_, ?_⟩
  · have hunder : Task.UnderWay (.program 20 earlyReturn (learntBy earlyReturn)) _ :=
      .step (.step (.step (.step (.step (.step (.step (.step (.step (.step (.step (.step .start
        (.next rfl)) .first) .expression) (.call functionDeclared_callee rfl))
        (.invoke rfl (by decide))) .apply) (.routine rfl)) .body) .head) .block) .body) .head
    obtain ⟨hstart, hend, _⟩ := hdepth _ earlyReturn_task _ _ hunder
    exact ⟨_, _, _, hunder, rfl, rfl, hstart, hend _ rfl⟩
  · exact ⟨_, rfl, hback (.call 18 (.function 0) [] closingParen functionDeclared) _ rfl⟩
  · obtain ⟨m, hdone⟩ := earlyReturn_done
    have hread : Program.read (scan earlyReturnSource).tokens (scan earlyReturnSource).stop 1 =
        ⟨earlyReturn, [], 7⟩ := by cbv
    have hprepare := Session.prepare_of_clean (s := Session.start {} 0) rfl (by cbv) hread rfl
      (by cbv)
    have hrun := Session.run_of_prepare hprepare 20
    have hdone' : executeProgram 20 earlyReturn ((Session.start {} 0).machine.learn
        (Resolution.ofProgram earlyReturn).table) = .done () m := hdone
    rw [hdone'] at hrun
    exact ⟨_, _, hrun, hafter _ _ hrun⟩

end LoxLang
