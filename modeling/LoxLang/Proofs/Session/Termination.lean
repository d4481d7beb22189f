import LoxLang.Proofs.Run.Allowance
import LoxLang.Proofs.Run.Termination
import LoxLang.Proofs.Session.Restoration

/-!
# Sessions without loops

A run always ends if neither its source nor any source before it holds a loop, whatever the limit on
the depth of calls.  Recursion is not restricted in any other way: functions, methods and
initializers may call each other through variables, fields and closures of earlier sources.

Principal results: `loopFree_of_words`, `Session.run_steady`, `loop_free_runs_end`.
-/

namespace LoxLang

open Grammar

/-! ## Sources without loops -/

def Node.isLoop : Node → Bool
  | .stmt (.loop ..) => true
  | _ => false

/-- A source whose trees hold no loop, neither of a `while` nor of a `for`. -/
def LoopFree (source : String) : Prop :=
  ∀ stmts, Derives (scan source).tokens stmts → ∀ node ∈ walkBody stmts, node.isLoop = false

mutual

theorem Expr.walk_isLoop : ∀ (e : Expr), ∀ node ∈ e.walk, node.isLoop = false
  | .literal .. | .var .. | .this .. | .super .. => by
    rw [Expr.walk, List.forall_mem_singleton]
    rfl
  | .grouping _ e | .unary _ _ e | .assign _ _ e | .get _ e _ => by
    rw [Expr.walk, List.forall_mem_cons]
    exact ⟨rfl, e.walk_isLoop⟩
  | .binary _ a _ b | .logical _ a _ b | .set _ a _ b => by
    rw [Expr.walk, List.forall_mem_cons, List.forall_mem_append]
    exact ⟨rfl, a.walk_isLoop, b.walk_isLoop⟩
  | .call _ f _ args => by
    rw [Expr.walk, List.forall_mem_cons, List.forall_mem_append]
    exact ⟨rfl, f.walk_isLoop, walkArgs_isLoop args⟩

theorem walkArgs_isLoop : ∀ (es : List Expr), ∀ node ∈ walkArgs es, node.isLoop = false
  | [] => by
    simp [walkArgs]
  | e :: es => by
    rw [walkArgs, List.forall_mem_append]
    exact ⟨e.walk_isLoop, walkArgs_isLoop es⟩

end

/-- No word among these starts a loop. -/
def Unlooped (ts : List Token) : Prop := ∀ t ∈ ts, t.kind ≠ .kwWhile ∧ t.kind ≠ .kwFor

theorem unlooped_cons {t : Token} {ts : List Token} (h : Unlooped (t :: ts)) : Unlooped ts :=
  fun t' ht' => h t' (List.mem_cons_of_mem _ ht')

theorem unlooped_append {ts us : List Token} (h : Unlooped (ts ++ us)) :
    Unlooped ts ∧ Unlooped us := List.forall_mem_append.1 h

theorem Grammar.Variable.walk_isLoop {ts : List Token} {s : Stmt} {ds : List Diagnostic}
    (h : Variable ts s ds) : ∀ node ∈ s.walk, node.isLoop = false := by
  cases h with
  | plain =>
    rw [Stmt.walk, List.forall_mem_singleton]
    rfl
  | initialized =>
    rw [Stmt.walk, List.forall_mem_cons]
    exact ⟨rfl, Expr.walk_isLoop _⟩

theorem Grammar.ExpressionStmt.walk_isLoop {ts : List Token} {s : Stmt} {ds : List Diagnostic}
    (h : ExpressionStmt ts s ds) : ∀ node ∈ s.walk, node.isLoop = false := by
  cases h
  rw [Stmt.walk, List.forall_mem_cons]
  exact ⟨rfl, Expr.walk_isLoop _⟩

mutual

theorem Grammar.Statement.walk_isLoop : ∀ {dangling : Bool} {ts : List Token} {s : Stmt}
    {ds : List Diagnostic}, Statement dangling ts s ds → Unlooped ts →
    ∀ node ∈ s.walk, node.isLoop = false
  | _, _, _, _, .expression h, _ => h.walk_isLoop
  | _, _, _, _, .print _ _ _, _ => by
    rw [Stmt.walk, List.forall_mem_cons]
    exact ⟨rfl, Expr.walk_isLoop _⟩
  | _, _, _, _, .ret _ hvalue _, _ => by
    cases hvalue with
    | none =>
      rw [Stmt.walk, List.forall_mem_singleton]
      rfl
    | some _ =>
      rw [Stmt.walk, List.forall_mem_cons]
      exact ⟨rfl, Expr.walk_isLoop _⟩
  | _, _, _, _, .loop hkeyword _ _ _ _, hts => absurd hkeyword (hts _ (List.mem_cons_self ..)).1
  | _, _, _, _, .ifThen _ _ _ _ h, hts => by
    have hbranch := unlooped_cons (unlooped_append (unlooped_cons (unlooped_cons hts))).2
    rw [Stmt.walk, List.forall_mem_cons, List.forall_mem_append]
    exact ⟨rfl, Expr.walk_isLoop _, h.walk_isLoop hbranch⟩
  | _, _, _, _, .ifElse _ _ _ _ h _ h', hts => by
    have hbranches := unlooped_append
      (unlooped_cons (unlooped_append (unlooped_cons (unlooped_cons hts))).2)
    rw [Stmt.walk, List.forall_mem_cons, List.forall_mem_append, List.forall_mem_append]
    exact ⟨rfl, ⟨Expr.walk_isLoop _, h.walk_isLoop hbranches.1⟩,
      h'.walk_isLoop (unlooped_cons hbranches.2)⟩
  | _, _, _, _, .forLoop hkeyword _ _ _ _ _ _ _, hts =>
    absurd hkeyword (hts _ (List.mem_cons_self ..)).2
  | _, _, _, _, .block _ h, hts => by
    rw [Stmt.walk, List.forall_mem_cons]
    exact ⟨rfl, h.walk_isLoop (unlooped_cons hts)⟩

theorem Grammar.Declaration.walk_isLoop : ∀ {ts : List Token} {s : Stmt} {ds : List Diagnostic},
    Declaration ts s ds → Unlooped ts → ∀ node ∈ s.walk, node.isLoop = false
  | _, _, _, .classDecl _ _ hclause _ h _, hts => by
    have hrest := unlooped_cons (unlooped_append (unlooped_cons (unlooped_cons hts))).2
    have hmethods := h.walk_isLoop (unlooped_append hrest).1
    cases hclause with
    | none =>
      rw [Stmt.walk, List.forall_mem_cons]
      exact ⟨rfl, hmethods⟩
    | some _ _ =>
      rw [Stmt.walk, List.forall_mem_cons, List.forall_mem_append]
      exact ⟨rfl, Expr.walk_isLoop _, hmethods⟩
  | _, _, _, .function _ h, hts => by
    rw [Stmt.walk]
    exact h.walk_isLoop (unlooped_cons hts)
  | _, _, _, .var _ h, _ => h.walk_isLoop
  | _, _, _, .statement h, hts => h.walk_isLoop hts

theorem Grammar.Declarations.walk_isLoop : ∀ {ts : List Token} {ss : List Stmt}
    {ds : List Diagnostic}, Declarations ts ss ds → Unlooped ts →
    ∀ node ∈ walkBody ss, node.isLoop = false
  | _, _, _, .none, _ => by
    simp [walkBody]
  | _, _, _, .more h h', hts => by
    rw [walkBody, List.forall_mem_append]
    exact ⟨h.walk_isLoop (unlooped_append hts).1, h'.walk_isLoop (unlooped_append hts).2⟩

theorem Grammar.Block.walk_isLoop : ∀ {ts : List Token} {ss : List Stmt} {ds : List Diagnostic},
    Block ts ss ds → Unlooped ts → ∀ node ∈ walkBody ss, node.isLoop = false
  | _, _, _, .closed h _, hts => h.walk_isLoop (unlooped_append hts).1

theorem Grammar.Routine.walk_isLoop : ∀ {ts : List Token} {f : Function} {ds : List Diagnostic},
    Routine ts f ds → Unlooped ts → ∀ node ∈ walkFunction f, node.isLoop = false
  | _, _, _, .mk _ _ _ _ _ h, hts => by
    have hbody := unlooped_cons (unlooped_cons
      (unlooped_append (unlooped_cons (unlooped_cons hts))).2)
    rw [walkFunction, List.forall_mem_cons]
    exact ⟨rfl, h.walk_isLoop hbody⟩

theorem Grammar.Routines.walk_isLoop : ∀ {ts : List Token} {fs : List Function}
    {ds : List Diagnostic}, Routines ts fs ds → Unlooped ts →
    ∀ node ∈ walkMethods fs, node.isLoop = false
  | _, _, _, .none, _ => by
    simp [walkMethods]
  | _, _, _, .more h h', hts => by
    rw [walkMethods, List.forall_mem_append]
    exact ⟨h.walk_isLoop (unlooped_append hts).1, h'.walk_isLoop (unlooped_append hts).2⟩

end

/-- **A source without the words `while` and `for` is free of loops.** -/
theorem loopFree_of_words {source : String} (h : Unlooped (scan source).tokens) :
    LoopFree source :=
  fun _ hderives => hderives.walk_isLoop h

/-- Nodes without loops are calm, for some height. -/
theorem exists_calm (nodes : List Node) (h : ∀ node ∈ nodes, node.isLoop = false) :
    ∃ H, ∀ node ∈ nodes, node.Calm H := by
  induction nodes with
  | nil => exact ⟨0, by simp⟩
  | cons node nodes ih =>
    rw [List.forall_mem_cons] at h
    obtain ⟨H, hcalm⟩ := ih h.2
    have hnode : ∃ H₁, node.Calm H₁ := by
      unfold Node.Calm
      split
      · exact absurd h.1 Bool.noConfusion
      · exact ⟨_, Nat.le_refl _⟩
      · exact ⟨0, trivial⟩
    obtain ⟨H₁, hnode⟩ := hnode
    refine ⟨max H₁ H, List.forall_mem_cons.2 ⟨hnode.mono (by omega), ?_⟩⟩
    exact fun other hmem => (hcalm other hmem).mono (by omega)

/-! ## Sessions -/

/-- A session all of whose sources satisfy `P`. -/
inductive Session.Of (P : String → Prop) : Session → Prop where
  | start (settings : Settings) (clock : Clock) : Of P (.start settings clock)
  | run {s s₁ : Session} {n : Nat} {source : String} {t : Transcript} :
      Of P s → P source → s.run n source = .ended s₁ t → Of P s₁
  | reset {s : Session} : Of P s → Of P s.reset
  | clock {s : Session} (clock : Clock) : Of P s → Of P (s.setClock clock)

theorem Session.Of.history {P : String → Prop} {s : Session} (h : s.Of P) :
    ∃ tasks, History s tasks := by
  induction h with
  | start settings clock => exact ⟨[], .start settings clock⟩
  | run _ _ hrun ih =>
    obtain ⟨tasks, hhistory⟩ := ih
    exact ⟨_, hhistory.run hrun⟩
  | reset _ ih =>
    obtain ⟨tasks, hhistory⟩ := ih
    exact ⟨tasks, hhistory.reset⟩
  | clock c _ ih =>
    obtain ⟨tasks, hhistory⟩ := ih
    exact ⟨tasks, hhistory.clock c⟩

/-- The program of a source without loops is calm. -/
theorem LoopFree.preparesOnly {s : Session} {source : String} (h : LoopFree source) :
    ∃ H, s.PreparesOnly (Node.Calm H) source := by
  cases hprepare : s.prepare source with
  | mk program? rest =>
    obtain ⟨s₂, t₂⟩ := rest
    cases program? with
    | none =>
      refine ⟨0, fun program s₁ t heq => ?_⟩
      rw [hprepare] at heq
      cases heq
    | some program =>
      obtain ⟨_, _, read, hread, hfound, _, rfl⟩ := Session.clean_of_prepare hprepare
      have hderives : Derives (scan source).tokens read.stmts := by
        subst hread
        exact derives_of_read hfound
      obtain ⟨H, hcalm⟩ := exists_calm _ (h _ hderives)
      refine ⟨H, fun program s₁ t heq => ?_⟩
      rw [hprepare] at heq
      cases heq
      exact hcalm

/-- **The functions of a session without loops are calm.** -/
theorem Session.Of.calm {s : Session} (h : s.Of LoopFree) :
    ∃ H, s.machine.store.CodeIs (Node.Calm H) := by
  induction h with
  | start settings clock =>
    refine ⟨0, fun i c hc => ?_⟩
    simp [Session.start, Machine.initial, Store.initial, Store.empty, Store.addNative,
      Store.define] at hc
  | @run s s₁ n source t _ hfree hrun ih =>
    obtain ⟨H, hcalm⟩ := ih
    obtain ⟨H₁, hsource⟩ := LoopFree.preparesOnly (s := s) hfree
    refine ⟨max H H₁, (Session.run_back (hcalm.mono fun _ => ?_) ?_ hrun).code⟩
    · exact Node.Calm.mono (by omega)
    · exact fun program s₂ t₂ heq node hmem =>
        (hsource program s₂ t₂ heq node hmem).mono (by omega)
  | reset _ ih => exact ih
  | clock _ _ ih => exact ih

theorem Session.conclude_eq_exhausted {s : Session} {t : Transcript} {o : Outcome Unit}
    (h : s.conclude t o = .exhausted) : o = .exhausted := by
  cases o with
  | done v m | raised e m | fault reason m => cases h
  | exhausted => rfl

/-- More allowance does not change a run that ended. -/
theorem Session.run_steady {s : Session} {source : String} {n k : Nat} (hle : n ≤ k)
    (h : s.run n source ≠ .exhausted) : s.run k source = s.run n source := by
  cases hprepare : s.prepare source with
  | mk program? rest =>
    obtain ⟨s₁, t⟩ := rest
    cases program? with
    | none =>
      rw [Session.run_of_unprepared hprepare, Session.run_of_unprepared hprepare]
    | some program =>
      rw [Session.run_of_prepare hprepare] at h ⊢
      rw [Session.run_of_prepare hprepare]
      have hstays := executeProgram_steady hle program.stmts (s₁.machine.learn program.table)
      rw [hstays]
      intro hexhausted
      rw [hexhausted] at h
      exact h rfl

/-- **Programs without loops always end.**  On a session all of whose sources are free of loops, with
any limit on the depth of calls, the run of such a source ends: with a large enough allowance it
comes to an end, and with every larger one to the same. -/
theorem loop_free_runs_end {s : Session} (h : s.Of LoopFree) {source : String}
    (hsource : LoopFree source) :
    ∃ s₁ t n, ∀ k, n ≤ k → s.run k source = .ended s₁ t := by
  obtain ⟨tasks, hhistory⟩ := h.history
  obtain ⟨H, hcalm⟩ := h.calm
  obtain ⟨H₁, hnew⟩ := LoopFree.preparesOnly (s := s) hsource
  have hends : ∃ n, s.run n source ≠ .exhausted := by
    cases hprepare : s.prepare source with
    | mk program? rest =>
      obtain ⟨s₁, t⟩ := rest
      cases program? with
      | none =>
        refine ⟨0, ?_⟩
        unfold Session.run
        rw [hprepare]
        rintro ⟨⟩
      | some program =>
        have hmachine := (Session.prepare_eq_some hprepare).2.1
        have hsettles := executeProgram_settles (H := max H H₁) program.stmts
          (s.machine.learn program.table)
          (fun node hmem => (hnew program s₁ t hprepare node hmem).mono (by omega))
          (hcalm.mono fun _ => Node.Calm.mono (by omega)) (Nat.le_refl _)
        refine ⟨bodyHeight program.stmts + (s.machine.learn program.table).reserve (max H H₁), ?_⟩
        rw [Session.run_of_prepare hprepare, hmachine]
        exact fun hexhausted => hsettles (Session.conclude_eq_exhausted hexhausted)
  obtain ⟨n, hne⟩ := hends
  obtain ⟨s₁, t, hended, _⟩ | hexhausted := hhistory.kept.run n source
  · refine ⟨s₁, t, n, fun k hle => ?_⟩
    rw [Session.run_steady hle hne, hended]
  · exact absurd hexhausted hne

/-- An initializer that makes instances of its own class without end. -/
def endlessInstances : String := "class A \x7b init() \x7b A(); \x7d \x7d A();"

theorem loop_free_runs_end_for_instances :
    LoopFree endlessInstances ∧
      ∃ s₁ t n, ∀ k, n ≤ k → (Session.start {} 0).run k endlessInstances = .ended s₁ t := by
  have hwords : ((scan endlessInstances).tokens.all fun t =>
      t.kind ≠ .kwWhile ∧ t.kind ≠ .kwFor) = true := by cbv
  have hfree : LoopFree endlessInstances := by
    refine loopFree_of_words fun t ht => ?_
    exact of_decide_eq_true (List.all_eq_true.1 hwords t ht)
  exact ⟨hfree, loop_free_runs_end (.start {} 0) hfree⟩

end LoxLang
