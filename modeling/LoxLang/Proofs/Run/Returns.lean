import Mathlib.Data.List.Chain
import LoxLang.Proofs.Run.Changes
import LoxLang.Proofs.Scope.Returns

/-!
# How a return ends a call

A `return` that is executed ends the statements around it one by one, up to the body of the
innermost call: each of them comes to the same value, and executes nothing more.  Conversely a
statement comes to a value by one of its `return` statements only.

* `Task.returns` — the `return` statements that a task may execute without a call.
* `Task.Returns` — a task that executes statements comes to a `return` with a value.
* `Task.GoesOn` — what a task executes after one of its statements.
* `EndsCall` — a `return` ends the innermost call under way.

Principal results: `executeIn_returns`, `Task.Calls.in_order`, `Task.UnderWay.returned`.
-/

namespace LoxLang

/-! ## Outcomes -/

section

variable {α β : Type} {o : Outcome α} {m₁ : Machine}

/-- What goes on after a value gives a value if both do. -/
theorem Outcome.bind_eq_done {f : α → Machine → Outcome β} {w : β} :
    o.bind f = .done w m₁ ↔ ∃ v m, o = .done v m ∧ f v m = .done w m₁ := by
  cases o <;> simp

theorem Outcome.ending_eq_done {k : Machine → Machine} {v : α} :
    o.ending k = .done v m₁ ↔ ∃ m, o = .done v m ∧ k m = m₁ := by
  cases o <;> simp

end

/-! ## Values come from returns -/

/-- A `return` that may give this value. -/
def Stmt.Gives (v : Value) : Stmt → Prop
  | .ret _ _ none => v = .nil
  | .ret _ _ (some _) => True
  | _ => False

/-- If a value is returned, then by one of these statements. -/
def Outcome.ReturnsBy (returns : List Stmt) (o : Outcome Completion) : Prop :=
  ∀ v m, o = .done (.returned v) m → ∃ s ∈ returns, s.Gives v

namespace Outcome.ReturnsBy

variable {α : Type} {rs rs' : List Stmt} {o : Outcome Completion}

theorem mono (h : o.ReturnsBy rs) (hsub : rs ⊆ rs') : o.ReturnsBy rs' := fun v m heq =>
  let ⟨s, hs, hgives⟩ := h v m heq
  ⟨s, hsub hs, hgives⟩

theorem normal {m : Machine} : (Outcome.done .normal m).ReturnsBy rs := fun _ _ heq => by cases heq

theorem fault {reason : Fault} {m : Machine} : (Outcome.fault reason m).ReturnsBy rs :=
  fun _ _ heq => by cases heq

theorem exhausted : (Outcome.exhausted).ReturnsBy rs := fun _ _ heq => by cases heq

theorem bind {o : Outcome α} {f : α → Machine → Outcome Completion}
    (hf : ∀ v m, o = .done v m → (f v m).ReturnsBy rs) : (o.bind f).ReturnsBy rs := by
  intro v m heq
  obtain ⟨w, m₁, ho, hw⟩ := bind_eq_done.1 heq
  exact hf w m₁ ho v m hw

/-- A statement, and others if it completes normally. -/
theorem andThen {f : Completion → Machine → Outcome Completion} (ho : o.ReturnsBy rs)
    (hnormal : ∀ m, (f .normal m).ReturnsBy rs)
    (hreturned : ∀ v m, f (.returned v) m = .done (.returned v) m) : (o.bind f).ReturnsBy rs := by
  refine bind fun completion m heq => ?_
  cases completion with
  | normal => exact hnormal m
  | returned v =>
    rw [hreturned]
    intro w m₁ hdone
    cases hdone
    exact ho v m heq

theorem ending {k : Machine → Machine} (h : o.ReturnsBy rs) : (o.ending k).ReturnsBy rs := by
  intro v m heq
  obtain ⟨m₁, ho, _⟩ := ending_eq_done.1 heq
  exact h v m₁ ho

end Outcome.ReturnsBy

mutual

/-- **The value of a statement comes from one of its returns.** -/
theorem execute_returns : ∀ (n : Nat) (s : Stmt) (m : Machine), (execute n s m).ReturnsBy s.returns
  | 0, _, _ => .exhausted
  | _ + 1, .malformed, _ => .fault
  | n + 1, .expression _ value, m | n + 1, .print _ value, m
  | n + 1, .declare _ _ (some value), m => by
    rw [execute]
    exact .bind fun _ _ _ => .normal
  | _ + 1, .declare _ _ none, _ | _ + 1, .function _, _ => .normal
  | n + 1, .block _ body, m => by
    rw [execute, Stmt.returns]
    exact executeIn_returns n body _ _ m
  | n + 1, .conditional _ cond thenBranch none, m => by
    rw [execute, Stmt.returns]
    refine .bind fun v m₁ _ => ?_
    split
    · exact execute_returns n thenBranch m₁
    · exact .normal
  | n + 1, .conditional _ cond thenBranch (some elseBranch), m => by
    rw [execute, Stmt.returns]
    refine .bind fun v m₁ _ => ?_
    split
    · exact (execute_returns n thenBranch m₁).mono (List.subset_append_left ..)
    · exact (execute_returns n elseBranch m₁).mono (List.subset_append_right ..)
  | n + 1, .loop _ cond body, m => by
    rw [execute, Stmt.returns]
    exact repeatWhile_returns n cond body m
  | _ + 1, .ret _ _ none, _ => fun v m₁ heq => by
    cases heq
    exact ⟨_, List.mem_singleton_self _, rfl⟩
  | n + 1, .ret _ _ (some value), m => by
    rw [execute]
    exact .bind fun _ _ _ _ _ _ => ⟨_, List.mem_singleton_self _, trivial⟩
  | n + 1, .classDecl _ _ superclass _, m => by
    rw [execute]
    exact .bind fun _ _ _ => .normal

theorem executeIn_returns : ∀ (n : Nat) (body : List Stmt) (b : Bindings Value) (parent : Nat)
    (m : Machine), (executeIn n body b parent m).ReturnsBy (bodyReturns body)
  | 0, _, _, _, _ => .exhausted
  | n + 1, body, b, parent, m => by
    rw [executeIn]
    exact .ending (executeAll_returns n body _)

theorem executeAll_returns : ∀ (n : Nat) (body : List Stmt) (m : Machine),
    (executeAll n body m).ReturnsBy (bodyReturns body)
  | 0, _, _ => .exhausted
  | n + 1, [], m => .normal
  | n + 1, s :: ss, m => by
    rw [executeAll, bodyReturns]
    exact .andThen ((execute_returns n s m).mono (List.subset_append_left ..))
      (fun m₁ => (executeAll_returns n ss m₁).mono (List.subset_append_right ..)) fun _ _ => rfl

theorem repeatWhile_returns : ∀ (n : Nat) (cond : Expr) (body : Stmt) (m : Machine),
    (repeatWhile n cond body m).ReturnsBy body.returns
  | 0, _, _, _ => .exhausted
  | n + 1, cond, body, m => by
    rw [repeatWhile]
    refine .bind fun v m₁ _ => ?_
    split
    · exact .andThen (execute_returns n body m₁) (fun m₂ => repeatWhile_returns n cond body m₂)
        fun _ _ => rfl
    · exact .normal

end

/-- Where no statement returns, everything completes normally. -/
theorem Outcome.ReturnsBy.completes_normally {o : Outcome Completion} (h : o.ReturnsBy [])
    {completion : Completion} {m : Machine} (heq : o = .done completion m) :
    completion = .normal := by
  cases completion with
  | normal => rfl
  | returned v =>
    obtain ⟨_, hmem, _⟩ := h v m heq
    cases hmem

/-- Where no `return` has a value, none is returned. -/
theorem Outcome.ReturnsBy.returns_nothing {rs : List Stmt} {o : Outcome Completion}
    (h : o.ReturnsBy rs) (hbare : ∀ s ∈ rs, s.IsBareReturn) {completion : Completion} {m : Machine}
    (heq : o = .done completion m) : completion = .normal ∨ completion = .returned .nil := by
  cases completion with
  | normal => exact .inl rfl
  | returned v =>
    obtain ⟨s, hs, hgives⟩ := h v m heq
    obtain ⟨id, keyword, rfl⟩ := hbare s hs
    cases hgives
    exact .inr rfl

/-! ## A return on its way -/

namespace Task

/-- What comes out of a task that executes statements. -/
def outcome? : Task → Option (Outcome Completion)
  | .execute n s m => some (LoxLang.execute n s m)
  | .executeIn n body b parent m => some (LoxLang.executeIn n body b parent m)
  | .executeAll n body m => some (LoxLang.executeAll n body m)
  | .repeatWhile n cond s m => some (LoxLang.repeatWhile n cond s m)
  | _ => none

/-- The `return` statements that a task may execute, but not in a call. -/
def returns : Task → List Stmt
  | .program _ stmts _ => bodyReturns stmts
  | .execute _ s _ | .repeatWhile _ _ s _ => s.returns
  | .executeIn _ body _ _ _ | .executeAll _ body _ => bodyReturns body
  | _ => []

/-- A task that executes statements comes to a `return` with this value. -/
def Returns (t : Task) (v : Value) : Prop := ∃ m, t.outcome? = some (.done (.returned v) m)

/-- What a task executes after one of its statements, which has completed normally. -/
inductive GoesOn : Task → Task → Task → Prop where
  | tail {n : Nat} {s : Stmt} {ss : List Stmt} {m m₁ : Machine} :
      LoxLang.execute n s m = .done .normal m₁ →
      GoesOn (.executeAll (n + 1) (s :: ss) m) (.execute n s m) (.executeAll n ss m₁)
  | again {n : Nat} {cond : Expr} {s : Stmt} {m m₁ m₂ : Machine} :
      LoxLang.execute n s m₁ = .done .normal m₂ →
      GoesOn (.repeatWhile (n + 1) cond s m) (.execute n s m₁) (.repeatWhile n cond s m₂)

/-- The last statement that a task executes: it has gone on with this one after all others. -/
def EndsWith (t c : Task) : Prop :=
  t.Calls c ∧ ∀ c', t.Calls c' → c'.outcome?.isSome = true → c' = c ∨ t.GoesOn c' c

section

variable {t c c' : Task} {v : Value}

/-! ### What a task executes -/

/-- What a task executes may return by its own statements only, unless it is a call. -/
theorem Calls.returns_subset (h : t.Calls c) (hc : c.outcome?.isSome = true)
    (ht : ∀ n ref args m, t ≠ .applyClosure n ref args m) : c.returns ⊆ t.returns := by
  cases h with
  | first | head => exact List.subset_append_left ..
  | block | loop | body | loopBody | again => exact List.Subset.refl _
  | tail => exact List.subset_append_right ..
  | @thenBranch _ _ _ _ elseBranch =>
    cases elseBranch with
    | none => exact List.Subset.refl _
    | some _ => exact List.subset_append_left ..
  | elseBranch => exact List.subset_append_right ..
  | routine => exact absurd rfl (ht _ _ _ _)
  | _ => cases hc

/-- Statements are executed by statements, by programs and by calls of functions. -/
theorem Calls.executor (h : t.Calls c) (hc : c.outcome?.isSome = true) :
    t.outcome?.isSome = true ∨ (∃ n stmts m, t = .program n stmts m) ∨
      ∃ n ref args m, t = .applyClosure n ref args m := by
  cases h with
  | first => exact .inr (.inl ⟨_, _, _, rfl⟩)
  | routine => exact .inr (.inr ⟨_, _, _, _, rfl⟩)
  | block | thenBranch | elseBranch | loop | body | head | tail | loopBody | again => exact .inl rfl
  | _ => cases hc

/-- **The statements that a task executes follow each other.** -/
theorem Calls.in_order (h : t.Calls c) (h' : t.Calls c') (hc : c.outcome?.isSome = true)
    (hc' : c'.outcome?.isSome = true) : c' = c ∨ t.GoesOn c' c ∨ t.GoesOn c c' := by
  cases h with
  | first =>
    cases h' with
    | first => exact .inl rfl
    | next => cases hc'
  | block | loop | body =>
    cases h'
    exact .inl rfl
  | thenBranch heq htruthy =>
    cases h' with
    | condition => cases hc'
    | thenBranch heq' =>
      cases heq.symm.trans heq'
      exact .inl rfl
    | elseBranch heq' hfalse =>
      cases heq.symm.trans heq'
      cases htruthy.symm.trans hfalse
  | elseBranch heq hfalse =>
    cases h' with
    | condition => cases hc'
    | thenBranch heq' htruthy =>
      cases heq.symm.trans heq'
      cases htruthy.symm.trans hfalse
    | elseBranch heq' =>
      cases heq.symm.trans heq'
      exact .inl rfl
  | head =>
    cases h' with
    | head => exact .inl rfl
    | tail hnormal => exact .inr (.inr (.tail hnormal))
  | tail hnormal =>
    cases h' with
    | head => exact .inr (.inl (.tail hnormal))
    | tail hnormal' =>
      cases hnormal.symm.trans hnormal'
      exact .inl rfl
  | loopBody heq =>
    cases h' with
    | loopCondition => cases hc'
    | loopBody heq' =>
      cases heq.symm.trans heq'
      exact .inl rfl
    | again heq' _ hnormal =>
      cases heq.symm.trans heq'
      exact .inr (.inr (.again hnormal))
  | again heq _ hnormal =>
    cases h' with
    | loopCondition => cases hc'
    | loopBody heq' =>
      cases heq.symm.trans heq'
      exact .inr (.inl (.again hnormal))
    | again heq' _ hnormal' =>
      cases heq.symm.trans heq'
      cases hnormal.symm.trans hnormal'
      exact .inl rfl
  | routine hr =>
    cases h' with
    | routine hr' =>
      cases hr.symm.trans hr'
      exact .inl rfl
  | _ => cases hc

/-! ### Statements that return -/

theorem Returns.isSome (h : c.Returns v) : c.outcome?.isSome = true := by
  obtain ⟨m, hdone⟩ := h
  rw [hdone]
  rfl

/-- Nothing is executed after a statement that returns. -/
theorem Returns.not_goesOn (h : c.Returns v) : ¬ t.GoesOn c c' := by
  obtain ⟨m, hdone⟩ := h
  rintro (hnormal | hnormal) <;> cases hnormal.symm.trans (Option.some.inj hdone)

/-- A statement that returns is the last one that is executed. -/
theorem Calls.endsWith (h : t.Calls c) (hc : c.Returns v) : t.EndsWith c := by
  refine ⟨h, fun c' h' hc' => ?_⟩
  obtain hsame | hbefore | hafter := h.in_order h' hc.isSome hc'
  · exact .inl hsame
  · exact .inr hbefore
  · exact absurd hafter hc.not_goesOn

/-- **A return is passed on.**  What executes a statement that returns comes to the same value. -/
theorem Calls.returned (h : t.Calls c) (hc : c.Returns v) (ht : t.outcome?.isSome = true) :
    t.Returns v := by
  obtain ⟨m₁, hc⟩ := hc
  cases h with
  | block | loop => exact ⟨m₁, hc⟩
  | thenBranch heq htruthy =>
    refine ⟨m₁, ?_⟩
    rw [outcome?, LoxLang.execute, heq, Outcome.bind_done, if_pos htruthy]
    exact hc
  | elseBranch heq hfalse =>
    refine ⟨m₁, ?_⟩
    rw [outcome?, LoxLang.execute, heq, Outcome.bind_done, hfalse]
    exact hc
  | @body n body bindings parent m =>
    refine ⟨Machine.leaveTo m.frame m₁, ?_⟩
    rw [outcome?, LoxLang.executeIn, Option.some.inj hc, Outcome.ending_done]
  | head =>
    refine ⟨m₁, ?_⟩
    rw [outcome?, LoxLang.executeAll, Option.some.inj hc, Outcome.bind_done]
  | tail hnormal =>
    refine ⟨m₁, ?_⟩
    rw [outcome?, LoxLang.executeAll, hnormal, Outcome.bind_done]
    exact hc
  | loopBody heq htruthy =>
    refine ⟨m₁, ?_⟩
    rw [outcome?, LoxLang.repeatWhile, heq, Outcome.bind_done, if_pos htruthy, Option.some.inj hc,
      Outcome.bind_done]
  | again heq htruthy hnormal =>
    refine ⟨m₁, ?_⟩
    rw [outcome?, LoxLang.repeatWhile, heq, Outcome.bind_done, if_pos htruthy, hnormal,
      Outcome.bind_done]
    exact hc
  | first | routine => cases ht
  | _ => cases hc

/-- What returns a value has a `return` statement. -/
theorem Returns.ne_nil (h : c.Returns v) : c.returns ≠ [] := by
  obtain ⟨m, hdone⟩ := h
  intro hnil
  have hnone : ∀ {rs : List Stmt} {o : Outcome Completion}, o.ReturnsBy rs → rs = [] →
      some o ≠ some (.done (.returned v) m) := by
    rintro rs o ho rfl heq
    cases ho.completes_normally (Option.some.inj heq)
  cases c with
  | execute n s m => exact hnone (execute_returns n s m) hnil hdone
  | executeIn n body b parent m => exact hnone (executeIn_returns n body b parent m) hnil hdone
  | executeAll n body m => exact hnone (executeAll_returns n body m) hnil hdone
  | repeatWhile n cond s m => exact hnone (repeatWhile_returns n cond s m) hnil hdone
  | _ => cases hdone

end

/-! ## The end of a call -/

/-- A `return` statement on top of a stack ends the innermost call on it, a function whose body
holds the statement.  The statements between them all come to its value, and are the last ones
executed. -/
structure EndsCall (s : Stmt) (v : Value) (inner : List Task) (n ref : Nat) (args : List Value)
    (m : Machine) (c : Closure) (m₁ : Machine) : Prop where
  closure : m.store.closures[ref]? = some c
  text : s ∈ bodyReturns c.decl.body
  statements : ∀ t ∈ inner, t.Returns v
  last : (inner ++ [Task.applyClosure (n + 1) ref args m]).IsChain fun c t => t.EndsWith c
  body : LoxLang.executeIn n c.decl.body (.ofList ((c.decl.params.map (·.lexeme)).zip args))
    c.frame m = .done (.returned v) m₁

section

variable {task t : Task} {ts : List Task} {s : Stmt} {v : Value}

/-- The tasks under way are reached. -/
theorem UnderWay.reaches {stack : List Task} (h : task.UnderWay stack) :
    ∀ t ∈ stack, task.Reaches t := by
  induction h with
  | start => exact List.forall_mem_singleton.2 .refl
  | step _ hcalls ih =>
    exact List.forall_mem_cons.2 ⟨(List.forall_mem_cons.1 ih).1.step hcalls, ih⟩

/-- **A return ends the innermost call under way.**  Where a statement of the stack returns a value,
all statements above the innermost call do, and its body. -/
theorem UnderWay.returned (htask : task.outcome? = none)
    (hprogram : ∀ n stmts m, task.Reaches (.program n stmts m) → bodyReturns stmts = [])
    (h : task.UnderWay (t :: ts)) (ht : t.Returns v) (hs : s ∈ t.returns) :
    ∃ inner n ref args m outer c m₁, ts = inner ++ Task.applyClosure (n + 1) ref args m :: outer ∧
      EndsCall s v (t :: inner) n ref args m c m₁ := by
  generalize hstack : t :: ts = stack at h
  induction h generalizing t ts with
  | start =>
    cases hstack
    obtain ⟨m, hdone⟩ := ht
    rw [htask] at hdone
    cases hdone
  | @step t₁ t' ts' hunder hcalls ih =>
    cases hstack
    obtain hexecutes | ⟨n, stmts, m, rfl⟩ | ⟨n, ref, args, m, rfl⟩ := hcalls.executor ht.isSome
    · -- another statement of the same body
      have hsub := hcalls.returns_subset ht.isSome fun n ref args m heq => by
        rw [heq] at hexecutes
        cases hexecutes
      obtain ⟨inner, n, ref, args, m, outer, c, m₁, rfl, hends⟩ :=
        ih (hcalls.returned ht hexecutes) (hsub hs) rfl
      exact ⟨t₁ :: inner, n, ref, args, m, outer, c, m₁, rfl, hends.closure, hends.text,
        List.forall_mem_cons.2 ⟨ht, hends.statements⟩, .cons_cons (hcalls.endsWith ht) hends.last,
        hends.body⟩
    · have hsub := hcalls.returns_subset ht.isSome fun _ _ _ _ heq => by cases heq
      rw [show returns (.program n stmts m) = [] from
        hprogram n stmts m (hunder.reaches _ List.mem_cons_self)] at hsub
      exact absurd (List.subset_nil.1 hsub) ht.ne_nil
    · have hlast := hcalls.endsWith ht
      cases hcalls with
      | @routine n _ _ c _ hc =>
        obtain ⟨m₁, hdone⟩ := id ht
        exact ⟨[], n, ref, args, m, ts', c, m₁, rfl, hc, hs, List.forall_mem_singleton.2 ht,
          .cons_cons hlast (.singleton _), Option.some.inj hdone⟩

end

end Task

end LoxLang
