import LoxLang.Eval

/-!
# More allowance changes nothing

A task that came to an end with some allowance comes to the same end with every larger one.  So
whether a task ends, and how, does not depend on the allowance it was given, as long as that is large
enough.

Principal results: `steady`, `executeProgram_steady`.
-/

namespace LoxLang

/-- An outcome that was reached stays. -/
def Outcome.Stays {α : Type} (o o' : Outcome α) : Prop := o ≠ .exhausted → o' = o

namespace Outcome.Stays

variable {α β : Type} {o o' o'' : Outcome α}

theorem refl (o : Outcome α) : o.Stays o := fun _ => rfl

theorem exhausted (o : Outcome α) : (Outcome.exhausted : Outcome α).Stays o :=
  fun h => absurd rfl h

theorem trans (h : o.Stays o') (h' : o'.Stays o'') : o.Stays o'' := by
  intro hne
  have heq := h hne
  rw [← heq] at hne
  rw [h' hne, heq]

theorem bind {f f' : α → Machine → Outcome β} (h : o.Stays o')
    (hf : ∀ v m, (f v m).Stays (f' v m)) : (o.bind f).Stays (o'.bind f') := by
  intro hne
  have ho : o ≠ .exhausted := by
    rintro rfl
    exact hne rfl
  rw [h ho]
  cases o with
  | done v m => exact hf v m hne
  | raised e m => rfl
  | fault reason m => rfl
  | exhausted => rfl

theorem ending {k : Machine → Machine} (h : o.Stays o') : (o.ending k).Stays (o'.ending k) := by
  intro hne
  have ho : o ≠ .exhausted := by
    rintro rfl
    exact hne rfl
  rw [h ho]

end Outcome.Stays

/-- The statements about all functions that run a program. -/
structure Steady (n : Nat) : Prop where
  execute : ∀ s m, (execute n s m).Stays (execute (n + 1) s m)
  executeIn : ∀ body b parent m,
    (executeIn n body b parent m).Stays (executeIn (n + 1) body b parent m)
  executeAll : ∀ body m, (executeAll n body m).Stays (executeAll (n + 1) body m)
  repeatWhile : ∀ cond s m, (repeatWhile n cond s m).Stays (repeatWhile (n + 1) cond s m)
  evaluate : ∀ e m, (evaluate n e m).Stays (evaluate (n + 1) e m)
  evaluateAll : ∀ es m, (evaluateAll n es m).Stays (evaluateAll (n + 1) es m)
  call : ∀ callee args paren m,
    (call n callee args paren m).Stays (call (n + 1) callee args paren m)
  invoke : ∀ callee args m, (invoke n callee args m).Stays (invoke (n + 1) callee args m)
  applyClosure : ∀ ref args m, (applyClosure n ref args m).Stays (applyClosure (n + 1) ref args m)

namespace Steady

theorem zero : Steady 0 where
  execute _ _ := by simpa only [LoxLang.execute] using .exhausted _
  executeIn _ _ _ _ := by simpa only [LoxLang.executeIn] using .exhausted _
  executeAll _ _ := by simpa only [LoxLang.executeAll] using .exhausted _
  repeatWhile _ _ _ := by simpa only [LoxLang.repeatWhile] using .exhausted _
  evaluate _ _ := by simpa only [LoxLang.evaluate] using .exhausted _
  evaluateAll _ _ := by simpa only [LoxLang.evaluateAll] using .exhausted _
  call _ _ _ _ := by simpa only [LoxLang.call] using .exhausted _
  invoke _ _ _ := by simpa only [LoxLang.invoke] using .exhausted _
  applyClosure _ _ _ := by simpa only [LoxLang.applyClosure] using .exhausted _

variable {n : Nat}

theorem execute_succ (ih : Steady n) (s : Stmt) (m : Machine) :
    (LoxLang.execute (n + 1) s m).Stays (LoxLang.execute (n + 2) s m) := by
  cases s with
  | malformed => simpa only [LoxLang.execute] using .refl _
  | expression id e =>
    simp only [LoxLang.execute]
    exact (ih.evaluate e m).bind fun _ _ => .refl _
  | print id e =>
    simp only [LoxLang.execute]
    exact (ih.evaluate e m).bind fun _ _ => .refl _
  | declare id name value =>
    cases value with
    | none => simpa only [LoxLang.execute] using .refl _
    | some e =>
      simp only [LoxLang.execute]
      exact (ih.evaluate e m).bind fun _ _ => .refl _
  | block id body =>
    simp only [LoxLang.execute]
    exact ih.executeIn body .empty m.frame m
  | conditional id cond thenBranch elseBranch =>
    simp only [LoxLang.execute]
    refine (ih.evaluate cond m).bind fun v m₁ => ?_
    cases v.truthy with
    | true => exact ih.execute thenBranch m₁
    | false =>
      cases elseBranch with
      | none => exact .refl _
      | some branch => exact ih.execute branch m₁
  | loop id cond body =>
    simp only [LoxLang.execute]
    exact ih.repeatWhile cond body m
  | function decl => simpa only [LoxLang.execute] using .refl _
  | ret id keyword value =>
    cases value with
    | none => simpa only [LoxLang.execute] using .refl _
    | some e =>
      simp only [LoxLang.execute]
      exact (ih.evaluate e m).bind fun _ _ => .refl _
  | classDecl id name superclass methods => simpa only [LoxLang.execute] using .refl _

theorem executeIn_succ (ih : Steady n) (body : List Stmt) (b : Bindings Value) (parent : Nat)
    (m : Machine) :
    (LoxLang.executeIn (n + 1) body b parent m).Stays
      (LoxLang.executeIn (n + 2) body b parent m) := by
  simp only [LoxLang.executeIn]
  exact (ih.executeAll body (m.enter b parent)).ending

theorem executeAll_succ (ih : Steady n) (body : List Stmt) (m : Machine) :
    (LoxLang.executeAll (n + 1) body m).Stays (LoxLang.executeAll (n + 2) body m) := by
  cases body with
  | nil => simpa only [LoxLang.executeAll] using .refl _
  | cons s ss =>
    simp only [LoxLang.executeAll]
    refine (ih.execute s m).bind fun completion m₁ => ?_
    cases completion with
    | normal => exact ih.executeAll ss m₁
    | returned v => exact .refl _

theorem repeatWhile_succ (ih : Steady n) (cond : Expr) (s : Stmt) (m : Machine) :
    (LoxLang.repeatWhile (n + 1) cond s m).Stays (LoxLang.repeatWhile (n + 2) cond s m) := by
  simp only [LoxLang.repeatWhile]
  refine (ih.evaluate cond m).bind fun v m₁ => ?_
  cases v.truthy with
  | false => exact .refl _
  | true =>
    refine (ih.execute s m₁).bind fun completion m₂ => ?_
    cases completion with
    | normal => exact ih.repeatWhile cond s m₂
    | returned v => exact .refl _

theorem evaluate_succ (ih : Steady n) (e : Expr) (m : Machine) :
    (LoxLang.evaluate (n + 1) e m).Stays (LoxLang.evaluate (n + 2) e m) := by
  cases e with
  | literal id value => simpa only [LoxLang.evaluate] using .refl _
  | grouping id inner =>
    simp only [LoxLang.evaluate]
    exact ih.evaluate inner m
  | unary id t e =>
    simp only [LoxLang.evaluate]
    exact (ih.evaluate e m).bind fun _ _ => .refl _
  | binary id left t right =>
    simp only [LoxLang.evaluate]
    exact (ih.evaluate left m).bind fun _ m₁ => (ih.evaluate right m₁).bind fun _ _ => .refl _
  | logical id left t right =>
    simp only [LoxLang.evaluate]
    refine (ih.evaluate left m).bind fun a m₁ => ?_
    cases t.settles a with
    | true => exact .refl _
    | false => exact ih.evaluate right m₁
  | var id name => simpa only [LoxLang.evaluate] using .refl _
  | assign id name value =>
    simp only [LoxLang.evaluate]
    exact (ih.evaluate value m).bind fun _ _ => .refl _
  | call id callee paren args =>
    simp only [LoxLang.evaluate]
    exact (ih.evaluate callee m).bind fun f m₁ =>
      (ih.evaluateAll args m₁).bind fun vs m₂ => ih.call f vs paren m₂
  | get id object name =>
    simp only [LoxLang.evaluate]
    exact (ih.evaluate object m).bind fun _ _ => .refl _
  | set id object name value =>
    simp only [LoxLang.evaluate]
    refine (ih.evaluate object m).bind fun target m₁ => ?_
    cases target with
    | object ref => exact (ih.evaluate value m₁).bind fun _ _ => .refl _
    | _ => exact .refl _
  | this id keyword => simpa only [LoxLang.evaluate] using .refl _
  | super id keyword method => simpa only [LoxLang.evaluate] using .refl _

theorem evaluateAll_succ (ih : Steady n) (es : List Expr) (m : Machine) :
    (LoxLang.evaluateAll (n + 1) es m).Stays (LoxLang.evaluateAll (n + 2) es m) := by
  cases es with
  | nil => simpa only [LoxLang.evaluateAll] using .refl _
  | cons e es =>
    simp only [LoxLang.evaluateAll]
    exact (ih.evaluate e m).bind fun _ m₁ => (ih.evaluateAll es m₁).bind fun _ _ => .refl _

theorem call_succ (ih : Steady n) (callee : Value) (args : List Value) (paren : Token)
    (m : Machine) :
    (LoxLang.call (n + 1) callee args paren m).Stays
      (LoxLang.call (n + 2) callee args paren m) := by
  simp only [LoxLang.call]
  cases m.store.arity? callee with
  | none => exact .refl _
  | some arity =>
    by_cases hlength : args.length = arity
    · by_cases hdepth : m.maxDepth ≤ m.depth
      · simpa only [hlength, hdepth, if_true] using .refl _
      · simp only [hlength, hdepth, ne_eq, not_true_eq_false, if_false]
        exact (ih.invoke callee args m.beginCall).ending
    · simpa only [hlength, ne_eq, not_false_eq_true, if_true] using .refl _

theorem invoke_succ (ih : Steady n) (callee : Value) (args : List Value) (m : Machine) :
    (LoxLang.invoke (n + 1) callee args m).Stays (LoxLang.invoke (n + 2) callee args m) := by
  cases callee with
  | function ref =>
    simp only [LoxLang.invoke]
    exact ih.applyClosure ref args m
  | classValue ref =>
    simp only [LoxLang.invoke]
    split
    · exact .refl _
    · exact (ih.applyClosure _ args _).bind fun _ _ => .refl _
  | _ => simpa only [LoxLang.invoke] using .refl _

theorem applyClosure_succ (ih : Steady n) (ref : Nat) (args : List Value) (m : Machine) :
    (LoxLang.applyClosure (n + 1) ref args m).Stays (LoxLang.applyClosure (n + 2) ref args m) := by
  simp only [LoxLang.applyClosure]
  split
  · exact .refl _
  · exact (ih.executeIn _ _ _ m).bind fun _ _ => .refl _

end Steady

/-- **One more step of allowance changes no outcome that was reached.** -/
theorem steady (n : Nat) : Steady n := by
  induction n with
  | zero => exact .zero
  | succ n ih =>
    exact ⟨ih.execute_succ, ih.executeIn_succ, ih.executeAll_succ, ih.repeatWhile_succ,
      ih.evaluate_succ, ih.evaluateAll_succ, ih.call_succ, ih.invoke_succ, ih.applyClosure_succ⟩

theorem executeProgram_stays (n : Nat) : ∀ (stmts : List Stmt) (m : Machine),
    (executeProgram n stmts m).Stays (executeProgram (n + 1) stmts m)
  | [], _ => .refl _
  | s :: ss, m => ((steady n).execute s m).bind fun _ m₁ => executeProgram_stays n ss m₁

/-- **More allowance changes no outcome that a program reached.** -/
theorem executeProgram_steady {n k : Nat} (h : n ≤ k) (stmts : List Stmt) (m : Machine) :
    (executeProgram n stmts m).Stays (executeProgram k stmts m) := by
  induction h with
  | refl => exact .refl _
  | step _ ih => exact ih.trans (executeProgram_stays _ stmts m)

end LoxLang
