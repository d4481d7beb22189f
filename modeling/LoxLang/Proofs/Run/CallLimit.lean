import LoxLang.Eval

/-!
# The limit on the depth of calls

The limit is read in one place only, where a call is about to begin, and there it either lets the
call begin or ends everything with an error.  So two runs that differ in the limit stay the same as
long as the lower limit is not run into.

`Outcome.Loosened M` relates an outcome to what comes of the same task once the limit is raised to
`M`: the same outcome on the same machine but for the limit, or anything at all if the first one ran
into its limit.  The induction is on the allowance; `Loosening M n` holds the statements about all
functions that run a program.

Principal results: `loosening`, `executeProgram_loosened`.
-/

namespace LoxLang

/-- The machine with another limit on the depth of calls. -/
def Machine.limited (m : Machine) (limit : Int) : Machine := { m with maxDepth := limit }

@[simp] theorem Machine.limited_store (m : Machine) (limit : Int) :
    (m.limited limit).store = m.store := rfl

@[simp] theorem Machine.limited_frame (m : Machine) (limit : Int) :
    (m.limited limit).frame = m.frame := rfl

@[simp] theorem Machine.limited_depth (m : Machine) (limit : Int) :
    (m.limited limit).depth = m.depth := rfl

@[simp] theorem Machine.limited_table (m : Machine) (limit : Int) :
    (m.limited limit).table = m.table := rfl

@[simp] theorem Machine.limited_maxDepth (m : Machine) (limit : Int) :
    (m.limited limit).maxDepth = limit := rfl

/-- The second outcome is the first one with the limit `M`, unless the first one is an overflow. -/
inductive Outcome.Loosened (M : Int) {α : Type} : Outcome α → Outcome α → Prop where
  | done {v : α} {m : Machine} : m.maxDepth ≤ M → Loosened M (.done v m) (.done v (m.limited M))
  | raised {e : RuntimeError} {m : Machine} :
      m.maxDepth ≤ M → Loosened M (.raised e m) (.raised e (m.limited M))
  | fault {reason : Fault} {m : Machine} :
      m.maxDepth ≤ M → Loosened M (.fault reason m) (.fault reason (m.limited M))
  | exhausted : Loosened M .exhausted .exhausted
  | overflow {paren : Token} {m : Machine} {o : Outcome α} :
      Loosened M (.raised ⟨paren, .stackOverflow⟩ m) o

section

variable {α β : Type} {M : Int} {m : Machine}

namespace Outcome.Loosened

variable {o o' : Outcome α}

theorem bind {f f' : α → Machine → Outcome β} (h : Loosened M o o')
    (hf : ∀ v m, m.maxDepth ≤ M → Loosened M (f v m) (f' v (m.limited M))) :
    Loosened M (o.bind f) (o'.bind f') := by
  cases h with
  | done hle => exact hf _ _ hle
  | raised hle => exact .raised hle
  | fault hle => exact .fault hle
  | exhausted => exact .exhausted
  | overflow => exact .overflow

theorem ending {k : Machine → Machine} (h : Loosened M o o')
    (hk : ∀ m, (k m).maxDepth = m.maxDepth ∧ (k m).limited M = k (m.limited M)) :
    Loosened M (o.ending k) (o'.ending k) := by
  have hend : ∀ m : Machine, m.maxDepth ≤ M → (k m).maxDepth ≤ M := by
    intro m hle
    rw [(hk m).1]
    exact hle
  cases h with
  | done hle =>
    rw [ending_done, ending_done, ← (hk _).2]
    exact .done (hend _ hle)
  | raised hle =>
    rw [ending_raised, ending_raised, ← (hk _).2]
    exact .raised (hend _ hle)
  | fault hle =>
    rw [ending_fault, ending_fault, ← (hk _).2]
    exact .fault (hend _ hle)
  | exhausted => exact .exhausted
  | overflow => exact .overflow

end Outcome.Loosened

/-! ## Operations of the machine -/

namespace Machine

theorem applied_loosened (h : m.maxDepth ≤ M) (operator : Token)
    (result : Option (Except OperandError Value)) :
    Outcome.Loosened M (m.applied operator result) ((m.limited M).applied operator result) :=
  match result with
  | some (.ok _) => .done h
  | some (.error _) => .raised h
  | none => .fault h

theorem lookup_loosened (h : m.maxDepth ≤ M) (id : Nat) (name : Token) :
    Outcome.Loosened M (m.lookup id name) ((m.limited M).lookup id name) := by
  unfold lookup limited
  simp only
  split
  · split
    · exact .done h
    · exact .fault h
    · exact .raised h
  · split
    · exact .done h
    · exact .raised h

theorem assignIn_loosened (h : m.maxDepth ≤ M) (frame : Nat) (name : Token) (value : Value) :
    Outcome.Loosened M (m.assignIn frame name value) ((m.limited M).assignIn frame name value) := by
  unfold assignIn limited
  simp only
  split
  · exact .done h
  · exact .raised h

theorem assign_loosened (h : m.maxDepth ≤ M) (id : Nat) (name : Token) (value : Value) :
    Outcome.Loosened M (m.assign id name value) ((m.limited M).assign id name value) := by
  unfold assign
  simp only [limited_table, limited_store, limited_frame]
  split
  · split
    · exact .fault h
    · exact assignIn_loosened h _ name value
  · exact assignIn_loosened h _ name value

theorem getProperty_loosened (h : m.maxDepth ≤ M) (name : Token) (v : Value) :
    Outcome.Loosened M (m.getProperty name v) ((m.limited M).getProperty name v) := by
  unfold getProperty limited
  simp only
  split
  · split
    · exact .done h
    · exact .done h
    · exact .raised h
  · exact .raised h

theorem superMethod_loosened (h : m.maxDepth ≤ M) (id : Nat) (method : Token) :
    Outcome.Loosened M (m.superMethod id method) ((m.limited M).superMethod id method) := by
  unfold superMethod limited
  simp only
  split
  · exact .fault h
  · split
    · exact .fault h
    · split
      · exact .fault h
      · split
        · split
          · exact .done h
          · exact .raised h
        · exact .fault h

theorem evalSuperclass_loosened (h : m.maxDepth ≤ M) (superclass : Option Superclass) :
    Outcome.Loosened M (m.evalSuperclass superclass) ((m.limited M).evalSuperclass superclass) := by
  cases superclass with
  | none => exact .done h
  | some s =>
    refine (lookup_loosened h s.id s.name).bind fun value m₁ hle => ?_
    cases value with
    | classValue ref => exact .done hle
    | _ => exact .raised hle

theorem declareClass_maxDepth (m : Machine) (name : Token) (base : Option Nat)
    (methods : List Function) : (m.declareClass name base methods).maxDepth = m.maxDepth := by
  cases base with
  | none => rfl
  | some ref => rfl

theorem limited_declareClass (m : Machine) (name : Token) (base : Option Nat)
    (methods : List Function) :
    (m.declareClass name base methods).limited M = (m.limited M).declareClass name base methods := by
  cases base with
  | none => rfl
  | some ref => rfl

end Machine

/-! ## Tasks -/

/-- The statements about all functions that run a program. -/
structure Loosening (M : Int) (n : Nat) : Prop where
  execute : ∀ s (m : Machine), m.maxDepth ≤ M →
    Outcome.Loosened M (execute n s m) (execute n s (m.limited M))
  executeIn : ∀ body b parent (m : Machine), m.maxDepth ≤ M →
    Outcome.Loosened M (executeIn n body b parent m) (executeIn n body b parent (m.limited M))
  executeAll : ∀ body (m : Machine), m.maxDepth ≤ M →
    Outcome.Loosened M (executeAll n body m) (executeAll n body (m.limited M))
  repeatWhile : ∀ cond s (m : Machine), m.maxDepth ≤ M →
    Outcome.Loosened M (repeatWhile n cond s m) (repeatWhile n cond s (m.limited M))
  evaluate : ∀ e (m : Machine), m.maxDepth ≤ M →
    Outcome.Loosened M (evaluate n e m) (evaluate n e (m.limited M))
  evaluateAll : ∀ es (m : Machine), m.maxDepth ≤ M →
    Outcome.Loosened M (evaluateAll n es m) (evaluateAll n es (m.limited M))
  call : ∀ callee args paren (m : Machine), m.maxDepth ≤ M →
    Outcome.Loosened M (call n callee args paren m) (call n callee args paren (m.limited M))
  invoke : ∀ callee args (m : Machine), m.maxDepth ≤ M →
    Outcome.Loosened M (invoke n callee args m) (invoke n callee args (m.limited M))
  applyClosure : ∀ ref args (m : Machine), m.maxDepth ≤ M →
    Outcome.Loosened M (applyClosure n ref args m) (applyClosure n ref args (m.limited M))

namespace Loosening

theorem zero (M : Int) : Loosening M 0 where
  execute _ _ _ := by simpa only [LoxLang.execute] using .exhausted
  executeIn _ _ _ _ _ := by simpa only [LoxLang.executeIn] using .exhausted
  executeAll _ _ _ := by simpa only [LoxLang.executeAll] using .exhausted
  repeatWhile _ _ _ _ := by simpa only [LoxLang.repeatWhile] using .exhausted
  evaluate _ _ _ := by simpa only [LoxLang.evaluate] using .exhausted
  evaluateAll _ _ _ := by simpa only [LoxLang.evaluateAll] using .exhausted
  call _ _ _ _ _ := by simpa only [LoxLang.call] using .exhausted
  invoke _ _ _ _ := by simpa only [LoxLang.invoke] using .exhausted
  applyClosure _ _ _ _ := by simpa only [LoxLang.applyClosure] using .exhausted

variable {n : Nat}

theorem execute_succ (ih : Loosening M n) (s : Stmt) (m : Machine) (h : m.maxDepth ≤ M) :
    Outcome.Loosened M (LoxLang.execute (n + 1) s m)
      (LoxLang.execute (n + 1) s (m.limited M)) := by
  cases s with
  | malformed =>
    simp only [LoxLang.execute]
    exact .fault h
  | expression id e =>
    simp only [LoxLang.execute]
    exact (ih.evaluate e m h).bind fun v m₁ hle => .done hle
  | print id e =>
    simp only [LoxLang.execute]
    exact (ih.evaluate e m h).bind fun v m₁ hle => .done (m := m₁.print v) hle
  | declare id name value =>
    cases value with
    | none =>
      simp only [LoxLang.execute]
      exact .done (m := m.define name.lexeme .nil) h
    | some e =>
      simp only [LoxLang.execute]
      exact (ih.evaluate e m h).bind fun v m₁ hle => .done (m := m₁.define name.lexeme v) hle
  | block id body =>
    simp only [LoxLang.execute]
    exact ih.executeIn body .empty m.frame m h
  | conditional id cond thenBranch elseBranch =>
    simp only [LoxLang.execute]
    refine (ih.evaluate cond m h).bind fun v m₁ hle => ?_
    cases v.truthy with
    | true => exact ih.execute thenBranch m₁ hle
    | false =>
      cases elseBranch with
      | none => exact .done hle
      | some branch => exact ih.execute branch m₁ hle
  | loop id cond body =>
    simp only [LoxLang.execute]
    exact ih.repeatWhile cond body m h
  | function decl =>
    simp only [LoxLang.execute]
    exact .done (m := m.declareFunction decl) h
  | ret id keyword value =>
    cases value with
    | none =>
      simp only [LoxLang.execute]
      exact .done h
    | some e =>
      simp only [LoxLang.execute]
      exact (ih.evaluate e m h).bind fun v m₁ hle => .done hle
  | classDecl id name superclass methods =>
    simp only [LoxLang.execute]
    refine (Machine.evalSuperclass_loosened h superclass).bind fun base m₁ hle => ?_
    rw [← Machine.limited_declareClass]
    apply Outcome.Loosened.done
    rw [Machine.declareClass_maxDepth]
    exact hle

theorem executeIn_succ (ih : Loosening M n) (body : List Stmt) (b : Bindings Value) (parent : Nat)
    (m : Machine) (h : m.maxDepth ≤ M) :
    Outcome.Loosened M (LoxLang.executeIn (n + 1) body b parent m)
      (LoxLang.executeIn (n + 1) body b parent (m.limited M)) := by
  simp only [LoxLang.executeIn]
  exact (ih.executeAll body (m.enter b parent) h).ending fun _ => ⟨rfl, rfl⟩

theorem executeAll_succ (ih : Loosening M n) (body : List Stmt) (m : Machine)
    (h : m.maxDepth ≤ M) :
    Outcome.Loosened M (LoxLang.executeAll (n + 1) body m)
      (LoxLang.executeAll (n + 1) body (m.limited M)) := by
  cases body with
  | nil =>
    simp only [LoxLang.executeAll]
    exact .done h
  | cons s ss =>
    simp only [LoxLang.executeAll]
    refine (ih.execute s m h).bind fun completion m₁ hle => ?_
    cases completion with
    | normal => exact ih.executeAll ss m₁ hle
    | returned v => exact .done hle

theorem repeatWhile_succ (ih : Loosening M n) (cond : Expr) (s : Stmt) (m : Machine)
    (h : m.maxDepth ≤ M) :
    Outcome.Loosened M (LoxLang.repeatWhile (n + 1) cond s m)
      (LoxLang.repeatWhile (n + 1) cond s (m.limited M)) := by
  simp only [LoxLang.repeatWhile]
  refine (ih.evaluate cond m h).bind fun v m₁ hle => ?_
  cases v.truthy with
  | false => exact .done hle
  | true =>
    refine (ih.execute s m₁ hle).bind fun completion m₂ hle₂ => ?_
    cases completion with
    | normal => exact ih.repeatWhile cond s m₂ hle₂
    | returned v => exact .done hle₂

theorem evaluate_succ (ih : Loosening M n) (e : Expr) (m : Machine) (h : m.maxDepth ≤ M) :
    Outcome.Loosened M (LoxLang.evaluate (n + 1) e m)
      (LoxLang.evaluate (n + 1) e (m.limited M)) := by
  cases e with
  | literal id value =>
    simp only [LoxLang.evaluate]
    exact .done h
  | grouping id inner =>
    simp only [LoxLang.evaluate]
    exact ih.evaluate inner m h
  | unary id t e =>
    simp only [LoxLang.evaluate]
    exact (ih.evaluate e m h).bind fun v m₁ hle => Machine.applied_loosened hle t _
  | binary id left t right =>
    simp only [LoxLang.evaluate]
    refine (ih.evaluate left m h).bind fun a m₁ hle => ?_
    exact (ih.evaluate right m₁ hle).bind fun b m₂ hle₂ => Machine.applied_loosened hle₂ t _
  | logical id left t right =>
    simp only [LoxLang.evaluate]
    refine (ih.evaluate left m h).bind fun a m₁ hle => ?_
    cases t.settles a with
    | true => exact .done hle
    | false => exact ih.evaluate right m₁ hle
  | var id name =>
    simp only [LoxLang.evaluate]
    exact Machine.lookup_loosened h id name
  | assign id name value =>
    simp only [LoxLang.evaluate]
    exact (ih.evaluate value m h).bind fun v m₁ hle => Machine.assign_loosened hle id name v
  | call id callee paren args =>
    simp only [LoxLang.evaluate]
    refine (ih.evaluate callee m h).bind fun f m₁ hle => ?_
    exact (ih.evaluateAll args m₁ hle).bind fun vs m₂ hle₂ => ih.call f vs paren m₂ hle₂
  | get id object name =>
    simp only [LoxLang.evaluate]
    exact (ih.evaluate object m h).bind fun v m₁ hle => Machine.getProperty_loosened hle name v
  | set id object name value =>
    simp only [LoxLang.evaluate]
    refine (ih.evaluate object m h).bind fun target m₁ hle => ?_
    cases target with
    | object ref =>
      refine (ih.evaluate value m₁ hle).bind fun v m₂ hle₂ => ?_
      exact .done (m := { m₂ with store := m₂.store.setField ref name.lexeme v }) hle₂
    | _ => exact .raised hle
  | this id keyword =>
    simp only [LoxLang.evaluate]
    exact Machine.lookup_loosened h id keyword
  | super id keyword method =>
    simp only [LoxLang.evaluate]
    exact Machine.superMethod_loosened h id method

theorem evaluateAll_succ (ih : Loosening M n) (es : List Expr) (m : Machine)
    (h : m.maxDepth ≤ M) :
    Outcome.Loosened M (LoxLang.evaluateAll (n + 1) es m)
      (LoxLang.evaluateAll (n + 1) es (m.limited M)) := by
  cases es with
  | nil =>
    simp only [LoxLang.evaluateAll]
    exact .done h
  | cons e es =>
    simp only [LoxLang.evaluateAll]
    refine (ih.evaluate e m h).bind fun v m₁ hle => ?_
    exact (ih.evaluateAll es m₁ hle).bind fun vs m₂ hle₂ => .done hle₂

/-- The one place where the limit counts: below the lower limit the call begins under both. -/
theorem call_succ (ih : Loosening M n) (callee : Value) (args : List Value) (paren : Token)
    (m : Machine) (h : m.maxDepth ≤ M) :
    Outcome.Loosened M (LoxLang.call (n + 1) callee args paren m)
      (LoxLang.call (n + 1) callee args paren (m.limited M)) := by
  simp only [LoxLang.call, Machine.limited_store]
  split
  · exact .raised h
  · split
    · exact .raised h
    · by_cases hreached : m.maxDepth ≤ m.depth
      · rw [if_pos hreached]
        exact .overflow
      · have hfree : ¬ (m.limited M).maxDepth ≤ (m.limited M).depth := by
          simp only [Machine.limited_maxDepth, Machine.limited_depth]
          omega
        rw [if_neg hreached, if_neg hfree]
        exact (ih.invoke callee args m.beginCall h).ending fun _ => ⟨rfl, rfl⟩

theorem invoke_succ (ih : Loosening M n) (callee : Value) (args : List Value) (m : Machine)
    (h : m.maxDepth ≤ M) :
    Outcome.Loosened M (LoxLang.invoke (n + 1) callee args m)
      (LoxLang.invoke (n + 1) callee args (m.limited M)) := by
  cases callee with
  | native ref =>
    simp only [LoxLang.invoke, Machine.limited_store]
    split
    · exact .done h
    · exact .fault h
  | function ref =>
    simp only [LoxLang.invoke]
    exact ih.applyClosure ref args m h
  | classValue ref =>
    simp only [LoxLang.invoke, Machine.limited_store]
    split
    · exact .done (m := { m with store := (m.store.addInstance ref).2 }) h
    · rename_i init hinit
      refine (ih.applyClosure _ args ({ m with store := (m.store.addInstance ref).2 }.bindMethod init
        (.object (m.store.addInstance ref).1)).2 h).bind ?_
      exact fun v m₁ hle => .done hle
  | _ =>
    simp only [LoxLang.invoke]
    exact .fault h

theorem applyClosure_succ (ih : Loosening M n) (ref : Nat) (args : List Value) (m : Machine)
    (h : m.maxDepth ≤ M) :
    Outcome.Loosened M (LoxLang.applyClosure (n + 1) ref args m)
      (LoxLang.applyClosure (n + 1) ref args (m.limited M)) := by
  simp only [LoxLang.applyClosure, Machine.limited_store]
  split
  · exact .fault h
  · rename_i c hc
    refine (ih.executeIn c.decl.body _ c.frame m h).bind fun completion m₁ hle => ?_
    simp only [Machine.limited_store]
    split
    · split
      · exact .done hle
      · exact .fault hle
    · exact .done hle

end Loosening

/-- **A task that does not run into the limit does the same under a higher one.** -/
theorem loosening (M : Int) (n : Nat) : Loosening M n := by
  induction n with
  | zero => exact .zero M
  | succ n ih =>
    exact ⟨ih.execute_succ, ih.executeIn_succ, ih.executeAll_succ, ih.repeatWhile_succ,
      ih.evaluate_succ, ih.evaluateAll_succ, ih.call_succ, ih.invoke_succ, ih.applyClosure_succ⟩

theorem executeProgram_loosened (n : Nat) : ∀ (stmts : List Stmt) (m : Machine), m.maxDepth ≤ M →
    Outcome.Loosened M (executeProgram n stmts m) (executeProgram n stmts (m.limited M))
  | [], _, h => .done h
  | s :: ss, m, h => ((loosening M n).execute s m h).bind fun _ m₁ hle =>
      executeProgram_loosened n ss m₁ hle

end

end LoxLang
