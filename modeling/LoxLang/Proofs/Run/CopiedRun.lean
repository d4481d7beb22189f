import LoxLang.Proofs.Run.Copies

/-!
# Copies run alike

A program and its copy, run with the same allowance on machines that are copies of each other, come
to the same end: the same value, or the same error, moved with the tokens of the node that raises
it.

`Task.Raises` says which node a runtime error comes from.  The induction is on the allowance;
`CopiedRun K printed B n` holds the statements about all functions that run a program.

Principal results: `copiedRun`, `executeProgram_copies`.
-/

namespace LoxLang

/-! ## Where errors come from -/

/-- Why a value cannot be called with so many arguments. -/
def Machine.refusal? (m : Machine) (callee : Value) (count : Nat) : Option Cause :=
  match m.store.arity? callee with
  | none => some .notCallable
  | some arity =>
    if count ≠ arity then some (.wrongArity arity count)
    else if m.maxDepth ≤ m.depth then some .stackOverflow
    else none

theorem Machine.refusal?_eq_none {m : Machine} {callee : Value} {count : Nat}
    (h : m.refusal? callee count = none) :
    m.store.arity? callee = some count ∧ m.depth < m.maxDepth := by
  unfold refusal? at h
  cases harity : m.store.arity? callee with
  | none => simp [harity] at h
  | some arity =>
    simp only [harity] at h
    split at h
    · cases h
    · rename_i hcount
      split at h
      · cases h
      · exact ⟨congrArg some (Decidable.not_not.1 hcount).symm, by omega⟩

theorem CopyMachine.refusal?_eq {K : Copying} {printed : Array String} {m m' : Machine}
    (h : CopyMachine K printed m m') (callee : Value) (count : Nat) :
    m'.refusal? callee count = m.refusal? callee count := by
  unfold Machine.refusal?
  rw [h.store.arity?_eq, h.depth, h.maxDepth]

/-- A call is refused, or the value is run. -/
theorem call_eq (n : Nat) (callee : Value) (args : List Value) (paren : Token) (m : Machine) :
    call (n + 1) callee args paren m =
      match m.refusal? callee args.length with
      | some cause => m.raise paren cause
      | none => (invoke n callee args m.beginCall).ending Machine.endCall := by
  rw [call]
  unfold Machine.refusal?
  cases m.store.arity? callee with
  | none => rfl
  | some arity =>
    simp only
    split
    · rfl
    · split <;> rfl

/-- A task raises an error at the node with this number. -/
inductive Task.Raises : Task → Nat → RuntimeError → Prop where
  | unary {n id : Nat} {t : Token} {e : Expr} {v : Value} {m m₁ : Machine}
      {error : OperandError} :
      LoxLang.evaluate n e m = .done v m₁ → t.applyUnary? v = some (.error error) →
      Raises (.evaluate (n + 1) (.unary id t e) m) id ⟨t, .operands error⟩
  | binary {n id : Nat} {t : Token} {a b : Expr} {v w : Value} {m m₁ m₂ : Machine}
      {error : OperandError} :
      LoxLang.evaluate n a m = .done v m₁ → LoxLang.evaluate n b m₁ = .done w m₂ →
      t.applyBinary? v w = some (.error error) →
      Raises (.evaluate (n + 1) (.binary id a t b) m) id ⟨t, .operands error⟩
  | var {n id : Nat} {name : Token} {m m₁ : Machine} {error : RuntimeError} :
      m.lookup id name = .raised error m₁ → Raises (.evaluate (n + 1) (.var id name) m) id error
  | assign {n id : Nat} {name : Token} {e : Expr} {v : Value} {m m₁ m₂ : Machine}
      {error : RuntimeError} :
      LoxLang.evaluate n e m = .done v m₁ → m₁.assign id name v = .raised error m₂ →
      Raises (.evaluate (n + 1) (.assign id name e) m) id error
  | call {n id : Nat} {f : Expr} {paren : Token} {args : List Expr} {v : Value}
      {vs : List Value} {m m₁ m₂ : Machine} {cause : Cause} :
      LoxLang.evaluate (n + 1) f m = .done v m₁ →
      LoxLang.evaluateAll (n + 1) args m₁ = .done vs m₂ →
      m₂.refusal? v vs.length = some cause →
      Raises (.evaluate (n + 2) (.call id f paren args) m) id ⟨paren, cause⟩
  | get {n id : Nat} {e : Expr} {name : Token} {v : Value} {m m₁ m₂ : Machine}
      {error : RuntimeError} :
      LoxLang.evaluate n e m = .done v m₁ → m₁.getProperty name v = .raised error m₂ →
      Raises (.evaluate (n + 1) (.get id e name) m) id error
  | set {n id : Nat} {e value : Expr} {name : Token} {v : Value} {m m₁ : Machine} :
      LoxLang.evaluate n e m = .done v m₁ → (∀ ref, v ≠ .object ref) →
      Raises (.evaluate (n + 1) (.set id e name value) m) id ⟨name, .fieldOfNonInstance⟩
  | this {n id : Nat} {keyword : Token} {m m₁ : Machine} {error : RuntimeError} :
      m.lookup id keyword = .raised error m₁ →
      Raises (.evaluate (n + 1) (.this id keyword) m) id error
  | super {n id : Nat} {keyword method : Token} {m m₁ : Machine} {error : RuntimeError} :
      m.superMethod id method = .raised error m₁ →
      Raises (.evaluate (n + 1) (.super id keyword method) m) id error
  | superclass {n id : Nat} {name : Token} {s : Superclass} {methods : List Function}
      {m m₁ : Machine} {error : RuntimeError} :
      m.evalSuperclass (some s) = .raised error m₁ →
      Raises (.execute (n + 1) (.classDecl id name (some s) methods) m) s.id error

/-- Errors that a task raises, itself or in a task that it reaches, are on record in `B`. -/
def Task.Blames (B : Nat → RuntimeError → Prop) (t : Task) : Prop :=
  ∀ t₁ id e, t.Reaches t₁ → t₁.Raises id e → B id e

theorem Task.Blames.calls {B : Nat → RuntimeError → Prop} {t t₁ : Task} (h : t.Blames B)
    (hcalls : t.Calls t₁) : t₁.Blames B :=
  fun t₂ id e hreaches => h t₂ id e (hreaches.head hcalls)

theorem Task.Blames.self {B : Nat → RuntimeError → Prop} {t : Task} (h : t.Blames B) {id : Nat}
    {e : RuntimeError} (hraises : t.Raises id e) : B id e :=
  h t id e .refl hraises

/-! ## Copies of tasks -/

/-- The statements about all functions that run a program. -/
structure CopiedRun (K : Copying) (printed : Array String) (B : Nat → RuntimeError → Prop)
    (n : Nat) : Prop where
  execute : ∀ {m m' : Machine} {s s' : Stmt}, CopyMachine K printed m m' → CopyStmt K s s' →
    (Task.execute n s m).Blames B → CopyOutcome K printed B (execute n s m) (execute n s' m')
  executeIn : ∀ {m m' : Machine} {body body' : List Stmt} (b : Bindings Value) (parent : Nat),
    CopyMachine K printed m m' → CopyBody K body body' →
    (Task.executeIn n body b parent m).Blames B →
    CopyOutcome K printed B (executeIn n body b parent m) (executeIn n body' b parent m')
  executeAll : ∀ {m m' : Machine} {body body' : List Stmt}, CopyMachine K printed m m' →
    CopyBody K body body' → (Task.executeAll n body m).Blames B →
    CopyOutcome K printed B (executeAll n body m) (executeAll n body' m')
  repeatWhile : ∀ {m m' : Machine} {cond cond' : Expr} {s s' : Stmt}, CopyMachine K printed m m' →
    CopyExpr K cond cond' → CopyStmt K s s' → (Task.repeatWhile n cond s m).Blames B →
    CopyOutcome K printed B (repeatWhile n cond s m) (repeatWhile n cond' s' m')
  evaluate : ∀ {m m' : Machine} {e e' : Expr}, CopyMachine K printed m m' → CopyExpr K e e' →
    (Task.evaluate n e m).Blames B → CopyOutcome K printed B (evaluate n e m) (evaluate n e' m')
  evaluateAll : ∀ {m m' : Machine} {es es' : List Expr}, CopyMachine K printed m m' →
    CopyArgs K es es' → (Task.evaluateAll n es m).Blames B →
    CopyOutcome K printed B (evaluateAll n es m) (evaluateAll n es' m')
  call : ∀ {m m' : Machine} {id : Nat} {callee : Value} {args : List Value} {paren : Token},
    CopyMachine K printed m m' →
    (0 < n → ∀ cause, m.refusal? callee args.length = some cause → B id ⟨paren, cause⟩) →
    (Task.call n callee args paren m).Blames B →
    CopyOutcome K printed B (call n callee args paren m)
      (call n callee args (paren.moved (K.shift id)) m')
  invoke : ∀ {m m' : Machine} {callee : Value} {args : List Value}, CopyMachine K printed m m' →
    (Task.invoke n callee args m).Blames B →
    CopyOutcome K printed B (invoke n callee args m) (invoke n callee args m')
  applyClosure : ∀ {m m' : Machine} {ref : Nat} {args : List Value}, CopyMachine K printed m m' →
    (Task.applyClosure n ref args m).Blames B →
    CopyOutcome K printed B (applyClosure n ref args m) (applyClosure n ref args m')

namespace CopiedRun

theorem zero (K : Copying) (printed : Array String) (B : Nat → RuntimeError → Prop) :
    CopiedRun K printed B 0 where
  execute _ _ _ := by simpa only [LoxLang.execute] using .exhausted
  executeIn _ _ _ _ _ := by simpa only [LoxLang.executeIn] using .exhausted
  executeAll _ _ _ := by simpa only [LoxLang.executeAll] using .exhausted
  repeatWhile _ _ _ _ := by simpa only [LoxLang.repeatWhile] using .exhausted
  evaluate _ _ _ := by simpa only [LoxLang.evaluate] using .exhausted
  evaluateAll _ _ _ := by simpa only [LoxLang.evaluateAll] using .exhausted
  call _ _ _ := by simpa only [LoxLang.call] using .exhausted
  invoke _ _ := by simpa only [LoxLang.invoke] using .exhausted
  applyClosure _ _ := by simpa only [LoxLang.applyClosure] using .exhausted

variable {K : Copying} {printed : Array String} {B : Nat → RuntimeError → Prop} {n : Nat}
  {m m' : Machine}

/-! ### Expressions -/

theorem evaluate_succ (ih : CopiedRun K printed B n) {e e' : Expr} (h : CopyMachine K printed m m')
    (he : CopyExpr K e e') (hblames : (Task.evaluate (n + 1) e m).Blames B) :
    CopyOutcome K printed B (LoxLang.evaluate (n + 1) e m) (LoxLang.evaluate (n + 1) e' m') := by
  cases he with
  | literal =>
    simp only [LoxLang.evaluate]
    exact .done h
  | grouping he =>
    simp only [LoxLang.evaluate]
    exact ih.evaluate h he (hblames.calls .grouping)
  | unary he =>
    simp only [LoxLang.evaluate]
    refine (ih.evaluate h he (hblames.calls .operand)).bind fun heq h₁ => ?_
    rw [Token.applyUnary?_congr (Token.moved_kind _ _)]
    exact h₁.applied fun e herror => hblames.self (.unary heq herror)
  | binary hleft hright =>
    simp only [LoxLang.evaluate]
    refine (ih.evaluate h hleft (hblames.calls .left)).bind fun heq h₁ => ?_
    refine (ih.evaluate h₁ hright (hblames.calls (.right heq))).bind fun heq₁ h₂ => ?_
    rw [Token.applyBinary?_congr (Token.moved_kind _ _)]
    exact h₂.applied fun e herror => hblames.self (.binary heq heq₁ herror)
  | @logical _ _ t _ _ _ _ hleft hright =>
    simp only [LoxLang.evaluate]
    refine (ih.evaluate h hleft (hblames.calls .logicalLeft)).bind fun {v _ _} heq h₁ => ?_
    rw [Token.settles_congr (Token.moved_kind _ t)]
    cases hsettles : t.settles v with
    | true => exact .done h₁
    | false => exact ih.evaluate h₁ hright (hblames.calls (.logicalRight heq hsettles))
  | var hid =>
    simp only [LoxLang.evaluate]
    exact h.lookup hid fun _ _ hraised => hblames.self (.var hraised)
  | assign hid he =>
    simp only [LoxLang.evaluate]
    refine (ih.evaluate h he (hblames.calls .assigned)).bind fun heq h₁ => ?_
    exact h₁.assign hid fun _ _ hraised => hblames.self (.assign heq hraised)
  | call hcallee hargs =>
    simp only [LoxLang.evaluate]
    refine (ih.evaluate h hcallee (hblames.calls .callee)).bind fun heq h₁ => ?_
    refine (ih.evaluateAll h₁ hargs (hblames.calls (.arguments heq))).bind fun heq₁ h₂ => ?_
    refine ih.call h₂ (fun hpos cause hrefusal => ?_) (hblames.calls (.call heq heq₁))
    obtain ⟨n, rfl⟩ := Nat.exists_eq_succ_of_ne_zero (Nat.ne_of_gt hpos)
    exact hblames.self (.call heq heq₁ hrefusal)
  | get hobject =>
    simp only [LoxLang.evaluate]
    refine (ih.evaluate h hobject (hblames.calls .object)).bind fun heq h₁ => ?_
    exact h₁.getProperty fun _ _ hraised => hblames.self (.get heq hraised)
  | set hobject hvalue =>
    simp only [LoxLang.evaluate]
    refine (ih.evaluate h hobject (hblames.calls .target)).bind fun {target _ _} heq h₁ => ?_
    cases target with
    | object ref =>
      refine (ih.evaluate h₁ hvalue (hblames.calls (.field heq))).bind fun _ h₂ => ?_
      exact .done (h₂.withStore (h₂.store.setField ref _ _))
    | _ => exact h₁.raise (hblames.self (.set heq fun _ hobject => by cases hobject))
  | this hid =>
    simp only [LoxLang.evaluate]
    exact h.lookup hid fun _ _ hraised => hblames.self (.this hraised)
  | super hid =>
    simp only [LoxLang.evaluate]
    exact h.superMethod hid fun _ _ hraised => hblames.self (.super hraised)

theorem evaluateAll_succ (ih : CopiedRun K printed B n) {es es' : List Expr}
    (h : CopyMachine K printed m m') (hes : CopyArgs K es es')
    (hblames : (Task.evaluateAll (n + 1) es m).Blames B) :
    CopyOutcome K printed B (LoxLang.evaluateAll (n + 1) es m)
      (LoxLang.evaluateAll (n + 1) es' m') := by
  cases hes with
  | nil =>
    simp only [LoxLang.evaluateAll]
    exact .done h
  | cons he hes =>
    simp only [LoxLang.evaluateAll]
    refine (ih.evaluate h he (hblames.calls .firstArgument)).bind fun heq h₁ => ?_
    refine (ih.evaluateAll h₁ hes (hblames.calls (.nextArguments heq))).bind fun _ h₂ => ?_
    exact .done h₂

/-! ### Calls -/

theorem call_succ (ih : CopiedRun K printed B n) {id : Nat} {callee : Value} {args : List Value}
    {paren : Token} (h : CopyMachine K printed m m')
    (hrefusal : 0 < n + 1 → ∀ cause, m.refusal? callee args.length = some cause →
      B id ⟨paren, cause⟩)
    (hblames : (Task.call (n + 1) callee args paren m).Blames B) :
    CopyOutcome K printed B (LoxLang.call (n + 1) callee args paren m)
      (LoxLang.call (n + 1) callee args (paren.moved (K.shift id)) m') := by
  rw [call_eq, call_eq, h.refusal?_eq]
  cases hcause : m.refusal? callee args.length with
  | some cause => exact h.raise (hrefusal (Nat.succ_pos n) cause hcause)
  | none =>
    obtain ⟨harity, hdepth⟩ := Machine.refusal?_eq_none hcause
    exact (ih.invoke h.beginCall (hblames.calls (.invoke harity hdepth))).ending
      fun h₁ => h₁.endCall

theorem invoke_succ (ih : CopiedRun K printed B n) {callee : Value} {args : List Value}
    (h : CopyMachine K printed m m') (hblames : (Task.invoke (n + 1) callee args m).Blames B) :
    CopyOutcome K printed B (LoxLang.invoke (n + 1) callee args m)
      (LoxLang.invoke (n + 1) callee args m') := by
  cases callee with
  | native ref =>
    simp only [LoxLang.invoke, h.store.natives, h.clock]
    cases m.store.natives[ref]? with
    | none => exact .fault h
    | some native =>
      cases native with
      | clock => exact .done h.tick
  | function ref =>
    simp only [LoxLang.invoke]
    exact ih.applyClosure h (hblames.calls .apply)
  | classValue ref =>
    obtain ⟨hinst, hstore⟩ := h.store.addInstance ref
    have h₁ := h.withStore hstore
    have hmethod := h.store.method? ref initializerName
    simp only [LoxLang.invoke, Store.method?_addInstance, hinst]
    cases hinit : m.store.method? ref initializerName with
    | none =>
      rw [hinit] at hmethod
      generalize m'.store.method? ref initializerName = c?' at hmethod
      cases hmethod
      exact .done h₁
    | some init =>
      rw [hinit] at hmethod
      generalize m'.store.method? ref initializerName = c?' at hmethod
      cases hmethod with
      | some hc =>
        obtain ⟨hbound, h₂⟩ := h₁.bindMethod hc (.object (m.store.addInstance ref).1)
        simp only [hbound]
        exact (ih.applyClosure h₂ (hblames.calls (.construct hinit))).bind fun _ h₃ => .done h₃
  | _ =>
    simp only [LoxLang.invoke]
    exact .fault h

theorem applyClosure_succ (ih : CopiedRun K printed B n) {ref : Nat} {args : List Value}
    (h : CopyMachine K printed m m') (hblames : (Task.applyClosure (n + 1) ref args m).Blames B) :
    CopyOutcome K printed B (LoxLang.applyClosure (n + 1) ref args m)
      (LoxLang.applyClosure (n + 1) ref args m') := by
  have hclosure := h.store.closures ref
  simp only [LoxLang.applyClosure]
  cases hc : m.store.closures[ref]? with
  | none =>
    rw [hc] at hclosure
    generalize m'.store.closures[ref]? = c?' at hclosure
    cases hclosure
    exact .fault h
  | some c =>
    rw [hc] at hclosure
    generalize m'.store.closures[ref]? = c?' at hclosure
    cases hclosure with
    | some hcopy =>
      simp only [hcopy.decl.params_lexemes, hcopy.frame, hcopy.isInitializer]
      refine (ih.executeIn _ _ h hcopy.decl.body (hblames.calls (.routine hc))).bind
        fun {completion _ _} _ h₁ => ?_
      cases c.isInitializer with
      | false => exact .done h₁
      | true =>
        simp only [if_true, h₁.store.get_eq]
        split
        · exact .done h₁
        · exact .fault h₁

/-! ### Statements -/

theorem execute_succ (ih : CopiedRun K printed B n) {s s' : Stmt} (h : CopyMachine K printed m m')
    (hs : CopyStmt K s s') (hblames : (Task.execute (n + 1) s m).Blames B) :
    CopyOutcome K printed B (LoxLang.execute (n + 1) s m) (LoxLang.execute (n + 1) s' m') := by
  cases hs with
  | malformed =>
    simp only [LoxLang.execute]
    exact .fault h
  | expression he =>
    simp only [LoxLang.execute]
    exact (ih.evaluate h he (hblames.calls .expression)).bind fun _ h₁ => .done h₁
  | print he =>
    simp only [LoxLang.execute]
    exact (ih.evaluate h he (hblames.calls .print)).bind fun _ h₁ => .done (h₁.print _)
  | declare =>
    simp only [LoxLang.execute]
    exact .done (h.define _ _)
  | declareValue he =>
    simp only [LoxLang.execute]
    exact (ih.evaluate h he (hblames.calls .initial)).bind fun _ h₁ => .done (h₁.define _ _)
  | block hbody =>
    simp only [LoxLang.execute, h.frame]
    exact ih.executeIn _ _ h hbody (hblames.calls .block)
  | ifThen hcond hs =>
    simp only [LoxLang.execute]
    refine (ih.evaluate h hcond (hblames.calls .condition)).bind fun {v _ _} heq h₁ => ?_
    cases htruthy : v.truthy with
    | true => exact ih.execute h₁ hs (hblames.calls (.thenBranch heq htruthy))
    | false => exact .done h₁
  | ifElse hcond hs ht =>
    simp only [LoxLang.execute]
    refine (ih.evaluate h hcond (hblames.calls .condition)).bind fun {v _ _} heq h₁ => ?_
    cases htruthy : v.truthy with
    | true => exact ih.execute h₁ hs (hblames.calls (.thenBranch heq htruthy))
    | false => exact ih.execute h₁ ht (hblames.calls (.elseBranch heq htruthy))
  | loop hcond hs =>
    simp only [LoxLang.execute]
    exact ih.repeatWhile h hcond hs (hblames.calls .loop)
  | function hf =>
    simp only [LoxLang.execute]
    exact .done (h.declareFunction hf)
  | ret =>
    simp only [LoxLang.execute]
    exact .done h
  | retValue he =>
    simp only [LoxLang.execute]
    exact (ih.evaluate h he (hblames.calls .ret)).bind fun _ h₁ => .done h₁
  | classDecl hbase hmethods =>
    simp only [LoxLang.execute]
    refine (h.evalSuperclass hbase fun s hs _ _ hraised => ?_).bind fun {base _ _} _ h₁ => ?_
    · subst hs
      exact hblames.self (.superclass hraised)
    · exact .done (h₁.declareClass rfl base hmethods)

theorem executeIn_succ (ih : CopiedRun K printed B n) {body body' : List Stmt} (b : Bindings Value)
    (parent : Nat) (h : CopyMachine K printed m m') (hbody : CopyBody K body body')
    (hblames : (Task.executeIn (n + 1) body b parent m).Blames B) :
    CopyOutcome K printed B (LoxLang.executeIn (n + 1) body b parent m)
      (LoxLang.executeIn (n + 1) body' b parent m') := by
  simp only [LoxLang.executeIn, h.frame]
  exact (ih.executeAll (h.enter b parent) hbody (hblames.calls .body)).ending
    fun h₁ => h₁.leaveTo m.frame

theorem executeAll_succ (ih : CopiedRun K printed B n) {body body' : List Stmt}
    (h : CopyMachine K printed m m') (hbody : CopyBody K body body')
    (hblames : (Task.executeAll (n + 1) body m).Blames B) :
    CopyOutcome K printed B (LoxLang.executeAll (n + 1) body m)
      (LoxLang.executeAll (n + 1) body' m') := by
  cases hbody with
  | nil =>
    simp only [LoxLang.executeAll]
    exact .done h
  | cons hs hss =>
    simp only [LoxLang.executeAll]
    refine (ih.execute h hs (hblames.calls .head)).bind fun {completion _ _} heq h₁ => ?_
    cases completion with
    | normal => exact ih.executeAll h₁ hss (hblames.calls (.tail heq))
    | returned v => exact .done h₁

theorem repeatWhile_succ (ih : CopiedRun K printed B n) {cond cond' : Expr} {s s' : Stmt}
    (h : CopyMachine K printed m m') (hcond : CopyExpr K cond cond') (hs : CopyStmt K s s')
    (hblames : (Task.repeatWhile (n + 1) cond s m).Blames B) :
    CopyOutcome K printed B (LoxLang.repeatWhile (n + 1) cond s m)
      (LoxLang.repeatWhile (n + 1) cond' s' m') := by
  simp only [LoxLang.repeatWhile]
  refine (ih.evaluate h hcond (hblames.calls .loopCondition)).bind fun {v _ _} heq h₁ => ?_
  cases htruthy : v.truthy with
  | false => exact .done h₁
  | true =>
    refine (ih.execute h₁ hs (hblames.calls (.loopBody heq htruthy))).bind
      fun {completion _ _} heq₁ h₂ => ?_
    cases completion with
    | normal => exact ih.repeatWhile h₂ hcond hs (hblames.calls (.again heq htruthy heq₁))
    | returned v => exact .done h₂

end CopiedRun

/-- **Copies run alike, with every allowance.** -/
theorem copiedRun (K : Copying) (printed : Array String) (B : Nat → RuntimeError → Prop) (n : Nat) :
    CopiedRun K printed B n := by
  induction n with
  | zero => exact .zero K printed B
  | succ n ih =>
    exact ⟨ih.execute_succ, ih.executeIn_succ, ih.executeAll_succ, ih.repeatWhile_succ,
      ih.evaluate_succ, ih.evaluateAll_succ, ih.call_succ, ih.invoke_succ, ih.applyClosure_succ⟩

/-- **A program and its copy come to the same end.** -/
theorem executeProgram_copies {K : Copying} {printed : Array String}
    {B : Nat → RuntimeError → Prop} {n : Nat} : ∀ {stmts stmts' : List Stmt} {m m' : Machine},
    CopyMachine K printed m m' → CopyBody K stmts stmts' → (Task.program n stmts m).Blames B →
    CopyOutcome K printed B (executeProgram n stmts m) (executeProgram n stmts' m')
  | [], _, m, m', h, hbody, _ => by
    cases hbody
    exact .done h
  | s :: ss, _, m, m', h, hbody, hblames => by
    cases hbody with
    | cons hs hss =>
      refine ((copiedRun K printed B n).execute h hs (hblames.calls .first)).bind fun heq h₁ => ?_
      exact executeProgram_copies h₁ hss (hblames.calls (.next heq))

end LoxLang
