import LoxLang.Proofs.Run.CopiedRun
import LoxLang.Proofs.Run.PaddedMachines

/-!
# Blank frames change nothing

The same code, run with the same allowance on machines whose chains of frames differ by blank ones,
comes to the same end, if its references lead to the same places.

The induction is on the allowance; `PadRun n` holds the statements about all functions that run a
program.

Principal results: `padRun`.
-/

namespace LoxLang

/-- A completion whose value, if it has one, means the same in both stores. -/
def PadCompletion (T T' : Distances) (W : PadWorld) : Completion → Prop
  | .normal => True
  | .returned v => PadValue T T' W v

/-- Arguments that mean the same in both stores. -/
def PadValues (T T' : Distances) (W : PadWorld) (vs : List Value) : Prop :=
  ∀ v ∈ vs, PadValue T T' W v

/-- The statements about all functions that run a program. -/
structure PadRun (T T' : Distances) (n : Nat) : Prop where
  execute : ∀ {P : FramePairs} {pads : List Pad} {m m' : Machine} {s s' : Stmt},
    PadMachines.At T T' P pads m m' → PadStmt T T' pads s s' →
    PadOutcome T T' ⟨P, m.store, m'.store⟩ m.frame m'.frame (PadCompletion T T') (execute n s m)
      (execute n s' m')
  executeIn : ∀ {P : FramePairs} {pads : List Pad} {m m' : Machine} {body body' : List Stmt}
    {b : Bindings Value} {p p' : Nat}, PadMachines T T' P m m' →
    PadChain ⟨P, m.store, m'.store⟩ pads p p' →
    (∀ name v, b.find? name = some v → PadValue T T' ⟨P, m.store, m'.store⟩ v) →
    PadBody T T' (.both :: pads) body body' →
    PadOutcome T T' ⟨P, m.store, m'.store⟩ m.frame m'.frame (PadCompletion T T')
      (executeIn n body b p m) (executeIn n body' b p' m')
  executeAll : ∀ {P : FramePairs} {pads : List Pad} {m m' : Machine} {body body' : List Stmt},
    PadMachines.At T T' P pads m m' → PadBody T T' pads body body' →
    PadOutcome T T' ⟨P, m.store, m'.store⟩ m.frame m'.frame (PadCompletion T T')
      (executeAll n body m) (executeAll n body' m')
  repeatWhile : ∀ {P : FramePairs} {pads : List Pad} {m m' : Machine} {cond cond' : Expr}
    {s s' : Stmt}, PadMachines.At T T' P pads m m' → PadExpr T T' pads cond cond' →
    PadStmt T T' pads s s' →
    PadOutcome T T' ⟨P, m.store, m'.store⟩ m.frame m'.frame (PadCompletion T T')
      (repeatWhile n cond s m) (repeatWhile n cond' s' m')
  evaluate : ∀ {P : FramePairs} {pads : List Pad} {m m' : Machine} {e e' : Expr},
    PadMachines.At T T' P pads m m' → PadExpr T T' pads e e' →
    PadOutcome T T' ⟨P, m.store, m'.store⟩ m.frame m'.frame (PadValue T T') (evaluate n e m)
      (evaluate n e' m')
  evaluateAll : ∀ {P : FramePairs} {pads : List Pad} {m m' : Machine} {es es' : List Expr},
    PadMachines.At T T' P pads m m' → PadArgs T T' pads es es' →
    PadOutcome T T' ⟨P, m.store, m'.store⟩ m.frame m'.frame (PadValues T T') (evaluateAll n es m)
      (evaluateAll n es' m')
  call : ∀ {P : FramePairs} {m m' : Machine} {callee : Value} {args : List Value} (paren : Token),
    PadMachines T T' P m m' → PadValue T T' ⟨P, m.store, m'.store⟩ callee →
    PadValues T T' ⟨P, m.store, m'.store⟩ args →
    PadOutcome T T' ⟨P, m.store, m'.store⟩ m.frame m'.frame (PadValue T T')
      (call n callee args paren m) (call n callee args paren m')
  invoke : ∀ {P : FramePairs} {m m' : Machine} {callee : Value} {args : List Value},
    PadMachines T T' P m m' → PadValue T T' ⟨P, m.store, m'.store⟩ callee →
    PadValues T T' ⟨P, m.store, m'.store⟩ args →
    PadOutcome T T' ⟨P, m.store, m'.store⟩ m.frame m'.frame (PadValue T T')
      (invoke n callee args m) (invoke n callee args m')
  applyClosure : ∀ {P : FramePairs} {m m' : Machine} {ref : Nat} {args : List Value},
    PadMachines T T' P m m' → PadWorld.Has T T' ⟨P, m.store, m'.store⟩ [] ref →
    PadValues T T' ⟨P, m.store, m'.store⟩ args →
    PadOutcome T T' ⟨P, m.store, m'.store⟩ m.frame m'.frame (PadValue T T')
      (applyClosure n ref args m) (applyClosure n ref args m')

section

variable {T T' : Distances} {n : Nat} {P : FramePairs} {pads : List Pad} {m m' : Machine}

/-- What refers to nothing is its own counterpart. -/
theorem PadValue.of_isPlain {v : Value} (W : PadWorld) (h : v.IsPlain) : PadValue T T' W v := by
  cases v <;> trivial

namespace PadRun

theorem zero (T T' : Distances) : PadRun T T' 0 where
  execute _ _ := by simpa only [LoxLang.execute] using .exhausted
  executeIn _ _ _ _ := by simpa only [LoxLang.executeIn] using .exhausted
  executeAll _ _ := by simpa only [LoxLang.executeAll] using .exhausted
  repeatWhile _ _ _ := by simpa only [LoxLang.repeatWhile] using .exhausted
  evaluate _ _ := by simpa only [LoxLang.evaluate] using .exhausted
  evaluateAll _ _ := by simpa only [LoxLang.evaluateAll] using .exhausted
  call _ _ _ _ := by simpa only [LoxLang.call] using .exhausted
  invoke _ _ _ := by simpa only [LoxLang.invoke] using .exhausted
  applyClosure _ _ _ := by simpa only [LoxLang.applyClosure] using .exhausted

/-! ## Expressions -/

theorem evaluate_succ (ih : PadRun T T' n) {e e' : Expr} (h : PadMachines.At T T' P pads m m')
    (he : PadExpr T T' pads e e') :
    PadOutcome T T' ⟨P, m.store, m'.store⟩ m.frame m'.frame (PadValue T T')
      (LoxLang.evaluate (n + 1) e m) (LoxLang.evaluate (n + 1) e' m') := by
  cases he with
  | @literal _ _ value =>
    simp only [LoxLang.evaluate]
    exact .done h.machines.since (.of_isPlain _ value.value_isPlain)
  | grouping he =>
    simp only [LoxLang.evaluate]
    exact ih.evaluate h he
  | unary he =>
    simp only [LoxLang.evaluate]
    refine (ih.evaluate h he).bind fun h₁ _ => ?_
    exact h₁.machines.applied _ fun _ hv => .of_isPlain _ (Token.applyUnary?_isPlain hv)
  | binary hleft hright =>
    simp only [LoxLang.evaluate]
    refine (ih.evaluate h hleft).bind fun h₁ _ => ?_
    refine (ih.evaluate (h₁.at h.chain) hright).bind fun h₂ _ => ?_
    exact h₂.machines.applied _ fun _ hv => .of_isPlain _ (Token.applyBinary?_isPlain hv)
  | @logical _ _ t _ _ _ _ hleft hright =>
    simp only [LoxLang.evaluate]
    refine (ih.evaluate h hleft).bind fun {_ _ _ v} h₁ hv => ?_
    cases t.settles v with
    | true => exact .done h₁.machines.since hv
    | false => exact ih.evaluate (h₁.at h.chain) hright
  | var hrefers =>
    simp only [LoxLang.evaluate]
    exact h.lookup hrefers _
  | assign hrefers he =>
    simp only [LoxLang.evaluate]
    refine (ih.evaluate h he).bind fun h₁ hv => ?_
    exact (h₁.at h.chain).assign hrefers _ hv
  | call hcallee hargs =>
    simp only [LoxLang.evaluate]
    refine (ih.evaluate h hcallee).bind fun h₁ hv => ?_
    refine (ih.evaluateAll (h₁.at h.chain) hargs).bind fun h₂ hvs => ?_
    exact ih.call _ h₂.machines (hv.grows h₂.grows) hvs
  | get hobject =>
    simp only [LoxLang.evaluate]
    refine (ih.evaluate h hobject).bind fun h₁ _ => ?_
    exact h₁.machines.getProperty _ _
  | set hobject hvalue =>
    simp only [LoxLang.evaluate]
    refine (ih.evaluate h hobject).bind fun {_ _ _ target} h₁ _ => ?_
    cases target with
    | object ref =>
      refine (ih.evaluate (h₁.at h.chain) hvalue).bind fun h₂ hv => ?_
      exact .done (h₂.machines.setField ref _ hv) (hv.grows (PadWorld.grows_setField _ ref _ _))
    | _ => exact h₁.machines.raise _ _
  | this hrefers =>
    simp only [LoxLang.evaluate]
    exact h.lookup hrefers _
  | super hsuper =>
    simp only [LoxLang.evaluate]
    exact h.superMethod hsuper _

theorem evaluateAll_succ (ih : PadRun T T' n) {es es' : List Expr}
    (h : PadMachines.At T T' P pads m m') (hes : PadArgs T T' pads es es') :
    PadOutcome T T' ⟨P, m.store, m'.store⟩ m.frame m'.frame (PadValues T T')
      (LoxLang.evaluateAll (n + 1) es m) (LoxLang.evaluateAll (n + 1) es' m') := by
  cases hes with
  | nil =>
    simp only [LoxLang.evaluateAll]
    exact .done h.machines.since fun _ hmem => by cases hmem
  | cons he hes =>
    simp only [LoxLang.evaluateAll]
    refine (ih.evaluate h he).bind fun h₁ hv => ?_
    refine (ih.evaluateAll (h₁.at h.chain) hes).bind fun h₂ hvs => ?_
    exact .done h₂.machines.since (List.forall_mem_cons.2 ⟨hv.grows h₂.grows, hvs⟩)

/-! ## Calls -/

theorem call_succ (ih : PadRun T T' n) {callee : Value} {args : List Value} (paren : Token)
    (h : PadMachines T T' P m m') (hcallee : PadValue T T' ⟨P, m.store, m'.store⟩ callee)
    (hargs : PadValues T T' ⟨P, m.store, m'.store⟩ args) :
    PadOutcome T T' ⟨P, m.store, m'.store⟩ m.frame m'.frame (PadValue T T')
      (LoxLang.call (n + 1) callee args paren m) (LoxLang.call (n + 1) callee args paren m') := by
  have hrefusal : m'.refusal? callee args.length = m.refusal? callee args.length := by
    have harity : m'.store.arity? callee = m.store.arity? callee := h.heap.arity?_eq hcallee
    unfold Machine.refusal?
    rw [harity, h.depth, h.maxDepth]
  rw [call_eq, call_eq, hrefusal]
  cases m.refusal? callee args.length with
  | some cause => exact h.raise _ _
  | none =>
    exact (ih.invoke h.beginCall hcallee hargs).ending fun h₁ => ⟨h₁.endCall, rfl, rfl⟩

theorem invoke_succ (ih : PadRun T T' n) {callee : Value} {args : List Value}
    (h : PadMachines T T' P m m') (hcallee : PadValue T T' ⟨P, m.store, m'.store⟩ callee)
    (hargs : PadValues T T' ⟨P, m.store, m'.store⟩ args) :
    PadOutcome T T' ⟨P, m.store, m'.store⟩ m.frame m'.frame (PadValue T T')
      (LoxLang.invoke (n + 1) callee args m) (LoxLang.invoke (n + 1) callee args m') := by
  cases callee with
  | native ref =>
    have hnatives : m'.store.natives = m.store.natives := h.heap.natives
    simp only [LoxLang.invoke, hnatives, h.clock]
    cases m.store.natives[ref]? with
    | none => exact h.fails _
    | some native =>
      cases native with
      | clock => exact .done h.tick.since trivial
  | function ref =>
    simp only [LoxLang.invoke]
    exact ih.applyClosure h hcallee hargs
  | classValue ref =>
    obtain ⟨hinst, h₁⟩ := h.addInstance ref
    have hmethod := h₁.machines.heap.method? ref initializerName
    simp only [LoxLang.invoke, hinst]
    simp only at hmethod
    generalize (m.store.addInstance ref).2.method? ref initializerName = c? at hmethod
    generalize (m'.store.addInstance ref).2.method? ref initializerName = c?' at hmethod
    cases hmethod with
    | none => exact .done h₁ trivial
    | some hc =>
      obtain ⟨hbound, P₂, h₂, hhas⟩ := h₁.machines.bindMethod hc
        (.object (m.store.addInstance ref).1) trivial
      have h₃ := h₁.trans h₂
      simp only [hbound]
      have happly := ih.applyClosure h₃.machines hhas fun v hmem => (hargs v hmem).grows h₃.grows
      exact .since h₃ (happly.bind fun h₄ _ => .done h₄.machines.since trivial)
  | _ =>
    simp only [LoxLang.invoke]
    exact h.fails _

theorem applyClosure_succ (ih : PadRun T T' n) {ref : Nat} {args : List Value}
    (h : PadMachines T T' P m m') (hhas : PadWorld.Has T T' ⟨P, m.store, m'.store⟩ [] ref)
    (hargs : PadValues T T' ⟨P, m.store, m'.store⟩ args) :
    PadOutcome T T' ⟨P, m.store, m'.store⟩ m.frame m'.frame (PadValue T T')
      (LoxLang.applyClosure (n + 1) ref args m) (LoxLang.applyClosure (n + 1) ref args m') := by
  obtain ⟨c, c', hc, hc', hclosure⟩ := hhas
  obtain ⟨pads, hchain, hdecl⟩ := hclosure.chain
  obtain ⟨_, hparams, hbody⟩ := hdecl.parts
  simp only at hc hc'
  simp only [LoxLang.applyClosure, hc, hc', hparams, hclosure.isInitializer]
  refine (ih.executeIn h hchain (fun name v hv => hargs v (Bindings.mem_of_find?_ofList hv)) hbody).bind
    fun {_ _ _ completion} h₁ hcompletion => ?_
  cases c.isInitializer with
  | false =>
    cases completion with
    | normal => exact .done h₁.machines.since trivial
    | returned v => exact .done h₁.machines.since hcompletion
  | true =>
    -- an initializer gives the receiver, which the two frames of `this` share
    have hpaired := h₁.grows.paired _ _ hclosure.frame
    simp only [if_true, h₁.machines.heap.get_eq hpaired "this"]
    split
    · rename_i v hv
      exact .done h₁.machines.since (h₁.machines.heap.get_value hpaired hv)
    · exact h₁.machines.fails _

/-! ## Statements -/

theorem execute_succ (ih : PadRun T T' n) {s s' : Stmt} (h : PadMachines.At T T' P pads m m')
    (hs : PadStmt T T' pads s s') :
    PadOutcome T T' ⟨P, m.store, m'.store⟩ m.frame m'.frame (PadCompletion T T')
      (LoxLang.execute (n + 1) s m) (LoxLang.execute (n + 1) s' m') := by
  cases hs with
  | malformed =>
    simp only [LoxLang.execute]
    exact h.machines.fails _
  | expression he =>
    simp only [LoxLang.execute]
    refine (ih.evaluate h he).bind fun h₁ _ => ?_
    exact .done h₁.machines.since trivial
  | print he =>
    simp only [LoxLang.execute]
    refine (ih.evaluate h he).bind fun {_ _ _ v} h₁ _ => ?_
    exact .done (h₁.machines.print v) trivial
  | declare hopen =>
    simp only [LoxLang.execute]
    exact .done (h.define hopen _ trivial) trivial
  | declareValue hopen he =>
    simp only [LoxLang.execute]
    refine (ih.evaluate h he).bind fun h₁ hv => ?_
    exact .done ((h₁.at h.chain).define hopen _ hv) trivial
  | block hbody =>
    simp only [LoxLang.execute]
    exact ih.executeIn h.machines h.chain (fun _ _ hv => by cases hv) hbody
  | ifThen hcond hs =>
    simp only [LoxLang.execute]
    refine (ih.evaluate h hcond).bind fun {_ _ _ v} h₁ _ => ?_
    cases v.truthy with
    | true => exact ih.execute (h₁.at h.chain) hs
    | false => exact .done h₁.machines.since trivial
  | ifElse hcond hs ht =>
    simp only [LoxLang.execute]
    refine (ih.evaluate h hcond).bind fun {_ _ _ v} h₁ _ => ?_
    cases v.truthy with
    | true => exact ih.execute (h₁.at h.chain) hs
    | false => exact ih.execute (h₁.at h.chain) ht
  | loop hcond hs =>
    simp only [LoxLang.execute]
    exact ih.repeatWhile h hcond hs
  | function hopen hf =>
    simp only [LoxLang.execute]
    exact .done (h.declareFunction hopen hf) trivial
  | ret =>
    simp only [LoxLang.execute]
    exact .done h.machines.since trivial
  | retValue he =>
    simp only [LoxLang.execute]
    refine (ih.evaluate h he).bind fun h₁ hv => ?_
    exact .done h₁.machines.since hv
  | @classDecl _ _ _ _ base _ _ _ hopen hbase hmethods =>
    simp only [LoxLang.execute]
    refine (h.evalSuperclass hbase).bind fun {_ _ _ ref} h₁ hsome => ?_
    have hlinks : classPads base ++ pads = .both :: (PadMachines.basePads ref ++ pads) := by
      rw [PadMachines.basePads, hsome]
      rfl
    rw [hlinks] at hmethods
    obtain ⟨P₂, h₂⟩ := (h₁.at h.chain).declareClass hopen _ ref hmethods
    exact .done h₂ trivial

theorem executeIn_succ (ih : PadRun T T' n) {body body' : List Stmt} {b : Bindings Value}
    {p p' : Nat} (h : PadMachines T T' P m m') (hc : PadChain ⟨P, m.store, m'.store⟩ pads p p')
    (hb : ∀ name v, b.find? name = some v → PadValue T T' ⟨P, m.store, m'.store⟩ v)
    (hbody : PadBody T T' (.both :: pads) body body') :
    PadOutcome T T' ⟨P, m.store, m'.store⟩ m.frame m'.frame (PadCompletion T T')
      (LoxLang.executeIn (n + 1) body b p m) (LoxLang.executeIn (n + 1) body' b p' m') := by
  simp only [LoxLang.executeIn]
  obtain ⟨P₁, h₁, hg⟩ := h.enter hc hb
  exact (ih.executeAll h₁ hbody).ending fun h₂ => ⟨h₂.leaveTo hg m.frame m'.frame, rfl, rfl⟩

theorem executeAll_succ (ih : PadRun T T' n) {body body' : List Stmt}
    (h : PadMachines.At T T' P pads m m') (hbody : PadBody T T' pads body body') :
    PadOutcome T T' ⟨P, m.store, m'.store⟩ m.frame m'.frame (PadCompletion T T')
      (LoxLang.executeAll (n + 1) body m) (LoxLang.executeAll (n + 1) body' m') := by
  cases hbody with
  | nil =>
    simp only [LoxLang.executeAll]
    exact .done h.machines.since trivial
  | cons hs hss =>
    simp only [LoxLang.executeAll]
    refine (ih.execute h hs).bind fun {_ _ _ completion} h₁ hcompletion => ?_
    cases completion with
    | normal => exact ih.executeAll (h₁.at h.chain) hss
    | returned v => exact .done h₁.machines.since hcompletion

theorem repeatWhile_succ (ih : PadRun T T' n) {cond cond' : Expr} {s s' : Stmt}
    (h : PadMachines.At T T' P pads m m') (hcond : PadExpr T T' pads cond cond')
    (hs : PadStmt T T' pads s s') :
    PadOutcome T T' ⟨P, m.store, m'.store⟩ m.frame m'.frame (PadCompletion T T')
      (LoxLang.repeatWhile (n + 1) cond s m) (LoxLang.repeatWhile (n + 1) cond' s' m') := by
  simp only [LoxLang.repeatWhile]
  refine (ih.evaluate h hcond).bind fun {_ _ _ v} h₁ _ => ?_
  cases v.truthy with
  | false => exact .done h₁.machines.since trivial
  | true =>
    have hat := h₁.at h.chain
    refine (ih.execute hat hs).bind fun {_ _ _ completion} h₂ hcompletion => ?_
    cases completion with
    | normal => exact ih.repeatWhile (h₂.at hat.chain) hcond hs
    | returned v => exact .done h₂.machines.since hcompletion

end PadRun

/-- **Code whose references lead to the same places runs alike, with every allowance.** -/
theorem padRun (T T' : Distances) (n : Nat) : PadRun T T' n := by
  induction n with
  | zero => exact .zero T T'
  | succ n ih =>
    exact ⟨ih.execute_succ, ih.executeIn_succ, ih.executeAll_succ, ih.repeatWhile_succ,
      ih.evaluate_succ, ih.evaluateAll_succ, ih.call_succ, ih.invoke_succ, ih.applyClosure_succ⟩

end

end LoxLang
