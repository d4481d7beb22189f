import LoxLang.Proofs.Run.Declarations

/-!
# Lockstep

Two programs that are alike, run on twins with the same allowance, agree at every step.  With a
program that is alike to itself this says that its run keeps the invariant of the store and never
comes to a fault.

The induction is on the allowance; `Lockstep K n` holds the statements about all functions that
run a program, and each has a lemma that takes it from `n` to `n + 1`.

Principal results: `lockstep`, `executeProgram_agrees`.
-/

namespace LoxLang

/-- What a task does is on record in a pairing. -/
structure Grants (K : Pairing) (task : Task) : Prop where
  made : ∀ t f c, task.Reaches t → t.Activates f c → K.Made f c
  evaluated : ∀ t use id name m, task.Reaches t → t.Evaluates use id name m →
    K.Evaluated use id name m

theorem Grants.calls {K : Pairing} {t t₁ : Task} (h : Grants K t) (hcalls : t.Calls t₁) :
    Grants K t₁ :=
  ⟨fun t₂ f c hreach => h.made t₂ f c (hreach.head hcalls),
    fun t₂ use id name m hreach => h.evaluated t₂ use id name m (hreach.head hcalls)⟩

/-- A statement that ends normally leaves its frame in the scopes behind it. -/
def Completes (K : Pairing) (f : Nat) (p : Surroundings) (W : World) : Completion → Prop
  | .normal => Chain W f p.constructs p.scopes
  | .returned v => OkValue K W v

/-- The statements about all functions that run a program. -/
structure Lockstep (K : Pairing) (n : Nat) : Prop where
  execute : ∀ {L : Labels} {m m' : Machine} {p : Surroundings} {s s' : Stmt},
    Twins.At K L m m' p → AlikeStmt K p s s' → Grants K (.execute n s m) →
    Agrees K ⟨L, m.store, m'.store⟩ m.frame (Completes K m.frame (p.after s)) (execute n s m)
      (execute n s' m')
  executeIn : ∀ {L : Labels} {m m' : Machine} {c : Construct} {cs : List Construct}
      {scope : Bindings Bool} {scopes : List (Bindings Bool)} {b b' : Bindings Value}
      {parent : Nat} {body body' : List Stmt},
    Twins K L m m' → Chain ⟨L, m.store, m'.store⟩ parent cs scopes → (∀ id, c ≠ .base id) →
    K.Made m.store.frames.size c →
    (∀ name, K.IsName name → b'.find? (K.spell c name) = b.find? name) →
    (∀ name v, b.find? name = some v → OkValue K ⟨L, m.store, m'.store⟩ v) →
    (∀ name, scope.find? name = some true → b.contains name = true) →
    AlikeBody K ⟨c :: cs, scope :: scopes, none⟩ body body' →
    Grants K (.executeIn n body b parent m) →
    Agrees K ⟨L, m.store, m'.store⟩ m.frame (fun W completion => OkValue K W completion.value)
      (executeIn n body b parent m) (executeIn n body' b' parent m')
  executeAll : ∀ {L : Labels} {m m' : Machine} {p : Surroundings} {body body' : List Stmt},
    Twins.At K L m m' p → AlikeBody K p body body' → Grants K (.executeAll n body m) →
    Agrees K ⟨L, m.store, m'.store⟩ m.frame (fun W completion => OkValue K W completion.value)
      (executeAll n body m) (executeAll n body' m')
  repeatWhile : ∀ {L : Labels} {m m' : Machine} {p : Surroundings} {cond cond' : Expr}
      {s s' : Stmt},
    Twins.At K L m m' p → AlikeExpr K p cond cond' → AlikeStmt K p s s' → s.declared = [] →
    Grants K (.repeatWhile n cond s m) →
    Agrees K ⟨L, m.store, m'.store⟩ m.frame (fun W completion => OkValue K W completion.value)
      (repeatWhile n cond s m) (repeatWhile n cond' s' m')
  evaluate : ∀ {L : Labels} {m m' : Machine} {p : Surroundings} {e e' : Expr},
    Twins.At K L m m' p → AlikeExpr K p e e' → Grants K (.evaluate n e m) →
    Agrees K ⟨L, m.store, m'.store⟩ m.frame (OkValue K) (evaluate n e m) (evaluate n e' m')
  evaluateAll : ∀ {L : Labels} {m m' : Machine} {p : Surroundings} {es es' : List Expr},
    Twins.At K L m m' p → AlikeArgs K p es es' → Grants K (.evaluateAll n es m) →
    Agrees K ⟨L, m.store, m'.store⟩ m.frame (fun W vs => ∀ v ∈ vs, OkValue K W v)
      (evaluateAll n es m) (evaluateAll n es' m')
  call : ∀ {L : Labels} {m m' : Machine} {callee : Value} {args : List Value}
      {paren paren' : Token},
    Twins K L m m' → OkValue K ⟨L, m.store, m'.store⟩ callee →
    (∀ v ∈ args, OkValue K ⟨L, m.store, m'.store⟩ v) → paren'.line = paren.line →
    Grants K (.call n callee args paren m) →
    Agrees K ⟨L, m.store, m'.store⟩ m.frame (OkValue K) (call n callee args paren m)
      (call n callee args paren' m')
  invoke : ∀ {L : Labels} {m m' : Machine} {callee : Value} {args : List Value},
    Twins K L m m' → OkValue K ⟨L, m.store, m'.store⟩ callee →
    (∀ v ∈ args, OkValue K ⟨L, m.store, m'.store⟩ v) →
    m.store.arity? callee = some args.length → Grants K (.invoke n callee args m) →
    Agrees K ⟨L, m.store, m'.store⟩ m.frame (OkValue K) (invoke n callee args m)
      (invoke n callee args m')
  applyClosure : ∀ {L : Labels} {m m' : Machine} {ref : Nat} {c c' : Closure}
      {p : Surroundings} {args : List Value},
    Twins K L m m' → m.store.closures[ref]? = some c → m'.store.closures[ref]? = some c' →
    Ready K ⟨L, m.store, m'.store⟩ c c' p → args.length = c.decl.params.length →
    (∀ v ∈ args, OkValue K ⟨L, m.store, m'.store⟩ v) → Grants K (.applyClosure n ref args m) →
    Agrees K ⟨L, m.store, m'.store⟩ m.frame (OkValue K) (applyClosure n ref args m)
      (applyClosure n ref args m')

theorem Lockstep.zero (K : Pairing) : Lockstep K 0 where
  execute _ _ _ := by simpa only [LoxLang.execute] using Agrees.exhausted
  executeIn _ _ _ _ _ _ _ _ _ := by simpa only [LoxLang.executeIn] using Agrees.exhausted
  executeAll _ _ _ := by simpa only [LoxLang.executeAll] using Agrees.exhausted
  repeatWhile _ _ _ _ _ := by simpa only [LoxLang.repeatWhile] using Agrees.exhausted
  evaluate _ _ _ := by simpa only [LoxLang.evaluate] using Agrees.exhausted
  evaluateAll _ _ _ := by simpa only [LoxLang.evaluateAll] using Agrees.exhausted
  call _ _ _ _ _ := by simpa only [LoxLang.call] using Agrees.exhausted
  invoke _ _ _ _ _ := by simpa only [LoxLang.invoke] using Agrees.exhausted
  applyClosure _ _ _ _ _ _ _ := by simpa only [LoxLang.applyClosure] using Agrees.exhausted

section Steps

variable {K : Pairing} {n : Nat} {L : Labels} {m m' : Machine} {p : Surroundings}

/-! ## Expressions -/

theorem evaluate_succ (ih : Lockstep K n) {e e' : Expr} (h : Twins.At K L m m' p)
    (ha : AlikeExpr K p e e') (hgrants : Grants K (.evaluate (n + 1) e m)) :
    Agrees K ⟨L, m.store, m'.store⟩ m.frame (OkValue K) (evaluate (n + 1) e m)
      (evaluate (n + 1) e' m') := by
  have hself := fun use id name m₁ => hgrants.evaluated _ use id name m₁ .refl
  cases ha with
  | @literal _ value =>
    simp only [evaluate]
    exact .done h.twins.since (.of_isPlain value.value_isPlain)
  | grouping he =>
    simp only [evaluate]
    exact ih.evaluate h he (hgrants.calls .grouping)
  | unary ht he =>
    simp only [evaluate]
    refine (ih.evaluate h he (hgrants.calls .operand)).bind fun _ hsince _ => ?_
    rw [← hsince.frame]
    obtain ⟨hline, hkind, hknown⟩ := ht
    rw [Token.applyUnary?_congr hkind]
    exact hsince.twins.applied hline (Token.applyUnary?_isSome hknown _) fun _ hv =>
      .of_isPlain (Token.applyUnary?_isPlain hv)
  | binary hleft ht hright =>
    simp only [evaluate]
    refine (ih.evaluate h hleft (hgrants.calls .left)).bind fun heq hsince _ => ?_
    rw [← hsince.frame]
    refine (ih.evaluate (hsince.at h.chain) hright (hgrants.calls (.right heq))).bind
      fun _ hsince₁ _ => ?_
    rw [← hsince₁.frame]
    obtain ⟨hline, hkind, hknown⟩ := ht
    rw [Token.applyBinary?_congr hkind]
    exact hsince₁.twins.applied hline (Token.applyBinary?_isSome hknown _ _)
      fun _ hv => .of_isPlain (Token.applyBinary?_isPlain hv)
  | @logical _ t t' _ _ _ _ hleft ht hright =>
    simp only [evaluate]
    refine (ih.evaluate h hleft (hgrants.calls .logicalLeft)).bind
      fun {_ _ _ v} heq hsince hv => ?_
    rw [← hsince.frame]
    rw [Token.settles_congr ht]
    cases hsettles : t.settles v with
    | true => exact .done hsince.twins.since hv
    | false =>
      exact ih.evaluate (hsince.at h.chain) hright (hgrants.calls (.logicalRight heq hsettles))
  | @var id name _ hr hread =>
    simp only [evaluate]
    exact h.twins.lookup ⟨.read, id, name, p⟩ h.chain rfl hread hr (hself _ _ _ _ .var)
  | assign hr hwrite hsuper he =>
    simp only [evaluate]
    refine (ih.evaluate h he (hgrants.calls .assigned)).bind fun heq hsince hv => ?_
    rw [← hsince.frame]
    exact hsince.twins.assign _ (hsince.at h.chain).chain hwrite rfl hsuper hr
      (hself _ _ _ _ (.assign heq)) hv
  | call hcallee ht hargs =>
    simp only [evaluate]
    refine (ih.evaluate h hcallee (hgrants.calls .callee)).bind fun heq hsince hv => ?_
    rw [← hsince.frame]
    refine (ih.evaluateAll (hsince.at h.chain) hargs (hgrants.calls (.arguments heq))).bind
      fun heq₁ hsince₁ hvs => ?_
    rw [← hsince₁.frame]
    exact ih.call hsince₁.twins (hv.grows hsince₁.grows) hvs ht
      (hgrants.calls (.call heq heq₁))
  | get hobject hname =>
    simp only [evaluate]
    refine (ih.evaluate h hobject (hgrants.calls .object)).bind fun heq hsince _ => ?_
    rw [← hsince.frame]
    refine hsince.twins.getProperty hname fun ref c id methods hv hproperty hmem => ?_
    subst hv
    exact hgrants.made _ _ _ .refl (.property heq hproperty hmem)
  | @set _ _ _ _ _ name _ hobject hname hvalue =>
    simp only [evaluate]
    refine (ih.evaluate h hobject (hgrants.calls .target)).bind
      fun {_ _ _ target} heq hsince _ => ?_
    rw [← hsince.frame]
    cases target with
    | object ref =>
      refine (ih.evaluate (hsince.at h.chain) hvalue (hgrants.calls (.field heq))).bind
        fun _ hsince₁ hv => ?_
      have hset := hsince₁.twins.setField ref name.lexeme hv
      rw [hname.lexeme, ← hsince₁.frame]
      exact .done hset (hv.grows hset.grows)
    | _ => exact hsince.twins.raise (fun _ hcause => by cases hcause) hname.line
  | @this id keyword _ hr hread =>
    simp only [evaluate]
    exact h.twins.lookup ⟨.this, id, keyword, p⟩ h.chain rfl hread hr (hself _ _ _ _ .this)
  | super hr hsuper hin hmethod =>
    simp only [evaluate]
    exact h.superMethod hr hsuper hin hmethod
      fun distance ref receiver c classId methods hd hs ht hc hmem =>
        hgrants.made _ _ _ .refl (.super hd hs ht hc hmem)

theorem evaluateAll_succ (ih : Lockstep K n) {es es' : List Expr} (h : Twins.At K L m m' p)
    (ha : AlikeArgs K p es es') (hgrants : Grants K (.evaluateAll (n + 1) es m)) :
    Agrees K ⟨L, m.store, m'.store⟩ m.frame (fun W vs => ∀ v ∈ vs, OkValue K W v)
      (evaluateAll (n + 1) es m) (evaluateAll (n + 1) es' m') := by
  cases ha with
  | nil =>
    simp only [evaluateAll]
    exact .done h.twins.since (fun v hv => by cases hv)
  | cons he hes =>
    simp only [evaluateAll]
    refine (ih.evaluate h he (hgrants.calls .firstArgument)).bind fun heq hsince hv => ?_
    rw [← hsince.frame]
    refine (ih.evaluateAll (hsince.at h.chain) hes (hgrants.calls (.nextArguments heq))).bind
      fun _ hsince₁ hvs => ?_
    rw [← hsince₁.frame]
    refine .done hsince₁.twins.since fun v hmem => ?_
    obtain rfl | hmem := List.mem_cons.1 hmem
    · exact hv.grows hsince₁.grows
    · exact hvs v hmem

/-! ## Calls -/

theorem Twins.tick (h : Twins K L m m') : Twins K L m.tick m'.tick :=
  { h with clock := congrArg Clock.rest h.clock }

theorem Twins.beginCall (h : Twins K L m m') : Twins K L m.beginCall m'.beginCall :=
  { h with depth := by simp only [Machine.beginCall, h.depth] }

theorem Twins.endCall (h : Twins K L m m') : Twins K L m.endCall m'.endCall :=
  { h with depth := by simp only [Machine.endCall, h.depth] }

theorem call_succ (ih : Lockstep K n) {callee : Value} {args : List Value} {paren paren' : Token}
    (h : Twins K L m m') (hcallee : OkValue K ⟨L, m.store, m'.store⟩ callee)
    (hargs : ∀ v ∈ args, OkValue K ⟨L, m.store, m'.store⟩ v) (ht : paren'.line = paren.line)
    (hgrants : Grants K (.call (n + 1) callee args paren m)) :
    Agrees K ⟨L, m.store, m'.store⟩ m.frame (OkValue K) (call (n + 1) callee args paren m)
      (call (n + 1) callee args paren' m') := by
  have harity : m'.store.arity? callee = m.store.arity? callee := h.heap.arity?_eq hcallee
  simp only [call, harity, h.maxDepth, h.depth]
  cases hf : m.store.arity? callee with
  | none => exact h.raise (fun _ hcause => by cases hcause) ht
  | some arity =>
    simp only
    split
    · exact h.raise (fun _ hcause => by cases hcause) ht
    · rename_i hlength
      obtain rfl : args.length = arity := by simpa using hlength
      split
      · exact h.raise (fun _ hcause => by cases hcause) ht
      · rename_i hdepth
        refine (ih.invoke h.beginCall hcallee hargs hf
          (hgrants.calls (.invoke hf (by omega)))).ending fun hsince => ?_
        exact ⟨⟨hsince.twins.endCall, hsince.grows, hsince.frame⟩, rfl, rfl⟩

theorem invoke_succ (ih : Lockstep K n) {callee : Value} {args : List Value}
    (h : Twins K L m m') (hcallee : OkValue K ⟨L, m.store, m'.store⟩ callee)
    (hargs : ∀ v ∈ args, OkValue K ⟨L, m.store, m'.store⟩ v)
    (harity : m.store.arity? callee = some args.length)
    (hgrants : Grants K (.invoke (n + 1) callee args m)) :
    Agrees K ⟨L, m.store, m'.store⟩ m.frame (OkValue K) (invoke (n + 1) callee args m)
      (invoke (n + 1) callee args m') := by
  cases callee with
  | native ref =>
    have hnatives : m'.store.natives = m.store.natives := h.heap.natives
    have hlt : ref < m.store.natives.size := hcallee
    simp only [invoke, hnatives, Array.getElem?_eq_getElem hlt, h.clock]
    cases m.store.natives[ref] with
    | clock => exact .done h.tick.since trivial
  | function ref =>
    obtain ⟨c, c', p, hc, hc', hready⟩ := hcallee
    simp only at hc hc'
    have hlength : args.length = c.decl.params.length := by
      simp only [Store.arity?, Store.closureArity, hc, Option.some.injEq] at harity
      exact harity.symm
    simp only [invoke]
    exact ih.applyClosure h hc hc' hready hlength hargs (hgrants.calls .apply)
  | classValue ref =>
    have hinstances : m'.store.instances.size = m.store.instances.size :=
      congrArg Array.size h.heap.instances
    have hinst : (m'.store.addInstance ref).1 = (m.store.addInstance ref).1 := hinstances
    have hsince := h.addInstance ref
    have hreceiver : OkValue K ⟨L, (m.store.addInstance ref).2, (m'.store.addInstance ref).2⟩
        (.object (m.store.addInstance ref).1) := trivial
    simp only [invoke, Store.method?_addInstance, hinst]
    obtain ⟨hnone, hnone'⟩ | ⟨c, c', id, methods, p, hc, hc', hunbound⟩ :=
      h.heap.method? ref initializerName
    · simp only at hnone hnone'
      simp only [hnone, hnone']
      exact .done hsince trivial
    · simp only at hc hc'
      simp only [hc, hc']
      have hmade : K.Made m.store.frames.size (.receiver id methods) :=
        hgrants.made _ _ _ .refl (.construct hc hunbound.mem)
      obtain ⟨hsame, L₁, hsince₁, b, b', hb, hb', hdecl, hready⟩ :=
        hsince.twins.bindMethod (hunbound.grows hsince.grows) hreceiver hmade
      have hlength : args.length = b.decl.params.length := by
        simp only [Store.arity?, Store.classArity, hc, Option.some.injEq] at harity
        rw [hdecl]
        exact harity.symm
      have hall := hsince.trans hsince₁
      rw [hsame]
      refine Agrees.since hall ((ih.applyClosure hall.twins hb hb' hready hlength
        (fun v hmem => (hargs v hmem).grows hall.grows) (hgrants.calls (.construct hc))).bind
          fun _ hsince₂ _ => ?_)
      exact .done ⟨hsince₂.twins, .refl _, hsince₂.frame⟩ trivial
  | _ => cases harity

/-- The receiver that an initializer is bound to. -/
theorem Ready.receiver_bound {W : World} {c c' : Closure} (h : Ready K W c c' p)
    (hheap : Heap K W) (hinit : c.isInitializer = true) :
    ∃ v, W.store.get c.frame "this" = .ok v ∧ W.store'.get c'.frame "this" = .ok v ∧
      OkValue K W v := by
  obtain ⟨id, methods, hconstruct, hscope⟩ := h.receiver hinit
  have hl : W.labels[c.frame]? = some (some (.receiver id methods)) := by
    rw [← hconstruct]
    exact h.chain.label hheap.root
  have hhas : W.store.has c.frame "this" = true := by
    have hscope₀ : p.scopes[0]? = some thisScope := by rw [← hscope, List.head?_eq_getElem?]
    obtain ⟨g, _, hg, _, _, hbound⟩ := h.chain.climb_scope hscope₀
    cases hg
    exact hbound "this" (by simp [thisScope])
  obtain ⟨v, hv, hok⟩ := hheap.find?_of_has hhas
  have hv' : (W.store'.bindings c'.frame).find? "this" = some v := by
    rw [h.frame, ← K.spell_this (.receiver id methods)]
    exact (hheap.locals _ _ hl _ K.name_this).trans hv
  exact ⟨v, by simp only [Store.get, hv], by simp only [Store.get, hv'], hok⟩

/-- The parameters and the body of functions that are alike. -/
theorem AlikeFunction.parts {f f' : Function} (h : AlikeFunction K p f f') :
    (∀ name ∈ f.params.map (·.lexeme), K.IsName name) ∧
      f'.params.map (·.lexeme) = (f.params.map (·.lexeme)).map (K.spell (.routine f.id)) ∧
      AlikeBody K (p.inRoutine f.id f.params) f.body f'.body := by
  obtain ⟨_, hnames, hparams, hbody⟩ := h
  refine ⟨fun name hmem => ?_, ?_, hbody⟩
  · obtain ⟨t, ht, rfl⟩ := List.mem_map.1 hmem
    exact (hnames t ht).1
  · rw [hparams, List.map_map]
    rfl

theorem applyClosure_succ (ih : Lockstep K n) {ref : Nat} {c c' : Closure} {args : List Value}
    (h : Twins K L m m') (hc : m.store.closures[ref]? = some c)
    (hc' : m'.store.closures[ref]? = some c') (hready : Ready K ⟨L, m.store, m'.store⟩ c c' p)
    (hlength : args.length = c.decl.params.length)
    (hargs : ∀ v ∈ args, OkValue K ⟨L, m.store, m'.store⟩ v)
    (hgrants : Grants K (.applyClosure (n + 1) ref args m)) :
    Agrees K ⟨L, m.store, m'.store⟩ m.frame (OkValue K) (applyClosure (n + 1) ref args m)
      (applyClosure (n + 1) ref args m') := by
  simp only [applyClosure, hc, hc']
  cases n with
  | zero =>
    simp only [executeIn, Outcome.bind_exhausted]
    exact .exhausted
  | succ n =>
    have hmade := hgrants.made _ _ _ .refl (.routine hc)
    obtain ⟨hnames, hparams, hbody⟩ := hready.alike.parts
    rw [Surroundings.inRoutine, markAll_cons] at hbody
    have hexecute := ih.executeIn h hready.chain (fun _ hbase => by cases hbase) hmade
      (putAll_find?_spell _ args .empty .empty hnames fun _ _ => rfl)
      (fun _ v hv => hargs v (Bindings.mem_of_find?_ofList hv))
      (putAll_contains _ args .empty .empty (by simpa using hlength) fun _ hv => by cases hv)
      hbody (hgrants.calls (.routine hc))
    rw [hparams, hready.frame, hready.isInitializer]
    refine hexecute.bind fun _ hsince hv => ?_
    cases hinit : c.isInitializer with
    | false => exact .done ⟨hsince.twins, .refl _, hsince.frame⟩ hv
    | true =>
      obtain ⟨v, hv, hv', hok⟩ :=
        (hready.grows hsince.grows).receiver_bound hsince.twins.heap hinit
      rw [hready.frame] at hv'
      simp only [if_true] at hv hv' ⊢
      simp only [hv, hv']
      exact .done ⟨hsince.twins, .refl _, hsince.frame⟩ hok

/-! ## Statements -/

theorem Surroundings.after_eq {s : Stmt} (hs : s.declared = []) :
    (p.after s).constructs = p.constructs ∧ (p.after s).scopes = p.scopes := by
  simp [Surroundings.after, hs]

/-- A part that declares nothing, of a statement that declares nothing. -/
theorem Completes.congr {W : World} {f : Nat} {completion : Completion} {s t : Stmt}
    (h : Completes K f (p.after s) W completion) (hs : s.declared = []) (ht : t.declared = []) :
    Completes K f (p.after t) W completion := by
  cases completion with
  | returned v => exact h
  | normal =>
    simp only [Completes, Surroundings.after_eq hs] at h
    simpa only [Completes, Surroundings.after_eq ht] using h

/-- A part with frames of its own, of a statement that declares nothing. -/
theorem Completes.of_value {W : World} {f : Nat} {completion : Completion} {s : Stmt}
    (hchain : Chain W f p.constructs p.scopes) (hv : OkValue K W completion.value)
    (hs : s.declared = []) : Completes K f (p.after s) W completion := by
  cases completion with
  | returned v => exact hv
  | normal => simpa only [Completes, Surroundings.after_eq hs] using hchain

/-- A declaration that leaves the machine in its frame completes normally. -/
theorem Agrees.declared {L₁ : Labels} {m₁ m₁' : Machine} {name : String} {s : Stmt}
    (h : Twins.Since K ⟨L, m.store, m'.store⟩ m.frame L₁ m₁ m₁')
    (hchain : Chain ⟨L₁, m₁.store, m₁'.store⟩ m.frame p.constructs (markIn name true p.scopes))
    (hs : s.declared = [name]) :
    Agrees K ⟨L, m.store, m'.store⟩ m.frame (Completes K m.frame (p.after s))
      (.done .normal m₁) (.done .normal m₁') := by
  refine .done h ?_
  simpa only [Completes, Surroundings.after, hs, markAll_singleton] using hchain

theorem execute_succ (ih : Lockstep K n) {s s' : Stmt} (h : Twins.At K L m m' p)
    (ha : AlikeStmt K p s s') (hgrants : Grants K (.execute (n + 1) s m)) :
    Agrees K ⟨L, m.store, m'.store⟩ m.frame (Completes K m.frame (p.after s))
      (execute (n + 1) s m) (execute (n + 1) s' m') := by
  cases ha with
  | expression he =>
    simp only [execute]
    refine (ih.evaluate h he (hgrants.calls .expression)).bind fun _ hsince _ => ?_
    exact .done ⟨hsince.twins, .refl _, hsince.frame⟩
      (.of_value (h.chain.grows hsince.grows) trivial rfl)
  | print he =>
    simp only [execute]
    refine (ih.evaluate h he (hgrants.calls .print)).bind fun _ hsince hv => ?_
    exact .done ⟨hsince.twins.print hv, .refl _, hsince.frame⟩
      (.of_value (h.chain.grows hsince.grows) trivial rfl)
  | declare hd =>
    simp only [execute]
    obtain ⟨h₁, hg⟩ := h.defineValue (v := .nil) hd trivial
    exact .declared ⟨h₁.twins, hg, rfl⟩ h₁.chain rfl
  | @declareValue _ _ name _ _ _ hd he =>
    simp only [execute]
    refine (ih.evaluate ⟨h.twins, h.chain.pending name.lexeme⟩ he (hgrants.calls .initial)).bind
      fun _ hsince hv => ?_
    obtain ⟨h₁, hg⟩ := (hsince.at h.chain).defineValue hd hv
    have hchain := h₁.chain
    rw [← hsince.frame]
    exact .declared ⟨h₁.twins, hg, rfl⟩ hchain rfl
  | block hbody =>
    simp only [execute]
    cases n with
    | zero =>
      simp only [executeIn]
      exact .exhausted
    | succ n =>
      rw [h.twins.frame]
      refine (ih.executeIn h.twins h.chain (fun _ hbase => by cases hbase)
        (hgrants.made _ _ _ .refl .block) (fun _ _ => rfl) (fun _ _ hv => by cases hv)
        (fun _ hv => by cases hv) hbody (hgrants.calls .block)).mono fun _ _ hg hv => ?_
      exact .of_value (h.chain.grows hg) hv rfl
  | ifThen hcond hs hdeclared =>
    simp only [execute]
    refine (ih.evaluate h hcond (hgrants.calls .condition)).bind fun {_ _ _ v} heq hsince _ => ?_
    cases htruthy : v.truthy with
    | true =>
      rw [← hsince.frame]
      exact (ih.execute (hsince.at h.chain) hs (hgrants.calls (.thenBranch heq htruthy))).mono
        fun _ _ _ hc => hc.congr hdeclared hdeclared
    | false =>
      exact .done ⟨hsince.twins, .refl _, hsince.frame⟩
        (.of_value (h.chain.grows hsince.grows) trivial hdeclared)
  | @ifElse _ id cond _ s _ t _ hcond hs hdeclared ht hdeclared' =>
    simp only [execute]
    have hboth : Stmt.declared (.conditional id cond s (some t)) = [] := by
      simp only [Stmt.declared, hdeclared, hdeclared', List.append_nil]
    refine (ih.evaluate h hcond (hgrants.calls .condition)).bind fun {_ _ _ v} heq hsince _ => ?_
    rw [← hsince.frame]
    cases htruthy : v.truthy with
    | true =>
      exact (ih.execute (hsince.at h.chain) hs (hgrants.calls (.thenBranch heq htruthy))).mono
        fun _ _ _ hc => hc.congr hdeclared hboth
    | false =>
      exact (ih.execute (hsince.at h.chain) ht (hgrants.calls (.elseBranch heq htruthy))).mono
        fun _ _ _ hc => hc.congr hdeclared' hboth
  | loop hcond hs hdeclared =>
    simp only [execute]
    exact (ih.repeatWhile h hcond hs hdeclared (hgrants.calls .loop)).mono
      fun _ _ hg hv => .of_value (h.chain.grows hg) hv hdeclared
  | function hd hdecl =>
    simp only [execute]
    obtain ⟨h₁, hg⟩ := h.declareFunction hd hdecl
    exact .declared ⟨h₁.twins, hg, rfl⟩ h₁.chain rfl
  | ret =>
    simp only [execute]
    exact .done h.twins.since trivial
  | retValue he =>
    simp only [execute]
    refine (ih.evaluate h he (hgrants.calls .ret)).bind fun _ hsince hv => ?_
    exact .done ⟨hsince.twins, .refl _, hsince.frame⟩ hv
  | classDecl hd hname hsuper hmethods =>
    simp only [execute]
    refine (h.evalSuperclass hsuper fun s hs => ?_).bind fun {_ _ _ base} heq hsince hbase => ?_
    · subst hs
      exact hgrants.evaluated _ _ _ _ _ .refl .superclass
    · obtain ⟨L₁, hsince₁, hchain⟩ := (hsince.at h.chain).declareClass hd hname hmethods hbase
        (fun hsome => by
          obtain ⟨ref, rfl⟩ := Option.isSome_iff_exists.1 hsome
          obtain ⟨s, rfl⟩ := Option.isSome_iff_exists.1 hbase.symm
          exact hgrants.made _ _ _ .refl (.superclass heq))
      rw [← hsince.frame]
      exact .declared hsince₁ hchain rfl

theorem executeIn_succ (ih : Lockstep K n) {c : Construct} {cs : List Construct}
    {scope : Bindings Bool} {scopes : List (Bindings Bool)} {b b' : Bindings Value} {parent : Nat}
    {body body' : List Stmt} (h : Twins K L m m')
    (hchain : Chain ⟨L, m.store, m'.store⟩ parent cs scopes) (hc : ∀ id, c ≠ .base id)
    (hmade : K.Made m.store.frames.size c)
    (hb : ∀ name, K.IsName name → b'.find? (K.spell c name) = b.find? name)
    (hv : ∀ name v, b.find? name = some v → OkValue K ⟨L, m.store, m'.store⟩ v)
    (hbound : ∀ name, scope.find? name = some true → b.contains name = true)
    (hbody : AlikeBody K ⟨c :: cs, scope :: scopes, none⟩ body body')
    (hgrants : Grants K (.executeIn (n + 1) body b parent m)) :
    Agrees K ⟨L, m.store, m'.store⟩ m.frame (fun W completion => OkValue K W completion.value)
      (executeIn (n + 1) body b parent m) (executeIn (n + 1) body' b' parent m') := by
  simp only [executeIn]
  obtain ⟨hat, hg⟩ := h.enter hchain hc hmade hb hv hbound
  refine (ih.executeAll hat hbody (hgrants.calls .body)).ending fun hsince => ?_
  exact ⟨⟨{ hsince.twins with frame := h.frame }, hg.trans hsince.grows, rfl⟩, rfl, rfl⟩

theorem executeAll_succ (ih : Lockstep K n) {body body' : List Stmt} (h : Twins.At K L m m' p)
    (hbody : AlikeBody K p body body') (hgrants : Grants K (.executeAll (n + 1) body m)) :
    Agrees K ⟨L, m.store, m'.store⟩ m.frame (fun W completion => OkValue K W completion.value)
      (executeAll (n + 1) body m) (executeAll (n + 1) body' m') := by
  cases hbody with
  | nil =>
    simp only [executeAll]
    exact .done h.twins.since trivial
  | cons hs hss =>
    simp only [executeAll]
    refine (ih.execute h hs (hgrants.calls .head)).bind fun {_ _ _ completion} heq hsince hc => ?_
    rw [← hsince.frame]
    cases completion with
    | returned v => exact .done hsince.twins.since hc
    | normal =>
      refine ih.executeAll ⟨hsince.twins, ?_⟩ hss (hgrants.calls (.tail heq))
      rw [hsince.frame]
      exact hc

theorem repeatWhile_succ (ih : Lockstep K n) {cond cond' : Expr} {s s' : Stmt}
    (h : Twins.At K L m m' p) (hcond : AlikeExpr K p cond cond') (hs : AlikeStmt K p s s')
    (hdeclared : s.declared = []) (hgrants : Grants K (.repeatWhile (n + 1) cond s m)) :
    Agrees K ⟨L, m.store, m'.store⟩ m.frame (fun W completion => OkValue K W completion.value)
      (repeatWhile (n + 1) cond s m) (repeatWhile (n + 1) cond' s' m') := by
  simp only [repeatWhile]
  refine (ih.evaluate h hcond (hgrants.calls .loopCondition)).bind
    fun {_ _ _ v} heq hsince _ => ?_
  rw [← hsince.frame]
  cases htruthy : v.truthy with
  | false => exact .done hsince.twins.since trivial
  | true =>
    refine (ih.execute (hsince.at h.chain) hs (hgrants.calls (.loopBody heq htruthy))).bind
      fun {_ _ _ completion} heq₁ hsince₁ hc => ?_
    rw [← hsince₁.frame]
    cases completion with
    | returned v => exact .done hsince₁.twins.since hc
    | normal =>
      exact ih.repeatWhile (hsince₁.at (hsince.at h.chain).chain) hcond hs hdeclared
        (hgrants.calls (.again heq htruthy heq₁))

end Steps

/-- **Alike programs run in lockstep, with every allowance.** -/
theorem lockstep (K : Pairing) (n : Nat) : Lockstep K n := by
  induction n with
  | zero => exact .zero K
  | succ n ih =>
    exact ⟨execute_succ ih, executeIn_succ ih, executeAll_succ ih, repeatWhile_succ ih,
      evaluate_succ ih, evaluateAll_succ ih, call_succ ih, invoke_succ ih, applyClosure_succ ih⟩

theorem markAll_outermost (names : List String) : markAll names [] = [] := by
  induction names with
  | nil => rfl
  | cons name names ih => exact ih

/-- Outside of all scopes, a statement changes nothing about the scopes. -/
theorem Twins.Since.outermost {K : Pairing} {L L₁ : Labels} {m m' m₁ m₁' : Machine}
    {p : Surroundings} {s : Stmt} (h : Twins.At K L m m' p) (hp : p.scopes = [])
    (hsince : Twins.Since K ⟨L, m.store, m'.store⟩ m.frame L₁ m₁ m₁') :
    Twins.At K L₁ m₁ m₁' (p.after s) ∧ (p.after s).scopes = [] := by
  have hafter : (p.after s).scopes = p.scopes := by
    simp only [Surroundings.after, hp, markAll_outermost]
  refine ⟨hsince.at ?_, hafter.trans hp⟩
  rw [hafter]
  exact h.chain

/-- **Alike programs agree as a whole.** -/
theorem executeProgram_agrees {K : Pairing} {n : Nat} {stmts : List Stmt} :
    ∀ {stmts' : List Stmt} {L : Labels} {m m' : Machine} {p : Surroundings},
    Twins.At K L m m' p → p.scopes = [] → AlikeBody K p stmts stmts' →
    Grants K (.program n stmts m) →
    Agrees K ⟨L, m.store, m'.store⟩ m.frame (fun _ _ => True) (executeProgram n stmts m)
      (executeProgram n stmts' m') := by
  induction stmts with
  | nil =>
    intro stmts' L m m' p h _ hbody _
    cases hbody
    exact .done h.twins.since trivial
  | cons s ss ih =>
    intro stmts' L m m' p h hp hbody hgrants
    cases hbody with
    | cons hs hss =>
      refine ((lockstep K n).execute h hs (hgrants.calls .first)).bind fun heq hsince _ => ?_
      obtain ⟨h₁, hp₁⟩ := hsince.outermost h hp
      rw [← hsince.frame]
      exact ih h₁ hp₁ hss (hgrants.calls (.next heq))

end LoxLang
