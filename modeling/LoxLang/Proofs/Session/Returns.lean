import LoxLang.Proofs.Run.Initializers
import LoxLang.Proofs.Session.Receivers
import LoxLang.Proofs.Session.Restoration
import LoxLang.Proofs.Session.WellFormed

/-!
# Returns of a session

The programs of a session have no `return` outside of functions, and their initializers return no
value.  So the statements of a program complete normally, a `return` ends the innermost call, whose
body holds it, and an initializer gives the instance that it was bound to.

Principal result: `returns_end_their_calls`.
-/

namespace LoxLang

section

variable {s : Session} {tasks : List Task} {n k : Nat} {source : String} {task : Task}

/-! ## Programs -/

/-- A program comes from one that has the returns of its statements. -/
theorem Task.Reaches.program {stmts : List Stmt} {m : Machine}
    (h : task.Reaches (.program k stmts m)) :
    ∃ stmts₀ m₀, task = .program k stmts₀ m₀ ∧ bodyReturns stmts ⊆ bodyReturns stmts₀ := by
  generalize ht : Task.program k stmts m = t at h
  induction h generalizing stmts m with
  | refl => exact ⟨stmts, m, ht.symm, List.Subset.refl _⟩
  | step _ hcalls ih =>
    subst ht
    cases hcalls with
    | next =>
      obtain ⟨stmts₀, m₀, rfl, hsub⟩ := ih rfl
      exact ⟨stmts₀, m₀, rfl, List.Subset.trans (List.subset_append_right ..) hsub⟩

/-- **The programs of a session do not return.** -/
theorem Numbering.program_returns {hi : Nat} (h : Numbering tasks hi) {stmts : List Stmt}
    {m : Machine} (hmoment : Moment tasks (.program k stmts m)) : bodyReturns stmts = [] := by
  obtain ⟨task, hmem, hreaches⟩ := hmoment
  obtain ⟨stmts₀, m₀, rfl, hsub⟩ := hreaches.program
  obtain ⟨_, _, _, hfound⟩ := h.clean k stmts₀ m₀ hmem
  rw [(ofProgram_returns hfound).1] at hsub
  exact List.subset_nil.1 hsub

/-- The initializers of a session return no value. -/
theorem Numbering.initializers {hi : Nat} (h : Numbering tasks hi) {node : Node}
    (hnode : Text tasks node) : node.Initializes := by
  obtain ⟨_, k, stmts, m, hmem, hwalk⟩ := hnode
  obtain ⟨_, _, _, hfound⟩ := h.clean k stmts m hmem
  exact (ofProgram_returns hfound).2 node hwalk

/-! ## Calls -/

/-- Methods are marked as initializers at all moments. -/
theorem History.marks (h : History s tasks) (htask : s.task? n source = some task) {t : Task}
    (ht : Moment (task :: tasks) t) : t.machine.store.Marks :=
  ((h.timeline htask).evolved (h.evolved.next htask).tasks ht).marks .initial

/-- A function that is called comes to no fault. -/
theorem History.applies (h : History s tasks) (htask : s.task? n source = some task) {ref : Nat}
    {args : List Value} {m m₁ : Machine} {reason : Fault}
    (hreaches : task.Reaches (.applyClosure k ref args m)) :
    applyClosure k ref args m ≠ .fault reason m₁ := by
  obtain ⟨program, tokens, hi, hclean, rfl⟩ := Session.task?_eq_some htask
  obtain ⟨hsound, hgrants⟩ :=
    (h.kept.sound (n := n) hclean).reaches (selfPairing_grants ..) hreaches
  cases hsound with
  | applyClosure htwins hc hc' hready hlength hargs =>
    intro hfault
    have hagrees := (lockstep _ k).applyClosure htwins hc hc' hready hlength hargs hgrants
    rw [hfault] at hagrees
    cases hagrees

/-- What a call gives whose body returns a value: this value, or the receiver of an initializer. -/
theorem History.call_gives (h : History s tasks) (htask : s.task? n source = some task) {ref : Nat}
    {args : List Value} {m m₁ : Machine} {c : Closure} {completion : Completion}
    (hreaches : task.Reaches (.applyClosure (k + 1) ref args m))
    (hc : m.store.closures[ref]? = some c)
    (hbody : executeIn k c.decl.body (.ofList ((c.decl.params.map (·.lexeme)).zip args)) c.frame
      m = .done completion m₁) :
    ∃ w, applyClosure (k + 1) ref args m = .done w m₁ ∧
      (c.isInitializer = false → w = completion.value) ∧
      (c.isInitializer = true → m₁.store.get c.frame "this" = .ok w) := by
  have hfault : ∀ reason, applyClosure (k + 1) ref args m ≠ .fault reason m₁ := fun _ =>
    h.applies htask hreaches
  rw [applyClosure, hc] at hfault ⊢
  simp only [hbody, Outcome.bind_done] at hfault ⊢
  split at hfault
  · rename_i hinit
    rw [if_pos hinit]
    split at hfault
    · rename_i receiver hthis
      rw [hthis]
      exact ⟨receiver, rfl, (fun hfalse => by simp [hinit] at hfalse), fun _ => rfl⟩
    · exact absurd rfl (hfault _)
  · rename_i hinit
    rw [if_neg hinit]
    exact ⟨_, rfl, fun _ => rfl, fun htrue => absurd htrue hinit⟩

/-- A `return` ends the innermost call under way, which gives its value or the receiver. -/
theorem History.return_ends_call (h : History s tasks) (htask : s.task? n source = some task)
    {id : Nat} {keyword : Token} {value : Option Expr} {m m₁ : Machine} {ts : List Task}
    {v : Value} (hunder : task.UnderWay (.execute k (.ret id keyword value) m :: ts))
    (hdone : execute k (.ret id keyword value) m = .done (.returned v) m₁) :
    ∃ inner i ref args m' outer c m₂,
      ts = inner ++ Task.applyClosure (i + 1) ref args m' :: outer ∧
      Task.EndsCall (.ret id keyword value) v (.execute k (.ret id keyword value) m :: inner)
        i ref args m' c m₂ ∧
      ∃ w, applyClosure (i + 1) ref args m' = .done w m₂ ∧ (c.isInitializer = false → w = v) ∧
        (c.isInitializer = true → m₂.store.get c.frame "this" = .ok w) := by
  obtain ⟨hi, hnumbering⟩ := h.numbering_task htask
  have hprogram : ∀ k stmts m, task.Reaches (.program k stmts m) → bodyReturns stmts = [] :=
    fun k stmts m hreaches => hnumbering.program_returns ⟨task, List.mem_cons_self, hreaches⟩
  have hstart : task.outcome? = none := by
    obtain ⟨program, _, _, _, rfl⟩ := Session.task?_eq_some htask
    rfl
  obtain ⟨inner, i, ref, args, m', outer, c, m₂, rfl, hends⟩ :=
    hunder.returned hstart hprogram ⟨m₁, congrArg some hdone⟩ (List.mem_singleton_self _)
  have hreaches := hunder.reaches (.applyClosure (i + 1) ref args m') (by simp)
  exact ⟨inner, i, ref, args, m', outer, c, m₂, rfl, hends,
    h.call_gives htask hreaches hends.closure hends.body⟩

/-- An initializer that was bound to an instance gives it whenever its body completes. -/
theorem History.initializer_gives (h : History s tasks) (htask : s.task? n source = some task)
    {t : Task} {c : Closure} {inst : Nat} {a : Machine} (ht : Moment (task :: tasks) t)
    (hbinds : t.Binds c inst a) (hname : c.decl.name.lexeme = initializerName) {args : List Value}
    {m m₁ : Machine} {completion : Completion}
    (hcall : Moment (task :: tasks)
      (.applyClosure (k + 1) (a.bindMethod c (.object inst)).1 args m))
    (hbody : executeIn k c.decl.body (.ofList ((c.decl.params.map (·.lexeme)).zip args))
      a.store.frames.size m = .done completion m₁) :
    applyClosure (k + 1) (a.bindMethod c (.object inst)).1 args m = .done (.object inst) m₁ := by
  have htimeline := h.timeline htask
  exact hbinds.gives_receiver text_plain (htimeline.intact_of_moment ht)
    (htimeline.intact_of_moment hcall) (htimeline.comparable ht hcall) (h.marks htask hcall) hname
    hbody

/-- Whenever it is called and gives a value, this value is the instance. -/
theorem History.initializer_called (h : History s tasks) (htask : s.task? n source = some task)
    {t : Task} {c : Closure} {inst : Nat} {a : Machine} (ht : Moment (task :: tasks) t)
    (hbinds : t.Binds c inst a) (hname : c.decl.name.lexeme = initializerName) {args : List Value}
    {paren : Token} {m m₁ : Machine} {v : Value}
    (hmoment : Moment (task :: tasks)
      (.call k (.function (a.bindMethod c (.object inst)).1) args paren m))
    (hdone : call k (.function (a.bindMethod c (.object inst)).1) args paren m = .done v m₁) :
    v = .object inst := by
  have htimeline := h.timeline htask
  obtain ⟨_, j, m₂, hinvoke, happlies, happly⟩ := call_function_eq_done hdone
  have hcall := (hmoment.step hinvoke).step happlies
  obtain ⟨i, c', completion, m₃, rfl, hc', hbody⟩ := applyClosure_eq_done happly
  have hclosure := hbinds.called text_plain (htimeline.intact_of_moment ht)
    (htimeline.intact_of_moment hcall) (htimeline.comparable ht hcall)
  obtain rfl := Option.some.inj (hclosure.symm.trans hc')
  have hgives := h.initializer_gives htask ht hbinds hname hcall hbody
  rw [happly] at hgives
  cases hgives
  rfl

/-- **Returns go where they may.**  In a session whose programs have no static errors, and at every
moment of its runs:

The statements of a program complete normally.  A `return` ends the innermost call under way, of a
function whose body holds it: the statements around it come to its value and execute nothing more,
and the call gives this value, or the receiver if the function is an initializer.  An initializer
completes normally or returns `nil`, wherever its body is executed.  The call of a class gives the
instance that it makes.  An initializer that was bound to an instance gives this instance, whatever
its body does. -/
theorem returns_end_their_calls (h : History s tasks) (htask : s.task? n source = some task) :
    -- the statements of a program
    (∀ k st ss m completion m₁, Moment (task :: tasks) (.program k (st :: ss) m) →
      execute k st m = .done completion m₁ → completion = .normal) ∧
    -- a `return` with the tasks around it
    (∀ k id keyword value m ts v m₁, task.UnderWay (.execute k (.ret id keyword value) m :: ts) →
      execute k (.ret id keyword value) m = .done (.returned v) m₁ →
      ∃ inner i ref args m' outer c m₂,
        ts = inner ++ Task.applyClosure (i + 1) ref args m' :: outer ∧
        Task.EndsCall (.ret id keyword value) v (.execute k (.ret id keyword value) m :: inner)
          i ref args m' c m₂ ∧
        ∃ w, applyClosure (i + 1) ref args m' = .done w m₂ ∧ (c.isInitializer = false → w = v) ∧
          (c.isInitializer = true → m₂.store.get c.frame "this" = .ok w)) ∧
    -- the bodies of initializers
    (∀ id name superclass methods f,
      Text (task :: tasks) (.stmt (.classDecl id name superclass methods)) → f ∈ methods →
      f.name.lexeme = initializerName → ∀ k b parent m completion m₁,
      executeIn k f.body b parent m = .done completion m₁ →
      completion = .normal ∨ completion = .returned .nil) ∧
    -- calls of classes
    (∀ k ref args paren m v m₁, Moment (task :: tasks) (.call k (.classValue ref) args paren m) →
      call k (.classValue ref) args paren m = .done v m₁ →
      v = .object m.store.instances.size ∧ m.store.classOf? m.store.instances.size = none ∧
        m₁.store.classOf? m.store.instances.size = some ref) ∧
    -- initializers that were bound, by whatever task
    ∀ t c inst a, Moment (task :: tasks) t → t.Binds c inst a →
      c.decl.name.lexeme = initializerName →
      (∀ i args m completion m₁,
        Moment (task :: tasks) (.applyClosure (i + 1) (a.bindMethod c (.object inst)).1 args m) →
        executeIn i c.decl.body (.ofList ((c.decl.params.map (·.lexeme)).zip args))
          a.store.frames.size m = .done completion m₁ →
        applyClosure (i + 1) (a.bindMethod c (.object inst)).1 args m = .done (.object inst) m₁) ∧
      ∀ k args paren m v m₁,
        Moment (task :: tasks)
          (.call k (.function (a.bindMethod c (.object inst)).1) args paren m) →
        call k (.function (a.bindMethod c (.object inst)).1) args paren m = .done v m₁ →
        v = .object inst := by
  have htimeline := h.timeline htask
  obtain ⟨hi, hnumbering⟩ := h.numbering_task htask
  refine ⟨fun k st ss m completion m₁ hmoment hdone => ?_,
    fun k id keyword value m ts v m₁ hunder hdone => h.return_ends_call htask hunder hdone,
    fun id name superclass methods f hnode hf hname k b parent m completion m₁ hdone => ?_,
    fun k ref args paren m v m₁ hmoment hdone => ?_,
    fun t c inst a ht hbinds hname => ⟨fun i args m completion m₁ hcall hbody =>
      h.initializer_gives htask ht hbinds hname hcall hbody,
    fun k args paren m v m₁ hmoment hdone =>
      h.initializer_called htask ht hbinds hname hmoment hdone⟩⟩
  · have hnone := hnumbering.program_returns hmoment
    rw [bodyReturns, List.append_eq_nil_iff] at hnone
    have hreturns := execute_returns k st m
    rw [hnone.1] at hreturns
    exact hreturns.completes_normally hdone
  · exact (executeIn_returns k f.body b parent m).returns_nothing
      (hnumbering.initializers hnode f hf hname) hdone
  · exact Task.call_class (htimeline.intact_of_moment hmoment) text_plain hdone

end

/-! ### A return in an initializer -/

/-- The method `init() { { return; } }`. -/
def leavesEarly : Function := ⟨3, nameToken "init", [], [.block 2 [returnStatement]]⟩

/-- The program `class A { init() { { return; } } } A();`. -/
def earlyInstance : List Stmt :=
  [.classDecl 4 (nameToken "A") none [leavesEarly], .expression 7 callOfA]

theorem earlyInstance_task :
    (Session.start {} 0).task? 20
        "class A \x7b init() \x7b \x7b return; \x7d \x7d \x7d A();" =
      some (.program 20 earlyInstance (learntBy earlyInstance)) :=
  task?_start 20 8 (by cbv) (by cbv) (by cbv)

/-- The machine once the class is declared. -/
def earlyDeclared : Machine :=
  (learntBy earlyInstance).declareClass (nameToken "A") none [leavesEarly]

theorem earlyDeclared_callee : evaluate 18 (.var 5 (nameToken "A")) earlyDeclared =
    .done (.classValue 0) earlyDeclared := by
  have hglobal : (learntBy earlyInstance).table[5]? = none := by
    rw [learntBy, Machine.learn_table]
    cbv
  have htable : earlyDeclared.table[5]? = none := hglobal
  rw [evaluate, Machine.lookup, htable]
  rfl

theorem returns_end_their_calls_in_an_initializer :
    (∃ m inner i ref args m' outer c m₂ w,
      Task.UnderWay (.program 20 earlyInstance (learntBy earlyInstance))
        (.execute 10 returnStatement m :: (inner ++ .applyClosure (i + 1) ref args m' :: outer)) ∧
      Task.EndsCall returnStatement .nil (.execute 10 returnStatement m :: inner) i ref args m' c
        m₂ ∧
      applyClosure (i + 1) ref args m' = .done w m₂) ∧
    (∃ m₁, call 18 (.classValue 0) [] ⟨.rightParen, ")", .nil, 1⟩ earlyDeclared =
        .done (.object 0) m₁ ∧ m₁.store.classOf? 0 = some 0) ∧
    ∃ (t : Task) (c : Closure) (a m m₁ : Machine), t.Binds c 0 a ∧
      applyClosure 16 (a.bindMethod c (.object 0)).1 [] m = .done (.object 0) m₁ := by
  obtain ⟨-, hreturn, -, hclass, hinit⟩ :=
    returns_end_their_calls (.start {} 0) earlyInstance_task
  have hmoment : ∀ t, Task.Reaches (.program 20 earlyInstance (learntBy earlyInstance)) t →
      Moment [.program 20 earlyInstance (learntBy earlyInstance)] t :=
    fun t ht => ⟨_, List.mem_cons_self .., ht⟩
  have hmethod : earlyDeclared.beginCall.store.method? 0 initializerName =
      some ⟨leavesEarly, 0, true⟩ := rfl
  have hcall : Task.UnderWay (.program 20 earlyInstance (learntBy earlyInstance))
      (.call 18 (.classValue 0) [] ⟨.rightParen, ")", .nil, 1⟩ earlyDeclared :: _) :=
    .step (.step (.step (.step .start (.next rfl)) .first) .expression)
      (.call earlyDeclared_callee rfl)
  have hinvoke := hcall.step (.invoke rfl (by decide))
  have happly := hinvoke.step (.construct hmethod)
  have hunder := (((((happly.step (.routine rfl)).step .body).step .head).step .block).step
    .body).step .head
  refine ⟨?_, ?_, ?_⟩
  · obtain ⟨inner, i, ref, args, m', outer, c, m₂, hts, hends, w, hdone, _⟩ :=
      hreturn _ _ _ _ _ _ _ _ hunder rfl
    exact ⟨_, inner, i, ref, args, m', outer, c, m₂, w, hts ▸ hunder, hends, hdone⟩
  · obtain ⟨hvalue, _, hclassOf⟩ := hclass _ _ _ _ _ _ _
      (hmoment _ (hcall.reaches _ List.mem_cons_self)) rfl
    exact ⟨_, rfl, hclassOf⟩
  · have hbinds : Task.Binds (.invoke 17 (.classValue 0) [] earlyDeclared.beginCall) _ 0 _ :=
      .construct hmethod
    obtain ⟨hgives, _⟩ :=
      hinit _ _ _ _ (hmoment _ (hinvoke.reaches _ List.mem_cons_self)) hbinds rfl
    exact ⟨_, _, _, _, _, hbinds,
      hgives _ _ _ _ _ (hmoment _ (happly.reaches _ List.mem_cons_self)) rfl⟩

end LoxLang
