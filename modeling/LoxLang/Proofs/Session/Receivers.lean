import LoxLang.Proofs.Session.Places

/-!
# Bound receivers

Binding a method to an instance makes a frame that holds the instance and nothing else, for ever.
Whenever the bound method is called, its body and the functions declared in it run in frames that
lead to this frame through frames of variables only, and the scopes around `this` are counted in the
same way.  So `this` is the instance that the method was bound to.

* `InBody` — the moments in the body of a call, and in the functions that it declares.
* `Store.Leads` — a frame is reached from another one through frames of variables.

Principal results: `InBody.leads`, `receiver_is_permanent`.
-/

namespace LoxLang

/-! ## Bodies -/

/-- Whether a task hands over to the body of a function. -/
def Task.isCall : Task → Bool
  | .call .. | .invoke .. | .applyClosure .. => true
  | _ => false

/-- The frame around what a task does. -/
def Task.ground : Task → Nat
  | .executeIn _ _ _ parent _ => parent
  | t => t.machine.frame

/-- The moments in the body of a call, or in the body of a function that was declared there, whenever
this is called.  The methods of classes that are declared there do not count. -/
inductive InBody (tasks : List Task) (call : Task) : Task → Prop where
  | start {t : Task} : call.Calls t → InBody tasks call t
  | step {t t' : Task} :
      InBody tasks call t → t.isCall = false → t.Calls t' → InBody tasks call t'
  | nested {n k : Nat} {decl : Function} {args : List Value} {m m' : Machine} {t : Task} :
      InBody tasks call (.execute (n + 1) (.function decl) m) →
      Moment tasks (.applyClosure k m.store.closures.size args m') →
      Task.Calls (.applyClosure k m.store.closures.size args m') t → InBody tasks call t

/-- Unless a task is a call, it performs others in its own frame, or in one that it enters. -/
theorem Task.Calls.ground {t t' : Task} (h : t.Calls t') (ht : t.isCall = false) :
    t'.ground = t.ground ∨ ∃ n body b parent m, t = .executeIn (n + 1) body b parent m ∧
      t' = .executeAll n body (m.enter b parent) := by
  obtain ⟨m, hback, hstart⟩ := h.starts
  cases h with
  | invoke | apply | construct | routine => cases ht
  | body => exact .inr ⟨_, _, _, _, _, rfl, rfl⟩
  | block => exact .inl rfl
  | _ => exact .inl ((congrArg Machine.frame hstart).trans hback.frame)

/-! ## The way to a frame -/

/-- A frame is reached from another one by parent links through frames of variables. -/
inductive Store.Leads (s : Store) : Nat → Nat → Prop where
  | here {f : Nat} : Leads s f f
  | up {g parent f : Nat} :
      FrameKind.ordinary.Fits (s.bindings g) → s.parent? g = some parent → Leads s parent f →
      Leads s g f

namespace Store.Leads

variable {s s₁ : Store} {g f : Nat}

theorem grows (h : s.Leads g f) (hgrows : s.Grows s₁) : s₁.Leads g f := by
  induction h with
  | here => exact .here
  | up hk hparent _ ih =>
    have hlt := s.parent?_eq_some_lt hparent
    exact .up (hgrows.kinds _ _ hlt hk) ((hgrows.parents _ hlt).trans hparent) ih

/-- The way is one of so many links. -/
theorem climb (h : s.Leads g f) : ∃ e, s.climb e g = some f ∧ ∀ d < e, ∃ g',
    s.climb d g = some g' ∧ FrameKind.ordinary.Fits (s.bindings g') := by
  induction h with
  | here => exact ⟨0, rfl, fun d hd => absurd hd (Nat.not_lt_zero d)⟩
  | @up g parent f hk hparent _ ih =>
    obtain ⟨e, he, hbefore⟩ := ih
    refine ⟨e + 1, ?_, fun d hd => ?_⟩
    · rw [Store.climb, hparent]
      exact he
    · cases d with
      | zero => exact ⟨g, rfl, hk⟩
      | succ d =>
        obtain ⟨g', hg', hk'⟩ := hbefore d (by omega)
        refine ⟨g', ?_, hk'⟩
        rw [Store.climb, hparent]
        exact hg'

end Store.Leads

/-- **The frames of a body lead to the frame around it.** -/
theorem InBody.leads {tasks : List Task} {call t : Task} {f : Nat} (h : InBody tasks call t)
    (htimeline : Timeline tasks) (hcall : Moment tasks call)
    (hf : ∀ t, call.Calls t → t.ground = f) :
    Moment tasks t ∧ t.machine.store.Leads t.ground f := by
  induction h with
  | start hcalls =>
    refine ⟨hcall.step hcalls, ?_⟩
    rw [hf _ hcalls]
    exact .here
  | @step t t' _ hnot hcalls ih =>
    obtain ⟨hmoment, hleads⟩ := ih
    have hintact := htimeline.intact_of_moment hmoment
    have hgrows := ((hintact.performs text_plain).starts t' hcalls).2
    refine ⟨hmoment.step hcalls, ?_⟩
    obtain hsame | ⟨n, body, b, parent, m, rfl, rfl⟩ := hcalls.ground hnot
    · rw [hsame]
      exact hleads.grows hgrows
    · refine .up ?_ ?_ (hleads.grows hgrows)
      · show FrameKind.ordinary.Fits ((m.store.push b parent).2.bindings m.store.frames.size)
        rw [Store.bindings_push, if_pos rfl]
        exact hintact.2.1
      · show (m.store.push b parent).2.parent? m.store.frames.size = some parent
        rw [Store.parent?_push, if_pos rfl]
  | @nested n k decl args m m' t _ hlater hcalls ih =>
    obtain ⟨hmoment, hleads⟩ := ih
    obtain ⟨hgrows, hclosure⟩ := Task.function_for_ever text_plain
      (htimeline.intact_of_moment hmoment) rfl (htimeline.intact_of_moment hlater)
      (htimeline.comparable hmoment hlater)
    refine ⟨hlater.step hcalls, ?_⟩
    cases hcalls with
    | routine hc =>
      obtain rfl := Option.some.inj (hclosure.symm.trans hc)
      exact hleads.grows hgrows

/-! ## Receivers -/

section

variable {s : Session} {tasks : List Task} {n : Nat} {source : String} {task : Task}

/-- What `this` comes to, given the frame of the receiver. -/
theorem Machine.lookup_this {m : Machine} {d f inst id : Nat} (htable : m.table[id]? = some d)
    (hf : m.store.climb d m.frame = some f)
    (hreceiver : (FrameKind.receiver inst).Fits (m.store.bindings f)) {keyword : Token}
    (hkeyword : keyword.lexeme = "this") : m.lookup id keyword = .done (.object inst) m := by
  have hget : m.store.getAt m.frame d "this" = .ok (.object inst) := by
    rw [Store.getAt, Store.ancestor_eq_ok _ hf]
    simp only [Store.get, FrameKind.receiver_find? hreceiver]
  simp only [Machine.lookup, htable, hkeyword, hget]

/-- `this` is found in the first frame on the way that holds a receiver. -/
theorem Stood.this_eq (htimeline : Timeline tasks) {hi : Nat} (hnumbering : Numbering tasks hi)
    {k id f inst : Nat} {keyword : Token} {m : Machine} {p : Surroundings}
    (hmoment : Moment tasks (.evaluate (k + 1) (.this id keyword) m))
    (hstood : Stood tasks m ⟨.this, id, keyword, p⟩) (hleads : m.store.Leads m.frame f)
    (hf : (FrameKind.receiver inst).Fits (m.store.bindings f)) :
    evaluate (k + 1) (.this id keyword) m = .done (.object inst) m := by
  have hintact := htimeline.intact_of_moment hmoment
  have hkeyword : keyword.lexeme = "this" := by
    have hnode : Text tasks (.expr (.this id keyword)) := by
      apply hintact.1
      rw [Expr.walk]
      exact List.mem_cons_self ..
    exact text_plain _ hnode
  have hkind : ∀ d c g, p.constructs[d]? = some c → m.store.climb d m.frame = some g →
      c.Fits (m.store.bindings g) := by
    intro d c g hc hg
    obtain ⟨g', hg', hmade⟩ := hstood.frames d c hc
    obtain rfl : g' = g := Option.some.inj (hg'.symm.trans hg)
    exact hmade.fits htimeline hmoment (hintact.2.store.climb_lt d hintact.2.frame hg)
  obtain ⟨_, _, _, _, hstands⟩ := hstood.known.stands hnumbering
  obtain ⟨context, hlayers, _, hclass⟩ := hstands.layers
  obtain ⟨d, classId, methods, hd, hin⟩ := hlayers.distance_this (hclass rfl)
  obtain ⟨e, he, hbefore⟩ := hleads.climb
  obtain rfl : d = e := by
    rcases Nat.lt_trichotomy d e with hlt | heq | hgt
    · -- The frame at the distance would be one of variables.
      obtain ⟨g, hg, hordinary⟩ := hbefore d hlt
      obtain ⟨inst', hinst'⟩ := hkind d _ g hin.found hg
      cases FrameKind.eq_ordinary hordinary hinst'
    · exact heq
    · -- The frame of the receiver would be that of another class around the place.
      have hlength : e < p.constructs.length :=
        Nat.lt_trans hgt (List.getElem?_eq_some_iff.1 hin.found).1
      obtain ⟨c, hc⟩ : ∃ c, p.constructs[e]? = some c := ⟨_, List.getElem?_eq_getElem hlength⟩
      have hfits := hkind e c f hc he
      cases c with
      | receiver id' methods' => exact absurd hc (hin.first e id' methods' hgt)
      | block id' | routine id' => cases FrameKind.eq_ordinary hfits hf
      | base id' =>
        obtain ⟨ref, href⟩ := hfits
        obtain ⟨_, hbase, _⟩ := FrameKind.receiver_of_this href (FrameKind.receiver_find? hf)
        cases hbase
  have htable : m.table[id]? = some d := hstood.table.trans (by
    show distance? keyword.lexeme p.scopes = some d
    rw [hkeyword]
    exact hd)
  rw [evaluate]
  exact m.lookup_this htable he hf hkeyword

/-- **A bound receiver is permanent.**  A method is bound to an instance at some moment of a session,
by reading a property, by `super`, or by calling a class.  Whenever the bound method is called, in
that run or in a later one, `this` is that instance in its body and in the functions declared there.
The frame of the receiver holds the instance and nothing else at all later moments, and likewise the
frame of `super` that the declaration of a class makes holds the superclass and nothing else. -/
theorem receiver_is_permanent (h : History s tasks) (htask : s.task? n source = some task) :
    (∀ t c inst a, Moment (task :: tasks) t → t.Binds c inst a →
      (∀ t', Moment (task :: tasks) t' → a.store.frames.size < t'.machine.store.frames.size →
        t'.machine.store.bindings a.store.frames.size =
          Bindings.empty.put "this" (.object inst)) ∧
      ∀ i args m' k id keyword m,
        Moment (task :: tasks) (.applyClosure i (a.bindMethod c (.object inst)).1 args m') →
        InBody (task :: tasks) (.applyClosure i (a.bindMethod c (.object inst)).1 args m')
          (.evaluate (k + 1) (.this id keyword) m) →
        task.Reaches (.evaluate (k + 1) (.this id keyword) m) →
        evaluate (k + 1) (.this id keyword) m = .done (.object inst) m) ∧
    ∀ t id name ref methods a, Moment (task :: tasks) t → t.Extends id name ref methods a →
      ∀ t', Moment (task :: tasks) t' → a.store.frames.size < t'.machine.store.frames.size →
        t'.machine.store.bindings a.store.frames.size =
          Bindings.empty.put "super" (.classValue ref) := by
  have htimeline := h.timeline htask
  obtain ⟨hi, hnumbering⟩ := h.numbering_task htask
  refine ⟨fun t c inst a ht hbinds => ⟨fun t' ht' hf => ?_, ?_⟩,
    fun t id name ref methods a ht hextends t' ht' hf => ?_⟩
  · exact (hbinds.for_ever text_plain (htimeline.intact_of_moment ht)
      (htimeline.intact_of_moment ht') (htimeline.comparable ht ht') hf).1
  · intro i args m' k id keyword m hcall hbody hreaches
    have hintact := htimeline.intact_of_moment ht
    have hclosure := hbinds.called text_plain hintact (htimeline.intact_of_moment hcall)
      (htimeline.comparable ht hcall)
    have hground : ∀ t₁, Task.Calls (.applyClosure i (a.bindMethod c (.object inst)).1 args m') t₁ →
        t₁.ground = a.store.frames.size := by
      intro t₁ hcalls
      cases hcalls with
      | routine hc =>
        cases Option.some.inj (hclosure.symm.trans hc)
        rfl
    obtain ⟨hmoment, hleads⟩ := hbody.leads htimeline hcall hground
    obtain ⟨p, hstood⟩ := h.stood_this htask hreaches
    have hlt : a.store.frames.size < m.store.frames.size := by
      obtain ⟨e, he, _⟩ := hleads.climb
      have hm := htimeline.intact_of_moment hmoment
      exact hm.2.store.climb_lt e hm.2.frame he
    have hframe := (hbinds.for_ever text_plain hintact (htimeline.intact_of_moment hmoment)
      (htimeline.comparable ht hmoment) hlt).1
    exact hstood.this_eq htimeline hnumbering hmoment hleads hframe
  · exact (hextends.for_ever text_plain (htimeline.intact_of_moment ht)
      (htimeline.intact_of_moment ht') (htimeline.comparable ht ht') hf).1

end

/-! ### An initializer -/

/-- The method `init() { this; }`. -/
def namesItself : Function :=
  ⟨3, nameToken "init", [], [.expression 2 (.this 1 ⟨.kwThis, "this", .nil, 1⟩)]⟩

/-- The expression `A()`. -/
def callOfA : Expr := .call 6 (.var 5 (nameToken "A")) ⟨.rightParen, ")", .nil, 1⟩ []

/-- The program `class A { init() { this; } } A();`. -/
def oneInstance : List Stmt :=
  [.classDecl 4 (nameToken "A") none [namesItself], .expression 7 callOfA]

theorem oneInstance_task :
    (Session.start {} 0).task? 12 "class A \x7b init() \x7b this; \x7d \x7d A();" =
      some (.program 12 oneInstance (learntBy oneInstance)) :=
  task?_start 12 8 (by cbv) (by cbv) (by cbv)

/-- The machine once the class is declared. -/
def classDeclared : Machine := (learntBy oneInstance).declareClass (nameToken "A") none [namesItself]

theorem classDeclared_callee : evaluate 10 (.var 5 (nameToken "A")) classDeclared =
    .done (.classValue 0) classDeclared := by
  have hglobal : (learntBy oneInstance).table[5]? = none := by
    rw [learntBy, Machine.learn_table]
    cbv
  have htable : classDeclared.table[5]? = none := hglobal
  rw [evaluate, Machine.lookup, htable]
  rfl

theorem receiver_is_permanent_in_an_initializer :
    ∃ t c a m, Moment [.program 12 oneInstance (learntBy oneInstance)] t ∧ t.Binds c 0 a ∧
      m.store.bindings a.store.frames.size = Bindings.empty.put "this" (.object 0) ∧
      evaluate 4 (.this 1 ⟨.kwThis, "this", .nil, 1⟩) m = .done (.object 0) m := by
  have hinvoke : Task.Reaches (.program 12 oneInstance (learntBy oneInstance))
      (.invoke 9 (.classValue 0) [] classDeclared.beginCall) :=
    .step (.step (.step (.step (.step .refl (.next rfl)) .first) .expression)
      (.call classDeclared_callee rfl)) (.invoke rfl (by decide))
  have hmethod : classDeclared.beginCall.store.method? 0 initializerName =
      some ⟨namesItself, 0, true⟩ := rfl
  have hcall := hinvoke.step (.construct hmethod)
  have hthis := (((hcall.step (.routine rfl)).step .body).step .head).step .expression
  have hmoment : ∀ t, Task.Reaches (.program 12 oneInstance (learntBy oneInstance)) t →
      Moment [.program 12 oneInstance (learntBy oneInstance)] t :=
    fun t ht => ⟨_, List.mem_cons_self .., ht⟩
  obtain ⟨hframe, hvalue⟩ := (receiver_is_permanent (.start {} 0) oneInstance_task).1 _ _ _ _
    (hmoment _ hinvoke) (.construct hmethod)
  refine ⟨_, _, _, _, hmoment _ hinvoke, .construct hmethod, hframe _ (hmoment _ hthis) (by decide),
    hvalue _ _ _ _ _ _ _ (hmoment _ hcall) ?_ hthis⟩
  exact .step (.step (.step (.start (.routine rfl)) rfl .body) rfl .head) rfl .expression

end LoxLang
