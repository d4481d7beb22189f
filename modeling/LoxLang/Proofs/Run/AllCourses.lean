import LoxLang.Proofs.Bindings
import LoxLang.Proofs.Run.Course
import LoxLang.Proofs.Store.Frames

/-!
# The courses of all tasks

Every task takes a course.  The functions that run a program are opened here: what else is said about
all tasks of a run follows from what their changes preserve, by induction from the tasks that a task
performs to the task.

* `Task.Goes` — what comes of a task from a machine on.

Principal results: `Task.exists_course`, `Task.Respects.follows`, `Task.induction`.
-/

namespace LoxLang

/-! ## What operations find -/

/-- What is found at a distance is found in a frame. -/
theorem Store.get_of_getAt {s : Store} {frame : Nat} {distance : Int} {name : String} {v : Value}
    (h : s.getAt frame distance name = .ok v) : ∃ found, s.get found name = .ok v := by
  unfold getAt at h
  split at h
  · exact ⟨_, h⟩
  · cases h

/-- A property that is a method is one of the class of the instance. -/
theorem Store.property?_eq_method {s : Store} {ref : Nat} {name : String} {c : Closure}
    (h : s.property? ref name = some (.method c)) :
    ∃ inst, s.instances[ref]? = some inst ∧ s.method? inst.classRef name = some c := by
  unfold property? at h
  split at h
  · cases h
  · rename_i inst hinst
    split at h
    · cases h
    · obtain ⟨c', hc', heq⟩ := Option.map_eq_some_iff.1 h
      cases heq
      exact ⟨inst, hinst, hc'⟩

/-- A variable that is found is found in a frame, and the machine stays as it is. -/
theorem Machine.lookup_eq_done {m m₁ : Machine} {id : Nat} {name : Token} {v : Value}
    (h : m.lookup id name = .done v m₁) :
    m₁ = m ∧ ∃ frame, m.store.get frame name.lexeme = .ok v := by
  unfold lookup raise at h
  split at h
  · split at h
    · rename_i hget
      cases h
      exact ⟨rfl, Store.get_of_getAt hget⟩
    · cases h
    · cases h
  · split at h
    · rename_i hget
      cases h
      exact ⟨rfl, _, hget⟩
    · cases h

/-- A superclass that is found is a class that its name is bound to. -/
theorem Machine.evalSuperclass_eq_done {m m₁ : Machine} {s : Superclass} {base : Option Nat}
    (h : m.evalSuperclass (some s) = .done base m₁) :
    m₁ = m ∧ ∃ ref frame, base = some ref ∧
      m.store.get frame s.name.lexeme = .ok (.classValue ref) := by
  simp only [evalSuperclass] at h
  cases hv : m.lookup s.id s.name with
  | done v m₂ =>
    rw [hv, Outcome.bind_done] at h
    obtain ⟨rfl, frame, hget⟩ := lookup_eq_done hv
    cases v with
    | classValue ref =>
      cases h
      exact ⟨rfl, ref, frame, rfl, hget⟩
    | _ => cases h
  | _ =>
    rw [hv] at h
    cases h

namespace Task

/-! ## Composing courses -/

/-- What comes of a task from a machine on, with the values `K` at hand, is an outcome; on the way all
tasks of `S` are performed. -/
def Goes {α : Type} (t : Task) (S : Task → Prop) (values : α → Set Value) (m : Machine)
    (K : Set Value) (o : Outcome α) : Prop :=
  ∃ cs r, t.Course m K cs r ∧ (∀ c, S c → c ∈ cs) ∧ o.machine? = r.map Prod.fst ∧
    ∀ m₁ K₁, r = some (m₁, K₁) → o.gives values ⊆ K₁

namespace Goes

variable {α β : Type} {t : Task} {S S' : Task → Prop} {values : α → Set Value}
  {values' : β → Set Value} {m m₁ : Machine} {K W : Set Value} {o : Outcome α}

/-- Nothing more is performed. -/
theorem done {v : α} (hv : values v ⊆ K) : t.Goes (fun _ => False) values m K (.done v m) := by
  refine ⟨[], some (m, K), .ends, fun _ hc => hc.elim, rfl, fun m₁ K₁ heq => ?_⟩
  cases heq
  exact hv

theorem raised {e : RuntimeError} : t.Goes (fun _ => False) values m K (.raised e m) :=
  ⟨[], some (m, K), .ends, fun _ hc => hc.elim, rfl, fun _ _ _ => Set.empty_subset _⟩

theorem fault {reason : Fault} : t.Goes (fun _ => False) values m K (.fault reason m) :=
  ⟨[], some (m, K), .ends, fun _ hc => hc.elim, rfl, fun _ _ _ => Set.empty_subset _⟩

theorem of (h : t.Goes S values m K o) (hS : ∀ c, S' c → S c) : t.Goes S' values m K o := by
  obtain ⟨cs, r, hcourse, hmem, hend⟩ := h
  exact ⟨cs, r, hcourse, fun c hc => hmem c (hS c hc), hend⟩

/-- A change comes first. -/
theorem does (hdoes : t.Does K m m₁ W) (h : t.Goes S values m₁ (W ∪ K) o) :
    t.Goes S values m K o := by
  obtain ⟨cs, r, hcourse, hrest⟩ := h
  exact ⟨cs, r, .does hdoes hcourse, hrest⟩

/-- A change that comes to a value, in the end. -/
theorem last {v : Value} (hdoes : t.Does K m m₁ {v}) :
    t.Goes (fun _ => False) (fun v => {v}) m K (.done v m₁) :=
  .does hdoes (.done (Set.subset_union_left ..))

/-- One task that everything is left to. -/
theorem ending {c : Task} (hcalls : t.Calls c) (hstart : c.machine = t.opens m)
    (hgiven : c.given ⊆ K) (hend : c.end? = o.machine?) (hresults : c.results = o.gives values) :
    t.Goes (· = c) values m K (o.ending t.closes) := by
  have hgives : (o.ending t.closes).gives values = c.results := by
    rw [hresults]
    cases o <;> rfl
  have hmachine : (o.ending t.closes).machine? = c.end?.map t.closes := by
    rw [hend]
    cases o <;> rfl
  cases he : c.end? with
  | none =>
    refine ⟨[c], none, .waits hcalls hstart hgiven he, fun c' hc' => List.mem_singleton.2 hc', ?_,
      fun _ _ heq => by cases heq⟩
    rw [hmachine, he]
    rfl
  | some e =>
    refine ⟨[c], _, .performs hcalls hstart hgiven he .ends, fun c' hc' => List.mem_singleton.2 hc',
      ?_, fun m₁ K₁ heq => ?_⟩
    · rw [hmachine, he]
      rfl
    · cases heq
      rw [hgives]
      exact Set.subset_union_left ..

theorem part {c : Task} (hcloses : ∀ e, t.closes e = e) (hcalls : t.Calls c)
    (hstart : c.machine = t.opens m) (hgiven : c.given ⊆ K) (hend : c.end? = o.machine?)
    (hresults : c.results = o.gives values) : t.Goes (· = c) values m K o := by
  have hsame : o.ending t.closes = o := by
    cases o <;> simp [hcloses]
  exact hsame ▸ ending hcalls hstart hgiven hend hresults

/-- Going on after a value. -/
theorem bind {f : α → Machine → Outcome β} {T : α → Machine → Task → Prop}
    (h : t.Goes S values m K o)
    (hf : ∀ v m₁ K₁, o = .done v m₁ → values v ⊆ K₁ → K ⊆ K₁ →
      t.Goes (T v m₁) values' m₁ K₁ (f v m₁)) :
    t.Goes (fun c => S c ∨ ∃ v m₁, o = .done v m₁ ∧ T v m₁ c) values' m K (o.bind f) := by
  obtain ⟨cs, r, hcourse, hmem, hend, hgives⟩ := h
  cases o with
  | done v m₁ =>
    obtain ⟨⟨_, K₁⟩, rfl, rfl⟩ := Option.map_eq_some_iff.1 hend.symm
    obtain ⟨cs', r', hcourse', hmem', hrest⟩ := hf v _ K₁ rfl (hgives _ K₁ rfl) hcourse.subset
    refine ⟨cs ++ cs', r', hcourse.append hcourse', fun c hc => ?_, hrest⟩
    rw [List.mem_append]
    obtain hc | ⟨v', m', heq, hc⟩ := hc
    · exact .inl (hmem c hc)
    · cases heq
      exact .inr (hmem' c hc)
  | raised | fault | exhausted =>
    refine ⟨cs, r, hcourse, fun c hc => ?_, hend, fun _ _ _ => Set.empty_subset _⟩
    obtain hc | ⟨v', m', heq, hc⟩ := hc
    · exact hmem c hc
    · cases heq

end Goes

/-! ## Operations -/

section

variable {t : Task} {m : Machine} {K : Set Value}

/-- Reading a variable. -/
theorem goes_get {frame : Nat} {name : String} {v : Value} (h : m.store.get frame name = .ok v) :
    t.Goes (fun _ => False) (fun v => {v}) m K (.done v m) :=
  .last (.reads h)

theorem goes_applied {operator : Token} {result : Option (Except OperandError Value)}
    (hplain : ∀ v, result = some (.ok v) → v.IsPlain) :
    t.Goes (fun _ => False) (fun v => {v}) m K (m.applied operator result) := by
  unfold Machine.applied
  split
  · exact .last (.computes (hplain _ rfl))
  · exact .raised
  · exact .fault

theorem goes_lookup (id : Nat) (name : Token) :
    t.Goes (fun _ => False) (fun v => {v}) m K (m.lookup id name) := by
  unfold Machine.lookup
  split
  · split
    · rename_i hget
      obtain ⟨frame, hfound⟩ := Store.get_of_getAt hget
      exact goes_get hfound
    · exact .fault
    · exact .raised
  · split
    · rename_i hget
      exact goes_get hget
    · exact .raised

theorem goes_assignIn {n id : Nat} {name : Token} {e : Expr} {m₀ : Machine} {v : Value}
    (ht : t = .evaluate n (.assign id name e) m₀) (hv : v ∈ K) (frame : Nat) :
    t.Goes (fun _ => False) (fun v => {v}) m K (m.assignIn frame name v) := by
  unfold Machine.assignIn
  split
  · rename_i hhas
    refine .does (.assigns ht hhas hv) (.done ?_)
    rintro _ rfl
    exact .inr hv
  · exact .raised

theorem goes_assign {n id : Nat} {name : Token} {e : Expr} {m₀ : Machine} {v : Value}
    (ht : t = .evaluate n (.assign id name e) m₀) (hv : v ∈ K) :
    t.Goes (fun _ => False) (fun v => {v}) m K (m.assign id name v) := by
  unfold Machine.assign
  split
  · split
    · exact .fault
    · exact goes_assignIn ht hv _
  · exact goes_assignIn ht hv _

theorem goes_getProperty {v : Value} (hv : v ∈ K) (name : Token) :
    t.Goes (fun _ => False) (fun v => {v}) m K (m.getProperty name v) := by
  unfold Machine.getProperty
  split
  · split
    · rename_i hfield
      exact .last (.readsField hfield)
    · rename_i hmethod
      obtain ⟨inst, _, hc⟩ := Store.property?_eq_method hmethod
      exact .last (.binds hc (.inl ⟨⟨_, rfl⟩, hv⟩))
    · exact .raised
  · exact .raised

theorem goes_superMethod (id : Nat) (method : Token) :
    t.Goes (fun _ => False) (fun v => {v}) m K (m.superMethod id method) := by
  unfold Machine.superMethod
  split
  · exact .fault
  · split
    · exact .fault
    · split
      · exact .fault
      · rename_i hreceiver
        split
        · split
          · rename_i hc
            exact .last (.binds hc (.inr (Store.get_of_getAt hreceiver)))
          · exact .raised
        · exact .fault

theorem goes_evalSuperclass (superclass : Option Superclass) :
    t.Goes (fun _ => False) (fun base => {v | ∃ ref, base = some ref ∧ v = .classValue ref}) m K
      (m.evalSuperclass superclass) := by
  cases superclass with
  | none => exact .done fun v ⟨_, heq, _⟩ => by cases heq
  | some s =>
    refine ((goes_lookup s.id s.name).bind (T := fun _ _ _ => False)
      fun v m₁ K₁ _ hv _ => ?_).of fun _ hc => hc.elim
    split
    · refine .done ?_
      rintro _ ⟨ref, heq, rfl⟩
      cases heq
      exact hv rfl
    · exact .raised

end

/-! ## Tasks -/

section

variable {n : Nat} {m : Machine} {t : Task} {K : Set Value}

/-- An expression is evaluated. -/
theorem goes_evaluate {e : Expr} (hcloses : ∀ e, t.closes e = e) (hopens : t.opens m = m)
    (hcalls : t.Calls (.evaluate n e m)) :
    t.Goes (· = .evaluate n e m) (fun v => {v}) m K (LoxLang.evaluate n e m) :=
  .part hcloses hcalls hopens.symm (Set.empty_subset _) rfl rfl

/-- Arguments are evaluated. -/
theorem goes_evaluateAll {es : List Expr} (hcloses : ∀ e, t.closes e = e) (hopens : t.opens m = m)
    (hcalls : t.Calls (.evaluateAll n es m)) :
    t.Goes (· = .evaluateAll n es m) (fun vs => {v | v ∈ vs}) m K (LoxLang.evaluateAll n es m) :=
  .part hcloses hcalls hopens.symm (Set.empty_subset _) rfl rfl

/-- A statement is executed. -/
theorem goes_execute {s : Stmt} (hcloses : ∀ e, t.closes e = e) (hopens : t.opens m = m)
    (hcalls : t.Calls (.execute n s m)) :
    t.Goes (· = .execute n s m) Completion.values m K (LoxLang.execute n s m) :=
  .part hcloses hcalls hopens.symm (Set.empty_subset _) rfl rfl

/-- The body of a function is executed. -/
theorem goes_executeIn {ref parent : Nat} {args : List Value} {body : List Stmt}
    {b : Bindings Value} (hcalls : Calls (.applyClosure (n + 1) ref args m)
      (.executeIn n body b parent m)) (hgiven : given (.executeIn n body b parent m) ⊆ K) :
    Goes (.applyClosure (n + 1) ref args m) (· = .executeIn n body b parent m) Completion.values m K
      (LoxLang.executeIn n body b parent m) :=
  .part (fun _ => rfl) hcalls rfl hgiven rfl rfl

theorem evaluate_goes (e : Expr) :
    Goes (.evaluate (n + 1) e m) (Calls (.evaluate (n + 1) e m)) (fun v => {v}) m ∅
      (LoxLang.evaluate (n + 1) e m) := by
  cases e with
  | literal id value =>
    simp only [LoxLang.evaluate]
    exact (Goes.last (.computes value.value_isPlain)).of fun c hc => by cases hc
  | grouping id inner =>
    simp only [LoxLang.evaluate]
    refine (goes_evaluate (fun _ => rfl) rfl .grouping).of fun c hc => ?_
    cases hc
    rfl
  | unary id token operand =>
    simp only [LoxLang.evaluate]
    refine .of (.bind (goes_evaluate (fun _ => rfl) rfl .operand) fun v m₁ K₁ _ _ _ =>
      goes_applied fun _ hw => Token.applyUnary?_isPlain hw) fun c hc => ?_
    cases hc
    exact .inl rfl
  | binary id left token right =>
    simp only [LoxLang.evaluate]
    refine .of (.bind (goes_evaluate (fun _ => rfl) rfl .left) fun a m₁ K₁ ha _ _ =>
      (goes_evaluate (fun _ => rfl) rfl (.right ha)).bind fun b m₂ K₂ _ _ _ =>
        goes_applied fun _ hw => Token.applyBinary?_isPlain hw) fun c hc => ?_
    cases hc with
    | left => exact .inl rfl
    | right heq => exact .inr ⟨_, _, heq, .inl rfl⟩
  | logical id left token right =>
    simp only [LoxLang.evaluate]
    refine .of (.bind (goes_evaluate (fun _ => rfl) rfl .logicalLeft)
      (T := fun v m₁ c => token.settles v = false ∧ c = .evaluate n right m₁)
      fun a m₁ K₁ ha hv _ => ?_) fun c hc => ?_
    · cases hsettles : token.settles a with
      | true => exact (Goes.done hv).of fun c hc => by cases hc.1
      | false =>
        exact (goes_evaluate (fun _ => rfl) rfl (.logicalRight ha hsettles)).of fun c hc => hc.2
    · cases hc with
      | logicalLeft => exact .inl rfl
      | logicalRight heq hsettles => exact .inr ⟨_, _, heq, hsettles, rfl⟩
  | var id name =>
    simp only [LoxLang.evaluate]
    exact (goes_lookup id name).of fun c hc => by cases hc
  | assign id name value =>
    simp only [LoxLang.evaluate]
    refine .of (.bind (goes_evaluate (fun _ => rfl) rfl .assigned) fun v m₁ K₁ _ hv _ =>
      goes_assign rfl (hv rfl)) fun c hc => ?_
    cases hc
    exact .inl rfl
  | call id callee paren args =>
    simp only [LoxLang.evaluate]
    refine .of (.bind (goes_evaluate (fun _ => rfl) rfl .callee) fun f m₁ K₁ hf hcallee _ =>
      .bind (goes_evaluateAll (fun _ => rfl) rfl (.arguments hf)) fun vs m₂ K₂ hvs hargs hkept =>
        Goes.part (c := .call n f vs paren m₂) (fun _ => rfl) (.call hf hvs) rfl ?_ rfl rfl)
      fun c hc => ?_
    · rintro _ (rfl | hmem)
      · exact hkept (hcallee rfl)
      · exact hargs hmem
    · cases hc with
      | callee => exact .inl rfl
      | arguments heq => exact .inr ⟨_, _, heq, .inl rfl⟩
      | call heq heq₁ => exact .inr ⟨_, _, heq, .inr ⟨_, _, heq₁, rfl⟩⟩
  | get id object name =>
    simp only [LoxLang.evaluate]
    refine .of (.bind (goes_evaluate (fun _ => rfl) rfl .object) fun v m₁ K₁ _ hv _ =>
      goes_getProperty (hv rfl) name) fun c hc => ?_
    cases hc
    exact .inl rfl
  | set id object name value =>
    simp only [LoxLang.evaluate]
    refine .of (.bind (goes_evaluate (fun _ => rfl) rfl .target)
      (T := fun v m₁ c => (∃ ref, v = .object ref) ∧ c = .evaluate n value m₁)
      fun target m₁ K₁ htarget _ _ => ?_) fun c hc => ?_
    · cases target with
      | object ref =>
        refine .of (.bind (goes_evaluate (fun _ => rfl) rfl (.field htarget))
          fun v m₂ K₂ _ hv _ => Goes.does (.setsField (hv rfl)) (.done ?_)) fun c hc => .inl hc.2
        exact hv.trans (Set.subset_union_right ..)
      | _ =>
        refine Goes.raised.of fun c hc => ?_
        obtain ⟨⟨ref, heq⟩, _⟩ := hc
        cases heq
    · cases hc with
      | target => exact .inl rfl
      | field heq => exact .inr ⟨_, _, heq, ⟨_, rfl⟩, rfl⟩
  | this id keyword =>
    simp only [LoxLang.evaluate]
    exact (goes_lookup id keyword).of fun c hc => by cases hc
  | super id keyword method =>
    simp only [LoxLang.evaluate]
    exact (goes_superMethod id method).of fun c hc => by cases hc

theorem evaluateAll_goes (es : List Expr) :
    Goes (.evaluateAll (n + 1) es m) (Calls (.evaluateAll (n + 1) es m)) (fun vs => {v | v ∈ vs}) m
      ∅ (LoxLang.evaluateAll (n + 1) es m) := by
  cases es with
  | nil =>
    simp only [LoxLang.evaluateAll]
    exact (Goes.done fun v hv => by cases hv).of fun c hc => by cases hc
  | cons e es =>
    simp only [LoxLang.evaluateAll]
    refine .of (.bind (goes_evaluate (fun _ => rfl) rfl .firstArgument) fun v m₁ K₁ hfirst hv _ =>
      .bind (goes_evaluateAll (fun _ => rfl) rfl (.nextArguments hfirst))
        fun vs m₂ K₂ _ hvs hkept => .done ?_) fun c hc => ?_
    · intro w hw
      obtain rfl | hw := List.mem_cons.1 hw
      · exact hkept (hv rfl)
      · exact hvs hw
    · cases hc with
      | firstArgument => exact .inl rfl
      | nextArguments heq => exact .inr ⟨_, _, heq, .inl rfl⟩

theorem call_goes (callee : Value) (args : List Value) (paren : Token) :
    Goes (.call (n + 1) callee args paren m) (Calls (.call (n + 1) callee args paren m))
      (fun v => {v}) m (given (.call (n + 1) callee args paren m))
      (LoxLang.call (n + 1) callee args paren m) := by
  simp only [LoxLang.call]
  split
  · rename_i harity
    refine Goes.raised.of fun c hc => ?_
    cases hc with
    | invoke harity' _ =>
      rw [harity] at harity'
      cases harity'
  · rename_i arity harity
    split
    · rename_i hne
      refine Goes.raised.of fun c hc => ?_
      cases hc with
      | invoke harity' _ =>
        rw [harity] at harity'
        exact absurd (Option.some.inj harity').symm hne
    · rename_i heq
      obtain rfl := Decidable.of_not_not heq
      split
      · rename_i hreached
        refine Goes.raised.of fun c hc => ?_
        cases hc with
        | invoke _ hdepth => omega
      · rename_i hdepth
        refine (Goes.ending (t := .call (n + 1) callee args paren m)
          (.invoke harity (by omega)) rfl (Set.Subset.refl _) rfl rfl).of fun c hc => ?_
        cases hc
        rfl

theorem invoke_goes (callee : Value) (args : List Value) :
    Goes (.invoke (n + 1) callee args m) (Calls (.invoke (n + 1) callee args m)) (fun v => {v}) m
      (given (.invoke (n + 1) callee args m)) (LoxLang.invoke (n + 1) callee args m) := by
  cases callee with
  | native ref =>
    simp only [LoxLang.invoke]
    split
    · exact (Goes.does .ticks (.last (.computes (v := .num _) trivial))).of fun c hc => by cases hc
    · exact Goes.fault.of fun c hc => by cases hc
  | function ref =>
    simp only [LoxLang.invoke]
    refine (Goes.part (c := .applyClosure n ref args m) (fun _ => rfl) .apply rfl
      (Set.Subset.refl _) rfl rfl).of fun c hc => ?_
    cases hc
    rfl
  | classValue ref =>
    simp only [LoxLang.invoke, Store.method?_addInstance]
    split
    · rename_i hnone
      refine (Goes.last (.instantiates (.inl rfl))).of fun c hc => ?_
      cases hc with
      | construct hsome =>
        rw [hsome] at hnone
        cases hnone
    · rename_i init hinit
      have hmade := (m.store.method?_addInstance ref ref initializerName).trans hinit
      refine .of (.does (.instantiates (.inl rfl)) (.does
        (.binds hmade (.inl ⟨⟨_, rfl⟩, .inl rfl⟩))
        (.bind (Goes.part (fun _ => rfl) (.construct hinit) rfl ?_ rfl rfl)
          fun _ m₁ K₁ _ _ hkept => .done ?_))) fun c hc => ?_
      · rintro _ (rfl | hmem)
        · exact .inl rfl
        · exact .inr (.inr (.inr hmem))
      · rintro _ rfl
        exact hkept (.inr (.inl rfl))
      · cases hc with
        | construct hsome =>
          cases hsome.symm.trans hinit
          exact .inl rfl
  | nil | bool | num | str | object =>
    simp only [LoxLang.invoke]
    exact Goes.fault.of fun c hc => by cases hc

theorem applyClosure_goes (ref : Nat) (args : List Value) :
    Goes (.applyClosure (n + 1) ref args m) (Calls (.applyClosure (n + 1) ref args m))
      (fun v => {v}) m (given (.applyClosure (n + 1) ref args m))
      (LoxLang.applyClosure (n + 1) ref args m) := by
  simp only [LoxLang.applyClosure]
  split
  · rename_i hnone
    refine Goes.fault.of fun c hc => ?_
    cases hc with
    | routine hsome =>
      rw [hnone] at hsome
      cases hsome
  · rename_i closure hclosure
    have hgiven : given (.executeIn n closure.decl.body
        (.ofList ((closure.decl.params.map (·.lexeme)).zip args)) closure.frame m) ⊆
          given (.applyClosure (n + 1) ref args m) := by
      rintro v ⟨name, hfind⟩
      exact .inr (Bindings.mem_of_find?_ofList hfind)
    refine .of (.bind (goes_executeIn (.routine hclosure) hgiven) (T := fun _ _ _ => False)
      fun completion m₁ K₁ _ hvalue _ => ?_) fun c hc => ?_
    · split
      · split
        · rename_i hreceiver
          exact goes_get hreceiver
        · exact .fault
      · cases completion with
        | normal => exact .last (.computes (v := .nil) trivial)
        | returned v => exact .done hvalue
    · cases hc with
      | routine hclosure' =>
        rw [hclosure] at hclosure'
        cases hclosure'
        exact .inl rfl

theorem execute_goes (s : Stmt) :
    Goes (.execute (n + 1) s m) (Calls (.execute (n + 1) s m)) Completion.values m ∅
      (LoxLang.execute (n + 1) s m) := by
  cases s with
  | malformed =>
    simp only [LoxLang.execute]
    exact Goes.fault.of fun c hc => by cases hc
  | expression id value =>
    simp only [LoxLang.execute]
    refine .of (.bind (goes_evaluate (fun _ => rfl) rfl .expression) fun v m₁ K₁ _ _ _ =>
      .done (Set.empty_subset _)) fun c hc => ?_
    cases hc
    exact .inl rfl
  | print id value =>
    simp only [LoxLang.execute]
    refine .of (.bind (goes_evaluate (fun _ => rfl) rfl .print) fun v m₁ K₁ _ _ _ =>
      .does .prints (.done (Set.empty_subset _))) fun c hc => ?_
    cases hc
    exact .inl rfl
  | declare id name value =>
    cases value with
    | none =>
      simp only [LoxLang.execute]
      exact (Goes.does (.computes (v := .nil) trivial) (.does (.declares rfl (.inl rfl))
        (.done (Set.empty_subset _)))).of fun c hc => by cases hc
    | some value =>
      simp only [LoxLang.execute]
      refine .of (.bind (goes_evaluate (fun _ => rfl) rfl .initial) fun v m₁ K₁ _ hv _ =>
        .does (.declares rfl (hv rfl)) (.done (Set.empty_subset _))) fun c hc => ?_
      cases hc
      exact .inl rfl
  | block id body =>
    simp only [LoxLang.execute]
    refine (Goes.part (c := .executeIn n body .empty m.frame m) (fun _ => rfl) .block rfl ?_ rfl
      rfl).of fun c hc => ?_
    · rintro v ⟨name, hfind⟩
      cases hfind
    · cases hc
      rfl
  | conditional id cond thenBranch elseBranch =>
    simp only [LoxLang.execute]
    refine .of (.bind (goes_evaluate (fun _ => rfl) rfl .condition)
      (T := fun v m₁ c => v.truthy = true ∧ c = .execute n thenBranch m₁ ∨
        v.truthy = false ∧ ∃ branch, elseBranch = some branch ∧ c = .execute n branch m₁)
      fun v m₁ K₁ hcond _ _ => ?_) fun c hc => ?_
    · cases htruthy : v.truthy with
      | true =>
        refine (goes_execute (fun _ => rfl) rfl (.thenBranch hcond htruthy)).of fun c hc => ?_
        obtain ⟨_, hc⟩ | ⟨hfalse, _⟩ := hc
        · exact hc
        · cases hfalse
      | false =>
        cases elseBranch with
        | none =>
          refine (Goes.done (Set.empty_subset _)).of fun c hc => ?_
          obtain ⟨htrue, _⟩ | ⟨_, branch, hbranch, _⟩ := hc
          · cases htrue
          · cases hbranch
        | some branch =>
          refine (goes_execute (fun _ => rfl) rfl (.elseBranch hcond htruthy)).of fun c hc => ?_
          obtain ⟨htrue, _⟩ | ⟨_, branch', hbranch, hc⟩ := hc
          · cases htrue
          · cases hbranch
            exact hc
    · cases hc with
      | condition => exact .inl rfl
      | thenBranch heq htruthy => exact .inr ⟨_, _, heq, .inl ⟨htruthy, rfl⟩⟩
      | elseBranch heq htruthy => exact .inr ⟨_, _, heq, .inr ⟨htruthy, _, rfl, rfl⟩⟩
  | loop id cond body =>
    simp only [LoxLang.execute]
    refine (Goes.part (c := .repeatWhile n cond body m) (fun _ => rfl) .loop rfl
      (Set.empty_subset _) rfl rfl).of fun c hc => ?_
    cases hc
    rfl
  | function decl =>
    simp only [LoxLang.execute]
    exact (Goes.does (.declaresFunction rfl) (.done (Set.empty_subset _))).of
      fun c hc => by cases hc
  | ret id keyword value =>
    cases value with
    | none =>
      simp only [LoxLang.execute]
      exact (Goes.does (.computes (v := .nil) trivial) (.done (Set.subset_union_left ..))).of
        fun c hc => by cases hc
    | some value =>
      simp only [LoxLang.execute]
      refine .of (.bind (goes_evaluate (fun _ => rfl) rfl .ret) fun v m₁ K₁ _ hv _ => .done hv)
        fun c hc => ?_
      cases hc
      exact .inl rfl
  | classDecl id name superclass methods =>
    simp only [LoxLang.execute]
    refine .of (.bind (goes_evalSuperclass superclass) (T := fun _ _ _ => False)
      fun base m₁ K₁ hbase hheld _ => .does (.declaresClass rfl ?_ fun ref heq =>
        hheld ⟨ref, heq, rfl⟩) (.done (Set.empty_subset _))) fun c hc => by cases hc
    cases superclass with
    | none =>
      cases hbase
      rfl
    | some s =>
      obtain ⟨_, ref, _, rfl, _⟩ := Machine.evalSuperclass_eq_done hbase
      rfl

theorem executeIn_goes (body : List Stmt) (b : Bindings Value) (parent : Nat) :
    Goes (.executeIn (n + 1) body b parent m) (Calls (.executeIn (n + 1) body b parent m))
      Completion.values m (given (.executeIn (n + 1) body b parent m))
      (LoxLang.executeIn (n + 1) body b parent m) := by
  simp only [LoxLang.executeIn]
  refine (Goes.ending (t := .executeIn (n + 1) body b parent m)
    (c := .executeAll n body (m.enter b parent)) .body rfl (Set.empty_subset _) rfl rfl).of
    fun c hc => ?_
  cases hc
  rfl

theorem executeAll_goes (body : List Stmt) :
    Goes (.executeAll (n + 1) body m) (Calls (.executeAll (n + 1) body m)) Completion.values m ∅
      (LoxLang.executeAll (n + 1) body m) := by
  cases body with
  | nil =>
    simp only [LoxLang.executeAll]
    exact (Goes.done (Set.empty_subset _)).of fun c hc => by cases hc
  | cons s ss =>
    simp only [LoxLang.executeAll]
    refine .of (.bind (goes_execute (fun _ => rfl) rfl .head)
      (T := fun completion m₁ c => completion = .normal ∧ c = .executeAll n ss m₁)
      fun completion m₁ K₁ hfirst hvalue _ => ?_) fun c hc => ?_
    · cases completion with
      | normal =>
        exact (Goes.part (c := .executeAll n ss m₁) (fun _ => rfl) (.tail hfirst) rfl
          (Set.empty_subset _) rfl rfl).of fun c hc => hc.2
      | returned v => exact (Goes.done hvalue).of fun c hc => by cases hc.1
    · cases hc with
      | head => exact .inl rfl
      | tail heq => exact .inr ⟨_, _, heq, rfl, rfl⟩

theorem repeatWhile_goes (cond : Expr) (body : Stmt) :
    Goes (.repeatWhile (n + 1) cond body m) (Calls (.repeatWhile (n + 1) cond body m))
      Completion.values m ∅ (LoxLang.repeatWhile (n + 1) cond body m) := by
  simp only [LoxLang.repeatWhile]
  refine .of (.bind (goes_evaluate (fun _ => rfl) rfl .loopCondition)
    (T := fun v m₁ c => v.truthy = true ∧ (c = .execute n body m₁ ∨ ∃ completion m₂,
      LoxLang.execute n body m₁ = .done completion m₂ ∧ completion = .normal ∧
        c = .repeatWhile n cond body m₂))
    fun v m₁ K₁ hcond _ _ => ?_) fun c hc => ?_
  · cases htruthy : v.truthy with
    | false => exact (Goes.done (Set.empty_subset _)).of fun c hc => by cases hc.1
    | true =>
      refine .of (.bind (goes_execute (fun _ => rfl) rfl (.loopBody hcond htruthy))
        (T := fun completion m₂ c => completion = .normal ∧ c = .repeatWhile n cond body m₂)
        fun completion m₂ K₂ hbody hvalue _ => ?_) fun c hc => hc.2
      cases completion with
      | normal =>
        exact (Goes.part (c := .repeatWhile n cond body m₂) (fun _ => rfl)
          (.again hcond htruthy hbody) rfl (Set.empty_subset _) rfl rfl).of fun c hc => hc.2
      | returned v => exact (Goes.done hvalue).of fun c hc => by cases hc.1
  · cases hc with
    | loopCondition => exact .inl rfl
    | loopBody heq htruthy => exact .inr ⟨_, _, heq, htruthy, .inl rfl⟩
    | again heq htruthy heq₁ => exact .inr ⟨_, _, heq, htruthy, .inr ⟨_, _, heq₁, rfl, rfl⟩⟩

theorem program_goes (stmts : List Stmt) :
    Goes (.program n stmts m) (Calls (.program n stmts m)) (fun _ => ∅) m ∅
      (executeProgram n stmts m) := by
  cases stmts with
  | nil => exact (Goes.done (Set.empty_subset _)).of fun c hc => by cases hc
  | cons s ss =>
    refine .of (.bind (goes_execute (fun _ => rfl) rfl .first) fun _ m₁ K₁ hfirst _ _ =>
      Goes.part (c := .program n ss m₁) (fun _ => rfl) (.next hfirst) rfl (Set.empty_subset _) rfl
        rfl) fun c hc => ?_
    cases hc with
    | first => exact .inl rfl
    | next heq => exact .inr ⟨_, _, heq, rfl⟩

end

/-- **Every task that has an allowance takes a course**: it performs all that it calls on the way, and
in the end it leaves what it has come to. -/
theorem exists_course (t : Task) (h : t.isSpent = false) :
    ∃ cs r, t.Course t.machine t.given cs r ∧ (∀ c, t.Calls c → c ∈ cs) ∧
      t.end? = r.map Prod.fst ∧ ∀ m K, r = some (m, K) → t.results ⊆ K := by
  cases t with
  | program n stmts m => exact program_goes stmts
  | execute n s m =>
    cases n with
    | zero => cases h
    | succ n => exact execute_goes s
  | executeIn n body b parent m =>
    cases n with
    | zero => cases h
    | succ n => exact executeIn_goes body b parent
  | executeAll n body m =>
    cases n with
    | zero => cases h
    | succ n => exact executeAll_goes body
  | repeatWhile n cond body m =>
    cases n with
    | zero => cases h
    | succ n => exact repeatWhile_goes cond body
  | evaluate n e m =>
    cases n with
    | zero => cases h
    | succ n => exact evaluate_goes e
  | evaluateAll n es m =>
    cases n with
    | zero => cases h
    | succ n => exact evaluateAll_goes es
  | call n callee args paren m =>
    cases n with
    | zero => cases h
    | succ n => exact call_goes callee args paren
  | invoke n callee args m =>
    cases n with
    | zero => cases h
    | succ n => exact invoke_goes callee args
  | applyClosure n ref args m =>
    cases n with
    | zero => cases h
    | succ n => exact applyClosure_goes ref args

/-! ## What holds of every task -/

section

variable {t c : Task} {I : Machine → Set Value → Prop} {R : Machine → Machine → Prop}

theorem end?_of_isSpent (h : t.isSpent = true) : t.end? = none := by
  cases t with
  | program => cases h
  | _ =>
    obtain rfl := eq_of_beq h
    rfl

theorem Calls.isSpent_eq (h : t.Calls c) : t.isSpent = false := by
  cases h <;> rfl

/-- **What every step of a task preserves holds wherever the task comes to.** -/
theorem Respects.follows (h : t.Respects I R) (hI : I t.machine t.given) :
    t.Follows I R t.machine t.Calls t.end? t.results := by
  cases hspent : t.isSpent with
  | true =>
    have hnone : ∀ c, ¬ t.Calls c := by
      intro c hcalls
      rw [hcalls.isSpent_eq] at hspent
      cases hspent
    rw [end?_of_isSpent hspent]
    exact ⟨fun c hc => absurd hc (hnone c), by rintro e ⟨⟩, fun c _ hc => absurd hc (hnone c),
      fun c _ hc => absurd hc (hnone c)⟩
  | false =>
    obtain ⟨cs, r, hcourse, hmem, hend, hresults⟩ := t.exists_course hspent
    obtain ⟨hstarts, hleaves, hends, hordered⟩ := h.along hcourse hI hresults
    rw [hend]
    exact ⟨fun c hc => hstarts c (hmem c hc), hleaves, fun c e hc => hends c e (hmem c hc),
      fun c c' hc hc' => hordered c c' (hmem c hc) (hmem c' hc')⟩

/-- A task that does not end has no allowance, or it performs a task that does not end. -/
theorem exists_calls_of_end?_eq_none (h : t.end? = none) (hspent : t.isSpent = false) :
    ∃ c, t.Calls c ∧ c.end? = none := by
  obtain ⟨cs, r, hcourse, _, hend, _⟩ := t.exists_course hspent
  rw [h] at hend
  obtain rfl := Option.map_eq_none_iff.1 hend.symm
  exact hcourse.exists_calls

/-- The size of a task goes down to those it performs. -/
def size : Task → Nat
  | .program n stmts _ => n + stmts.length + 1
  | .execute n .. | .executeIn n .. | .executeAll n .. | .repeatWhile n .. | .evaluate n ..
  | .evaluateAll n .. | .call n .. | .invoke n .. | .applyClosure n .. => n

theorem Calls.size_lt (h : t.Calls c) : c.size < t.size := by
  cases h <;> simp only [size, List.length_cons] <;> omega

/-- **A property of tasks holds of all if it passes from the tasks that a task performs to the task.** -/
theorem induction {P : Task → Prop} (h : ∀ t, (∀ c, t.Calls c → P c) → P t) (t : Task) : P t :=
  h t fun c _ => induction h c
termination_by t.size
decreasing_by
  rename_i hcalls
  exact hcalls.size_lt

end

end Task

end LoxLang
