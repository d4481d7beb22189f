import LoxLang.Proofs.Run.Declarations
import LoxLang.Proofs.Tree.Copies

/-!
# Copies on the machine

Two machines are copies of each other if they differ only in the code of their functions, where one
has copies of the other's, and in the numbers that distances are filed under.  Frames, classes,
instances and so all values are the same.  Every operation of the machine does the same on both.

Principal results: `CopyOutcome.bind`, `CopyMachine.lookup`, `CopyMachine.superMethod`,
`CopyMachine.declareClass`, `CopyStore.chainText_eq`.
-/

namespace LoxLang

/-! ## Stores -/

/-- A function and its copy, declared in the same frame. -/
structure CopyClosure (K : Copying) (c c' : Closure) : Prop where
  decl : CopyFunction K c.decl c'.decl
  frame : c'.frame = c.frame
  isInitializer : c'.isInitializer = c.isInitializer

/-- Stores that are the same but for the code of their functions. -/
structure CopyStore (K : Copying) (s s' : Store) : Prop where
  frames : s'.frames = s.frames
  size : s'.closures.size = s.closures.size
  closures : ∀ i : Nat, Option.Rel (CopyClosure K) s.closures[i]? s'.closures[i]?
  classes : s'.classes = s.classes
  instances : s'.instances = s.instances
  natives : s'.natives = s.natives

theorem CopyFunction.params_lexemes {K : Copying} {f f' : Function} (h : CopyFunction K f f') :
    f'.params.map (·.lexeme) = f.params.map (·.lexeme) := by
  cases h with
  | mk _ => exact Token.map_moved_lexeme _ _

theorem CopyFunction.params_length {K : Copying} {f f' : Function} (h : CopyFunction K f f') :
    f'.params.length = f.params.length := by
  simpa only [List.length_map] using congrArg List.length h.params_lexemes

theorem CopyFunction.body {K : Copying} {f f' : Function} (h : CopyFunction K f f') :
    CopyBody K f.body f'.body := by
  cases h with
  | mk hbody => exact hbody

namespace CopyStore

variable {K : Copying} {s s' : Store}

/-! ### Questions -/

theorem bindings_eq (h : CopyStore K s s') (f : Nat) : s'.bindings f = s.bindings f := by
  unfold Store.bindings
  rw [h.frames]

theorem has_eq (h : CopyStore K s s') (f : Nat) (name : String) : s'.has f name = s.has f name := by
  unfold Store.has
  rw [h.bindings_eq]

theorem get_eq (h : CopyStore K s s') (f : Nat) (name : String) : s'.get f name = s.get f name := by
  unfold Store.get
  rw [h.bindings_eq]

theorem parent?_eq (h : CopyStore K s s') (f : Nat) : s'.parent? f = s.parent? f := by
  unfold Store.parent?
  rw [h.frames]

theorem ancestor_eq (h : CopyStore K s s') (f : Nat) (distance : Int) :
    s'.ancestor f distance = s.ancestor f distance := by
  unfold Store.ancestor
  rw [Store.climb_congr h.parent?_eq]

theorem getAt_eq (h : CopyStore K s s') (f : Nat) (distance : Int) (name : String) :
    s'.getAt f distance name = s.getAt f distance name := by
  unfold Store.getAt
  rw [h.ancestor_eq]
  cases s.ancestor f distance with
  | ok found => exact h.get_eq found name
  | error e => rfl

theorem method? (h : CopyStore K s s') (ref : Nat) (name : String) :
    Option.Rel (CopyClosure K) (s.method? ref name) (s'.method? ref name) := by
  unfold Store.method? Store.findMethod?
  rw [Store.findMethodIn_congr h.classes]
  cases s.findMethodIn (ref + 1) ref name with
  | none => exact .none
  | some method => exact h.closures method

theorem arity?_eq (h : CopyStore K s s') (v : Value) : s'.arity? v = s.arity? v := by
  cases v with
  | native ref =>
    unfold Store.arity?
    rw [h.natives]
  | function ref =>
    have hclosure := h.closures ref
    simp only [Store.arity?, Store.closureArity]
    generalize s.closures[ref]? = c? at hclosure
    generalize s'.closures[ref]? = c?' at hclosure
    cases hclosure with
    | none => rfl
    | some hc => exact congrArg some hc.decl.params_length
  | classValue ref =>
    have hmethod := h.method? ref initializerName
    simp only [Store.arity?, Store.classArity]
    generalize s.method? ref initializerName = c? at hmethod
    generalize s'.method? ref initializerName = c?' at hmethod
    cases hmethod with
    | none => rfl
    | some hc => exact congrArg some hc.decl.params_length
  | _ => rfl

theorem text_eq (h : CopyStore K s s') (v : Value) : s'.text v = s.text v := by
  cases v with
  | function ref =>
    have hclosure := h.closures ref
    simp only [Store.text, Store.closureName]
    generalize s.closures[ref]? = c? at hclosure
    generalize s'.closures[ref]? = c?' at hclosure
    cases hclosure with
    | none => rfl
    | some hc => exact congrArg ("<fn " ++ · ++ ">") hc.decl.name_lexeme
  | classValue ref => simp only [Store.text, Store.className, h.classes]
  | object ref => simp only [Store.text, Store.className, h.classes, h.instances]
  | bool b => cases b <;> rfl
  | _ => rfl

theorem chainOf_eq (h : CopyStore K s s') : ∀ limit f, s'.chainOf limit f = s.chainOf limit f
  | 0, _ => rfl
  | limit + 1, f => by
    unfold Store.chainOf
    rw [h.parent?_eq]
    cases s.parent? f with
    | none => rfl
    | some parent => exact congrArg (f :: ·) (h.chainOf_eq limit parent)

/-- Variables are printed alike. -/
theorem chainText_eq (h : CopyStore K s s') (f : Nat) : s'.chainText f = s.chainText f := by
  have htext : s'.text = s.text := funext h.text_eq
  have hframe : s'.frameText = s.frameText := by
    funext index b
    unfold Store.frameText
    rw [htext]
  have hbindings : s'.bindings = s.bindings := funext h.bindings_eq
  unfold Store.chainText Store.chain
  rw [h.chainOf_eq, hframe, hbindings]

/-! ### Changes -/

theorem define (h : CopyStore K s s') (f : Nat) (name : String) (v : Value) :
    CopyStore K (s.define f name v) (s'.define f name v) :=
  { h with frames := by simp only [Store.define, h.frames] }

theorem push (h : CopyStore K s s') (b : Bindings Value) (parent : Nat) :
    (s'.push b parent).1 = (s.push b parent).1 ∧
      CopyStore K (s.push b parent).2 (s'.push b parent).2 :=
  ⟨congrArg Array.size h.frames, { h with frames := by simp only [Store.push, h.frames] }⟩

theorem addClosure (h : CopyStore K s s') {c c' : Closure} (hc : CopyClosure K c c') :
    (s'.addClosure c').1 = (s.addClosure c).1 ∧
      CopyStore K (s.addClosure c).2 (s'.addClosure c').2 := by
  refine ⟨h.size, { h with size := ?_, closures := fun i => ?_ }⟩
  · simp only [Store.addClosure, Array.size_push, h.size]
  · simp only [Store.addClosure, Array.getElem?_push, h.size]
    split
    · exact .some hc
    · exact h.closures i

theorem addClass (h : CopyStore K s s') (info : ClassInfo) :
    (s'.addClass info).1 = (s.addClass info).1 ∧
      CopyStore K (s.addClass info).2 (s'.addClass info).2 :=
  ⟨congrArg Array.size h.classes, { h with classes := by simp only [Store.addClass, h.classes] }⟩

theorem addInstance (h : CopyStore K s s') (ref : Nat) :
    (s'.addInstance ref).1 = (s.addInstance ref).1 ∧
      CopyStore K (s.addInstance ref).2 (s'.addInstance ref).2 :=
  ⟨congrArg Array.size h.instances,
    { h with instances := by simp only [Store.addInstance, h.instances] }⟩

theorem setField (h : CopyStore K s s') (ref : Nat) (name : String) (v : Value) :
    CopyStore K (s.setField ref name v) (s'.setField ref name v) :=
  { h with instances := by simp only [Store.setField, h.instances] }

theorem bind (h : CopyStore K s s') {c c' : Closure} (hc : CopyClosure K c c') (receiver : Value) :
    (s'.bind c' receiver).1 = (s.bind c receiver).1 ∧
      CopyStore K (s.bind c receiver).2 (s'.bind c' receiver).2 := by
  obtain ⟨hframe, hpush⟩ := h.push (Bindings.empty.put "this" receiver) c.frame
  unfold Store.bind
  rw [hc.frame]
  exact hpush.addClosure ⟨hc.decl, hframe, hc.isInitializer⟩

/-- The closures of methods, made one after the other. -/
theorem foldl_addMethod (frame : Nat) : ∀ {fs fs' : List Function} {s s' : Store},
    CopyStore K s s' → CopyMethods K fs fs' → ∀ table : Bindings Nat,
      (fs'.foldl (addMethod frame) (table, s')).1 = (fs.foldl (addMethod frame) (table, s)).1 ∧
        CopyStore K (fs.foldl (addMethod frame) (table, s)).2
          (fs'.foldl (addMethod frame) (table, s')).2
  | [], _, _, _, h, hfs, _ => by
    cases hfs
    exact ⟨rfl, h⟩
  | f :: fs, _, s, s', h, hfs, table => by
    cases hfs with
    | @cons _ f' _ fs' hf hfs =>
      have hc : CopyClosure K ⟨f, frame, f.name.lexeme = initializerName⟩
          ⟨f', frame, f'.name.lexeme = initializerName⟩ :=
        ⟨hf, rfl, by simp only [hf.name_lexeme]⟩
      have hput : addMethod frame (table, s') f' = (table.put f.name.lexeme s.closures.size,
          (s'.addClosure ⟨f', frame, f'.name.lexeme = initializerName⟩).2) := by
        simp only [addMethod, hf.name_lexeme, h.size]
      rw [List.foldl_cons, List.foldl_cons, hput]
      exact foldl_addMethod frame (h.addClosure hc).2 hfs _

end CopyStore

/-! ## Machines -/

/-- Machines with copies of the same functions.  References that belong together have the same
distance, and the copy may have printed something before. -/
structure CopyMachine (K : Copying) (printed : Array String) (m m' : Machine) : Prop where
  store : CopyStore K m.store m'.store
  frame : m'.frame = m.frame
  depth : m'.depth = m.depth
  maxDepth : m'.maxDepth = m.maxDepth
  table : ∀ id id', K.Id id id' → m'.table[id']? = m.table[id]?
  output : m'.output = printed ++ m.output
  clock : m'.clock = m.clock

/-- The error at a token some lines further down. -/
def RuntimeError.moved (k : Nat) (e : RuntimeError) : RuntimeError := ⟨e.token.moved k, e.cause⟩

@[simp] theorem RuntimeError.moved_zero (e : RuntimeError) : e.moved 0 = e := rfl

/-- What comes out of a task and of its copy.  An error is blamed on a node, by `B`, and moved with
the tokens of that node. -/
inductive CopyOutcome {α : Type} (K : Copying) (printed : Array String)
    (B : Nat → RuntimeError → Prop) : Outcome α → Outcome α → Prop where
  | done {v : α} {m m' : Machine} : CopyMachine K printed m m' →
      CopyOutcome K printed B (.done v m) (.done v m')
  | raised {id : Nat} {e : RuntimeError} {m m' : Machine} : B id e → CopyMachine K printed m m' →
      CopyOutcome K printed B (.raised e m) (.raised (e.moved (K.shift id)) m')
  | fault {reason : Fault} {m m' : Machine} : CopyMachine K printed m m' →
      CopyOutcome K printed B (.fault reason m) (.fault reason m')
  | exhausted : CopyOutcome K printed B .exhausted .exhausted

namespace CopyOutcome

variable {α β : Type} {K : Copying} {printed : Array String} {B : Nat → RuntimeError → Prop}
  {o o' : Outcome α}

/-- Going on after the same value. -/
theorem bind {f f' : α → Machine → Outcome β} (h : CopyOutcome K printed B o o')
    (hf : ∀ {v : α} {m m' : Machine}, o = .done v m → CopyMachine K printed m m' →
      CopyOutcome K printed B (f v m) (f' v m')) :
    CopyOutcome K printed B (o.bind f) (o'.bind f') := by
  cases h with
  | done hm => exact hf rfl hm
  | raised hb hm => exact .raised hb hm
  | fault hm => exact .fault hm
  | exhausted => exact .exhausted

theorem ending {k k' : Machine → Machine} (h : CopyOutcome K printed B o o')
    (hk : ∀ {m m' : Machine}, CopyMachine K printed m m' → CopyMachine K printed (k m) (k' m')) :
    CopyOutcome K printed B (o.ending k) (o'.ending k') := by
  cases h with
  | done hm => exact .done (hk hm)
  | raised hb hm => exact .raised hb (hk hm)
  | fault hm => exact .fault (hk hm)
  | exhausted => exact .exhausted

end CopyOutcome

namespace CopyMachine

variable {K : Copying} {printed : Array String} {B : Nat → RuntimeError → Prop} {m m' : Machine}
  {id id' : Nat}

theorem withStore (h : CopyMachine K printed m m') {s s' : Store} (hs : CopyStore K s s') :
    CopyMachine K printed { m with store := s } { m' with store := s' } :=
  { h with store := hs }

theorem define (h : CopyMachine K printed m m') (name : String) (v : Value) :
    CopyMachine K printed (m.define name v) (m'.define name v) := by
  refine { h with store := ?_ }
  show CopyStore K _ (m'.store.define m'.frame name v)
  rw [h.frame]
  exact h.store.define m.frame name v

theorem print (h : CopyMachine K printed m m') (v : Value) :
    CopyMachine K printed (m.print v) (m'.print v) :=
  { h with output := by simp only [Machine.print, h.output, h.store.text_eq, Array.push_append] }

theorem enter (h : CopyMachine K printed m m') (b : Bindings Value) (parent : Nat) :
    CopyMachine K printed (m.enter b parent) (m'.enter b parent) :=
  { h with
    store := (h.store.push b parent).2
    frame := (h.store.push b parent).1 }

theorem leaveTo (h : CopyMachine K printed m m') (frame : Nat) :
    CopyMachine K printed (m.leaveTo frame) (m'.leaveTo frame) :=
  { h with frame := rfl }

theorem tick (h : CopyMachine K printed m m') : CopyMachine K printed m.tick m'.tick :=
  { h with clock := congrArg Clock.rest h.clock }

theorem beginCall (h : CopyMachine K printed m m') :
    CopyMachine K printed m.beginCall m'.beginCall :=
  { h with depth := by simp only [Machine.beginCall, h.depth] }

theorem endCall (h : CopyMachine K printed m m') : CopyMachine K printed m.endCall m'.endCall :=
  { h with depth := by simp only [Machine.endCall, h.depth] }

theorem bindMethod (h : CopyMachine K printed m m') {c c' : Closure} (hc : CopyClosure K c c')
    (receiver : Value) :
    (m'.bindMethod c' receiver).1 = (m.bindMethod c receiver).1 ∧
      CopyMachine K printed (m.bindMethod c receiver).2 (m'.bindMethod c' receiver).2 :=
  ⟨(h.store.bind hc receiver).1, h.withStore (h.store.bind hc receiver).2⟩

theorem declareFunction (h : CopyMachine K printed m m') {f f' : Function}
    (hf : CopyFunction K f f') :
    CopyMachine K printed (m.declareFunction f) (m'.declareFunction f') := by
  have hc : CopyClosure K ⟨f, m.frame, false⟩ ⟨f', m'.frame, false⟩ := ⟨hf, h.frame, rfl⟩
  obtain ⟨href, hstore⟩ := h.store.addClosure hc
  have hdefine := (h.withStore hstore).define f.name.lexeme
    (.function (m.store.addClosure ⟨f, m.frame, false⟩).1)
  unfold Machine.declareFunction
  rw [hf.name_lexeme]
  simp only [href]
  exact hdefine

theorem methodFrame (h : CopyMachine K printed m m') (base : Option Nat) :
    (m'.methodFrame base).1 = (m.methodFrame base).1 ∧
      CopyMachine K printed (m.methodFrame base).2 (m'.methodFrame base).2 := by
  cases base with
  | none => exact ⟨h.frame, h⟩
  | some ref =>
    obtain ⟨hsize, hpush⟩ := h.store.push (Bindings.empty.put "super" (.classValue ref)) m.frame
    refine ⟨hsize, { h with store := ?_ }⟩
    show CopyStore K _ (m'.store.push _ m'.frame).2
    rw [h.frame]
    exact hpush

theorem declareClass (h : CopyMachine K printed m m') {name name' : Token}
    (hname : name'.lexeme = name.lexeme) (base : Option Nat) {fs fs' : List Function}
    (hfs : CopyMethods K fs fs') :
    CopyMachine K printed (m.declareClass name base fs) (m'.declareClass name' base fs') := by
  obtain ⟨hframe, hm⟩ := (h.define name.lexeme .nil).methodFrame base
  unfold Machine.declareClass
  simp only [hname, hframe, addMethods_eq]
  generalize (m.define name.lexeme .nil).methodFrame base = inner at hm
  generalize (m'.define name.lexeme .nil).methodFrame base = inner' at hm
  obtain ⟨htable, hstore⟩ := hm.store.foldl_addMethod inner.1 hfs .empty
  generalize fs.foldl (addMethod inner.1) (.empty, inner.2.store) = added at htable hstore
  generalize fs'.foldl (addMethod inner.1) (.empty, inner'.2.store) = added' at htable hstore
  obtain ⟨href, hclass⟩ := hstore.addClass ⟨name.lexeme, base, added.1⟩
  rw [htable, href]
  exact (hm.withStore hclass).define _ _

/-! ## Operations that may fail -/

theorem raise {α : Type} (h : CopyMachine K printed m m') {t : Token} {cause : Cause}
    (hb : B id ⟨t, cause⟩) :
    CopyOutcome K printed B (m.raise t cause : Outcome α) (m'.raise (t.moved (K.shift id)) cause) :=
  .raised hb h

theorem applied (h : CopyMachine K printed m m') {t : Token}
    {r : Option (Except OperandError Value)} (hb : ∀ e, r = some (.error e) → B id ⟨t, .operands e⟩) :
    CopyOutcome K printed B (m.applied t r) (m'.applied (t.moved (K.shift id)) r) :=
  match r with
  | some (.ok _) => .done h
  | some (.error e) => h.raise (hb e rfl)
  | none => .fault h

theorem lookup (h : CopyMachine K printed m m') (hid : K.Id id id') {name : Token}
    (hb : ∀ e m₁, m.lookup id name = .raised e m₁ → B id e) :
    CopyOutcome K printed B (m.lookup id name) (m'.lookup id' (name.moved (K.shift id))) := by
  unfold Machine.lookup at hb ⊢
  rw [h.table id id' hid]
  cases hd : m.table[id]? with
  | none =>
    simp only [hd] at hb
    simp only [h.store.get_eq, Token.moved_lexeme]
    cases hv : m.store.get Store.globalFrame name.lexeme with
    | ok v => exact .done h
    | error e =>
      simp only [hv] at hb
      exact h.raise (hb _ _ rfl)
  | some distance =>
    simp only [hd] at hb
    simp only [h.store.getAt_eq, h.frame, Token.moved_lexeme]
    cases hv : m.store.getAt m.frame distance name.lexeme with
    | ok v => exact .done h
    | error e =>
      cases e with
      | offChain => exact .fault h
      | notFound | notDeclared =>
        simp only [hv] at hb
        exact h.raise (hb _ _ rfl)

theorem assignIn (h : CopyMachine K printed m m') {frame : Nat} {name : Token} {v : Value}
    (hb : ∀ e m₁, m.assignIn frame name v = .raised e m₁ → B id e) :
    CopyOutcome K printed B (m.assignIn frame name v)
      (m'.assignIn frame (name.moved (K.shift id)) v) := by
  unfold Machine.assignIn at hb ⊢
  simp only [h.store.has_eq, Token.moved_lexeme]
  cases hhas : m.store.has frame name.lexeme with
  | true => exact .done (h.withStore (h.store.define frame name.lexeme v))
  | false =>
    simp only [hhas, Bool.false_eq_true, if_false] at hb
    exact h.raise (hb _ _ rfl)

theorem assign (h : CopyMachine K printed m m') (hid : K.Id id id') {name : Token} {v : Value}
    (hb : ∀ e m₁, m.assign id name v = .raised e m₁ → B id e) :
    CopyOutcome K printed B (m.assign id name v) (m'.assign id' (name.moved (K.shift id)) v) := by
  unfold Machine.assign at hb ⊢
  rw [h.table id id' hid]
  cases hd : m.table[id]? with
  | none =>
    simp only [hd] at hb
    exact h.assignIn hb
  | some distance =>
    simp only [hd] at hb
    simp only [h.store.ancestor_eq, h.frame]
    cases hf : m.store.ancestor m.frame distance with
    | error e => exact .fault h
    | ok frame =>
      simp only [hf] at hb
      exact h.assignIn hb

theorem getProperty (h : CopyMachine K printed m m') {name : Token} {v : Value}
    (hb : ∀ e m₁, m.getProperty name v = .raised e m₁ → B id e) :
    CopyOutcome K printed B (m.getProperty name v)
      (m'.getProperty (name.moved (K.shift id)) v) := by
  cases v with
  | object ref =>
    simp only [Machine.getProperty, Store.property?, h.store.instances, Token.moved_lexeme] at hb ⊢
    cases hi : m.store.instances[ref]? with
    | none =>
      simp only [hi] at hb
      exact h.raise (hb _ _ rfl)
    | some inst =>
      simp only [hi] at hb
      simp only
      cases hf : inst.fields.find? name.lexeme with
      | some value => exact .done h
      | none =>
        simp only [hf] at hb
        have hmethod := h.store.method? inst.classRef name.lexeme
        simp only
        generalize m.store.method? inst.classRef name.lexeme = c? at hb hmethod
        generalize m'.store.method? inst.classRef name.lexeme = c?' at hmethod
        cases hmethod with
        | none => exact h.raise (hb _ _ rfl)
        | some hc =>
          obtain ⟨href, hm⟩ := h.bindMethod hc (.object ref)
          simp only [Option.map_some, href]
          exact .done hm
  | _ => exact h.raise (hb _ _ rfl)

theorem superMethod (h : CopyMachine K printed m m') (hid : K.Id id id') {method : Token}
    (hb : ∀ e m₁, m.superMethod id method = .raised e m₁ → B id e) :
    CopyOutcome K printed B (m.superMethod id method)
      (m'.superMethod id' (method.moved (K.shift id))) := by
  unfold Machine.superMethod at hb ⊢
  rw [h.table id id' hid]
  cases hd : m.table[id]? with
  | none => exact .fault h
  | some distance =>
    simp only [hd] at hb
    simp only [h.store.getAt_eq, h.frame, Token.moved_lexeme]
    cases hs : m.store.getAt m.frame distance "super" with
    | error e => exact .fault h
    | ok superclass =>
      simp only [hs] at hb
      simp only
      cases ht : m.store.getAt m.frame ((distance : Int) - 1) "this" with
      | error e => exact .fault h
      | ok receiver =>
        simp only [ht] at hb
        simp only
        cases superclass with
        | classValue ref =>
          have hmethod := h.store.method? ref method.lexeme
          simp only at hb ⊢
          generalize m.store.method? ref method.lexeme = c? at hb hmethod
          generalize m'.store.method? ref method.lexeme = c?' at hmethod
          cases hmethod with
          | none => exact h.raise (hb _ _ rfl)
          | some hc =>
            obtain ⟨href, hm⟩ := h.bindMethod hc receiver
            simp only [href]
            exact .done hm
        | _ => exact .fault h

theorem evalSuperclass (h : CopyMachine K printed m m') {base base' : Option Superclass}
    (hbase : CopySuperclass K base base')
    (hb : ∀ s, base = some s → ∀ e m₁, m.evalSuperclass base = .raised e m₁ → B s.id e) :
    CopyOutcome K printed B (m.evalSuperclass base) (m'.evalSuperclass base') := by
  cases hbase with
  | none => exact .done h
  | @some id id' name hid =>
    have hb' := hb _ rfl
    simp only [Machine.evalSuperclass] at hb' ⊢
    refine (h.lookup hid fun e m₁ hraised => ?_).bind fun {v _ _} hdone h₁ => ?_
    · rw [hraised] at hb'
      exact hb' e m₁ rfl
    · rw [hdone] at hb'
      cases v with
      | classValue ref => exact .done h₁
      | _ => exact h₁.raise (hb' _ _ rfl)

end CopyMachine

end LoxLang
