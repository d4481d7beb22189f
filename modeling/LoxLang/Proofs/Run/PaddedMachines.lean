import LoxLang.Proofs.Run.Padding

/-!
# Machines with blank frames

`PadMachines` relates the machines of two runs of the same code, one of which makes blank frames
that the other does without, and `PadOutcome` relates what comes out of two tasks: the same value,
the same error or fault, or nothing in both.  Every operation of a machine does the same on both.

Principal results: `PadOutcome.bind`, `PadMachines.At.lookup`, `PadMachines.At.superMethod`,
`PadMachines.At.declareClass`.
-/

namespace LoxLang

section

variable (T T' : Distances)

/-- The machines of two runs at the same moment. -/
structure PadMachines (P : FramePairs) (m m' : Machine) : Prop where
  heap : PadHeap T T' ⟨P, m.store, m'.store⟩
  depth : m'.depth = m.depth
  maxDepth : m'.maxDepth = m.maxDepth
  table : m.table = T
  table' : m'.table = T'
  output : m'.output = m.output
  clock : m'.clock = m.clock

/-- Machines whose current frames lie in chains with these links. -/
structure PadMachines.At (P : FramePairs) (pads : List Pad) (m m' : Machine) : Prop where
  machines : PadMachines T T' P m m'
  chain : PadChain ⟨P, m.store, m'.store⟩ pads m.frame m'.frame

/-- Machines in a later world than `W`, back in the frames `f` and `f'`. -/
structure PadMachines.Since (W : PadWorld) (f f' : Nat) (P : FramePairs) (m m' : Machine) :
    Prop where
  machines : PadMachines T T' P m m'
  grows : W.Grows ⟨P, m.store, m'.store⟩
  frame : m.frame = f
  frame' : m'.frame = f'

/-- What comes out of two tasks that started in the world `W` and the frames `f` and `f'`. -/
inductive PadOutcome {α : Type} (W : PadWorld) (f f' : Nat) (Post : PadWorld → α → Prop) :
    Outcome α → Outcome α → Prop where
  | done {P : FramePairs} {v : α} {m m' : Machine} :
      PadMachines.Since T T' W f f' P m m' → Post ⟨P, m.store, m'.store⟩ v →
      PadOutcome W f f' Post (.done v m) (.done v m')
  | raised {P : FramePairs} {e : RuntimeError} {m m' : Machine} :
      PadMachines.Since T T' W f f' P m m' → PadOutcome W f f' Post (.raised e m) (.raised e m')
  | fault {P : FramePairs} {reason : Fault} {m m' : Machine} :
      PadMachines.Since T T' W f f' P m m' →
      PadOutcome W f f' Post (.fault reason m) (.fault reason m')
  | exhausted : PadOutcome W f f' Post .exhausted .exhausted

end

section

variable {T T' : Distances} {P : FramePairs} {W : PadWorld} {f f' : Nat} {pads : List Pad}
  {m m' : Machine} {α β : Type} {Post Post' : PadWorld → α → Prop} {o o' : Outcome α}

/-! ## Outcomes -/

theorem PadMachines.since (h : PadMachines T T' P m m') :
    PadMachines.Since T T' ⟨P, m.store, m'.store⟩ m.frame m'.frame P m m' :=
  ⟨h, .refl _, rfl, rfl⟩

theorem PadMachines.Since.trans (h : PadMachines.Since T T' W f f' P m m') {P₁ : FramePairs}
    {m₁ m₁' : Machine} (h₁ : PadMachines.Since T T' ⟨P, m.store, m'.store⟩ f f' P₁ m₁ m₁') :
    PadMachines.Since T T' W f f' P₁ m₁ m₁' :=
  ⟨h₁.machines, h.grows.trans h₁.grows, h₁.frame, h₁.frame'⟩

/-- The frames that are gone back to still lie in their chains. -/
theorem PadMachines.Since.at (h : PadMachines.Since T T' W f f' P m m')
    (hc : PadChain W pads f f') : PadMachines.At T T' P pads m m' := by
  refine ⟨h.machines, ?_⟩
  rw [h.frame, h.frame']
  exact hc.grows h.grows

namespace PadOutcome

/-- The outcome of what was done last. -/
theorem since (h : PadMachines.Since T T' W f f' P m m')
    (ho : PadOutcome T T' ⟨P, m.store, m'.store⟩ m.frame m'.frame Post o o') :
    PadOutcome T T' W f f' Post o o' := by
  rw [h.frame, h.frame'] at ho
  cases ho with
  | done h₁ hpost => exact .done (h.trans h₁) hpost
  | raised h₁ => exact .raised (h.trans h₁)
  | fault h₁ => exact .fault (h.trans h₁)
  | exhausted => exact .exhausted

/-- Going on after the same value. -/
theorem bind {Post' : PadWorld → β → Prop} {g g' : α → Machine → Outcome β}
    (ho : PadOutcome T T' W f f' Post o o')
    (hg : ∀ {P : FramePairs} {m m' : Machine} {v : α}, PadMachines.Since T T' W f f' P m m' →
      Post ⟨P, m.store, m'.store⟩ v →
      PadOutcome T T' ⟨P, m.store, m'.store⟩ m.frame m'.frame Post' (g v m) (g' v m')) :
    PadOutcome T T' W f f' Post' (o.bind g) (o'.bind g') := by
  cases ho with
  | done h₁ hp => exact since h₁ (hg h₁ hp)
  | raised h₁ => exact .raised h₁
  | fault h₁ => exact .fault h₁
  | exhausted => exact .exhausted

/-- Ending in another way, as blocks and calls do. -/
theorem ending {W₀ : PadWorld} {f₀ f₀' : Nat} {k k' : Machine → Machine}
    (ho : PadOutcome T T' W f f' Post o o')
    (hk : ∀ {P : FramePairs} {m m' : Machine}, PadMachines.Since T T' W f f' P m m' →
      PadMachines.Since T T' W₀ f₀ f₀' P (k m) (k' m') ∧ (k m).store = m.store ∧
        (k' m').store = m'.store) :
    PadOutcome T T' W₀ f₀ f₀' Post (o.ending k) (o'.ending k') := by
  cases ho with
  | done h₁ hp =>
    obtain ⟨h₂, hs, hs'⟩ := hk h₁
    exact .done h₂ (by rw [hs, hs']; exact hp)
  | raised h₁ => exact .raised (hk h₁).1
  | fault h₁ => exact .fault (hk h₁).1
  | exhausted => exact .exhausted

end PadOutcome

/-! ## Operations that succeed -/

namespace PadMachines

/-- A change of the stores. -/
theorem change (h : PadMachines T T' P m m') {P₁ : FramePairs} {s s' : Store}
    (hs : PadHeap T T' ⟨P₁, s, s'⟩) (hg : PadWorld.Grows ⟨P, m.store, m'.store⟩ ⟨P₁, s, s'⟩) :
    Since T T' ⟨P, m.store, m'.store⟩ m.frame m'.frame P₁ { m with store := s }
      { m' with store := s' } :=
  ⟨⟨hs, h.depth, h.maxDepth, h.table, h.table', h.output, h.clock⟩, hg, rfl, rfl⟩

theorem print (h : PadMachines T T' P m m') (v : Value) :
    Since T T' ⟨P, m.store, m'.store⟩ m.frame m'.frame P (m.print v) (m'.print v) := by
  refine ⟨⟨h.heap, h.depth, h.maxDepth, h.table, h.table', ?_, h.clock⟩, .refl _, rfl, rfl⟩
  show m'.output.push (m'.store.text v) = m.output.push (m.store.text v)
  rw [h.output, h.heap.text_eq v]

theorem setField (h : PadMachines T T' P m m') (ref : Nat) (name : String) {v : Value}
    (hv : PadValue T T' ⟨P, m.store, m'.store⟩ v) :
    Since T T' ⟨P, m.store, m'.store⟩ m.frame m'.frame P
      { m with store := m.store.setField ref name v }
      { m' with store := m'.store.setField ref name v } :=
  h.change (h.heap.setField ref name hv) (PadWorld.grows_setField _ ref name v)

theorem addInstance (h : PadMachines T T' P m m') (ref : Nat) :
    (m'.store.addInstance ref).1 = (m.store.addInstance ref).1 ∧
      Since T T' ⟨P, m.store, m'.store⟩ m.frame m'.frame P
        { m with store := (m.store.addInstance ref).2 }
        { m' with store := (m'.store.addInstance ref).2 } :=
  ⟨congrArg Array.size h.heap.instances,
    h.change (h.heap.addInstance ref) (PadWorld.grows_addInstance _ ref)⟩

/-- Binds a name in frames that belong together. -/
theorem defineIn (h : PadMachines T T' P m m') (hf : P.Paired f f') (name : String) {v : Value}
    (hv : PadValue T T' ⟨P, m.store, m'.store⟩ v) :
    Since T T' ⟨P, m.store, m'.store⟩ m.frame m'.frame P
      { m with store := m.store.define f name v } { m' with store := m'.store.define f' name v } :=
  h.change (h.heap.define hf name hv) (PadWorld.grows_define _ f f' name v)

theorem At.define (h : At T T' P pads m m') (hopen : Coincide pads 0 0) (name : String) {v : Value}
    (hv : PadValue T T' ⟨P, m.store, m'.store⟩ v) :
    Since T T' ⟨P, m.store, m'.store⟩ m.frame m'.frame P (m.define name v) (m'.define name v) :=
  h.machines.defineIn (h.chain.paired h.machines.heap hopen) name hv

theorem Since.change (h : Since T T' W f f' P m m') {P₁ : FramePairs} {s s' : Store}
    (hs : PadHeap T T' ⟨P₁, s, s'⟩) (hg : PadWorld.Grows ⟨P, m.store, m'.store⟩ ⟨P₁, s, s'⟩) :
    Since T T' W f f' P₁ { m with store := s } { m' with store := s' } :=
  ⟨(h.machines.change hs hg).machines, h.grows.trans hg, h.frame, h.frame'⟩

theorem Since.define (h : Since T T' W f f' P m m') (hc : PadChain W pads f f')
    (hopen : Coincide pads 0 0) (name : String) {v : Value}
    (hv : PadValue T T' ⟨P, m.store, m'.store⟩ v) :
    Since T T' W f f' P (m.define name v) (m'.define name v) := by
  have hdefine := (h.at hc).define hopen name hv
  exact ⟨hdefine.machines, h.grows.trans hdefine.grows, h.frame, h.frame'⟩

/-- A new frame on top of a chain of each store. -/
theorem push_chain {b : Bindings Value} {p p' : Nat} (hc : PadChain W pads p p') :
    PadChain (W.push b p p') (.both :: pads) W.store.frames.size W.store'.frames.size := by
  refine .both (.inr ⟨rfl, rfl⟩) ?_ ?_ (hc.grows (W.grows_push b p p'))
  · rw [PadWorld.push, Store.parent?_push, if_pos rfl]
  · rw [PadWorld.push, Store.parent?_push, if_pos rfl]

/-- A method bound to its receiver. -/
theorem bindMethod (h : PadMachines T T' P m m') {c c' : Closure}
    (hc : PadClosure T T' ⟨P, m.store, m'.store⟩ [.both] c c') (receiver : Value)
    (hr : PadValue T T' ⟨P, m.store, m'.store⟩ receiver) :
    (m'.bindMethod c' receiver).1 = (m.bindMethod c receiver).1 ∧
      ∃ P₁, Since T T' ⟨P, m.store, m'.store⟩ m.frame m'.frame P₁ (m.bindMethod c receiver).2
          (m'.bindMethod c' receiver).2 ∧
        PadWorld.Has T T' ⟨P₁, (m.bindMethod c receiver).2.store,
          (m'.bindMethod c' receiver).2.store⟩ [] (m.bindMethod c receiver).1 := by
  have hpush := h.heap.push (b := Bindings.empty.put "this" receiver) (fun name v hv => by
    rw [Bindings.find?_put] at hv
    split at hv
    · cases hv
      exact hr
    · cases hv) c.frame c'.frame
  obtain ⟨pads, hchain, hdecl⟩ := hc.chain
  have hbound : PadClosure T T' _ [] { c with frame := m.store.frames.size }
      { c' with frame := m'.store.frames.size } :=
    ⟨⟨.both :: pads, push_chain (b := Bindings.empty.put "this" receiver) hchain, hdecl⟩,
      .inr ⟨rfl, rfl⟩, hc.isInitializer⟩
  refine ⟨h.heap.closures, _, h.change (hpush.addClosure hdecl.parts.1) ?_,
    hpush.has_addClosure hbound⟩
  exact (PadWorld.grows_push _ _ _ _).trans (PadWorld.grows_addClosure _ _ _)

theorem At.declareFunction (h : At T T' P pads m m') (hopen : Coincide pads 0 0)
    {decl decl' : Function} (hdecl : PadFunction T T' pads decl decl') :
    Since T T' ⟨P, m.store, m'.store⟩ m.frame m'.frame P (m.declareFunction decl)
      (m'.declareFunction decl') := by
  have hpaired := h.chain.paired h.machines.heap hopen
  have hclosure : PadClosure T T' ⟨P, m.store, m'.store⟩ [] ⟨decl, m.frame, false⟩
      ⟨decl', m'.frame, false⟩ := ⟨⟨pads, h.chain, hdecl⟩, hpaired, rfl⟩
  have hheap : PadHeap T T' (PadWorld.addClosure ⟨P, m.store, m'.store⟩ ⟨decl, m.frame, false⟩
      ⟨decl', m'.frame, false⟩) := h.machines.heap.addClosure hdecl.parts.1
  have hadd := h.machines.change hheap (PadWorld.grows_addClosure _ _ _)
  have hdefine := (hadd.at h.chain).define hopen decl.name.lexeme
    (v := .function (m.store.addClosure ⟨decl, m.frame, false⟩).1)
    (h.machines.heap.has_addClosure hclosure)
  have href : (m'.store.addClosure ⟨decl', m'.frame, false⟩).1 =
      (m.store.addClosure ⟨decl, m.frame, false⟩).1 := h.machines.heap.closures
  unfold Machine.declareFunction
  rw [hdecl.parts.1]
  simp only [href]
  exact hadd.trans hdefine

/-- Entering new frames that belong together. -/
theorem enter (h : PadMachines T T' P m m') {b : Bindings Value} {p p' : Nat}
    (hc : PadChain ⟨P, m.store, m'.store⟩ pads p p')
    (hb : ∀ name v, b.find? name = some v → PadValue T T' ⟨P, m.store, m'.store⟩ v) :
    ∃ P₁, At T T' P₁ (.both :: pads) (m.enter b p) (m'.enter b p') ∧
      PadWorld.Grows ⟨P, m.store, m'.store⟩ ⟨P₁, (m.enter b p).store, (m'.enter b p').store⟩ := by
  refine ⟨_, ⟨?_, push_chain hc⟩, PadWorld.grows_push _ b p p'⟩
  exact ⟨h.heap.push hb p p', h.depth, h.maxDepth, h.table, h.table', h.output, h.clock⟩

/-- Entering a blank frame on the first machine only. -/
theorem At.enterFirst (h : At T T' P pads m m') :
    At T T' P (.first :: pads) (m.enter .empty m.frame) m' ∧
      PadWorld.Grows ⟨P, m.store, m'.store⟩ ⟨P, (m.enter .empty m.frame).store, m'.store⟩ := by
  have hg := PadWorld.grows_pushFirst ⟨P, m.store, m'.store⟩ m.frame
  have hm := h.machines
  refine ⟨⟨⟨hm.heap.pushFirst m.frame, hm.depth, hm.maxDepth, hm.table, hm.table', hm.output,
    hm.clock⟩, .first ?_ (h.chain.grows hg)⟩, hg⟩
  show (m.store.push .empty m.frame).2.parent? m.store.frames.size = some m.frame
  rw [Store.parent?_push, if_pos rfl]

/-- Entering a blank frame on the second machine only. -/
theorem At.enterSecond (h : At T T' P pads m m') :
    At T T' P (.second :: pads) m (m'.enter .empty m'.frame) ∧
      PadWorld.Grows ⟨P, m.store, m'.store⟩ ⟨P, m.store, (m'.enter .empty m'.frame).store⟩ := by
  have hg := PadWorld.grows_pushSecond ⟨P, m.store, m'.store⟩ m'.frame
  have hm := h.machines
  refine ⟨⟨⟨hm.heap.pushSecond m'.frame, hm.depth, hm.maxDepth, hm.table, hm.table', hm.output,
    hm.clock⟩, .second ?_ (h.chain.grows hg)⟩, hg⟩
  show (m'.store.push .empty m'.frame).2.parent? m'.store.frames.size = some m'.frame
  rw [Store.parent?_push, if_pos rfl]

/-- Going back from inner frames. -/
theorem Since.leaveTo {W₁ : PadWorld} {g g' : Nat} (h : Since T T' W₁ g g' P m m')
    (hg : W.Grows W₁) (f f' : Nat) :
    Since T T' W f f' P (m.leaveTo f) (m'.leaveTo f') :=
  have hm := h.machines
  ⟨⟨hm.heap, hm.depth, hm.maxDepth, hm.table, hm.table', hm.output, hm.clock⟩, hg.trans h.grows, rfl,
    rfl⟩

theorem tick (h : PadMachines T T' P m m') : PadMachines T T' P m.tick m'.tick :=
  { h with clock := congrArg Clock.rest h.clock }

theorem beginCall (h : PadMachines T T' P m m') : PadMachines T T' P m.beginCall m'.beginCall :=
  { h with depth := congrArg (· + 1) h.depth }

theorem Since.endCall (h : Since T T' W f f' P m m') : Since T T' W f f' P m.endCall m'.endCall :=
  ⟨{ h.machines with depth := congrArg (· - 1) h.machines.depth }, h.grows, h.frame, h.frame'⟩

/-! ### Classes -/

/-- The links of the frame of `super`, if there is one. -/
def basePads (base : Option Nat) : List Pad := if base.isSome then [.both] else []

/-- The frames that the methods of a class are declared in. -/
theorem At.methodFrame (h : At T T' P pads m m') (hopen : Coincide pads 0 0) (base : Option Nat) :
    ∃ P₁, Since T T' ⟨P, m.store, m'.store⟩ m.frame m'.frame P₁ (m.methodFrame base).2
        (m'.methodFrame base).2 ∧
      PadChain ⟨P₁, (m.methodFrame base).2.store, (m'.methodFrame base).2.store⟩
        (basePads base ++ pads) (m.methodFrame base).1 (m'.methodFrame base).1 ∧
      P₁.Paired (m.methodFrame base).1 (m'.methodFrame base).1 := by
  cases base with
  | none => exact ⟨P, h.machines.since, h.chain, h.chain.paired h.machines.heap hopen⟩
  | some ref =>
    have hpush := h.machines.heap.push (b := Bindings.empty.put "super" (.classValue ref))
      (fun name v hv => by
        rw [Bindings.find?_put] at hv
        split at hv
        · cases hv
          trivial
        · cases hv) m.frame m'.frame
    exact ⟨_, h.machines.change hpush (PadWorld.grows_push _ _ _ _), push_chain h.chain,
      .inr ⟨rfl, rfl⟩⟩

/-- Making the closures of methods, one after the other. -/
theorem foldl_addMethod {frame frame' : Nat} (hpaired : P.Paired frame frame') :
    ∀ {fs fs' : List Function} {s s' : Store} {table : Bindings Nat},
    PadHeap T T' ⟨P, s, s'⟩ → PadChain ⟨P, s, s'⟩ pads frame frame' →
    PadMethods T T' (.both :: pads) fs fs' →
    (∀ name ref, table.find? name = some ref → PadWorld.Has T T' ⟨P, s, s'⟩ [.both] ref) →
    let added := fs.foldl (addMethod frame) (table, s)
    let added' := fs'.foldl (addMethod frame') (table, s')
    added'.1 = added.1 ∧ PadHeap T T' ⟨P, added.2, added'.2⟩ ∧
      PadWorld.Grows ⟨P, s, s'⟩ ⟨P, added.2, added'.2⟩ ∧
      ∀ name ref, added.1.find? name = some ref →
        PadWorld.Has T T' ⟨P, added.2, added'.2⟩ [.both] ref
  | [], _, s, s', table, h, _, hfs, htable => by
    cases hfs
    exact ⟨rfl, h, .refl _, htable⟩
  | decl :: fs, _, s, s', table, h, hc, hfs, htable => by
    cases hfs with
    | @cons _ _ decl' _ fs' hf hfs =>
      obtain ⟨hname, _, _⟩ := hf.parts
      have hclosure : PadClosure T T' ⟨P, s, s'⟩ [.both]
          ⟨decl, frame, decl.name.lexeme = initializerName⟩
          ⟨decl', frame', decl'.name.lexeme = initializerName⟩ :=
        ⟨⟨pads, hc, hf⟩, hpaired, by simp only [hname]⟩
      have hg := PadWorld.grows_addClosure ⟨P, s, s'⟩
        ⟨decl, frame, decl.name.lexeme = initializerName⟩
        ⟨decl', frame', decl'.name.lexeme = initializerName⟩
      have hput : ∀ name ref, (table.put decl.name.lexeme s.closures.size).find? name = some ref →
          PadWorld.Has T T' (PadWorld.addClosure ⟨P, s, s'⟩
            ⟨decl, frame, decl.name.lexeme = initializerName⟩
            ⟨decl', frame', decl'.name.lexeme = initializerName⟩) [.both] ref := by
        intro name ref href
        rw [Bindings.find?_put] at href
        split at href
        · cases href
          exact h.has_addClosure hclosure
        · exact (htable name ref href).grows hg
      have hstep : addMethod frame' (table, s') decl' =
          (table.put decl.name.lexeme s.closures.size,
            (s'.addClosure ⟨decl', frame', decl'.name.lexeme = initializerName⟩).2) := by
        simp only [addMethod, hname]
        rw [h.closures]
      rw [List.foldl_cons, List.foldl_cons, hstep]
      obtain ⟨heq, hheap, hgrows, hhas⟩ :=
        foldl_addMethod hpaired (h.addClosure hname) (hc.grows hg) hfs hput
      exact ⟨heq, hheap, hg.trans hgrows, hhas⟩

theorem At.declareClass (h : At T T' P pads m m') (hopen : Coincide pads 0 0) (name : Token)
    (base : Option Nat) {fs fs' : List Function}
    (hfs : PadMethods T T' (.both :: (basePads base ++ pads)) fs fs') :
    ∃ P₁, Since T T' ⟨P, m.store, m'.store⟩ m.frame m'.frame P₁ (m.declareClass name base fs)
      (m'.declareClass name base fs') := by
  have hdefine := h.define hopen name.lexeme (v := .nil) trivial
  obtain ⟨P₁, hframe, hchain, hpaired⟩ := (hdefine.at h.chain).methodFrame hopen base
  unfold Machine.declareClass
  simp only [addMethods_eq]
  have hsince := hdefine.trans hframe
  generalize (m.define name.lexeme .nil).methodFrame base = inner at hchain hpaired hsince ⊢
  generalize (m'.define name.lexeme .nil).methodFrame base = inner' at hchain hpaired hsince ⊢
  have hempty : ∀ other ref, (Bindings.empty : Bindings Nat).find? other = some ref →
      PadWorld.Has T T' ⟨P₁, inner.2.store, inner'.2.store⟩ [.both] ref :=
    fun _ _ href => by cases href
  obtain ⟨htable, hheap, hgrows, hhas⟩ :=
    foldl_addMethod hpaired hsince.machines.heap hchain hfs hempty
  generalize fs.foldl (addMethod inner.1) (.empty, inner.2.store) = added
    at htable hheap hgrows hhas ⊢
  generalize fs'.foldl (addMethod inner'.1) (.empty, inner'.2.store) = added'
    at htable hheap hgrows hhas ⊢
  have hclass : PadHeap T T'
      (PadWorld.addClass ⟨P₁, added.2, added'.2⟩ ⟨name.lexeme, base, added.1⟩) :=
    hheap.addClass hhas
  have href : (added'.2.addClass ⟨name.lexeme, base, added.1⟩).1 =
      (added.2.addClass ⟨name.lexeme, base, added.1⟩).1 := congrArg Array.size hheap.classes
  have hadd := hsince.change hclass (hgrows.trans (PadWorld.grows_addClass _ _))
  rw [htable, href]
  exact ⟨P₁, hadd.define h.chain hopen name.lexeme trivial⟩

/-! ## Operations that may fail -/

theorem raise (h : PadMachines T T' P m m') (token : Token) (cause : Cause) :
    PadOutcome T T' ⟨P, m.store, m'.store⟩ m.frame m'.frame Post (m.raise token cause)
      (m'.raise token cause) :=
  .raised h.since

theorem fails (h : PadMachines T T' P m m') (reason : Fault) :
    PadOutcome T T' ⟨P, m.store, m'.store⟩ m.frame m'.frame Post (.fault reason m)
      (.fault reason m') :=
  .fault h.since

theorem applied (h : PadMachines T T' P m m') (operator : Token)
    {result : Option (Except OperandError Value)}
    (hresult : ∀ v, result = some (.ok v) → PadValue T T' ⟨P, m.store, m'.store⟩ v) :
    PadOutcome T T' ⟨P, m.store, m'.store⟩ m.frame m'.frame (PadValue T T')
      (m.applied operator result) (m'.applied operator result) :=
  match result with
  | some (.ok v) => .done h.since (hresult v rfl)
  | some (.error _) => h.raise _ _
  | none => h.fails _

theorem At.lookup (h : At T T' P pads m m') {id id' : Nat} (hrefers : PadRefers T T' pads id id')
    (name : Token) :
    PadOutcome T T' ⟨P, m.store, m'.store⟩ m.frame m'.frame (PadValue T T') (m.lookup id name)
      (m'.lookup id' name) := by
  have hm := h.machines
  unfold Machine.lookup PadRefers at *
  rw [hm.table, hm.table']
  generalize T[id]? = d? at hrefers
  generalize T'[id']? = d?' at hrefers
  cases hrefers with
  | none =>
    have hroot := hm.heap.shared _ hm.heap.root
    simp only [hm.heap.get_eq hroot]
    split
    · rename_i v hv
      exact .done hm.since (hm.heap.get_value hroot hv)
    · exact hm.raise _ _
  | @some d d' hmeets =>
    have hat : Coincide pads (d : Int).toNat (d' : Int).toNat := hmeets
    simp only [hm.heap.getAt_eq h.chain hat name.lexeme]
    split
    · rename_i v hv
      exact .done hm.since (hm.heap.getAt_value h.chain hat hv)
    · exact hm.fails _
    · exact hm.raise _ _

/-- Only frames that belong together are changed. -/
theorem assignIn (h : PadMachines T T' P m m') (hf : P.Paired f f') (name : Token) {v : Value}
    (hv : PadValue T T' ⟨P, m.store, m'.store⟩ v) :
    PadOutcome T T' ⟨P, m.store, m'.store⟩ m.frame m'.frame (PadValue T T') (m.assignIn f name v)
      (m'.assignIn f' name v) := by
  have hhas : m'.store.has f' name.lexeme = m.store.has f name.lexeme := by
    unfold Store.has
    rw [h.heap.bindings f f' hf]
  unfold Machine.assignIn
  rw [hhas]
  split
  · exact .done (h.defineIn hf name.lexeme hv) (hv.grows (PadWorld.grows_define _ f f' _ v))
  · exact h.raise _ _

theorem At.assign (h : At T T' P pads m m') {id id' : Nat} (hrefers : PadRefers T T' pads id id')
    (name : Token) {v : Value} (hv : PadValue T T' ⟨P, m.store, m'.store⟩ v) :
    PadOutcome T T' ⟨P, m.store, m'.store⟩ m.frame m'.frame (PadValue T T') (m.assign id name v)
      (m'.assign id' name v) := by
  have hm := h.machines
  unfold Machine.assign PadRefers at *
  rw [hm.table, hm.table']
  generalize T[id]? = d? at hrefers
  generalize T'[id']? = d?' at hrefers
  cases hrefers with
  | none => exact hm.assignIn (hm.heap.shared _ hm.heap.root) name hv
  | @some d d' hmeets =>
    have hat : Coincide pads (d : Int).toNat (d' : Int).toNat := hmeets
    obtain ⟨hoff, hoff'⟩ | ⟨g, g', hg, hg', hpair⟩ := hm.heap.ancestor h.chain hat
    · simp only [hoff, hoff']
      exact hm.fails _
    · simp only [hg, hg']
      exact hm.assignIn hpair name hv

/-- A method that is found is bound to its receiver. -/
theorem bound (h : PadMachines T T' P m m') {c c' : Closure}
    (hc : PadClosure T T' ⟨P, m.store, m'.store⟩ [.both] c c') {receiver : Value}
    (hr : PadValue T T' ⟨P, m.store, m'.store⟩ receiver) :
    PadOutcome T T' ⟨P, m.store, m'.store⟩ m.frame m'.frame (PadValue T T')
      (.done (.function (m.bindMethod c receiver).1) (m.bindMethod c receiver).2)
      (.done (.function (m'.bindMethod c' receiver).1) (m'.bindMethod c' receiver).2) := by
  obtain ⟨href, P₁, hsince, hhas⟩ := h.bindMethod hc receiver hr
  rw [href]
  exact .done hsince hhas

theorem getProperty (h : PadMachines T T' P m m') (name : Token) (v : Value) :
    PadOutcome T T' ⟨P, m.store, m'.store⟩ m.frame m'.frame (PadValue T T') (m.getProperty name v)
      (m'.getProperty name v) := by
  cases v with
  | object ref =>
    have hinstances : m'.store.instances = m.store.instances := h.heap.instances
    simp only [Machine.getProperty, Store.property?, hinstances]
    cases hi : m.store.instances[ref]? with
    | none => exact h.raise _ _
    | some inst =>
      simp only
      cases hf : inst.fields.find? name.lexeme with
      | some value => exact .done h.since (h.heap.fields ref inst _ _ hi hf)
      | none =>
        have hmethod := h.heap.method? inst.classRef name.lexeme
        simp only at hmethod ⊢
        generalize m.store.method? inst.classRef name.lexeme = c? at hmethod
        generalize m'.store.method? inst.classRef name.lexeme = c?' at hmethod
        cases hmethod with
        | none => exact h.raise _ _
        | some hc => exact h.bound hc trivial
  | _ => exact h.raise _ _

theorem toNat_pred (d : Nat) : ((d : Int) - 1).toNat = d - 1 := by omega

/-- The class is found in the frame of `super`, and the receiver in the frame inside it. -/
theorem At.superMethod (h : At T T' P pads m m') {id id' : Nat} (hsuper : PadSuper T T' pads id id')
    (method : Token) :
    PadOutcome T T' ⟨P, m.store, m'.store⟩ m.frame m'.frame (PadValue T T')
      (m.superMethod id method) (m'.superMethod id' method) := by
  have hm := h.machines
  unfold Machine.superMethod PadSuper at *
  rw [hm.table, hm.table']
  generalize T[id]? = d? at hsuper
  generalize T'[id']? = d?' at hsuper
  cases hsuper with
  | none => exact hm.fails _
  | @some d d' hmeets =>
    obtain ⟨hmeets, hinside⟩ := hmeets
    have hat : Coincide pads (d : Int).toNat (d' : Int).toNat := hmeets
    have hinside' : Coincide pads ((d : Int) - 1).toNat ((d' : Int) - 1).toNat := by
      rw [toNat_pred, toNat_pred]
      exact hinside
    simp only [hm.heap.getAt_eq h.chain hat "super", hm.heap.getAt_eq h.chain hinside' "this"]
    cases m.store.getAt m.frame (d : Int) "super" with
    | error e => exact hm.fails _
    | ok superclass =>
      cases hthis : m.store.getAt m.frame ((d : Int) - 1) "this" with
      | error e => exact hm.fails _
      | ok receiver =>
        cases superclass with
        | classValue ref =>
          have hmethod := hm.heap.method? ref method.lexeme
          simp only at hmethod ⊢
          generalize m.store.method? ref method.lexeme = c? at hmethod
          generalize m'.store.method? ref method.lexeme = c?' at hmethod
          cases hmethod with
          | none => exact hm.raise _ _
          | some hc => exact hm.bound hc (hm.heap.getAt_value h.chain hinside' hthis)
        | _ => exact hm.fails _

theorem At.evalSuperclass (h : At T T' P pads m m') {base base' : Option Superclass}
    (hbase : PadSuperclass T T' pads base base') :
    PadOutcome T T' ⟨P, m.store, m'.store⟩ m.frame m'.frame
      (fun _ ref => ref.isSome = base.isSome) (m.evalSuperclass base)
      (m'.evalSuperclass base') := by
  cases hbase with
  | none => exact .done h.machines.since rfl
  | some hrefers =>
    refine (h.lookup hrefers _).bind fun {_ m₁ m₁' v} h₁ _ => ?_
    cases v with
    | classValue ref => exact .done h₁.machines.since rfl
    | _ => exact h₁.machines.raise _ _

end PadMachines

end

end LoxLang
