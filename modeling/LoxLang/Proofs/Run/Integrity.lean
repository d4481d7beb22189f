import LoxLang.Proofs.Run.CallDepth
import LoxLang.Proofs.Run.Operations
import LoxLang.Proofs.Store.Integrity

/-!
# The integrity of a machine

A machine is intact if its store is, if the current frame is one for variables, and if the nodes of
its functions are well named.  The changes of a machine keep it intact, and the store grows.

`Machine.Since` is what a machine has in common with a later one that is back in the same frame, and
`Task.Intact` says that a task is given nothing that does not exist.

Principal results: `Machine.Intact.assign`, `Machine.Intact.bindMethod`,
`Machine.Intact.declareClass`.
-/

namespace LoxLang

/-- The names that a node binds can be declared, and its keywords are the implicit names. -/
def Node.WellNamed : Node → Prop
  | .expr (.assign _ name _) => PlainName name.lexeme
  | .stmt (.declare _ name _) => PlainName name.lexeme
  | .stmt (.function decl) => PlainName decl.name.lexeme ∧ ∀ t ∈ decl.params, PlainName t.lexeme
  | .stmt (.classDecl _ name _ _) => PlainName name.lexeme
  | .expr (.this _ keyword) => keyword.lexeme = "this"
  | .expr (.super _ keyword _) => keyword.lexeme = "super"
  | _ => True

/-- A machine in good order; all nodes of the functions on its heap satisfy `N`. -/
structure Machine.Intact (N : Node → Prop) (m : Machine) : Prop where
  store : m.store.Intact
  code : m.store.CodeIs N
  frame : m.frame < m.store.frames.size
  ordinary : FrameKind.ordinary.Fits (m.store.bindings m.frame)

theorem Machine.Intact.congr {N : Node → Prop} {m m₁ : Machine} (h : m.Intact N)
    (hstore : m₁.store = m.store) (hframe : m₁.frame = m.frame) : m₁.Intact N := by
  obtain ⟨hs, hcode, hlt, hfits⟩ := h
  rw [← hstore] at hs hcode hlt hfits
  rw [← hframe] at hlt hfits
  exact ⟨hs, hcode, hlt, hfits⟩

/-- A later machine that is back in the frame of the first. -/
structure Machine.Since (N : Node → Prop) (m m₁ : Machine) : Prop where
  intact : m₁.Intact N
  grows : m.store.Grows m₁.store
  frame : m₁.frame = m.frame

section

variable {N : Node → Prop} {m m₁ m₂ : Machine}

namespace Machine.Since

theorem refl (h : m.Intact N) : m.Since N m := ⟨h, .refl _, rfl⟩

theorem tick (h : m.Intact N) : m.Since N m.tick := ⟨h.congr rfl rfl, .refl _, rfl⟩

theorem trans (h : m.Since N m₁) (h₁ : m₁.Since N m₂) : m.Since N m₂ :=
  ⟨h₁.intact, h.grows.trans h₁.grows, h₁.frame.trans h.frame⟩

end Machine.Since

/-! ## Changes -/

namespace Machine.Intact

/-- A change of the store that the machine is back from. -/
theorem since (h : m.Intact N) (hback : m.Back N m₁) (hstore : m₁.store.Intact)
    (hgrows : m.store.Grows m₁.store) : m.Since N m₁ := by
  refine ⟨⟨hstore, hback.code, ?_, ?_⟩, hgrows, hback.frame⟩
  · rw [hback.frame]
    exact Nat.lt_of_lt_of_le h.frame hgrows.frames
  · rw [hback.frame]
    exact hgrows.kinds _ _ h.frame h.ordinary

theorem define (h : m.Intact N) {name : String} (hname : PlainName name) {v : Value}
    (hv : m.store.Holds v) : m.Since N (m.define name v) :=
  h.since (m.define_back h.code name v) (h.store.define h.frame h.ordinary hname hv)
    (.define h.frame h.ordinary hname v)

theorem print (h : m.Intact N) (v : Value) : m.Since N (m.print v) :=
  ⟨⟨h.store, h.code, h.frame, h.ordinary⟩, .refl _, rfl⟩

theorem setField (h : m.Intact N) (ref : Nat) (name : String) {v : Value} (hv : m.store.Holds v) :
    m.Since N { m with store := m.store.setField ref name v } :=
  h.since (.store h.code rfl) (h.store.setField ref name hv) (.setField _ ref name v)

theorem addInstance (h : m.Intact N) (ref : Nat) :
    m.Since N { m with store := (m.store.addInstance ref).2 } :=
  h.since (.store h.code rfl) (h.store.addInstance ref) (.addInstance _ ref)

/-- Only a frame of variables binds a name that can be assigned to. -/
theorem assign (h : m.Intact N) {frame : Nat} {name : String} (hname : PlainName name)
    (hhas : m.store.has frame name = true) {v : Value} (hv : m.store.Holds v) :
    m.Since N { m with store := m.store.define frame name v } := by
  obtain ⟨hlt, hk⟩ := h.store.ordinary_of_has hname hhas
  exact h.since (.store h.code rfl) (h.store.define hlt hk hname hv) (.define hlt hk hname v)

/-- The frame of a method that is found exists. -/
theorem method?_frame (h : m.Intact N) {ref : Nat} {name : String} {c : Closure}
    (hc : m.store.method? ref name = some c) : c.frame < m.store.frames.size := by
  unfold Store.method? at hc
  obtain ⟨i, _, hi⟩ := Option.bind_eq_some_iff.1 hc
  exact h.store.closures i c hi

theorem bindMethod (h : m.Intact N) {ref : Nat} {name : String} {c : Closure}
    (hc : m.store.method? ref name = some c) {inst : Nat} (hinst : m.store.Holds (.object inst)) :
    m.Since N (m.bindMethod c (.object inst)).2 :=
  h.since (m.bindMethod_back h.code (Machine.method?_code h.code hc) _)
    (h.store.bind (h.method?_frame hc) hinst) (.bind _ c _)

/-- A bound method exists. -/
theorem holds_bound (m : Machine) (c : Closure) (receiver : Value) :
    (m.bindMethod c receiver).2.store.Holds (.function (m.bindMethod c receiver).1) := by
  show (m.store.bind c receiver).1 < (m.store.bind c receiver).2.closures.size
  simp [Store.bind, Store.addClosure, Store.push]

/-- What `this` is bound to is an instance. -/
theorem get_this (h : m.Intact N) {f : Nat} {v : Value} (hv : m.store.get f "this" = .ok v) :
    ∃ inst, v = .object inst := by
  unfold Store.get at hv
  split at hv
  · rename_i hthis
    cases hv
    obtain ⟨inst, _, rfl⟩ := h.store.receiver_of_this hthis
    exact ⟨inst, rfl⟩
  · cases hv

/-- The value of a field exists. -/
theorem field_holds (h : m.Intact N) {ref : Nat} {name : String} {v : Value}
    (hfield : m.store.property? ref name = some (.field v)) : m.store.Holds v := by
  unfold Store.property? at hfield
  split at hfield
  · cases hfield
  · rename_i inst hinst
    split at hfield
    · rename_i hfind
      cases hfield
      exact h.store.fields _ inst _ _ hinst hfind
    · obtain ⟨c, _, heq⟩ := Option.map_eq_some_iff.1 hfield
      cases heq

/-- The class that a declaration extends exists. -/
def HoldsBase (s : Store) (base : Option Nat) : Prop :=
  ∀ ref, base = some ref → s.Holds (.classValue ref)

theorem declareFunction (h : m.Intact N) {decl : Function}
    (hname : PlainName decl.name.lexeme) (hdecl : ∀ node ∈ walkFunction decl, N node) :
    m.Since N (m.declareFunction decl) := by
  have hadd : m.Since N { m with store := (m.store.addClosure ⟨decl, m.frame, false⟩).2 } :=
    h.since ⟨rfl, rfl, rfl, rfl, h.code.addClosure (c := ⟨decl, m.frame, false⟩) hdecl⟩
      (h.store.addClosure h.frame) (.addClosure _ _)
  refine hadd.trans (hadd.intact.define hname ?_)
  show (m.store.addClosure ⟨decl, m.frame, false⟩).1 < _
  simp [Store.addClosure]

/-! ### Classes -/

/-- The entries of a method table lead to closures that were declared in a frame. -/
def TableIn (s : Store) (frame : Nat) (table : Bindings Nat) : Prop :=
  ∀ name ref, table.find? name = some ref → ∃ c, s.closures[ref]? = some c ∧ c.frame = frame

/-- The closures of methods, one added after the other. -/
structure Adds (frame : Nat) (methods : List Function) (s : Store) (before table : Bindings Nat)
    (s₁ : Store) : Prop where
  intact : s₁.Intact
  grows : s.Grows s₁
  frames : s₁.frames = s.frames
  classes : s₁.classes = s.classes
  closures : TableIn s₁ frame table
  names : ∀ name, before.contains name = true ∨ name ∈ methods.map (·.name.lexeme) →
    table.contains name = true

theorem addMethods_adds {frame : Nat} : ∀ (methods : List Function) {s : Store}
    {table : Bindings Nat}, s.Intact → frame < s.frames.size → TableIn s frame table →
    let added := methods.foldl (fun (table, s) decl =>
      let (ref, s) := Store.addClosure s ⟨decl, frame, decl.name.lexeme = initializerName⟩
      (table.put decl.name.lexeme ref, s)) (table, s)
    Adds frame methods s table added.1 added.2
  | [], s, table, h, _, htable => by
    refine ⟨h, .refl s, rfl, rfl, htable, fun name hname => ?_⟩
    obtain hname | hname := hname
    · exact hname
    · cases hname
  | f :: fs, s, table, h, hframe, htable => by
    have hclosure := h.addClosure (c := ⟨f, frame, f.name.lexeme = initializerName⟩) hframe
    have hgrows := Store.Grows.addClosure s ⟨f, frame, f.name.lexeme = initializerName⟩
    have hput : TableIn (s.addClosure ⟨f, frame, f.name.lexeme = initializerName⟩).2 frame
        (table.put f.name.lexeme s.closures.size) := by
      intro name ref href
      rw [Bindings.find?_put] at href
      split at href
      · cases href
        refine ⟨⟨f, frame, f.name.lexeme = initializerName⟩, ?_, rfl⟩
        simp [Store.addClosure]
      · obtain ⟨c, hc, hf⟩ := htable name ref href
        exact ⟨c, hgrows.closures ref c hc, hf⟩
    have hrest := addMethods_adds fs hclosure hframe hput
    refine ⟨hrest.intact, hgrows.trans hrest.grows, hrest.frames, hrest.classes, hrest.closures,
      fun name hname => hrest.names name ?_⟩
    rw [Bindings.contains_put]
    rw [List.map_cons, List.mem_cons] at hname
    obtain hbefore | rfl | hlater := hname
    · simp [hbefore]
    · simp
    · exact .inr hlater

/-- No class that was declared before has methods in the frame of a new one. -/
theorem Adds.not_declaresIn {frame i : Nat} {methods : List Function} {s s₁ : Store}
    {before table : Bindings Nat} (h : Adds frame methods s before table s₁) (hs : s.Intact)
    (hnot : ¬ s.DeclaresIn i frame) : ¬ s₁.DeclaresIn i frame := by
  rintro ⟨info, name, ref, c, hinfo, href, hc, hframe⟩
  rw [h.classes] at hinfo
  have hold := Array.getElem?_eq_getElem (hs.methods i info name ref hinfo href)
  obtain rfl := Option.some.inj ((h.grows.closures ref _ hold).symm.trans hc)
  exact hnot ⟨info, name, ref, _, hinfo, href, hold, hframe⟩

/-- The frame that the methods of a class are declared in.  If it is one of `super`, it is new. -/
theorem methodFrame (h : m.Intact N) {base : Option Nat} (hbase : HoldsBase m.store base) :
    m.Since N (m.methodFrame base).2 ∧
      (m.methodFrame base).1 < (m.methodFrame base).2.store.frames.size ∧
      ∀ ref i, (FrameKind.base ref).Fits
          ((m.methodFrame base).2.store.bindings (m.methodFrame base).1) →
        ¬ (m.methodFrame base).2.store.DeclaresIn i (m.methodFrame base).1 := by
  cases base with
  | none =>
    refine ⟨.refl h, h.frame, fun ref i hfits => ?_⟩
    cases FrameKind.eq_ordinary h.ordinary hfits
  | some ref =>
    have hstore : (m.store.push (Bindings.empty.put "super" (.classValue ref)) m.frame).2.Intact := by
      refine h.store.push (k := .base ref) rfl h.frame fun name v hv => ?_
      rw [Bindings.find?_put] at hv
      split at hv
      · cases hv
        exact hbase ref rfl
      · cases hv
    refine ⟨h.since ⟨rfl, rfl, rfl, rfl, h.code⟩ hstore (.push _ _ _), ?_, fun ref i _ hin => ?_⟩
    · show m.store.frames.size < (m.store.push _ m.frame).2.frames.size
      rw [Store.frames_push_size]
      omega
    · exact Nat.lt_irrefl _ (h.store.declaresIn_lt (i := i) (f := m.store.frames.size) hin)

/-- **Declaring a class** keeps everything in order: the frame of `super`, if one is made, is kept as
it is, and the class is the one that was to be declared. -/
theorem declareClass (h : m.Intact N) {name : Token} (hname : PlainName name.lexeme)
    {base : Option Nat} (hbase : HoldsBase m.store base) {methods : List Function}
    (hmethods : ∀ node ∈ walkMethods methods, N node) :
    m.Since N (m.declareClass name base methods) ∧
      ((m.define name.lexeme .nil).methodFrame base).2.store.Grows
        (m.declareClass name base methods).store ∧
      ∃ table, (m.declareClass name base methods).store.classes[m.store.classes.size]? =
          some ⟨name.lexeme, base, table⟩ ∧
        TableIn (m.declareClass name base methods).store
          ((m.define name.lexeme .nil).methodFrame base).1 table ∧
        ∀ f ∈ methods, table.contains f.name.lexeme = true := by
  have hnamed := h.define hname (v := .nil) trivial
  have hbase' : HoldsBase (m.define name.lexeme .nil).store base :=
    fun ref heq => hnamed.grows.holds (hbase ref heq)
  obtain ⟨hframe, hlt, hnew⟩ := hnamed.intact.methodFrame hbase'
  have hclasses : ((m.define name.lexeme .nil).methodFrame base).2.store.classes =
      m.store.classes := by
    cases base with
    | none => rfl
    | some ref => rfl
  have hcode := Machine.addMethods_code ((m.define name.lexeme .nil).methodFrame base).1 methods
    .empty _ hframe.intact.code hmethods
  have hadds := addMethods_adds methods hframe.intact.store hlt
    (show TableIn _ _ .empty from fun _ _ hfind => by cases hfind)
  unfold Machine.declareClass Machine.addMethods
  simp only
  generalize (m.define name.lexeme .nil).methodFrame base = entered at *
  obtain ⟨frame, m₂⟩ := entered
  generalize List.foldl _ (Bindings.empty, m₂.store) methods = added at *
  obtain ⟨table, store⟩ := added
  have hsize : store.classes.size = m.store.classes.size := by
    rw [hadds.classes, hclasses]
  have hclass : m₂.Since N { m₂ with store := (store.addClass ⟨name.lexeme, base, table⟩).2 } := by
    refine hframe.intact.since ⟨rfl, rfl, rfl, rfl, hcode⟩
      (hadds.intact.addClass (fun x ref hx => ?_) (fun ref heq => ?_)
        fun x ref c ref' hx hc hfits i => ?_)
      (hadds.grows.trans (.addClass _ _))
    · obtain ⟨c, hc, _⟩ := hadds.closures x ref hx
      exact (Array.getElem?_eq_some_iff.1 hc).1
    · rw [hsize]
      exact hbase ref heq
    · obtain ⟨c', hc', rfl⟩ := hadds.closures x ref hx
      obtain rfl := Option.some.inj (hc.symm.trans hc')
      refine hadds.not_declaresIn hframe.intact.store (hnew ref' i ?_)
      unfold Store.bindings at hfits ⊢
      rw [hadds.frames] at hfits
      exact hfits
  have hlast := hclass.intact.define hname (v := .classValue store.classes.size) (by
    show store.classes.size < (store.addClass _).2.classes.size
    simp [Store.addClass])
  refine ⟨hnamed.trans (hframe.trans (hclass.trans hlast)), (hclass.trans hlast).grows, table, ?_,
    hadds.closures, fun f hf => hadds.names _ (.inr (List.mem_map.2 ⟨f, hf, rfl⟩))⟩
  show (store.addClass ⟨name.lexeme, base, table⟩).2.classes[m.store.classes.size]? = _
  rw [← hsize]
  simp [Store.addClass]

/-- A new frame of variables. -/
theorem enter (h : m.Intact N) {b : Bindings Value} {parent : Nat}
    (hb : FrameKind.ordinary.Fits b) (hv : ∀ name v, b.find? name = some v → m.store.Holds v)
    (hparent : parent < m.store.frames.size) :
    (m.enter b parent).Intact N ∧ m.store.Grows (m.enter b parent).store := by
  refine ⟨⟨h.store.push hb hparent hv, h.code, ?_, ?_⟩, .push _ b parent⟩
  · show m.store.frames.size < (m.store.push b parent).2.frames.size
    rw [Store.frames_push_size]
    omega
  · show FrameKind.ordinary.Fits ((m.store.push b parent).2.bindings m.store.frames.size)
    rw [Store.bindings_push, if_pos rfl]
    exact hb

end Machine.Intact

/-- Going back from a new frame. -/
theorem Machine.Since.leave (h : m.Intact N) (hgrows : m.store.Grows m₁.store)
    (h₁ : m₁.Since N m₂) : m.Since N (m₂.leaveTo m.frame) := by
  have hall := hgrows.trans h₁.grows
  exact ⟨⟨h₁.intact.store, h₁.intact.code, Nat.lt_of_lt_of_le h.frame hall.frames,
    hall.kinds _ _ h.frame h.ordinary⟩, hall, rfl⟩

/-! ## Arguments -/

/-- Names that are put one after the other with their values. -/
theorem putAll_ordinary : ∀ (names : List String) (args : List Value) {b : Bindings Value},
    (∀ name ∈ names, PlainName name) → FrameKind.ordinary.Fits b →
    FrameKind.ordinary.Fits (b.putAll (names.zip args))
  | [], _, _, _, hb => hb
  | _ :: _, [], _, _, hb => hb
  | name :: names, v :: args, b, hnames, hb => by
    obtain ⟨hname, hnames⟩ := List.forall_mem_cons.1 hnames
    exact putAll_ordinary names args hnames (FrameKind.ordinary_put hb hname v)

/-- What refers to nothing exists. -/
theorem Store.Holds.of_isPlain {v : Value} (s : Store) (h : v.IsPlain) : s.Holds v := by
  cases v <;> trivial

end

/-! ## Tasks -/

/-- A task whose nodes satisfy `N`, on a machine in good order, with values that exist. -/
def Task.Intact (N : Node → Prop) : Task → Prop
  | .program _ stmts m => (∀ node ∈ walkBody stmts, N node) ∧ m.Intact N
  | .execute _ s m => (∀ node ∈ s.walk, N node) ∧ m.Intact N
  | .executeIn _ body b parent m =>
    (∀ node ∈ walkBody body, N node) ∧ FrameKind.ordinary.Fits b ∧
      (∀ name v, b.find? name = some v → m.store.Holds v) ∧ parent < m.store.frames.size ∧ m.Intact N
  | .executeAll _ body m => (∀ node ∈ walkBody body, N node) ∧ m.Intact N
  | .repeatWhile _ cond s m =>
    (∀ node ∈ cond.walk, N node) ∧ (∀ node ∈ s.walk, N node) ∧ m.Intact N
  | .evaluate _ e m => (∀ node ∈ e.walk, N node) ∧ m.Intact N
  | .evaluateAll _ es m => (∀ node ∈ walkArgs es, N node) ∧ m.Intact N
  | .call _ callee args _ m => m.store.Holds callee ∧ (∀ v ∈ args, m.store.Holds v) ∧ m.Intact N
  | .invoke _ callee args m => m.store.Holds callee ∧ (∀ v ∈ args, m.store.Holds v) ∧ m.Intact N
  | .applyClosure _ ref args m =>
    m.store.Holds (.function ref) ∧ (∀ v ∈ args, m.store.Holds v) ∧ m.Intact N

theorem Machine.Intact.mono {N N' : Node → Prop} {m : Machine} (h : m.Intact N)
    (hle : ∀ node, N node → N' node) : m.Intact N' :=
  ⟨h.store, h.code.mono hle, h.frame, h.ordinary⟩

theorem Task.Intact.mono {N N' : Node → Prop} {t : Task} (h : t.Intact N)
    (hle : ∀ node, N node → N' node) : t.Intact N' := by
  cases t with
  | program | execute | executeAll | evaluate | evaluateAll =>
    exact ⟨fun node hmem => hle node (h.1 node hmem), h.2.mono hle⟩
  | repeatWhile =>
    exact ⟨fun node hmem => hle node (h.1 node hmem), fun node hmem => hle node (h.2.1 node hmem),
      h.2.2.mono hle⟩
  | executeIn =>
    exact ⟨fun node hmem => hle node (h.1 node hmem), h.2.1, h.2.2.1, h.2.2.2.1,
      h.2.2.2.2.mono hle⟩
  | call | invoke | applyClosure => exact ⟨h.1, h.2.1, h.2.2.mono hle⟩

theorem Task.Intact.machine {N : Node → Prop} {t : Task} (h : t.Intact N) : t.machine.Intact N := by
  cases t with
  | program | execute | executeAll | evaluate | evaluateAll => exact h.2
  | repeatWhile | call | invoke | applyClosure => exact h.2.2
  | executeIn => exact h.2.2.2.2

end LoxLang
