import LoxLang.Proofs.Run.Operations
import LoxLang.Proofs.Store.Changes

/-!
# Declarations on twins

A declaration binds a name in the current frame, so that the frame afterwards belongs to the scopes
behind the declaration.  Classes also make closures for their methods, in a frame of their own that
binds `super` if they extend another class.

Principal results: `Twins.At.define`, `Twins.At.declareFunction`, `Twins.At.declareClass`,
`Twins.enter`.
-/

namespace LoxLang

section

variable {K : Pairing} {W : World} {L : Labels} {m m' : Machine} {p : Surroundings}

/-! ## Names -/

/-- Binding a name in a frame makes the name readable in its scope. -/
theorem Chain.define {f : Nat} {cs : List Construct} {scopes : List (Bindings Bool)}
    (h : Chain W f cs scopes) (name name' : String) (v : Value)
    (hf : f < W.store.frames.size) :
    Chain (W.define f name name' v) f cs (markIn name true scopes) := by
  have hg := W.grows_define name name' v hf
  cases h with
  | globals => exact .globals
  | frame hl hparent hbound hrest =>
    refine .frame hl (hg.parents _ _ hparent) (fun other hother => ?_) (hrest.grows hg)
    rw [Bindings.find?_put] at hother
    split at hother
    · rename_i heq
      subst heq
      rw [Store.has_eq_true, World.define, Store.bindings_define _ _ _ hf, if_pos rfl]
      exact ⟨v, by simp⟩
    · exact hg.has _ _ (hbound other hother)

/-- A name whose initializer is not evaluated yet need not be bound. -/
theorem Chain.pending {f : Nat} {cs : List Construct} {scopes : List (Bindings Bool)}
    (h : Chain W f cs scopes) (name : String) : Chain W f cs (markIn name false scopes) := by
  cases h with
  | globals => exact .globals
  | frame hl hparent hbound hrest =>
    refine .frame hl hparent (fun other hother => ?_) hrest
    rw [Bindings.find?_put] at hother
    split at hother
    · cases hother
    · exact hbound other hother

/-- A declaration in the current frame.  The value may refer to the name that is declared. -/
theorem Twins.At.define (h : Twins.At K L m m' p) {name name' : Token} {v : Value}
    (hd : K.Declares p name name')
    (hv : ∀ W₁, World.Grows ⟨L, m.store, m'.store⟩ W₁ →
      Chain W₁ m.frame p.constructs (markIn name.lexeme true p.scopes) → OkValue K W₁ v) :
    Twins.At K L (m.define name.lexeme v) (m'.define name'.lexeme v) (p.mark name.lexeme true) ∧
      World.Grows ⟨L, m.store, m'.store⟩
        ⟨L, (m.define name.lexeme v).store, (m'.define name'.lexeme v).store⟩ := by
  obtain ⟨h, hchain⟩ := h
  have hl := hchain.label h.heap.root
  have hlt := h.heap.lt_size hl
  have hg := World.grows_define ⟨L, m.store, m'.store⟩ name.lexeme name'.lexeme v hlt
  have hchain₁ := hchain.define name.lexeme name'.lexeme v hlt
  have hheap := h.heap.define hl hd.isName hd.ne_super hd.spelled (hv _ hg hchain₁)
  have hworld : World.mk L (m.define name.lexeme v).store (m'.define name'.lexeme v).store =
      World.define ⟨L, m.store, m'.store⟩ m.frame name.lexeme name'.lexeme v := by
    unfold Machine.define World.define
    rw [h.frame]
  refine ⟨⟨⟨by rw [hworld]; exact hheap, h.frame, h.depth, h.maxDepth, h.output, h.clock, h.table,
    h.table'⟩, by rw [hworld]; exact hchain₁⟩, by rw [hworld]; exact hg⟩

/-- A declaration of a variable. -/
theorem Twins.At.defineValue (h : Twins.At K L m m' p) {name name' : Token} {v : Value}
    (hd : K.Declares p name name') (hv : OkValue K ⟨L, m.store, m'.store⟩ v) :
    Twins.At K L (m.define name.lexeme v) (m'.define name'.lexeme v) (p.mark name.lexeme true) ∧
      World.Grows ⟨L, m.store, m'.store⟩
        ⟨L, (m.define name.lexeme v).store, (m'.define name'.lexeme v).store⟩ :=
  h.define hd fun _ hg _ => hv.grows hg

/-- A declaration of a function, which can refer to itself. -/
theorem Twins.At.declareFunction (h : Twins.At K L m m' p) {decl decl' : Function}
    (hd : K.Declares p decl.name decl'.name)
    (hdecl : AlikeFunction K (p.mark decl.name.lexeme true) decl decl') :
    Twins.At K L (m.declareFunction decl) (m'.declareFunction decl')
        (p.mark decl.name.lexeme true) ∧
      World.Grows ⟨L, m.store, m'.store⟩
        ⟨L, (m.declareFunction decl).store, (m'.declareFunction decl').store⟩ := by
  obtain ⟨h, hchain⟩ := h
  let c : Closure := ⟨decl, m.frame, false⟩
  let c' : Closure := ⟨decl', m'.frame, false⟩
  let m₁ : Machine := { m with store := (m.store.addClosure c).2 }
  let m₁' : Machine := { m' with store := (m'.store.addClosure c').2 }
  have hg : World.Grows ⟨L, m.store, m'.store⟩ ⟨L, m₁.store, m₁'.store⟩ :=
    World.grows_addClosure _ c c'
  have h₁ : Twins.At K L m₁ m₁' p :=
    ⟨{ h with heap := h.heap.addClosure c c' }, hchain.grows hg⟩
  have hclosures := h.heap.closures_addClosure c c'
  have hsize : m'.store.closures.size = m.store.closures.size := h.heap.closures
  have hdefine := h₁.define (v := .function m.store.closures.size) hd (fun W₁ hg₁ hchain₁ =>
    ⟨c, c', p.mark decl.name.lexeme true, hg₁.closures _ _ hclosures.1,
      hg₁.closures' _ _ hclosures.2,
      ⟨h.frame, rfl, hchain₁, hdecl, fun hinit => by cases hinit⟩⟩)
  have heq' : m'.declareFunction decl' =
      m₁'.define decl'.name.lexeme (.function m.store.closures.size) := by
    rw [← hsize]
    rfl
  rw [heq']
  exact ⟨hdefine.1, hg.trans hdefine.2⟩

/-! ## Classes -/

/-- A name is read in the same way before another one is declared. -/
theorem Surroundings.Readable.before {name other : String}
    (h : (p.mark name true).Readable other) (hne : other ≠ name) : p.Readable other := by
  intro d scope hd hscope
  obtain ⟨scope', hscope', hfind⟩ := getElem?_markIn name true hscope
  rw [← hfind _ hne]
  exact h d scope' ((distance?_markIn_of_ne true hne p.scopes).trans hd) hscope'

/-- The superclass of a class is looked up before the name of the class is bound. -/
theorem Twins.At.evalSuperclass (h : Twins.At K L m m' p) {name : Token}
    {superclass superclass' : Option Superclass}
    (ha : AlikeSuperclass K p name superclass superclass')
    (hev : ∀ s, superclass = some s → K.Evaluated .read s.id s.name m) :
    Agrees K ⟨L, m.store, m'.store⟩ m.frame (fun _ base => base.isSome = superclass.isSome)
      (m.evalSuperclass superclass) (m'.evalSuperclass superclass') := by
  obtain ⟨h, hchain⟩ := h
  cases ha with
  | none => exact .done h.since rfl
  | @some s s' hid hr hread hne =>
    have hdist : distance? s.name.lexeme p.scopes =
        Site.distance? ⟨.read, s.id, s.name, p.mark name.lexeme true⟩ :=
      (distance?_markIn_of_ne true hne p.scopes).symm
    have hlookup := h.lookup ⟨.read, s.id, s.name, p.mark name.lexeme true⟩ hchain hdist
      (fun d scope hd => hread.before hne d scope (hdist.trans hd)) hr (hev s rfl)
    simp only [Machine.evalSuperclass, hid]
    refine hlookup.bind fun {_ _ _ v} _ hsince _ => ?_
    cases v with
    | classValue ref => exact .done ⟨hsince.twins, .refl _, hsince.frame⟩ rfl
    | _ =>
      refine .raised ⟨hsince.twins, .refl _, hsince.frame⟩ (.same (fun _ hc => by cases hc) ?_)
      exact hr.line

/-- Around the scope of `this` of a class. -/
def Surroundings.inBase (p : Surroundings) (id : Nat) : Option Superclass → Surroundings
  | none => p
  | some _ => ⟨.base id :: p.constructs, Bindings.empty.put "super" true :: p.scopes, none⟩

theorem Surroundings.inClass_eq (p : Surroundings) (id : Nat) (superclass : Option Superclass)
    (methods : List Function) :
    p.inClass id superclass methods = (p.inBase id superclass).bound id methods := by
  cases superclass <;> rfl

/-- The frame that methods are declared in. -/
theorem Twins.At.methodFrame (h : Twins.At K L m m' p) (id : Nat) {base : Option Nat}
    {superclass : Option Superclass} (hbase : base.isSome = superclass.isSome)
    (hmade : base.isSome = true → K.Made m.store.frames.size (.base id)) :
    (m'.methodFrame base).1 = (m.methodFrame base).1 ∧
      ∃ L₁, Twins.Since K ⟨L, m.store, m'.store⟩ m.frame L₁ (m.methodFrame base).2
          (m'.methodFrame base).2 ∧
        Chain ⟨L₁, (m.methodFrame base).2.store, (m'.methodFrame base).2.store⟩
          (m.methodFrame base).1 (p.inBase id superclass).constructs
          (p.inBase id superclass).scopes := by
  obtain ⟨h, hchain⟩ := h
  cases base with
  | none =>
    cases superclass with
    | none => exact ⟨h.frame, L, h.since, hchain⟩
    | some s => cases hbase
  | some ref =>
    cases superclass with
    | none => cases hbase
    | some s =>
      let binds : Bindings Value := Bindings.empty.put "super" (.classValue ref)
      have hpush : Heap K (World.push ⟨L, m.store, m'.store⟩ (.base id) binds binds m.frame) := by
        refine h.heap.push (hmade rfl) (hchain.lt_size h.heap) ?_ ?_ ?_
        · exact fun name hname => K.find?_implicit (K.spell_super _) K.name_super hname
        · intro name v hname
          rw [Bindings.find?_put] at hname
          split at hname
          · cases hname; trivial
          · cases hname
        · exact fun _ _ => ⟨ref, by simp [binds]⟩
      have hgrows := World.grows_push ⟨L, m.store, m'.store⟩ (.base id) binds binds m.frame
      have hworld : World.mk (L ++ [some (.base id)]) (m.methodFrame (some ref)).2.store
          (m'.methodFrame (some ref)).2.store =
          World.push ⟨L, m.store, m'.store⟩ (.base id) binds binds m.frame := by
        unfold Machine.methodFrame World.push
        rw [h.frame]
      refine ⟨h.heap.size', _, ⟨⟨by rw [hworld]; exact hpush, h.frame, h.depth, h.maxDepth,
        h.output, h.clock, h.table, h.table'⟩, by rw [hworld]; exact hgrows, rfl⟩, ?_⟩
      rw [hworld]
      refine Chain.push h.heap hchain fun name hname => ?_
      rw [Bindings.find?_put] at hname
      split at hname
      · rename_i heq
        subst heq
        simp [binds, Bindings.contains]
      · cases hname

/-- Making closures for methods that are resolved around the frame, one after the other. -/
theorem foldl_addMethod {frame id : Nat} {all : List Function} {q : Surroundings} :
    ∀ {methods methods' : List Function} {L : Labels} {s s' : Store} {table : Bindings Nat},
    AlikeMethods K (q.bound id all) methods methods' → (∀ f ∈ methods, f ∈ all) →
    Heap K ⟨L, s, s'⟩ → Chain ⟨L, s, s'⟩ frame q.constructs q.scopes →
    (∀ name ref, table.find? name = some ref → OkMethod K ⟨L, s, s'⟩ ref) →
    ∃ table₁ s₁ s₁', methods.foldl (addMethod frame) (table, s) = (table₁, s₁) ∧
      methods'.foldl (addMethod frame) (table, s') = (table₁, s₁') ∧ Heap K ⟨L, s₁, s₁'⟩ ∧
      World.Grows ⟨L, s, s'⟩ ⟨L, s₁, s₁'⟩ ∧
      ∀ name ref, table₁.find? name = some ref → OkMethod K ⟨L, s₁, s₁'⟩ ref
  | _, _, _, s, s', table, .nil, _, hheap, _, htable =>
    ⟨table, s, s', rfl, rfl, hheap, .refl _, htable⟩
  | _, _, L, s, s', table, @AlikeMethods.cons _ _ f f' _ _ hf hfs, hmem, hheap, hchain, htable => by
    let c : Closure := ⟨f, frame, f.name.lexeme = initializerName⟩
    let c' : Closure := ⟨f', frame, f'.name.lexeme = initializerName⟩
    have hg := World.grows_addClosure ⟨L, s, s'⟩ c c'
    have hclosures := hheap.closures_addClosure c c'
    have hsize : s'.closures.size = s.closures.size := hheap.closures
    have hok : OkMethod K (World.addClosure ⟨L, s, s'⟩ c c') s.closures.size := by
      refine ⟨c, c', id, all, q, hclosures.1, hclosures.2, rfl, ?_, hchain.grows hg, hf,
        hmem f (by simp)⟩
      simp only [c, c', hf.name_eq]
    have htable₁ : ∀ name ref, (table.put f.name.lexeme s.closures.size).find? name = some ref →
        OkMethod K (World.addClosure ⟨L, s, s'⟩ c c') ref := by
      intro name ref href
      rw [Bindings.find?_put] at href
      split at href
      · cases href; exact hok
      · exact (htable name ref href).grows hg
    obtain ⟨table₁, s₁, s₁', heq, heq', hheap₁, hg₁, hok₁⟩ := foldl_addMethod hfs
      (fun g hmem' => hmem g (List.mem_cons_of_mem _ hmem')) (hheap.addClosure c c')
      (hchain.grows hg) htable₁
    refine ⟨table₁, s₁, s₁', heq, ?_, hheap₁, hg.trans hg₁, hok₁⟩
    rw [List.foldl_cons, ← heq', addMethod, hf.name_eq, hsize]
    simp only [c', hf.name_eq]

/-- A declaration of a class. -/
theorem Twins.At.declareClass (h : Twins.At K L m m' p) {id : Nat} {name name' : Token}
    {superclass : Option Superclass} {base : Option Nat} {methods methods' : List Function}
    (hd : K.Declares p name name') (hname : name'.lexeme = name.lexeme)
    (hmethods : AlikeMethods K ((p.mark name.lexeme true).inClass id superclass methods)
      methods methods')
    (hbase : base.isSome = superclass.isSome)
    (hmade : base.isSome = true → K.Made m.store.frames.size (.base id)) :
    ∃ L₁, Twins.Since K ⟨L, m.store, m'.store⟩ m.frame L₁ (m.declareClass name base methods)
        (m'.declareClass name' base methods') ∧
      Chain ⟨L₁, (m.declareClass name base methods).store,
        (m'.declareClass name' base methods').store⟩ m.frame p.constructs
        (markIn name.lexeme true p.scopes) := by
  have hsize : (m.define name.lexeme .nil).store.frames.size = m.store.frames.size :=
    m.store.frames_define_size m.frame name.lexeme .nil
  have hd₁ : K.Declares (p.mark name.lexeme true) name name' := ⟨hd.isName, hd.ne_super, hd.spelled⟩
  obtain ⟨h₁, hg₁⟩ := h.defineValue (v := .nil) hd trivial
  obtain ⟨hframe, L₁, hsince, hchain⟩ := h₁.methodFrame id hbase (hsize ▸ hmade)
  rw [Surroundings.inClass_eq] at hmethods
  -- the closures of the methods
  generalize hm₂ : (m.define name.lexeme .nil).methodFrame base = m₂ at hframe hsince hchain
  generalize hm₂' : (m'.define name'.lexeme .nil).methodFrame base = m₂' at hframe hsince hchain
  obtain ⟨frame, m₂⟩ := m₂
  obtain ⟨frame', m₂'⟩ := m₂'
  obtain rfl : frame' = frame := hframe
  obtain ⟨table, s₃, s₃', heq, heq', hheap₃, hg₃, hok⟩ :=
    foldl_addMethod hmethods (fun _ hf => hf) hsince.twins.heap hchain
      (fun name ref href => by rw [Bindings.find?_empty] at href; cases href)
  -- the class itself, and its name
  let info : ClassInfo := ⟨name.lexeme, base, table⟩
  have hg₄ := World.grows_addClass ⟨L₁, s₃, s₃'⟩ info
  have hsize' : s₃'.classes.size = s₃.classes.size := congrArg Array.size hheap₃.classes
  have hall := (hg₁.trans hsince.grows).trans (hg₃.trans hg₄)
  have h₄ : Twins.At K L₁ { m₂ with store := (s₃.addClass info).2 }
      { m₂' with store := (s₃'.addClass info).2 } (p.mark name.lexeme true) := by
    refine ⟨{ hsince.twins with heap := hheap₃.addClass hok }, ?_⟩
    show Chain _ m₂.frame _ _
    rw [hsince.frame]
    exact h₁.chain.grows (hsince.grows.trans (hg₃.trans hg₄))
  obtain ⟨h₅, hg₅⟩ := h₄.defineValue (v := .classValue s₃.classes.size) hd₁ trivial
  have hdeclare : m.declareClass name base methods =
      { m₂ with store := (s₃.addClass info).2 }.define name.lexeme
        (.classValue s₃.classes.size) := by
    unfold Machine.declareClass
    simp only [hm₂, addMethods_eq, heq]
    rfl
  have hdeclare' : m'.declareClass name' base methods' =
      { m₂' with store := (s₃'.addClass info).2 }.define name'.lexeme
        (.classValue s₃.classes.size) := by
    unfold Machine.declareClass
    simp only [hm₂', addMethods_eq, heq']
    rw [← hsize', hname]
    rfl
  have hchain₅ := h₅.chain
  have hback : m₂.frame = m.frame := hsince.frame
  rw [hdeclare, hdeclare']
  refine ⟨L₁, ⟨h₅.twins, hall.trans hg₅, hback⟩, ?_⟩
  rw [← hback]
  simp only [Surroundings.mark, markIn_markIn] at hchain₅
  exact hchain₅

/-! ## New frames -/

/-- Entering a new frame for a block or a routine. -/
theorem Twins.enter (h : Twins K L m m') {c : Construct} {b b' : Bindings Value} {parent : Nat}
    {cs : List Construct} {scope : Bindings Bool} {scopes : List (Bindings Bool)}
    {init : Option Declared}
    (hchain : Chain ⟨L, m.store, m'.store⟩ parent cs scopes) (hc : ∀ id, c ≠ .base id)
    (hmade : K.Made m.store.frames.size c)
    (hb : ∀ name, K.IsName name → b'.find? (K.spell c name) = b.find? name)
    (hv : ∀ name v, b.find? name = some v → OkValue K ⟨L, m.store, m'.store⟩ v)
    (hbound : ∀ name, scope.find? name = some true → b.contains name = true) :
    Twins.At K (L ++ [some c]) (m.enter b parent) (m'.enter b' parent)
        ⟨c :: cs, scope :: scopes, init⟩ ∧
      World.Grows ⟨L, m.store, m'.store⟩
        ⟨L ++ [some c], (m.enter b parent).store, (m'.enter b' parent).store⟩ := by
  have hpush := h.heap.push hmade (hchain.lt_size h.heap) hb hv (fun id hid => absurd hid (hc id))
  refine ⟨⟨⟨hpush, h.heap.size', h.depth, h.maxDepth, h.output, h.clock, h.table, h.table'⟩,
    Chain.push h.heap hchain hbound⟩, World.grows_push _ c b b' parent⟩

end

/-! ## Parameters -/

section

variable {K : Pairing} {W : World}

/-- Arguments are found under the names that the second run spells. -/
theorem putAll_find?_spell {c : Construct} : ∀ (names : List String) (args : List Value)
    (b b' : Bindings Value), (∀ name ∈ names, K.IsName name) →
    (∀ name, K.IsName name → b'.find? (K.spell c name) = b.find? name) →
    ∀ name, K.IsName name →
      (b'.putAll ((names.map (K.spell c)).zip args)).find? (K.spell c name) =
        (b.putAll (names.zip args)).find? name
  | [], _, _, _, _, hb => hb
  | _ :: _, [], _, _, _, hb => hb
  | first :: names, arg :: args, b, b', hnames, hb => by
    refine putAll_find?_spell names args (b.put first arg) (b'.put (K.spell c first) arg)
      (fun name hmem => hnames name (List.mem_cons_of_mem _ hmem)) fun name hname => ?_
    have hiff : K.spell c first = K.spell c name ↔ first = name :=
      ⟨K.spell_inj c c (hnames first (by simp)) hname, fun heq => by rw [heq]⟩
    rw [Bindings.find?_put, Bindings.find?_put, hb name hname]
    simp only [hiff]

/-- As many arguments as parameters bind every parameter. -/
theorem putAll_contains : ∀ (names : List String) (args : List Value) (b : Bindings Value)
    (scope : Bindings Bool), args.length = names.length →
    (∀ name, scope.find? name = some true → b.contains name = true) →
    ∀ name, (names.foldl (fun b name => b.put name true) scope).find? name = some true →
      (b.putAll (names.zip args)).contains name = true
  | [], _, _, _, _, hb => hb
  | _ :: _, [], _, _, hlength, _ => by cases hlength
  | first :: names, arg :: args, b, scope, hlength, hb => by
    refine putAll_contains names args (b.put first arg) (scope.put first true)
      (by simpa using hlength) fun name hname => ?_
    unfold Bindings.contains
    rw [Bindings.find?_put] at hname ⊢
    split
    · rfl
    · rename_i hne
      rw [if_neg hne] at hname
      exact hb name hname

end

end LoxLang
