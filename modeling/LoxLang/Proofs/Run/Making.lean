import LoxLang.Proofs.Run.Order

/-!
# How frames are made

A change that a task makes itself, from the machine `a` to the machine `b`, splits the moments of a
run in two: each lies before the change, so that its store grows into that of `a`, or after it.  So a
frame is made once, and it is found as it was made at all moments where it exists.

* `Task.Makes` — a task makes a change, after some of its tasks and before the others.
* `Task.Binds` — a task binds a method to an instance.
* `Task.Extends` — a task declares a class with a superclass.

Principal results: `Task.Makes.split`, `Task.Makes.frame`, `Task.Binds.makes`, `Task.Extends.makes`.
-/

namespace LoxLang

namespace Task

/-- A task makes a change of the machine.  What it performs is over before, or starts after it. -/
structure Makes (t : Task) (a b : Machine) : Prop where
  start : t.machine.store.Grows a.store
  parts : ∀ c, t.Calls c →
    (∃ e, c.end? = some e ∧ e.store.Grows a.store) ∨ b.store.Grows c.machine.store
  finish : ∀ e, t.end? = some e → b.store.Grows e.store

section

variable {N : Node → Prop} {t t' : Task} {a b : Machine}

/-- **Every moment lies before a change or after it.** -/
theorem Makes.split (h : t.Makes a b) (hN : ∀ node, N node → node.WellNamed) (ht : t.Intact N)
    (ht' : t'.Intact N) (hc : t.Comparable t') :
    t'.machine.store.Grows a.store ∨ b.store.Grows t'.machine.store := by
  cases hc with
  | within hreaches =>
    obtain rfl | ⟨c, hcalls, hinside⟩ := hreaches.cases_head
    · exact .inl h.start
    · have hintact := ((ht.performs hN).starts c hcalls).1
      obtain ⟨e, he, hgrows⟩ | hgrows := h.parts c hcalls
      · obtain ⟨e', he', hgrows'⟩ := hintact.ends hN hinside he
        exact .inl (((ht'.performs hN).leaves e' he').grows.trans (hgrows'.trans hgrows))
      · exact .inr (hgrows.trans (hintact.reaches hN hinside).2)
  | around hreaches => exact .inl ((ht'.reaches hN hreaches).2.trans h.start)
  | before hbefore =>
    obtain ⟨e, he, hgrows⟩ := hbefore
    exact .inr ((h.finish e he).trans hgrows)
  | after hafter =>
    obtain ⟨e, he, hgrows⟩ := hafter
    exact .inl (((ht'.performs hN).leaves e he).grows.trans (hgrows.trans h.start))

/-- A frame that a change makes is as it was made, wherever it is found. -/
theorem Makes.frame (h : t.Makes a b) (hN : ∀ node, N node → node.WellNamed) (ht : t.Intact N)
    (ht' : t'.Intact N) (hc : t.Comparable t') (hmade : a.store.frames.size < b.store.frames.size)
    (hf : a.store.frames.size < t'.machine.store.frames.size) :
    b.store.Grows t'.machine.store ∧
      t'.machine.store.parent? a.store.frames.size = b.store.parent? a.store.frames.size ∧
      ∀ k : FrameKind, k.Fits (b.store.bindings a.store.frames.size) →
        k.Fits (t'.machine.store.bindings a.store.frames.size) := by
  obtain hgrows | hgrows := h.split hN ht ht' hc
  · have hle := hgrows.frames
    omega
  · exact ⟨hgrows, hgrows.parents _ hmade, fun k => hgrows.kinds k _ hmade⟩

/-- A task that performs nothing makes its change in the end. -/
theorem Makes.last (hstart : t.machine.store.Grows a.store) (hparts : ∀ c, t.Calls c →
      ∃ e, c.end? = some e ∧ e.store.Grows a.store)
    (hend : t.end? = some b) : t.Makes a b := by
  refine ⟨hstart, fun c hc => .inl (hparts c hc), fun e he => ?_⟩
  rw [hend] at he
  cases he
  exact .refl _

/-! ## Blocks and calls -/

/-- Entering a frame. -/
theorem enter_makes {n : Nat} {body : List Stmt} {bindings : Bindings Value} {parent : Nat}
    {m : Machine} (hN : ∀ node, N node → node.WellNamed)
    (h : Intact N (.executeIn (n + 1) body bindings parent m)) :
    Makes (.executeIn (n + 1) body bindings parent m) m (m.enter bindings parent) := by
  refine ⟨.refl _, fun c hc => ?_, fun e he => ?_⟩
  · cases hc
    exact .inr (.refl _)
  · have hperforms := h.performs hN
    obtain ⟨e', he', hgrows⟩ := hperforms.ends _ e .body he
    have hintact := (hperforms.starts _ .body).1
    exact ((hintact.performs hN).leaves e' he').grows.trans hgrows

/-! ## Bound methods -/

/-- A task binds a method to an instance, on a machine.  The bound method gets the next number, and
its frame, which holds the instance, the next number of frames. -/
inductive Binds : Task → Closure → Nat → Machine → Prop where
  /-- Reading a property that is a method. -/
  | property {n id inst : Nat} {e : Expr} {name : Token} {c : Closure} {m m₁ : Machine} :
      LoxLang.evaluate n e m = .done (.object inst) m₁ →
      m₁.store.property? inst name.lexeme = some (.method c) →
      Binds (.evaluate (n + 1) (.get id e name) m) c inst m₁
  /-- Reading a method of the superclass. -/
  | super {n id ref inst distance : Nat} {keyword method : Token} {c : Closure} {m : Machine} :
      m.table[id]? = some distance → m.store.getAt m.frame distance "super" = .ok (.classValue ref) →
      m.store.getAt m.frame ((distance : Int) - 1) "this" = .ok (.object inst) →
      m.store.method? ref method.lexeme = some c →
      Binds (.evaluate (n + 1) (.super id keyword method) m) c inst m
  /-- Calling a class that has an initializer. -/
  | construct {n ref : Nat} {args : List Value} {c : Closure} {m : Machine} :
      m.store.method? ref initializerName = some c →
      Binds (.invoke (n + 1) (.classValue ref) args m) c m.store.instances.size
        { m with store := (m.store.addInstance ref).2 }

theorem Binds.makes {c : Closure} {inst : Nat} (h : t.Binds c inst a)
    (hN : ∀ node, N node → node.WellNamed) (ht : t.Intact N) :
    t.Makes a (a.bindMethod c (.object inst)).2 := by
  have hperforms := ht.performs hN
  cases h with
  | @property n id inst e name c m m₁ heq hproperty =>
    have hobject := (hperforms.starts _ .object).1
    have hends : end? (.evaluate n e m) = some a := congrArg Outcome.machine? heq
    refine .last ((hobject.performs hN).leaves a hends).grows (fun c hc => ?_) ?_
    · cases hc
      exact ⟨a, hends, .refl _⟩
    · show (LoxLang.evaluate (n + 1) (.get id e name) m).machine? = _
      rw [LoxLang.evaluate, heq, Outcome.bind_done, Machine.getProperty, hproperty]
      rfl
  | @super n id ref inst distance keyword method c m htable hsuper hthis hmethod =>
    refine .last (.refl _) (fun c hc => by cases hc) ?_
    show (LoxLang.evaluate (n + 1) (.super id keyword method) a).machine? = _
    rw [LoxLang.evaluate, Machine.superMethod]
    simp only [htable, hsuper, hthis, hmethod]
    rfl
  | @construct n ref args c m hmethod =>
    have hcalls : Calls (.invoke (n + 1) (.classValue ref) args m) _ := .construct hmethod
    refine ⟨.addInstance m.store ref, fun t₁ ht₁ => ?_, fun e he => ?_⟩
    · cases ht₁ with
      | construct hmethod' =>
        rw [hmethod] at hmethod'
        cases hmethod'
        exact .inr (.refl _)
    · obtain ⟨e', he', hgrows⟩ := hperforms.ends _ e hcalls he
      have hintact := (hperforms.starts _ hcalls).1
      exact ((hintact.performs hN).leaves e' he').grows.trans hgrows

/-- The number of a bound method is in use after it was bound only. -/
theorem Binds.called {c : Closure} {inst k : Nat} {args : List Value} {m' : Machine}
    (h : t.Binds c inst a) (hN : ∀ node, N node → node.WellNamed) (ht : t.Intact N)
    (ht' : Intact N (.applyClosure k (a.bindMethod c (.object inst)).1 args m'))
    (hc : t.Comparable (.applyClosure k (a.bindMethod c (.object inst)).1 args m')) :
    m'.store.closures[(a.bindMethod c (.object inst)).1]? =
      some { c with frame := a.store.frames.size } := by
  have hexists : (a.bindMethod c (.object inst)).1 < m'.store.closures.size := ht'.1
  obtain hgrows | hgrows := (h.makes hN ht).split hN ht ht' hc
  · have hle : m'.store.closures.size ≤ a.store.closures.size := size_le_of_getElem? hgrows.closures
    have hnew : (a.bindMethod c (.object inst)).1 = a.store.closures.size := rfl
    omega
  · exact hgrows.closures _ _ (a.store.bind_closure c (.object inst))

/-- **The frame of a bound method holds the receiver and nothing else**, at all moments since it was
made, and it lies directly inside the frame that the method was declared in. -/
theorem Binds.for_ever {c : Closure} {inst : Nat} (h : t.Binds c inst a)
    (hN : ∀ node, N node → node.WellNamed) (ht : t.Intact N) (ht' : t'.Intact N)
    (hc : t.Comparable t') (hf : a.store.frames.size < t'.machine.store.frames.size) :
    t'.machine.store.bindings a.store.frames.size = Bindings.empty.put "this" (.object inst) ∧
      t'.machine.store.parent? a.store.frames.size = some c.frame ∧
      a.store.Grows t'.machine.store := by
  have hmade : a.store.frames.size < (a.bindMethod c (.object inst)).2.store.frames.size := by
    rw [show (a.bindMethod c (.object inst)).2.store = (a.store.bind c (.object inst)).2 from rfl,
      Store.bind_frames_size]
    omega
  obtain ⟨hgrows, hparent, hkind⟩ := (h.makes hN ht).frame hN ht ht' hc hmade hf
  exact ⟨hkind (.receiver inst) (a.store.bind_bindings c (.object inst)),
    hparent.trans (a.store.bind_parent? c (.object inst)), (Store.Grows.bind _ c _).trans hgrows⟩

/-! ## Superclasses -/

/-- A task declares a class that extends another one, on a machine. -/
inductive Extends : Task → Nat → Token → Nat → List Function → Machine → Prop where
  | mk {n id ref : Nat} {name : Token} {s : Superclass} {methods : List Function}
      {m : Machine} :
      m.evalSuperclass (some s) = .done (some ref) m →
      Extends (.execute (n + 1) (.classDecl id name (some s) methods) m) id name ref methods m

theorem Extends.makes {id ref : Nat} {name : Token} {methods : List Function}
    (h : t.Extends id name ref methods a) (hN : ∀ node, N node → node.WellNamed)
    (ht : t.Intact N) :
    t.Makes a (a.declareClass name (some ref) methods) ∧
      a.store.frames.size < (a.declareClass name (some ref) methods).store.frames.size ∧
      (FrameKind.base ref).Fits
        ((a.declareClass name (some ref) methods).store.bindings a.store.frames.size) ∧
      ∃ table, (a.declareClass name (some ref) methods).store.classes[a.store.classes.size]? =
          some ⟨name.lexeme, some ref, table⟩ ∧
        Machine.Intact.TableIn (a.declareClass name (some ref) methods).store a.store.frames.size
          table ∧
        ∀ f ∈ methods, table.contains f.name.lexeme = true := by
  obtain @⟨n, _, _, _, s, _, _, heval⟩ := h
  obtain ⟨hwalk, hm⟩ := ht
  have hnode : N (.stmt (.classDecl id name (some s) methods)) :=
    hwalk _ (Stmt.mem_walk_self (by simp))
  have hmethods : ∀ node ∈ walkMethods methods, N node :=
    fun node hmem => hwalk node (Stmt.walkMethods_subset_walk hmem)
  have hbase : Machine.Intact.HoldsBase a.store (some ref) := by
    obtain ⟨_, _, frame, heq, hget⟩ := Machine.evalSuperclass_eq_done heval
    intro ref' href'
    cases heq
    cases href'
    exact hm.store.get_holds hget
  obtain ⟨hsince, hgrows, table, hinfo, hin, hnames⟩ := hm.declareClass (hN _ hnode) hbase hmethods
  -- The frame of `super` is pushed right after the name of the class is bound.
  have hsize : (a.define name.lexeme .nil).store.frames.size = a.store.frames.size :=
    a.store.frames_define_size a.frame name.lexeme .nil
  have hpushed : a.store.frames.size <
      ((a.define name.lexeme .nil).methodFrame (some ref)).2.store.frames.size := by
    show _ < ((a.define name.lexeme .nil).store.push _ _).2.frames.size
    rw [Store.frames_push_size, hsize]
    omega
  have hfits : (FrameKind.base ref).Fits
      (((a.define name.lexeme .nil).methodFrame (some ref)).2.store.bindings a.store.frames.size) := by
    show _ = _
    rw [← hsize]
    exact ((a.define name.lexeme .nil).store.bindings_push _ _ _).trans (if_pos rfl)
  refine ⟨.last (.refl _) (fun c hc => by cases hc) ?_, Nat.lt_of_lt_of_le hpushed hgrows.frames,
    hgrows.kinds _ _ hpushed hfits, table, hinfo, hsize ▸ hin, hnames⟩
  show (LoxLang.execute (n + 1) (.classDecl id name (some s) methods) a).machine? = _
  rw [LoxLang.execute, heval]
  rfl

/-- **The frame of `super` holds the superclass and nothing else**, at all moments.  The class that
was declared with it keeps it as its base, and a class that has methods in this frame is that one. -/
theorem Extends.for_ever {id ref : Nat} {name : Token} {methods : List Function}
    (h : t.Extends id name ref methods a) (hN : ∀ node, N node → node.WellNamed) (ht : t.Intact N)
    (ht' : t'.Intact N) (hc : t.Comparable t')
    (hf : a.store.frames.size < t'.machine.store.frames.size) :
    t'.machine.store.bindings a.store.frames.size = Bindings.empty.put "super" (.classValue ref) ∧
      (∃ table, t'.machine.store.classes[a.store.classes.size]? =
        some ⟨name.lexeme, some ref, table⟩) ∧
      ∀ i, methods ≠ [] → t'.machine.store.DeclaresIn i a.store.frames.size →
        i = a.store.classes.size := by
  obtain ⟨hmakes, hmade, hfits, table, hinfo, hin, hnames⟩ := h.makes hN ht
  obtain ⟨hgrows, _, hkind⟩ := hmakes.frame hN ht ht' hc hmade hf
  have hbase := hkind (.base ref) hfits
  have hclass := hgrows.classes _ _ hinfo
  refine ⟨hbase, ⟨table, hclass⟩, fun i hsome hi => ?_⟩
  obtain ⟨f, hmem⟩ := List.exists_mem_of_ne_nil _ hsome
  obtain ⟨method, hmethod⟩ := Option.isSome_iff_exists.1 (hnames f hmem)
  obtain ⟨c, hclosure, hframe⟩ := hin _ _ hmethod
  exact ht'.machine.store.owners _ ref i _ hbase hi
    ⟨_, _, method, c, hclass, hmethod, hgrows.closures _ _ hclosure, hframe⟩

/-! ## Functions -/

/-- A function that was declared is found under its number wherever that number is in use. -/
theorem function_for_ever {n ref : Nat} {decl : Function} {args : List Value} {m m' : Machine}
    (hN : ∀ node, N node → node.WellNamed) (ht : Intact N (.execute (n + 1) (.function decl) m))
    (href : m.store.closures.size = ref) {k : Nat} (ht' : Intact N (.applyClosure k ref args m'))
    (hc : Comparable (.execute (n + 1) (.function decl) m) (.applyClosure k ref args m')) :
    m.store.Grows m'.store ∧ m'.store.closures[ref]? = some ⟨decl, m.frame, false⟩ := by
  have hends : end? (.execute (n + 1) (.function decl) m) = some (m.declareFunction decl) := by
    show (LoxLang.execute (n + 1) (.function decl) m).machine? = _
    rw [LoxLang.execute]
    rfl
  have hmakes : Makes (.execute (n + 1) (.function decl) m) m (m.declareFunction decl) :=
    .last (.refl _) (fun c hc => by cases hc) hends
  have hexists : ref < m'.store.closures.size := ht'.1
  obtain hgrows | hgrows := hmakes.split hN ht ht' hc
  · have hle : m'.store.closures.size ≤ m.store.closures.size := size_le_of_getElem? hgrows.closures
    omega
  · refine ⟨((ht.performs hN).leaves _ hends).grows.trans hgrows, hgrows.closures _ _ ?_⟩
    show (m.store.addClosure ⟨decl, m.frame, false⟩).2.closures[ref]? = _
    rw [← href]
    simp [Store.addClosure]

/-! ## Activations -/

/-- The frame of `super` is made by the declaration of a class. -/
theorem Activates.base {f id : Nat} (h : t.Activates f (.base id)) :
    ∃ name ref methods a, t.Extends id name ref methods a ∧ a.store.frames.size = f := by
  cases h with
  | superclass heval =>
    obtain ⟨rfl, -⟩ := Machine.evalSuperclass_eq_done heval
    exact ⟨_, _, _, _, .mk heval, rfl⟩

/-- A method that is bound is one of a class. -/
theorem Binds.declared {c : Closure} {inst : Nat} (h : t.Binds c inst a) :
    ∃ i name method, a.store.declares? name i = some method ∧ a.store.closures[method]? = some c := by
  cases h with
  | property _ hproperty =>
    obtain ⟨_, _, hc⟩ := Store.property?_eq_method hproperty
    obtain ⟨i, method, hi, hclosure⟩ := Store.method?_declares hc
    exact ⟨i, _, method, hi, hclosure⟩
  | super _ _ _ hc =>
    obtain ⟨i, method, hi, hclosure⟩ := Store.method?_declares hc
    exact ⟨i, _, method, hi, hclosure⟩
  | construct hc =>
    obtain ⟨i, method, hi, hclosure⟩ := Store.method?_declares hc
    exact ⟨i, _, method, hi, hclosure⟩

/-- The frame of `this` is made by binding a method of the class. -/
theorem Activates.receiver {f id : Nat} {methods : List Function} (ht : t.Intact N)
    (h : t.Activates f (.receiver id methods)) :
    ∃ c inst a, t.Binds c inst a ∧ a.store.frames.size = f ∧ c.decl ∈ methods := by
  cases h with
  | property heq hproperty hmem => exact ⟨_, _, _, .property heq hproperty, rfl, hmem⟩
  | super htable hsuper hthis hmethod hmem =>
    obtain ⟨_, hget⟩ := Store.get_of_getAt hthis
    obtain ⟨inst, rfl⟩ := ht.machine.get_this hget
    exact ⟨_, inst, _, .super htable hsuper hthis hmethod, rfl, hmem⟩
  | construct hmethod hmem => exact ⟨_, _, _, .construct hmethod, rfl, hmem⟩

end

end Task

end LoxLang
