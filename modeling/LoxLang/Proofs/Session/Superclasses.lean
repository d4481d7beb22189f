import LoxLang.Proofs.Session.Receivers

/-!
# Superclasses

Where `super` is evaluated, the scope of `super` lies directly around that of `this`, and both are
those of the innermost class declaration around the place.  Their frames were made by binding the
method that is running, and by the execution of the declaration that created its class.  So the class
where the search for a method starts was settled when the class was declared, and the receiver when
the method was bound.

Principal result: `super_starts_at_the_declared_base`.
-/

namespace LoxLang

section

variable {m : Machine} {d f g ref inst id : Nat}

/-- What `super` comes to, given the frames of the superclass and of the receiver. -/
theorem Machine.superMethod_eq (htable : m.table[id]? = some (d + 1))
    (hg : m.store.climb (d + 1) m.frame = some g)
    (hbase : (FrameKind.base ref).Fits (m.store.bindings g)) (hf : m.store.climb d m.frame = some f)
    (hreceiver : (FrameKind.receiver inst).Fits (m.store.bindings f)) (method : Token) :
    m.superMethod id method =
      match m.store.method? ref method.lexeme with
      | some c =>
        .done (.function (m.bindMethod c (.object inst)).1) (m.bindMethod c (.object inst)).2
      | none => m.raise method (.undefinedProperty method.lexeme) := by
  have hsuper : m.store.getAt m.frame ((d + 1 : Nat) : Int) "super" = .ok (.classValue ref) := by
    rw [Store.getAt, Store.ancestor_eq_ok _ hg]
    simp only [Store.get, FrameKind.base_find? hbase]
  have hthis : m.store.getAt m.frame (((d + 1 : Nat) : Int) - 1) "this" = .ok (.object inst) := by
    rw [show ((d + 1 : Nat) : Int) - 1 = (d : Int) by omega, Store.getAt,
      Store.ancestor_eq_ok _ hf]
    simp only [Store.get, FrameKind.receiver_find? hreceiver]
  cases hmethod : m.store.method? ref method.lexeme with
  | some c => simp only [Machine.superMethod, htable, hsuper, hthis, hmethod]
  | none => simp only [Machine.superMethod, htable, hsuper, hthis, hmethod]

end

section

variable {s : Session} {tasks : List Task} {n : Nat} {source : String} {task : Task}

/-- The nodes of the programs of a session are well named. -/
theorem Numbering.text {hi k : Nat} {stmts : List Stmt} {m : Machine} (h : Numbering tasks hi)
    (hmem : Task.program k stmts m ∈ tasks) {node : Node} (hnode : node ∈ walkBody stmts) :
    Text tasks node := by
  obtain ⟨tokens, hgenuine, hproper, _⟩ := h.clean k stmts m hmem
  exact ⟨hproper.wellNamed hgenuine node hnode, k, stmts, m, hmem, hnode⟩

/-- The declaration of the class around a place, in any of its executions, holds the place. -/
theorem Site.Stands.declaration {hi k classId k₀ : Nat} {stmts : List Stmt} {m a : Machine}
    {site : Site} {name : Token} {superclass : Option Superclass} {methods methods' : List Function}
    {e : Expr} (hnumbering : Numbering tasks hi) (htimeline : Timeline tasks)
    (hprogram : Task.program k stmts m ∈ tasks) (h : site.Stands [] (walkBody stmts))
    (hin : .receiver classId methods' ∈ site.around.constructs) (hid : e.id = site.id)
    (he : Text tasks (.expr e))
    (hexecuted : Moment tasks (.execute (k₀ + 1) (.classDecl classId name superclass methods) a)) :
    methods = methods' ∧ .expr e ∈ walkMethods methods := by
  obtain ⟨inner, hinner, hclasses⟩ := h.classes
  rw [hinner, List.append_nil] at hin
  obtain ⟨⟨name', superclass', hclass⟩, node, hmethod, hnode, hnodeId⟩ := hclasses classId methods' hin
  have hexecutedNode : Text tasks (.stmt (.classDecl classId name superclass methods)) := by
    apply (htimeline.intact_of_moment hexecuted).1
    exact Stmt.mem_walk_self (by simp)
  cases hnumbering.unique _ _ classId hexecutedNode (hnumbering.text hprogram hclass) rfl rfl
  obtain rfl := hnumbering.unique node (.expr e) site.id (hnumbering.text hprogram hnode) he hnodeId
    (congrArg some hid)
  exact ⟨rfl, hmethod⟩

/-- The receiver around a place is the instance that a method was bound to. -/
theorem Stood.receiver {t : Task} {m : Machine} {site : Site} {d id : Nat} {methods : List Function}
    (htimeline : Timeline tasks) (ht : Moment tasks t) (hm : t.machine = m)
    (h : Stood tasks m site) (hd : site.around.constructs[d]? = some (.receiver id methods)) :
    ∃ t₁ c inst b, Moment tasks t₁ ∧ t₁.Binds c inst b ∧ c.decl ∈ methods ∧
      m.store.climb d m.frame = some b.store.frames.size ∧
      (FrameKind.receiver inst).Fits (m.store.bindings b.store.frames.size) ∧
      m.store.parent? b.store.frames.size = some c.frame ∧ b.store.Grows m.store := by
  subst hm
  have hm := (htimeline.intact_of_moment ht).machine
  obtain ⟨f, hf, _, hmem, t₁, hreaches, hactivates⟩ := h.frames d _ hd
  have ht₁ : Moment tasks t₁ := ⟨_, hmem, hreaches⟩
  have hintact := htimeline.intact_of_moment ht₁
  obtain ⟨c, inst, b, hbinds, rfl, hdecl⟩ := hactivates.receiver hintact
  obtain ⟨hfits, hparent, hgrows⟩ := hbinds.for_ever text_plain hintact
    (htimeline.intact_of_moment ht) (htimeline.comparable ht₁ ht) (hm.store.climb_lt d hm.frame hf)
  exact ⟨t₁, c, inst, b, ht₁, hbinds, hdecl, hf, hfits, hparent, hgrows⟩

/-- The superclass around a place is the one that an execution of the class declaration found. -/
theorem Stood.base {t : Task} {m : Machine} {site : Site} {d id : Nat}
    (htimeline : Timeline tasks) (ht : Moment tasks t) (hm : t.machine = m)
    (h : Stood tasks m site) (hd : site.around.constructs[d]? = some (.base id)) :
    ∃ k₀ name superclass methods a ref table,
      Moment tasks (.execute (k₀ + 1) (.classDecl id name (some superclass) methods) a) ∧
      a.evalSuperclass (some superclass) = .done (some ref) a ∧
      m.store.climb d m.frame = some a.store.frames.size ∧
      (FrameKind.base ref).Fits (m.store.bindings a.store.frames.size) ∧
      m.store.classes[a.store.classes.size]? = some ⟨name.lexeme, some ref, table⟩ ∧
      ∀ i, methods ≠ [] → m.store.DeclaresIn i a.store.frames.size → i = a.store.classes.size := by
  subst hm
  have hm := (htimeline.intact_of_moment ht).machine
  obtain ⟨f, hf, _, hmem, t₁, hreaches, hactivates⟩ := h.frames d _ hd
  have ht₁ : Moment tasks t₁ := ⟨_, hmem, hreaches⟩
  obtain ⟨name, ref, methods, a, hextends, rfl⟩ := hactivates.base
  obtain ⟨hfits, ⟨table, hclass⟩, howner⟩ := hextends.for_ever text_plain
    (htimeline.intact_of_moment ht₁) (htimeline.intact_of_moment ht) (htimeline.comparable ht₁ ht)
    (hm.store.climb_lt d hm.frame hf)
  obtain @⟨k₀, _, _, _, superclass, _, _, heval⟩ := hextends
  exact ⟨k₀, name, superclass, methods, a, ref, table, ht₁, heval, hf, hfits, hclass, howner⟩

/-- A search from a class that exists goes up its chain of bases. -/
theorem Store.Intact.method?_cases {s : Store} (h : s.Intact) {ref : Nat} (href : ref < s.classes.size)
    (name : String) : ∃ refs, s.Lineage ref refs ∧
      ((∃ i c, refs.findSome? (s.declares? name) = some i ∧ s.closures[i]? = some c ∧
        s.method? ref name = some c) ∨
      refs.findSome? (s.declares? name) = none ∧ s.method? ref name = none) := by
  obtain ⟨refs, hrefs⟩ := h.lineage ref href
  refine ⟨refs, hrefs, ?_⟩
  cases hfind : refs.findSome? (s.declares? name) with
  | some i =>
    obtain ⟨c, hc, hmethod⟩ := h.method?_eq_some hrefs hfind
    exact .inl ⟨i, c, rfl, hc, hmethod⟩
  | none =>
    refine .inr ⟨rfl, ?_⟩
    rw [Store.method?, h.findMethod?_eq hrefs, hfind]
    rfl

/-- **`super` is static in the class and dynamic in the receiver.**  Whenever `super` is evaluated in
a session, it lies in a method of a class declaration, the innermost one around it, and the method
that is running is one of the class that some execution of the declaration created.  The search
starts at the class that the superclass expression came to in that execution, which is the base of
the class created then; it gives the method of the nearest class on the chain of bases, or an error
at the name of the method.  The method is bound to the instance that `this` comes to at the place. -/
theorem super_starts_at_the_declared_base (h : History s tasks)
    (htask : s.task? n source = some task) {k id : Nat} {keyword method : Token} {m : Machine}
    (hreaches : task.Reaches (.evaluate (k + 1) (.super id keyword method) m)) :
    ∃ p d classId name superclass methods k₀ a ref inst,
      -- the place
      RefersIn (task :: tasks) ⟨.super, id, keyword, p⟩ ∧
      Layers.Innermost p.constructs d classId methods ∧
      .expr (.super id keyword method) ∈ walkMethods methods ∧
      -- the execution of the declaration
      Moment (task :: tasks)
        (.execute (k₀ + 1) (.classDecl classId name (some superclass) methods) a) ∧
      a.evalSuperclass (some superclass) = .done (some ref) a ∧
      -- the class created then, and the method of it that is running
      (∃ table x i c t b,
        m.store.classes[a.store.classes.size]? = some ⟨name.lexeme, some ref, table⟩ ∧
        table.find? x = some i ∧ m.store.closures[i]? = some c ∧
        Moment (task :: tasks) t ∧ t.Binds c inst b ∧
        m.store.climb d m.frame = some b.store.frames.size) ∧
      -- the search
      (∃ refs, m.store.Lineage ref refs ∧
        ((∃ i c, refs.findSome? (m.store.declares? method.lexeme) = some i ∧
          m.store.closures[i]? = some c ∧ evaluate (k + 1) (.super id keyword method) m =
            .done (.function (m.bindMethod c (.object inst)).1) (m.bindMethod c (.object inst)).2) ∨
        refs.findSome? (m.store.declares? method.lexeme) = none ∧
          evaluate (k + 1) (.super id keyword method) m =
            .raised ⟨method, .undefinedProperty method.lexeme⟩ m)) ∧
      -- the receiver
      ∀ id' keyword', keyword'.lexeme = "this" → m.table[id']? = distance? "this" p.scopes →
        evaluate (k + 1) (.this id' keyword') m = .done (.object inst) m := by
  have htimeline := h.timeline htask
  obtain ⟨hi, hnumbering⟩ := h.numbering_task htask
  have hmoment : Moment (task :: tasks) (.evaluate (k + 1) (.super id keyword method) m) :=
    ⟨task, List.mem_cons_self .., hreaches⟩
  have hintact := htimeline.intact_of_moment hmoment
  have hnode : Text (task :: tasks) (.expr (.super id keyword method)) := by
    apply hintact.1
    rw [Expr.walk]
    exact List.mem_cons_self ..
  have hkeyword : keyword.lexeme = "super" := text_plain _ hnode
  obtain ⟨p, hstood⟩ := h.stood_super htask hreaches
  obtain ⟨_, _, _, hprogram, hstands⟩ := hstood.known.stands hnumbering
  obtain ⟨context, hlayers, hsubclass, _⟩ := hstands.layers
  obtain ⟨d, classId, methods, hthis, hsuper, hin, hbaseAt⟩ := hlayers.distance_super (hsubclass rfl)
  obtain ⟨t, c, inst, b, ht, hbinds, hdecl, hf, hreceiver, hparent, hgrows⟩ :=
    hstood.receiver htimeline hmoment rfl hin.found
  obtain ⟨k₀, name, superclass, methods', a, ref, table, hexecuted, heval, hg, hbase, hclass, howner⟩ :=
    hstood.base htimeline hmoment rfl hbaseAt
  obtain ⟨rfl, hplace⟩ := hstands.declaration hnumbering htimeline hprogram
    (List.mem_of_getElem? hin.found) rfl hnode hexecuted
  -- The running method was declared in the frame that the execution made.
  have hframe : c.frame = a.store.frames.size := by
    have hnext := m.store.climb_succ_of hf hparent
    exact Option.some.inj (hnext.symm.trans hg)
  obtain ⟨i, x, index, hdeclares, hclosure⟩ := hbinds.declared
  obtain ⟨info, hinfo, hindex⟩ := Option.bind_eq_some_iff.1 hdeclares
  obtain rfl := howner i (List.ne_nil_of_mem hdecl) ⟨info, x, index, c, hgrows.classes _ _ hinfo, hindex,
    hgrows.closures _ _ hclosure, hframe⟩
  obtain rfl := Option.some.inj ((hgrows.classes _ _ hinfo).symm.trans hclass)
  have htable : m.table[id]? = some (d + 1) := hstood.table.trans (by
    show distance? keyword.lexeme p.scopes = some (d + 1)
    rw [hkeyword]
    exact hsuper)
  have href : ref < m.store.classes.size :=
    hintact.2.store.values _ "super" _ (FrameKind.base_find? hbase)
  have heq : evaluate (k + 1) (.super id keyword method) m = m.superMethod id method := by
    rw [evaluate]
  refine ⟨p, d, classId, name, superclass, methods', k₀, a, ref, inst, hstood.known, hin, hplace,
    hexecuted, heval, ⟨table, x, index, c, t, b, hclass, hindex, hgrows.closures _ _ hclosure, ht, hbinds,
      hf⟩, ?_, fun id' keyword' hkeyword' htable' => ?_⟩
  · rw [heq, m.superMethod_eq htable hg hbase hf hreceiver]
    obtain ⟨refs, hrefs, ⟨i, c', hfind, hc', hmethod⟩ | ⟨hfind, hmethod⟩⟩ :=
      hintact.2.store.method?_cases href method.lexeme
    · refine ⟨refs, hrefs, .inl ⟨i, c', hfind, hc', ?_⟩⟩
      rw [hmethod]
    · refine ⟨refs, hrefs, .inr ⟨hfind, ?_⟩⟩
      rw [hmethod]
      rfl
  · rw [evaluate]
    exact m.lookup_this (htable'.trans hthis) hf hreceiver hkeyword'

end

/-! ### A method of the superclass -/

/-- The expression `super.m`. -/
def superM : Expr := .super 4 ⟨.kwSuper, "super", .nil, 1⟩ (nameToken "m")

def emptyMethod : Function := ⟨1, nameToken "m", [], []⟩

def asksSuper : Function := ⟨6, nameToken "init", [], [.expression 5 superM]⟩

/-- The expression `B()`. -/
def callOfB : Expr := .call 9 (.var 8 (nameToken "B")) ⟨.rightParen, ")", .nil, 1⟩ []

/-- The program `class A { m() {} } class B < A { init() { super.m; } } B();`. -/
def twoClasses : List Stmt :=
  [.classDecl 2 (nameToken "A") none [emptyMethod],
    .classDecl 7 (nameToken "B") (some ⟨3, nameToken "A"⟩) [asksSuper], .expression 10 callOfB]

theorem twoClasses_task : (Session.start {} 0).task? 12
    "class A \x7b m() \x7b\x7d \x7d class B < A \x7b init() \x7b super.m; \x7d \x7d B();" =
      some (.program 12 twoClasses (learntBy twoClasses)) :=
  task?_start 12 11 (by cbv) (by cbv) (by cbv)

theorem twoClasses_table : (learntBy twoClasses).table[3]? = none ∧
    (learntBy twoClasses).table[8]? = none ∧ (learntBy twoClasses).table[4]? = some 2 := by
  simp only [learntBy, Machine.learn_table]
  refine ⟨?_, ?_, ?_⟩
  · cbv
  · cbv
  · cbv

/-- The machine once the first class is declared. -/
def baseDeclared : Machine :=
  (learntBy twoClasses).declareClass (nameToken "A") none [emptyMethod]

/-- The machine once both classes are declared. -/
def bothDeclared : Machine := baseDeclared.declareClass (nameToken "B") (some 0) [asksSuper]

theorem bothDeclared_execute :
    execute 12 (.classDecl 7 (nameToken "B") (some ⟨3, nameToken "A"⟩) [asksSuper]) baseDeclared =
      .done .normal bothDeclared := by
  have htable : baseDeclared.table[3]? = none := twoClasses_table.1
  rw [execute, Machine.evalSuperclass, Machine.lookup, htable]
  rfl

theorem bothDeclared_callee : evaluate 10 (.var 8 (nameToken "B")) bothDeclared =
    .done (.classValue 1) bothDeclared := by
  have htable : bothDeclared.table[8]? = none := twoClasses_table.2.1
  rw [evaluate, Machine.lookup, htable]
  rfl

theorem superM_reached : ∃ m c, Task.Reaches (.program 12 twoClasses (learntBy twoClasses))
      (.evaluate 4 superM m) ∧ m.table[4]? = some 2 ∧
    m.store.getAt m.frame (2 : Nat) "super" = .ok (.classValue 0) ∧
    m.store.getAt m.frame ((2 : Nat) - 1 : Int) "this" = .ok (.object 0) ∧
    m.store.method? 0 "m" = some c := by
  have hmethod : bothDeclared.beginCall.store.method? 1 initializerName =
      some ⟨asksSuper, 1, true⟩ := rfl
  have hcall : Task.Reaches (.program 12 twoClasses (learntBy twoClasses)) _ :=
    .step (.step (.step (.step (.step (.step (.step .refl (.next rfl)) (.next bothDeclared_execute))
      .first) .expression) (.call bothDeclared_callee rfl)) (.invoke rfl (by decide)))
      (.construct hmethod)
  exact ⟨_, _, (((hcall.step (.routine rfl)).step .body).step .head).step .expression,
    twoClasses_table.2.2, rfl, rfl, rfl⟩

theorem super_starts_at_the_declared_base_in_an_initializer :
    ∃ m ref inst refs i c, Task.Reaches (.program 12 twoClasses (learntBy twoClasses))
        (.evaluate 4 superM m) ∧
      (∃ (j : Nat) (info : ClassInfo), m.store.classes[j]? = some info ∧ info.base = some ref) ∧
      m.store.Lineage ref refs ∧ refs.findSome? (m.store.declares? "m") = some i ∧
      m.store.closures[i]? = some c ∧
      evaluate 4 superM m =
        .done (.function (m.bindMethod c (.object inst)).1) (m.bindMethod c (.object inst)).2 := by
  obtain ⟨m, c₀, hsuper, htable, hbase, hthis, hmethod⟩ := superM_reached
  obtain ⟨p, d, classId, name, superclass, methods, k₀, a, ref, inst, _, _, _, _, _,
    ⟨table, _, _, _, _, _, hclass, _⟩, ⟨refs, hrefs, hsearch⟩, _⟩ :=
    super_starts_at_the_declared_base (.start {} 0) twoClasses_task hsuper
  obtain ⟨i, c, hfind, hc, heval⟩ | ⟨_, hraised⟩ := hsearch
  · exact ⟨m, ref, inst, refs, i, c, hsuper, ⟨_, _, hclass, rfl⟩, hrefs, hfind, hc, heval⟩
  · have hname : (nameToken "m").lexeme = "m" := rfl
    simp only [evaluate, Machine.superMethod, htable, hbase, hthis, hname, hmethod] at hraised
    cases hraised

end LoxLang
