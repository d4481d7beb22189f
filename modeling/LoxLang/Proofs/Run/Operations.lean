import LoxLang.Proofs.Run.Agree
import LoxLang.Proofs.Run.Operators

/-!
# Operations of the machine

Every operation of the machine, done on twins, agrees with itself: it leads to twins again, to
corresponding errors, and never to a fault.

Principal results: `Twins.lookup`, `Twins.assign`, `Twins.bindMethod`, `Twins.At.superMethod`,
`Twins.declareClass`, `Twins.enter`.
-/

namespace LoxLang

/-! ## Finding a variable -/

section

variable {K : Pairing} {W : World} {L : Labels} {m m' : Machine} {p : Surroundings}

/-- The frame of the scope that a name is declared in. -/
theorem Chain.locate {f d : Nat} {cs : List Construct} {scopes : List (Bindings Bool)}
    {name : String} (h : Chain W f cs scopes) (hd : distance? name scopes = some d) :
    ∃ scope g c, scopes[d]? = some scope ∧ W.store.climb d f = some g ∧ cs[d]? = some c ∧
      W.labels[g]? = some (some c) ∧
      (scope.find? name = some true → W.store.has g name = true) := by
  obtain ⟨scope, hscope, _⟩ := distance?_eq_some hd
  obtain ⟨g, c, hg, hc, hl, hbound⟩ := h.climb_scope hscope
  exact ⟨scope, g, c, hscope, hg, hc, hl, hbound name⟩

/-- An implicit variable is spelled as it is. -/
theorem Spelling.find?_implicit (σ : Spelling) {α : Type} {c : Construct} {implicit name : String}
    {v : α} (hspell : σ.spell c implicit = implicit) (himplicit : σ.IsName implicit)
    (hname : σ.IsName name) :
    (Bindings.empty.put implicit v).find? (σ.spell c name) =
      (Bindings.empty.put implicit v).find? name := by
  have hiff : implicit = σ.spell c name ↔ implicit = name := by
    refine ⟨fun h => ?_, fun h => by rw [← h, hspell]⟩
    rw [← hspell] at h
    exact σ.spell_inj c c himplicit hname h
  rw [Bindings.find?_put, Bindings.find?_put, Bindings.find?_empty, Bindings.find?_empty]
  simp only [hiff]

/-- A frame was made for the innermost of its constructs. -/
theorem Chain.label {f : Nat} {cs : List Construct} {scopes : List (Bindings Bool)}
    (h : Chain W f cs scopes) (hroot : W.labels[Store.globalFrame]? = some none) :
    W.labels[f]? = some cs.head? := by
  cases h with
  | globals => exact hroot
  | frame hl _ _ _ => exact hl

/-- A value under a name that a frame is known to bind. -/
theorem Heap.find?_of_has (h : Heap K W) {f : Nat} {name : String}
    (hhas : W.store.has f name = true) :
    ∃ v, (W.store.bindings f).find? name = some v ∧ OkValue K W v := by
  obtain ⟨v, hv⟩ := (Store.has_eq_true W.store).1 hhas
  exact ⟨v, hv, h.values f name v hv⟩

/-- A variable is read as its site says.  The scopes may differ from those of the site as long as
they have the name at the same distance. -/
theorem Twins.lookup (h : Twins K L m m') (site : Site) {name' : Token}
    {scopes : List (Bindings Bool)}
    (hchain : Chain ⟨L, m.store, m'.store⟩ m.frame site.around.constructs scopes)
    (hdist : distance? site.name.lexeme scopes = site.distance?)
    (hread : ∀ d scope, site.distance? = some d → scopes[d]? = some scope →
      scope.find? site.name.lexeme = some true)
    (hr : K.Refers site name') (hev : K.Evaluated site.use site.id site.name m) :
    Agrees K ⟨L, m.store, m'.store⟩ m.frame (OkValue K) (m.lookup site.id site.name)
      (m'.lookup site.id name') := by
  have hspelled := hr.spelled
  unfold Site.construct? at hspelled
  unfold Machine.lookup
  rw [h.table, h.table', hr.table, hr.table']
  cases hd : site.distance? with
  | none =>
    rw [hd] at hspelled
    have hname : name'.lexeme = site.name.lexeme := hspelled
    have hglobals : m'.store.bindings Store.globalFrame = m.store.bindings Store.globalFrame :=
      h.heap.globals _ h.heap.root
    simp only [Store.get, hglobals, hname]
    cases hf : (m.store.bindings Store.globalFrame).find? site.name.lexeme with
    | none =>
      have herror := SameError.undefined hr (.inl hd) hev h.table
      rw [hname] at herror
      exact .raised h.since herror
    | some v => exact .done h.since (h.heap.values _ _ _ hf)
  | some d =>
    obtain ⟨scope, g, c, hscope, hg, hc, hl, hbound⟩ := hchain.locate (hdist.trans hd)
    obtain ⟨v, hv, hok⟩ := h.heap.find?_of_has (hbound (hread d scope hd hscope))
    have hv' : (m'.store.bindings g).find? name'.lexeme = some v := by
      rw [hspelled, hd, Option.bind_some, hc, ← hv]
      exact h.heap.find? hl hr.isName
    have hg' : m'.store.climb d m'.frame = some g := by
      rw [h.frame, ← hg]
      exact h.heap.climb_eq d m.frame
    simp only [Store.getAt, Store.ancestor_eq_ok _ hg, Store.ancestor_eq_ok _ hg', Store.get, hv,
      hv']
    exact .done h.since hok

/-- Changing a variable of one frame. -/
theorem Twins.assignIn (h : Twins K L m m') {f : Nat} {label : Option Construct} {site : Site}
    {name' : Token} {v : Value} (hl : L[f]? = some label) (hr : K.Refers site name')
    (hspelled : name'.lexeme = K.spellIn label site.name.lexeme)
    (hfails : m.store.has f site.name.lexeme = false → site.MayFail)
    (hev : K.Evaluated site.use site.id site.name m) (hsuper : site.name.lexeme ≠ "super")
    (hv : OkValue K ⟨L, m.store, m'.store⟩ v) :
    Agrees K ⟨L, m.store, m'.store⟩ m.frame (OkValue K) (m.assignIn f site.name v)
      (m'.assignIn f name' v) := by
  have hhas : m'.store.has f name'.lexeme = m.store.has f site.name.lexeme := by
    rw [hspelled]
    exact h.heap.has_eq hl hr.isName
  unfold Machine.assignIn
  rw [hhas]
  cases hf : m.store.has f site.name.lexeme with
  | false => exact .raised h.since (.undefined hr (hfails hf) hev h.table)
  | true =>
    have hg := World.grows_define ⟨L, m.store, m'.store⟩ site.name.lexeme name'.lexeme v
      (h.heap.lt_size hl)
    have hheap := h.heap.define hl hr.isName hsuper hspelled (hv.grows hg)
    exact .done ⟨{ h with heap := hheap }, hg, rfl⟩ (hv.grows hg)

/-- A variable is changed as its site says. -/
theorem Twins.assign (h : Twins K L m m') (site : Site) {name' : Token} {v : Value}
    (hchain : Chain ⟨L, m.store, m'.store⟩ m.frame site.around.constructs site.around.scopes)
    (hwrite : site.around.Writable site.name.lexeme) (huse : site.use = .write)
    (hsuper : site.name.lexeme ≠ "super") (hr : K.Refers site name')
    (hev : K.Evaluated site.use site.id site.name m) (hv : OkValue K ⟨L, m.store, m'.store⟩ v) :
    Agrees K ⟨L, m.store, m'.store⟩ m.frame (OkValue K) (m.assign site.id site.name v)
      (m'.assign site.id name' v) := by
  have hspelled := hr.spelled
  unfold Site.construct? at hspelled
  unfold Machine.assign
  rw [h.table, h.table', hr.table, hr.table']
  cases hd : site.distance? with
  | none =>
    rw [hd] at hspelled
    exact h.assignIn h.heap.root hr hspelled (fun _ => .inl hd) hev hsuper hv
  | some d =>
    obtain ⟨scope, g, c, hscope, hg, hc, hl, hbound⟩ := hchain.locate hd
    have hg' : m'.store.climb d m'.frame = some g := by
      rw [h.frame, ← hg]
      exact h.heap.climb_eq d m.frame
    simp only [Store.ancestor_eq_ok _ hg, Store.ancestor_eq_ok _ hg']
    rw [hd, Option.bind_some, hc] at hspelled
    refine h.assignIn hl hr hspelled (fun hmissing => ?_) hev hsuper hv
    obtain hdefined | ⟨rfl, hown⟩ := hwrite d scope hd hscope
    · have hhas : m.store.has g site.name.lexeme = true := hbound hdefined
      rw [hmissing] at hhas
      cases hhas
    · exact .inr ⟨huse, hd, hown⟩

/-! ## Operators, output and fields -/

theorem OkValue.of_isPlain {v : Value} (h : v.IsPlain) : OkValue K W v := by
  cases v <;> trivial

theorem Token.applyUnary?_isSome {t : Token} (h : (unaryOp? t.kind).isSome = true) (a : Value) :
    (t.applyUnary? a).isSome = true := by
  rw [Token.applyUnary?, Option.isSome_map, h]

theorem Token.applyBinary?_isSome {t : Token} (h : (binaryOp? t.kind).isSome = true)
    (a b : Value) : (t.applyBinary? a b).isSome = true := by
  rw [Token.applyBinary?, Option.isSome_map, h]

/-- A known operator is applied. -/
theorem Twins.applied (h : Twins K L m m') {t t' : Token} (ht : t'.line = t.line)
    {result : Option (Except OperandError Value)} (hknown : result.isSome = true)
    (hok : ∀ v, result = some (.ok v) → OkValue K ⟨L, m.store, m'.store⟩ v) :
    Agrees K ⟨L, m.store, m'.store⟩ m.frame (OkValue K) (m.applied t result)
      (m'.applied t' result) := by
  cases result with
  | none => cases hknown
  | some result =>
    cases result with
    | ok v => exact .done h.since (hok v rfl)
    | error e => exact h.raise (fun name hname => by cases hname) ht

theorem Twins.print (h : Twins K L m m') {v : Value} (hv : OkValue K ⟨L, m.store, m'.store⟩ v) :
    Twins K L (m.print v) (m'.print v) := by
  have htext : m'.store.text v = m.store.text v := h.heap.text_eq hv
  exact { h with output := by simp only [Machine.print, h.output, htext] }

theorem Twins.setField (h : Twins K L m m') (ref : Nat) (name : String) {v : Value}
    (hv : OkValue K ⟨L, m.store, m'.store⟩ v) :
    Twins.Since K ⟨L, m.store, m'.store⟩ m.frame L
      { m with store := m.store.setField ref name v }
      { m' with store := m'.store.setField ref name v } :=
  ⟨{ h with heap := h.heap.setField ref name hv }, World.grows_setField _ ref name v, rfl⟩

theorem Twins.addInstance (h : Twins K L m m') (ref : Nat) :
    Twins.Since K ⟨L, m.store, m'.store⟩ m.frame L
      { m with store := (m.store.addInstance ref).2 }
      { m' with store := (m'.store.addInstance ref).2 } :=
  ⟨{ h with heap := h.heap.addInstance ref }, World.grows_addInstance _ ref, rfl⟩

/-! ## Methods -/

theorem Chain.lt_size (hheap : Heap K W) {f : Nat} {cs : List Construct}
    {scopes : List (Bindings Bool)} (h : Chain W f cs scopes) : f < W.store.frames.size :=
  hheap.lt_size (h.label hheap.root)

/-- A new frame belongs to its own scope inside those of its parent. -/
theorem Chain.push (hheap : Heap K W) {c : Construct} {b b' : Bindings Value} {parent : Nat}
    {cs : List Construct} {scope : Bindings Bool} {scopes : List (Bindings Bool)}
    (h : Chain W parent cs scopes)
    (hbound : ∀ name, scope.find? name = some true → b.contains name = true) :
    Chain (W.push c b b' parent) W.store.frames.size (c :: cs) (scope :: scopes) := by
  refine .frame ?_ ?_ (fun name hname => ?_) (h.grows (W.grows_push c b b' parent))
  · rw [World.push, hheap.size]
    simp
  · rw [World.push, Store.parent?_push, if_pos rfl]
  · rw [World.push, Store.has, Store.bindings_push, if_pos rfl]
    exact hbound name hname

/-- The surroundings of a method that is bound. -/
def Surroundings.bound (p : Surroundings) (id : Nat) (methods : List Function) : Surroundings :=
  ⟨.receiver id methods :: p.constructs, thisScope :: p.scopes, none⟩

/-- Binding a method makes a frame for `this` and a closure that may be called. -/
theorem Twins.bindMethod (h : Twins K L m m') {c c' : Closure} {id : Nat}
    {methods : List Function} {receiver : Value}
    (hc : Unbound K ⟨L, m.store, m'.store⟩ c c' id methods p)
    (hv : OkValue K ⟨L, m.store, m'.store⟩ receiver)
    (hmade : K.Made m.store.frames.size (.receiver id methods)) :
    (m'.bindMethod c' receiver).1 = (m.bindMethod c receiver).1 ∧
      ∃ L₁, Twins.Since K ⟨L, m.store, m'.store⟩ m.frame L₁ (m.bindMethod c receiver).2
          (m'.bindMethod c' receiver).2 ∧
        ∃ b b', (m.bindMethod c receiver).2.store.closures[(m.bindMethod c receiver).1]? =
            some b ∧
          (m'.bindMethod c' receiver).2.store.closures[(m.bindMethod c receiver).1]? = some b' ∧
          b.decl = c.decl ∧
          Ready K ⟨L₁, (m.bindMethod c receiver).2.store, (m'.bindMethod c' receiver).2.store⟩
            b b' (p.bound id methods) := by
  have hparent := hc.chain.lt_size h.heap
  let binds := Bindings.empty.put "this" receiver
  let b : Closure := { c with frame := m.store.frames.size }
  let b' : Closure := { c' with frame := m'.store.frames.size }
  have hpush : Heap K (World.push ⟨L, m.store, m'.store⟩ (.receiver id methods) binds binds
      c.frame) := by
    refine h.heap.push hmade hparent ?_ ?_ ?_
    · exact fun name hname => K.find?_implicit (K.spell_this _) K.name_this hname
    · intro name v hname
      rw [Bindings.find?_put] at hname
      split at hname
      · cases hname; exact hv
      · cases hname
    · intro id' hid
      cases hid
  have hgrows := World.grows_push ⟨L, m.store, m'.store⟩ (.receiver id methods) binds binds c.frame
  have hbound : (m.bindMethod c receiver).2.store = ((m.store.push binds c.frame).2.addClosure b).2 :=
    rfl
  have hbound' : (m'.bindMethod c' receiver).2.store =
      ((m'.store.push binds c.frame).2.addClosure b').2 := by
    rw [← hc.frame]
    rfl
  have hworld : World.mk (L ++ [some (.receiver id methods)]) (m.bindMethod c receiver).2.store
      (m'.bindMethod c' receiver).2.store =
      (World.push ⟨L, m.store, m'.store⟩ (.receiver id methods) binds binds c.frame).addClosure
        b b' := by
    rw [hbound, hbound']
    rfl
  have hall := hgrows.trans (World.grows_addClosure _ b b')
  have hclosures := hpush.closures_addClosure b b'
  have hsize : m'.store.closures.size = m.store.closures.size := h.heap.closures
  refine ⟨hsize, _, ⟨⟨by rw [hworld]; exact hpush.addClosure b b', h.frame, h.depth, h.maxDepth,
    h.output, h.clock, h.table, h.table'⟩, by rw [hworld]; exact hall, rfl⟩, b, b', hclosures.1, ?_,
    rfl, ?_⟩
  · rw [hbound']
    exact hclosures.2
  · rw [hworld]
    refine ⟨h.heap.size', hc.isInitializer, ?_, hc.alike, fun _ => ⟨id, methods, rfl, rfl⟩⟩
    refine Chain.grows (World.grows_addClosure _ b b') (Chain.push h.heap hc.chain ?_)
    intro name hname
    unfold thisScope at hname
    rw [Bindings.find?_put] at hname
    split at hname
    · rename_i hthis
      subst hthis
      simp [binds, Bindings.contains]
    · cases hname

/-- A bound method as a value. -/
theorem Twins.boundMethod (h : Twins K L m m') {c c' : Closure} {id : Nat}
    {methods : List Function} {receiver : Value}
    (hc : Unbound K ⟨L, m.store, m'.store⟩ c c' id methods p)
    (hv : OkValue K ⟨L, m.store, m'.store⟩ receiver)
    (hmade : K.Made m.store.frames.size (.receiver id methods)) :
    Agrees K ⟨L, m.store, m'.store⟩ m.frame (OkValue K)
      (.done (.function (m.bindMethod c receiver).1) (m.bindMethod c receiver).2)
      (.done (.function (m'.bindMethod c' receiver).1) (m'.bindMethod c' receiver).2) := by
  obtain ⟨hsame, L₁, hsince, b, b', hb, hb', _, hready⟩ := h.bindMethod hc hv hmade
  rw [hsame]
  exact .done hsince ⟨b, b', _, hb, hb', hready⟩

/-- Reading a property. -/
theorem Twins.getProperty (h : Twins K L m m') {name name' : Token} {v : Value}
    (hname : SameName name name')
    (hmade : ∀ ref c id methods, v = .object ref →
      m.store.property? ref name.lexeme = some (.method c) → c.decl ∈ methods →
      K.Made m.store.frames.size (.receiver id methods)) :
    Agrees K ⟨L, m.store, m'.store⟩ m.frame (OkValue K) (m.getProperty name v)
      (m'.getProperty name' v) := by
  cases v with
  | object ref =>
    have hinstances : m'.store.instances = m.store.instances := h.heap.instances
    have hraise : Agrees K ⟨L, m.store, m'.store⟩ m.frame (OkValue K)
        (m.raise name (.undefinedProperty name.lexeme))
        (m'.raise name' (.undefinedProperty name.lexeme)) :=
      h.raise (fun _ hcause => by cases hcause) hname.line
    have hmade := fun c id methods => hmade ref c id methods rfl
    unfold Machine.getProperty
    unfold Store.property? at hmade ⊢
    rw [hname.lexeme, hinstances]
    cases hinst : m.store.instances[ref]? with
    | none => simpa only [hinst] using hraise
    | some inst =>
      simp only [hinst] at hmade ⊢
      cases hfield : inst.fields.find? name.lexeme with
      | some v => exact .done h.since (h.heap.fields ref inst _ v hinst hfield)
      | none =>
        simp only [hfield] at hmade ⊢
        obtain ⟨hnone, hnone'⟩ | ⟨c, c', id, methods, p, hc, hc', hunbound⟩ :=
          h.heap.method? inst.classRef name.lexeme
        · simp only at hnone hnone'
          simp only [hnone, hnone', Option.map_none]
          exact hraise
        · simp only at hc hc'
          simp only [hc, hc', Option.map_some] at hmade ⊢
          exact h.boundMethod hunbound trivial (hmade c id methods rfl hunbound.mem)
  | _ => exact h.raise (fun _ hcause => by cases hcause) hname.line

/-- Reading a method of the superclass.  The receiver is found one frame further in. -/
theorem Twins.At.superMethod (h : Twins.At K L m m' p) {id : Nat}
    {keyword keyword' method method' : Token}
    (hr : K.Refers ⟨.super, id, keyword, p⟩ keyword') (hsuper : keyword.lexeme = "super")
    (hin : p.InSubclass) (hmethod : SameName method method')
    (hmade : ∀ distance ref receiver c classId methods, m.table[id]? = some distance →
      m.store.getAt m.frame distance "super" = .ok (.classValue ref) →
      m.store.getAt m.frame ((distance : Int) - 1) "this" = .ok receiver →
      m.store.method? ref method.lexeme = some c → c.decl ∈ methods →
      K.Made m.store.frames.size (.receiver classId methods)) :
    Agrees K ⟨L, m.store, m'.store⟩ m.frame (OkValue K) (m.superMethod id method)
      (m'.superMethod id method') := by
  obtain ⟨h, hchain⟩ := h
  obtain ⟨d, scope, classId, baseId, ms, hd, hscope, hthis, hreceiver, hbase⟩ := hin
  have hdistance : Site.distance? ⟨.super, id, keyword, p⟩ = some (d + 1) := by
    unfold Site.distance?
    rw [hsuper]
    exact hd
  have htable : m.table[id]? = some (d + 1) := by rw [h.table, ← hdistance]; exact hr.table
  have htable' : m'.table[id]? = some (d + 1) := by rw [h.table', ← hdistance]; exact hr.table'
  -- the frame of `super` and the class that it holds
  obtain ⟨_, g, c, _, hg, hc, hl, _⟩ := hchain.locate hd
  obtain rfl : c = .base baseId := Option.some.inj (hc.symm.trans hbase)
  obtain ⟨ref, href⟩ := h.heap.bases g baseId hl
  have href' : (m'.store.bindings g).find? "super" = some (.classValue ref) := by
    rw [← K.spell_super (.base baseId)]
    exact (h.heap.locals g _ hl _ K.name_super).trans href
  -- the frame of `this`, one link less up
  obtain ⟨g₁, c₁, hg₁, hc₁, hl₁, hbound₁⟩ := hchain.climb_scope hscope
  obtain rfl : c₁ = .receiver classId ms := Option.some.inj (hc₁.symm.trans hreceiver)
  obtain ⟨receiver, hrec, hok⟩ := h.heap.find?_of_has (hbound₁ "this" hthis)
  have hrec' : (m'.store.bindings g₁).find? "this" = some receiver := by
    rw [← K.spell_this (.receiver classId ms)]
    exact (h.heap.locals g₁ _ hl₁ _ K.name_this).trans hrec
  have hclimb : ∀ d, m'.store.climb d m'.frame = m.store.climb d m.frame := by
    intro d
    rw [h.frame]
    exact h.heap.climb_eq d m.frame
  have hone : ((d + 1 : Nat) : Int) - 1 = (d : Int) := by omega
  have hgetSuper : m.store.getAt m.frame ((d + 1 : Nat) : Int) "super" = .ok (.classValue ref) := by
    simp only [Store.getAt, Store.ancestor_eq_ok _ hg, Store.get, href]
  have hgetThis : m.store.getAt m.frame (((d + 1 : Nat) : Int) - 1) "this" = .ok receiver := by
    simp only [hone, Store.getAt, Store.ancestor_eq_ok _ hg₁, Store.get, hrec]
  have hgetSuper' : m'.store.getAt m'.frame ((d + 1 : Nat) : Int) "super" =
      .ok (.classValue ref) := by
    simp only [Store.getAt, Store.ancestor_eq_ok _ ((hclimb _).trans hg), Store.get, href']
  have hgetThis' : m'.store.getAt m'.frame (((d + 1 : Nat) : Int) - 1) "this" = .ok receiver := by
    simp only [hone, Store.getAt, Store.ancestor_eq_ok _ ((hclimb _).trans hg₁), Store.get, hrec']
  unfold Machine.superMethod
  simp only [htable, htable', hgetSuper, hgetThis, hgetSuper', hgetThis', hmethod.lexeme]
  obtain ⟨hnone, hnone'⟩ | ⟨c, c', id₁, methods, q, hc, hc', hunbound⟩ :=
    h.heap.method? ref method.lexeme
  · simp only at hnone hnone'
    simp only [hnone, hnone']
    exact h.raise (fun _ hcause => by cases hcause) hmethod.line
  · simp only at hc hc'
    simp only [hc, hc']
    exact h.boundMethod hunbound hok
      (hmade (d + 1) ref receiver c id₁ methods htable hgetSuper hgetThis hc hunbound.mem)

end

end LoxLang
