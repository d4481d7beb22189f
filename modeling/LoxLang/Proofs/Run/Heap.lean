import LoxLang.Proofs.Run.World

/-!
# Operations on worlds

Every operation of the store, done in both stores of a world, keeps the invariant `Heap`, and the
world grows.  What can be asked of a store has the same answer in both.

Principal results: `Heap.define`, `Heap.push`, `Heap.addClass`, `Heap.setField`, `Heap.method?`,
`Heap.arity?`, `Heap.text`.
-/

namespace LoxLang

variable {K : Pairing} {W : World}

namespace Heap

theorem lt_size (h : Heap K W) {f : Nat} {label : Option Construct}
    (hl : W.labels[f]? = some label) : f < W.store.frames.size := by
  rw [h.size]
  exact (List.getElem?_eq_some_iff.1 hl).1

/-- What a frame binds in the second store, by the label of the frame. -/
theorem find? (h : Heap K W) {f : Nat} {label : Option Construct} {name : String}
    (hl : W.labels[f]? = some label) (hname : K.IsName name) :
    (W.store'.bindings f).find? (K.spellIn label name) = (W.store.bindings f).find? name := by
  cases label with
  | none => rw [h.globals f hl]; rfl
  | some c => exact h.locals f c hl name hname

theorem has_eq (h : Heap K W) {f : Nat} {label : Option Construct} {name : String}
    (hl : W.labels[f]? = some label) (hname : K.IsName name) :
    W.store'.has f (K.spellIn label name) = W.store.has f name := by
  simp [Store.has, Bindings.contains, h.find? hl hname]

theorem climb_eq (h : Heap K W) (d f : Nat) : W.store'.climb d f = W.store.climb d f :=
  Store.climb_congr h.parents d f

end Heap

/-! ## Operations in both stores -/

namespace World

def define (W : World) (f : Nat) (name name' : String) (v : Value) : World :=
  ⟨W.labels, W.store.define f name v, W.store'.define f name' v⟩

/-- A new frame for a construct. -/
def push (W : World) (c : Construct) (b b' : Bindings Value) (parent : Nat) : World :=
  ⟨W.labels ++ [some c], (W.store.push b parent).2, (W.store'.push b' parent).2⟩

def addClosure (W : World) (c c' : Closure) : World :=
  ⟨W.labels, (W.store.addClosure c).2, (W.store'.addClosure c').2⟩

def addClass (W : World) (info : ClassInfo) : World :=
  ⟨W.labels, (W.store.addClass info).2, (W.store'.addClass info).2⟩

def addInstance (W : World) (classRef : Nat) : World :=
  ⟨W.labels, (W.store.addInstance classRef).2, (W.store'.addInstance classRef).2⟩

def setField (W : World) (ref : Nat) (name : String) (v : Value) : World :=
  ⟨W.labels, W.store.setField ref name v, W.store'.setField ref name v⟩

theorem grows_define (W : World) {f : Nat} (name name' : String) (v : Value)
    (hf : f < W.store.frames.size) : W.Grows (W.define f name name' v) where
  labels _ _ h := h
  parents g parent h := by rw [define, Store.parent?_define]; exact h
  has g other h := by
    rw [Store.has_eq_true] at h ⊢
    obtain ⟨w, hw⟩ := h
    rw [define, Store.bindings_define _ _ _ hf]
    split
    · rename_i hfg
      subst hfg
      rw [Bindings.find?_put]
      split
      · exact ⟨v, rfl⟩
      · exact ⟨w, hw⟩
    · exact ⟨w, hw⟩
  closures _ _ h := h
  closures' _ _ h := h
  natives := rfl

theorem grows_push (W : World) (c : Construct) (b b' : Bindings Value) (parent : Nat) :
    W.Grows (W.push c b b' parent) where
  labels f label h := by
    have hlt := (List.getElem?_eq_some_iff.1 h).1
    rw [push, List.getElem?_append_left hlt]
    exact h
  parents f q h := by
    have hlt := W.store.parent?_eq_some_lt h
    rw [push, Store.parent?_push, if_neg (by omega)]
    exact h
  has f name h := by
    rw [Store.has_eq_true] at h ⊢
    obtain ⟨v, hv⟩ := h
    have hlt := W.store.lt_size_of_find? hv
    rw [push, Store.bindings_push, if_neg (by omega)]
    exact ⟨v, hv⟩
  closures _ _ h := h
  closures' _ _ h := h
  natives := rfl

theorem getElem?_push_of_some {α : Type} {xs : Array α} {i : Nat} {x y : α} (h : xs[i]? = some x) :
    (xs.push y)[i]? = some x := by
  have hlt := (Array.getElem?_eq_some_iff.1 h).1
  rw [Array.getElem?_push, if_neg (by omega)]
  exact h

theorem grows_addClosure (W : World) (c c' : Closure) : W.Grows (W.addClosure c c') :=
  ⟨fun _ _ h => h, fun _ _ h => h, fun _ _ h => h, fun _ _ h => getElem?_push_of_some h,
    fun _ _ h => getElem?_push_of_some h, rfl⟩

theorem grows_addClass (W : World) (info : ClassInfo) : W.Grows (W.addClass info) :=
  ⟨fun _ _ h => h, fun _ _ h => h, fun _ _ h => h, fun _ _ h => h, fun _ _ h => h, rfl⟩

theorem grows_addInstance (W : World) (classRef : Nat) : W.Grows (W.addInstance classRef) :=
  ⟨fun _ _ h => h, fun _ _ h => h, fun _ _ h => h, fun _ _ h => h, fun _ _ h => h, rfl⟩

theorem grows_setField (W : World) (ref : Nat) (name : String) (v : Value) :
    W.Grows (W.setField ref name v) :=
  ⟨fun _ _ h => h, fun _ _ h => h, fun _ _ h => h, fun _ _ h => h, fun _ _ h => h, rfl⟩

end World

namespace Heap

/-- Binding a name in a frame, spelled by the label of the frame.  The value may be a function that
refers to itself by this name. -/
theorem define (h : Heap K W) {f : Nat} {label : Option Construct} {name name' : String}
    {v : Value} (hl : W.labels[f]? = some label) (hname : K.IsName name) (hsuper : name ≠ "super")
    (hspelled : name' = K.spellIn label name) (hv : OkValue K (W.define f name name' v) v) :
    Heap K (W.define f name name' v) := by
  have hf := h.lt_size hl
  have hf' : f < W.store'.frames.size := by rw [h.size']; exact hf
  have hg := W.grows_define name name' v hf
  have hbindings : ∀ g, (W.define f name name' v).store.bindings g =
      if f = g then (W.store.bindings f).put name v else W.store.bindings g :=
    fun g => W.store.bindings_define name v hf
  have hbindings' : ∀ g, (W.define f name name' v).store'.bindings g =
      if f = g then (W.store'.bindings f).put name' v else W.store'.bindings g :=
    fun g => W.store'.bindings_define name' v hf'
  refine { h with
    size := (W.store.frames_define_size f name v).trans h.size
    size' := ?_, parents := ?_, rootParent := ?_, older := ?_, globals := ?_, distinct := ?_
    locals := ?_, bases := ?_, values := ?_, fields := ?_, methods := ?_ }
  · rw [World.define, Store.frames_define_size, Store.frames_define_size]
    exact h.size'
  · intro g
    rw [World.define, Store.parent?_define, Store.parent?_define]
    exact h.parents g
  · rw [World.define, Store.parent?_define]
    exact h.rootParent
  · intro g parent hp
    rw [World.define, Store.parent?_define] at hp
    exact h.older g parent hp
  · intro g hg'
    rw [hbindings, hbindings', h.globals g hg']
    split
    · rename_i hfg
      subst hfg
      rw [World.define] at hg'
      rw [hl] at hg'
      cases hg'
      rw [h.globals f hl, hspelled]
      rfl
    · rfl
  · rw [hbindings]
    split
    · rename_i hfg
      subst hfg
      exact Bindings.nodup_names_put h.distinct name v
    · exact h.distinct
  · intro g c hg' other hother
    rw [hbindings, hbindings']
    split
    · rename_i hfg
      subst hfg
      rw [World.define] at hg'
      rw [hl] at hg'
      cases hg'
      rw [Bindings.find?_put, Bindings.find?_put, h.locals f c hl other hother, hspelled]
      have hiff : K.spellIn (some c) name = K.spell c other ↔ name = other :=
        ⟨fun he => K.spell_inj c c hname hother he, fun he => by rw [he]; rfl⟩
      simp only [hiff]
    · exact h.locals g c hg' other hother
  · intro g id hg'
    obtain ⟨ref, href⟩ := h.bases g id hg'
    refine ⟨ref, ?_⟩
    rw [hbindings]
    split
    · rename_i hfg
      subst hfg
      rw [Bindings.find?_put, if_neg hsuper]
      exact href
    · exact href
  · intro g other w hw
    rw [hbindings] at hw
    split at hw
    · rw [Bindings.find?_put] at hw
      split at hw
      · cases hw; exact hv
      · exact (h.values f other w hw).grows hg
    · exact (h.values g other w hw).grows hg
  · intro i inst other w hi hw
    exact (h.fields i inst other w hi hw).grows hg
  · intro i info other ref hi href
    exact (h.methods i info other ref hi href).grows hg

/-- A new frame for a construct, with bindings that are spelled for it. -/
theorem push (h : Heap K W) {c : Construct} {b b' : Bindings Value} {parent : Nat}
    (hmade : K.Made W.store.frames.size c) (hparent : parent < W.store.frames.size)
    (hb : ∀ name, K.IsName name → b'.find? (K.spell c name) = b.find? name)
    (hv : ∀ name v, b.find? name = some v → OkValue K W v)
    (hbase : ∀ id, c = .base id → ∃ ref, b.find? "super" = some (.classValue ref)) :
    Heap K (W.push c b b' parent) := by
  have hg := W.grows_push c b b' parent
  have hbindings : ∀ f, (W.push c b b' parent).store.bindings f =
      if f = W.store.frames.size then b else W.store.bindings f :=
    fun f => W.store.bindings_push b parent f
  have hbindings' : ∀ f, (W.push c b b' parent).store'.bindings f =
      if f = W.store.frames.size then b' else W.store'.bindings f := by
    intro f
    rw [World.push, Store.bindings_push, h.size']
  have hlabels : ∀ (f : Nat) label, (W.push c b b' parent).labels[f]? = some label →
      W.labels[f]? = some label ∧ f ≠ W.store.frames.size ∨
        f = W.store.frames.size ∧ label = some c := by
    intro f label hf
    rw [World.push] at hf
    rw [h.size]
    obtain hlt | hge := Nat.lt_or_ge f W.labels.length
    · rw [List.getElem?_append_left hlt] at hf
      exact .inl ⟨hf, by omega⟩
    · rw [List.getElem?_append_right hge] at hf
      have hlen := (List.getElem?_eq_some_iff.1 hf).1
      simp only [List.length_singleton] at hlen
      have hzero : f - W.labels.length = 0 := by omega
      rw [hzero] at hf
      refine .inr ⟨by omega, ?_⟩
      simpa using hf.symm
  have hparents : ∀ f, (W.push c b b' parent).store.parent? f =
      if f = W.store.frames.size then some parent else W.store.parent? f :=
    fun f => W.store.parent?_push b parent f
  have hpos : Store.globalFrame ≠ W.store.frames.size := Nat.ne_of_lt (h.lt_size h.root)
  refine {
    size := by rw [World.push, Store.frames_push_size, h.size]; simp
    size' := by rw [World.push, Store.frames_push_size, Store.frames_push_size, h.size']
    root := hg.labels _ _ h.root
    parents := ?_, rootParent := ?_, older := ?_, globals := ?_, distinct := ?_, locals := ?_
    made := ?_, bases := ?_, values := ?_
    fields := fun i inst name v hi hf => (h.fields i inst name v hi hf).grows hg
    methods := fun i info name ref hi hf => (h.methods i info name ref hi hf).grows hg
    closures := h.closures, classes := h.classes, instances := h.instances, natives := h.natives }
  · intro f
    rw [hparents, World.push, Store.parent?_push, h.size', h.parents]
  · rw [hparents, if_neg hpos]
    exact h.rootParent
  · intro f q hq
    rw [hparents] at hq
    split at hq
    · cases hq; omega
    · exact h.older f q hq
  · intro f hf
    obtain ⟨hf, hne⟩ | ⟨_, hnone⟩ := hlabels f none hf
    · rw [hbindings, hbindings', if_neg hne, if_neg hne]
      exact h.globals f hf
    · cases hnone
  · rw [hbindings, if_neg hpos]
    exact h.distinct
  · intro f c' hf name hname
    obtain ⟨hf, hne⟩ | ⟨hnew, hc⟩ := hlabels f (some c') hf
    · rw [hbindings, hbindings', if_neg hne, if_neg hne]
      exact h.locals f c' hf name hname
    · cases hc
      rw [hbindings, hbindings', if_pos hnew, if_pos hnew]
      exact hb name hname
  · intro f c' hf
    obtain ⟨hf, _⟩ | ⟨hnew, hc⟩ := hlabels f (some c') hf
    · exact h.made f c' hf
    · cases hc
      rw [hnew]
      exact hmade
  · intro f id hf
    obtain ⟨hf, hne⟩ | ⟨hf, hc⟩ := hlabels f (some (.base id)) hf
    · rw [hbindings, if_neg hne]
      exact h.bases f id hf
    · rw [hbindings, if_pos hf]
      exact hbase id (Option.some.inj hc).symm
  · intro f name v hf
    refine OkValue.grows ?_ hg
    rw [hbindings] at hf
    split at hf
    · exact hv name v hf
    · exact h.values f name v hf

theorem addClosure (h : Heap K W) (c c' : Closure) : Heap K (W.addClosure c c') :=
  have hg := W.grows_addClosure c c'
  { h with
    values := fun f name v hf => (h.values f name v hf).grows hg
    fields := fun i inst name v hi hf => (h.fields i inst name v hi hf).grows hg
    methods := fun i info name ref hi hf => (h.methods i info name ref hi hf).grows hg
    closures := by simp [World.addClosure, Store.addClosure, h.closures] }

/-- The closure that was added last. -/
theorem closures_addClosure (h : Heap K W) (c c' : Closure) :
    (W.addClosure c c').store.closures[W.store.closures.size]? = some c ∧
      (W.addClosure c c').store'.closures[W.store.closures.size]? = some c' := by
  refine ⟨by simp [World.addClosure, Store.addClosure], ?_⟩
  rw [← h.closures]
  simp [World.addClosure, Store.addClosure]

theorem addClass (h : Heap K W) {info : ClassInfo}
    (hmethods : ∀ name ref, info.methods.find? name = some ref → OkMethod K W ref) :
    Heap K (W.addClass info) := by
  have hg := W.grows_addClass info
  refine { h with
    values := fun f name v hf => (h.values f name v hf).grows hg
    fields := fun i inst name v hi hf => (h.fields i inst name v hi hf).grows hg
    methods := ?_
    classes := by simp [World.addClass, Store.addClass, h.classes] }
  intro i info' name ref hi href
  refine OkMethod.grows ?_ hg
  simp only [World.addClass, Store.addClass, Array.getElem?_push] at hi
  split at hi
  · cases hi; exact hmethods name ref href
  · exact h.methods i info' name ref hi href

theorem addInstance (h : Heap K W) (classRef : Nat) : Heap K (W.addInstance classRef) := by
  have hg := W.grows_addInstance classRef
  refine { h with
    values := fun f name v hf => (h.values f name v hf).grows hg
    fields := ?_
    methods := fun i info name ref hi hf => (h.methods i info name ref hi hf).grows hg
    instances := by simp [World.addInstance, Store.addInstance, h.instances] }
  intro i inst name v hi hv
  refine OkValue.grows ?_ hg
  simp only [World.addInstance, Store.addInstance, Array.getElem?_push] at hi
  split at hi
  · cases hi; cases hv
  · exact h.fields i inst name v hi hv

theorem setField (h : Heap K W) (ref : Nat) (name : String) {v : Value} (hv : OkValue K W v) :
    Heap K (W.setField ref name v) := by
  have hg := W.grows_setField ref name v
  refine { h with
    values := fun f name v hf => (h.values f name v hf).grows hg
    fields := ?_
    methods := fun i info name ref hi hf => (h.methods i info name ref hi hf).grows hg
    instances := by simp [World.setField, Store.setField, h.instances] }
  intro i inst other w hi hw
  refine OkValue.grows ?_ hg
  simp only [World.setField, Store.setField, Array.getElem?_modify] at hi
  split at hi
  · obtain ⟨inst', hinst, rfl⟩ := Option.map_eq_some_iff.1 hi
    simp only [Bindings.find?_put] at hw
    split at hw
    · cases hw; exact hv
    · exact h.fields i inst' other w hinst hw
  · exact h.fields i inst other w hi hw

/-! ## Questions to both stores -/

theorem findMethodIn_ok (h : Heap K W) {name : String} {ref : Nat} : ∀ (limit i : Nat),
    W.store.findMethodIn limit i name = some ref → OkMethod K W ref
  | 0, _, hf => by cases hf
  | limit + 1, i, hf => by
    unfold Store.findMethodIn at hf
    split at hf
    · cases hf
    · rename_i info hinfo
      split at hf
      · rename_i method hmethod
        cases hf
        exact h.methods i info name ref hinfo hmethod
      · split at hf
        · cases hf
        · exact h.findMethodIn_ok limit _ hf

/-- A method is found in both stores or in neither. -/
theorem method? (h : Heap K W) (ref : Nat) (name : String) :
    (W.store.method? ref name = none ∧ W.store'.method? ref name = none) ∨
      ∃ c c' id methods p, W.store.method? ref name = some c ∧
        W.store'.method? ref name = some c' ∧ Unbound K W c c' id methods p := by
  unfold Store.method? Store.findMethod?
  rw [Store.findMethodIn_congr h.classes]
  cases hf : W.store.findMethodIn (ref + 1) ref name with
  | none => exact .inl ⟨rfl, rfl⟩
  | some method =>
    obtain ⟨c, c', id, methods, p, hc, hc', hunbound⟩ := h.findMethodIn_ok _ _ hf
    exact .inr ⟨c, c', id, methods, p, hc, hc', hunbound⟩

end Heap

theorem AlikeFunction.params_length {p : Surroundings} {f f' : Function}
    (h : AlikeFunction K p f f') : f'.params.length = f.params.length := by
  obtain ⟨_, _, hparams, _⟩ := h
  simpa using congrArg List.length hparams

theorem AlikeFunction.name_eq {p : Surroundings} {f f' : Function} (h : AlikeFunction K p f f') :
    f'.name.lexeme = f.name.lexeme := by
  obtain ⟨hname⟩ := h
  exact hname

namespace Heap

theorem classArity_eq (h : Heap K W) (ref : Nat) :
    W.store'.classArity ref = W.store.classArity ref := by
  unfold Store.classArity
  obtain ⟨hnone, hnone'⟩ | ⟨c, c', id, methods, p, hc, hc', hunbound⟩ :=
    h.method? ref initializerName
  · rw [hnone, hnone']
  · rw [hc, hc']
    exact hunbound.alike.params_length

theorem arity?_eq (h : Heap K W) {v : Value} (hv : OkValue K W v) :
    W.store'.arity? v = W.store.arity? v := by
  cases v with
  | function ref =>
    obtain ⟨c, c', p, hc, hc', hready⟩ := hv
    simp only [Store.arity?, Store.closureArity, hc, hc', hready.alike.params_length]
  | classValue ref => simp only [Store.arity?, h.classArity_eq]
  | native ref => simp only [Store.arity?, h.natives]
  | _ => rfl

theorem text_eq (h : Heap K W) {v : Value} (hv : OkValue K W v) :
    W.store'.text v = W.store.text v := by
  cases v with
  | function ref =>
    obtain ⟨c, c', p, hc, hc', hready⟩ := hv
    simp only [Store.text, Store.closureName, hc, hc', hready.alike.name_eq]
  | classValue ref => simp only [Store.text, Store.className, h.classes]
  | object ref => simp only [Store.text, Store.className, h.classes, h.instances]
  | bool b => cases b <;> rfl
  | _ => rfl

/-- The global variables are the same in both stores, and printed in the same way. -/
theorem frameText_eq (h : Heap K W) (index : Nat) :
    W.store'.frameText index (W.store'.bindings Store.globalFrame) =
      W.store.frameText index (W.store.bindings Store.globalFrame) := by
  have hitem : ∀ item ∈ (W.store.bindings Store.globalFrame).sorted,
      W.store'.text item.2 = W.store.text item.2 := by
    intro item hmem
    have hfind := Bindings.find?_of_mem h.distinct (List.mem_mergeSort.1 hmem)
    exact h.text_eq (h.values _ item.1 item.2 hfind)
  have hitems : (W.store.bindings Store.globalFrame).sorted.map
        (fun item => item.1 ++ " = " ++ W.store'.text item.2) =
      (W.store.bindings Store.globalFrame).sorted.map
        (fun item => item.1 ++ " = " ++ W.store.text item.2) :=
    List.map_congr_left fun item hmem => by rw [hitem item hmem]
  unfold Store.frameText
  rw [h.globals _ h.root]
  exact congrArg (fun items => Store.twoPlaces index ++ ": " ++
    if (W.store.bindings Store.globalFrame).isEmpty then "<empty>"
    else "; ".intercalate items) hitems

theorem chainText_eq (h : Heap K W) :
    W.store'.chainText Store.globalFrame = W.store.chainText Store.globalFrame := by
  have hroot : ∀ s : Store, s.parent? Store.globalFrame = none →
      s.chain Store.globalFrame = [Store.globalFrame] := by
    intro s hs
    unfold Store.chain Store.chainOf
    rw [hs]
  unfold Store.chainText
  rw [hroot _ h.rootParent, hroot _ ((h.parents _).trans h.rootParent)]
  simp [h.frameText_eq]

end Heap

end LoxLang
