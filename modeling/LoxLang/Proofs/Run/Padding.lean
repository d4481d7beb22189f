import LoxLang.Proofs.Run.Declarations
import LoxLang.Proofs.Scope.Padding
import LoxLang.Proofs.Store.Integrity

/-!
# Stores with blank frames

Two runs of the same code make the same frames, classes, instances and functions, but one of them
may make blank frames in between, so that the numbers of their frames differ.  A `PadWorld` is the
pair of their stores, and says which frames belong together: these bind the same values.  Classes,
instances and values are the same in both stores, and so are the frames that were there from the
start.

A world only grows, and what is said here of a world holds of all later ones.

* `PadChain` — the frames from a pair of frames outwards, with the blank ones in between.
* `PadClosure` — a function of both stores, whose references lead to the same places.
* `PadHeap` — the invariant.

Principal results: `PadChain.climb`, `PadHeap.getAt_eq`, `PadHeap.define`, `PadHeap.push`,
`PadHeap.method?`.
-/

namespace LoxLang

/-- Which frames of two stores belong together. -/
structure FramePairs where
  /-- The frames with smaller numbers were there from the start. -/
  shared : Nat
  Paired : Nat → Nat → Prop

/-- Two stores side by side. -/
structure PadWorld where
  pairs : FramePairs
  store : Store
  store' : Store

/-! ## Growth -/

/-- What holds of all later worlds of two runs. -/
structure PadWorld.Grows (W W₁ : PadWorld) : Prop where
  shared : W₁.pairs.shared = W.pairs.shared
  paired : ∀ f f', W.pairs.Paired f f' → W₁.pairs.Paired f f'
  parents : ∀ f p, W.store.parent? f = some p → W₁.store.parent? f = some p
  parents' : ∀ f p, W.store'.parent? f = some p → W₁.store'.parent? f = some p
  closures : ∀ (i : Nat) c, W.store.closures[i]? = some c → W₁.store.closures[i]? = some c
  closures' : ∀ (i : Nat) c, W.store'.closures[i]? = some c → W₁.store'.closures[i]? = some c

namespace PadWorld.Grows

variable {W W₁ W₂ : PadWorld}

theorem refl (W : PadWorld) : W.Grows W :=
  ⟨rfl, fun _ _ h => h, fun _ _ h => h, fun _ _ h => h, fun _ _ h => h, fun _ _ h => h⟩

theorem trans (h : W.Grows W₁) (h' : W₁.Grows W₂) : W.Grows W₂ where
  shared := h'.shared.trans h.shared
  paired f f' hf := h'.paired f f' (h.paired f f' hf)
  parents f p hp := h'.parents f p (h.parents f p hp)
  parents' f p hp := h'.parents' f p (h.parents' f p hp)
  closures i c hc := h'.closures i c (h.closures i c hc)
  closures' i c hc := h'.closures' i c (h.closures' i c hc)

end PadWorld.Grows

/-! ## Chains -/

/-- The frames from a pair of frames outwards, as long as the chains differ. -/
inductive PadChain (W : PadWorld) : List Pad → Nat → Nat → Prop where
  | shared {f : Nat} : f < W.pairs.shared → PadChain W [] f f
  | both {pads : List Pad} {f f' p p' : Nat} :
      W.pairs.Paired f f' → W.store.parent? f = some p → W.store'.parent? f' = some p' →
      PadChain W pads p p' → PadChain W (.both :: pads) f f'
  | first {pads : List Pad} {f f' p : Nat} :
      W.store.parent? f = some p → PadChain W pads p f' → PadChain W (.first :: pads) f f'
  | second {pads : List Pad} {f f' p' : Nat} :
      W.store'.parent? f' = some p' → PadChain W pads f p' → PadChain W (.second :: pads) f f'

theorem PadChain.grows {W W₁ : PadWorld} (hg : W.Grows W₁) : ∀ {pads : List Pad} {f f' : Nat},
    PadChain W pads f f' → PadChain W₁ pads f f'
  | _, _, _, .shared hf => .shared (by rw [hg.shared]; exact hf)
  | _, _, _, .both hf hp hp' h =>
    .both (hg.paired _ _ hf) (hg.parents _ _ hp) (hg.parents' _ _ hp') (h.grows hg)
  | _, _, _, .first hp h => .first (hg.parents _ _ hp) (h.grows hg)
  | _, _, _, .second hp' h => .second (hg.parents' _ _ hp') (h.grows hg)

/-! ## Functions and values -/

section

variable (T T' : Distances)

/-- A function of both stores.  The code of a method lies inside frames that it will be bound in,
`inner`, and that its own frame is not one of. -/
structure PadClosure (W : PadWorld) (inner : List Pad) (c c' : Closure) : Prop where
  chain : ∃ pads, PadChain W pads c.frame c'.frame ∧ PadFunction T T' (inner ++ pads) c.decl c'.decl
  frame : W.pairs.Paired c.frame c'.frame
  isInitializer : c'.isInitializer = c.isInitializer

/-- A function that both stores have under a number. -/
def PadWorld.Has (W : PadWorld) (inner : List Pad) (ref : Nat) : Prop :=
  ∃ c c', W.store.closures[ref]? = some c ∧ W.store'.closures[ref]? = some c' ∧
    PadClosure T T' W inner c c'

/-- A value that means the same in both stores: a function may be called. -/
def PadValue (W : PadWorld) : Value → Prop
  | .function ref => W.Has T T' [] ref
  | _ => True

/-! ## The invariant -/

structure PadHeap (W : PadWorld) : Prop where
  root : Store.globalFrame < W.pairs.shared
  shared : ∀ f, f < W.pairs.shared → W.pairs.Paired f f
  parents : ∀ f, f < W.pairs.shared → W.store'.parent? f = W.store.parent? f
  older : ∀ f p, f < W.pairs.shared → W.store.parent? f = some p → p < W.pairs.shared
  bound : ∀ f f', W.pairs.Paired f f' → f < W.store.frames.size ∧ f' < W.store'.frames.size
  unique : ∀ f f' g g', W.pairs.Paired f f' → W.pairs.Paired g g' → (f = g ↔ f' = g')
  bindings : ∀ f f', W.pairs.Paired f f' → W.store'.bindings f' = W.store.bindings f
  values : ∀ f f' name v, W.pairs.Paired f f' → (W.store.bindings f).find? name = some v →
    PadValue T T' W v
  fields : ∀ (i : Nat) inst name v, W.store.instances[i]? = some inst →
    inst.fields.find? name = some v → PadValue T T' W v
  methods : ∀ (i : Nat) info name ref, W.store.classes[i]? = some info →
    info.methods.find? name = some ref → W.Has T T' [.both] ref
  closures : W.store'.closures.size = W.store.closures.size
  names : ∀ i, W.store'.closureName i = W.store.closureName i
  classes : W.store'.classes = W.store.classes
  instances : W.store'.instances = W.store.instances
  natives : W.store'.natives = W.store.natives

end

section

variable {T T' : Distances} {W W₁ : PadWorld} {pads inner : List Pad} {f f' d d' : Nat}

theorem PadClosure.grows {c c' : Closure} (h : PadClosure T T' W inner c c') (hg : W.Grows W₁) :
    PadClosure T T' W₁ inner c c' := by
  obtain ⟨pads, hchain, hdecl⟩ := h.chain
  exact ⟨⟨pads, hchain.grows hg, hdecl⟩, hg.paired _ _ h.frame, h.isInitializer⟩

theorem PadWorld.Has.grows {ref : Nat} (h : W.Has T T' inner ref) (hg : W.Grows W₁) :
    W₁.Has T T' inner ref := by
  obtain ⟨c, c', hc, hc', hclosure⟩ := h
  exact ⟨c, c', hg.closures ref c hc, hg.closures' ref c' hc', hclosure.grows hg⟩

theorem PadValue.grows {v : Value} (h : PadValue T T' W v) (hg : W.Grows W₁) :
    PadValue T T' W₁ v := by
  cases v with
  | function ref => exact PadWorld.Has.grows h hg
  | _ => trivial

/-! ## Looking up -/

theorem Store.climb_of_parent {s : Store} {f p : Nat} (h : s.parent? f = some p) (d : Nat) :
    s.climb (d + 1) f = s.climb d p := by
  rw [Store.climb, h]
  rfl

/-- Both chains lead from frames that were there from the start through the same frames. -/
theorem PadHeap.climb_shared (h : PadHeap T T' W) : ∀ (d : Nat) {f : Nat}, f < W.pairs.shared →
    Option.Rel W.pairs.Paired (W.store.climb d f) (W.store'.climb d f)
  | 0, f, hf => .some (h.shared f hf)
  | d + 1, f, hf => by
    rw [Store.climb, Store.climb, h.parents f hf]
    cases hp : W.store.parent? f with
    | none => exact .none
    | some p => exact h.climb_shared d (h.older f p hf hp)

/-- **Distances that meet lead to frames that belong together.** -/
theorem PadChain.climb (hc : PadChain W pads f f') (h : PadHeap T T' W) : ∀ {d d' : Nat},
    Coincide pads d d' → Option.Rel W.pairs.Paired (W.store.climb d f) (W.store'.climb d' f') := by
  induction hc with
  | shared hf =>
    intro d d' hmeets
    cases hmeets
    exact h.climb_shared d hf
  | both hf hp hp' _ ih =>
    intro d d' hmeets
    cases hmeets with
    | here => exact .some hf
    | both hmeets =>
      rw [Store.climb_of_parent hp, Store.climb_of_parent hp']
      exact ih hmeets
  | first hp _ ih =>
    intro d d' hmeets
    cases hmeets with
    | first hmeets =>
      rw [Store.climb_of_parent hp]
      exact ih hmeets
  | second hp' _ ih =>
    intro d d' hmeets
    cases hmeets with
    | second hmeets =>
      rw [Store.climb_of_parent hp']
      exact ih hmeets

theorem PadChain.paired (hc : PadChain W pads f f') (h : PadHeap T T' W) (hopen : Coincide pads 0 0) :
    W.pairs.Paired f f' := by
  have hclimb := hc.climb h hopen
  cases hclimb with
  | some hf => exact hf

namespace PadHeap

theorem get_eq (h : PadHeap T T' W) (hf : W.pairs.Paired f f') (name : String) :
    W.store'.get f' name = W.store.get f name := by
  unfold Store.get
  rw [h.bindings f f' hf]

theorem get_value (h : PadHeap T T' W) (hf : W.pairs.Paired f f') {name : String} {v : Value}
    (hv : W.store.get f name = .ok v) : PadValue T T' W v := by
  unfold Store.get at hv
  split at hv
  · rename_i w hw
    cases hv
    exact h.values f f' name v hf hw
  · cases hv

/-- Frames that belong together are reached in both stores or in neither. -/
theorem ancestor (h : PadHeap T T' W) (hc : PadChain W pads f f') {e e' : Int}
    (hmeets : Coincide pads e.toNat e'.toNat) :
    (W.store.ancestor f e = .error .offChain ∧ W.store'.ancestor f' e' = .error .offChain) ∨
      ∃ g g', W.store.ancestor f e = .ok g ∧ W.store'.ancestor f' e' = .ok g' ∧
        W.pairs.Paired g g' := by
  have hclimb := hc.climb h hmeets
  unfold Store.ancestor
  generalize W.store.climb e.toNat f = g? at hclimb
  generalize W.store'.climb e'.toNat f' = g?' at hclimb
  cases hclimb with
  | none => exact .inl ⟨rfl, rfl⟩
  | some hg => exact .inr ⟨_, _, rfl, rfl, hg⟩

/-- **A variable has the same value at distances that meet.** -/
theorem getAt_eq (h : PadHeap T T' W) (hc : PadChain W pads f f') {e e' : Int}
    (hmeets : Coincide pads e.toNat e'.toNat) (name : String) :
    W.store'.getAt f' e' name = W.store.getAt f e name := by
  unfold Store.getAt
  obtain ⟨hoff, hoff'⟩ | ⟨g, g', hg, hg', hpair⟩ := h.ancestor hc hmeets
  · rw [hoff, hoff']
  · rw [hg, hg']
    exact h.get_eq hpair name

theorem getAt_value (h : PadHeap T T' W) (hc : PadChain W pads f f') {e e' : Int}
    (hmeets : Coincide pads e.toNat e'.toNat) {name : String} {v : Value}
    (hv : W.store.getAt f e name = .ok v) : PadValue T T' W v := by
  unfold Store.getAt at hv
  obtain ⟨hoff, _⟩ | ⟨g, g', hg, _, hpair⟩ := h.ancestor hc hmeets
  · rw [hoff] at hv
    cases hv
  · rw [hg] at hv
    exact h.get_value hpair hv

/-- A method is found in both stores or in neither. -/
theorem method? (h : PadHeap T T' W) (ref : Nat) (name : String) :
    Option.Rel (PadClosure T T' W [.both]) (W.store.method? ref name)
      (W.store'.method? ref name) := by
  unfold Store.method? Store.findMethod?
  rw [Store.findMethodIn_congr h.classes]
  cases hf : W.store.findMethodIn (ref + 1) ref name with
  | none => exact .none
  | some method =>
    obtain ⟨i, hi⟩ := Store.findMethodIn_declares _ hf
    obtain ⟨info, hinfo, hfind⟩ := Option.bind_eq_some_iff.1 hi
    obtain ⟨c, c', hc, hc', hclosure⟩ := h.methods i info name method hinfo hfind
    rw [Option.bind_some, Option.bind_some, hc, hc']
    exact .some hclosure

theorem arity?_eq (h : PadHeap T T' W) {v : Value} (hv : PadValue T T' W v) :
    W.store'.arity? v = W.store.arity? v := by
  cases v with
  | native ref =>
    unfold Store.arity?
    rw [h.natives]
  | function ref =>
    obtain ⟨c, c', hc, hc', hclosure⟩ := hv
    obtain ⟨_, _, hdecl⟩ := hclosure.chain
    simp only [Store.arity?, Store.closureArity, hc, hc', hdecl.parts.2.1]
  | classValue ref =>
    have hmethod := h.method? ref initializerName
    simp only [Store.arity?, Store.classArity]
    generalize W.store.method? ref initializerName = c? at hmethod
    generalize W.store'.method? ref initializerName = c?' at hmethod
    cases hmethod with
    | none => rfl
    | some hc =>
      obtain ⟨_, _, hdecl⟩ := hc.chain
      simp only [hdecl.parts.2.1]
  | _ => rfl

theorem text_eq (h : PadHeap T T' W) (v : Value) : W.store'.text v = W.store.text v := by
  cases v with
  | function ref => simp only [Store.text, h.names]
  | classValue ref => simp only [Store.text, Store.className, h.classes]
  | object ref => simp only [Store.text, Store.className, h.classes, h.instances]
  | bool b => cases b <;> rfl
  | _ => rfl

end PadHeap

/-! ## Changes -/

namespace PadWorld

/-- Binds a name in frames that belong together. -/
def define (W : PadWorld) (f f' : Nat) (name : String) (v : Value) : PadWorld :=
  { W with store := W.store.define f name v, store' := W.store'.define f' name v }

/-- New frames that belong together. -/
def push (W : PadWorld) (b : Bindings Value) (p p' : Nat) : PadWorld where
  pairs := ⟨W.pairs.shared, fun f f' =>
    W.pairs.Paired f f' ∨ f = W.store.frames.size ∧ f' = W.store'.frames.size⟩
  store := (W.store.push b p).2
  store' := (W.store'.push b p').2

/-- A blank frame of the first store. -/
def pushFirst (W : PadWorld) (p : Nat) : PadWorld :=
  { W with store := (W.store.push .empty p).2 }

/-- A blank frame of the second store. -/
def pushSecond (W : PadWorld) (p' : Nat) : PadWorld :=
  { W with store' := (W.store'.push .empty p').2 }

def addClosure (W : PadWorld) (c c' : Closure) : PadWorld :=
  { W with store := (W.store.addClosure c).2, store' := (W.store'.addClosure c').2 }

def addClass (W : PadWorld) (info : ClassInfo) : PadWorld :=
  { W with store := (W.store.addClass info).2, store' := (W.store'.addClass info).2 }

def addInstance (W : PadWorld) (classRef : Nat) : PadWorld :=
  { W with store := (W.store.addInstance classRef).2, store' := (W.store'.addInstance classRef).2 }

def setField (W : PadWorld) (ref : Nat) (name : String) (v : Value) : PadWorld :=
  { W with store := W.store.setField ref name v, store' := W.store'.setField ref name v }

theorem grows_define (W : PadWorld) (f f' : Nat) (name : String) (v : Value) :
    W.Grows (W.define f f' name v) :=
  ⟨rfl, fun _ _ h => h, fun g _ hp => (W.store.parent?_define f g name v).trans hp,
    fun g _ hp => (W.store'.parent?_define f' g name v).trans hp, fun _ _ h => h, fun _ _ h => h⟩

/-- A frame that has a parent keeps it when another one is made. -/
theorem parent?_push_of_some {s : Store} {b : Bindings Value} {g p q : Nat}
    (h : s.parent? g = some q) : (s.push b p).2.parent? g = some q := by
  have hlt := s.parent?_eq_some_lt h
  rw [s.parent?_push, if_neg (by omega)]
  exact h

theorem grows_push (W : PadWorld) (b : Bindings Value) (p p' : Nat) : W.Grows (W.push b p p') :=
  ⟨rfl, fun _ _ h => .inl h, fun _ _ h => parent?_push_of_some h,
    fun _ _ h => parent?_push_of_some h, fun _ _ h => h, fun _ _ h => h⟩

theorem grows_pushFirst (W : PadWorld) (p : Nat) : W.Grows (W.pushFirst p) :=
  ⟨rfl, fun _ _ h => h, fun _ _ h => parent?_push_of_some h, fun _ _ h => h, fun _ _ h => h,
    fun _ _ h => h⟩

theorem grows_pushSecond (W : PadWorld) (p' : Nat) : W.Grows (W.pushSecond p') :=
  ⟨rfl, fun _ _ h => h, fun _ _ h => h, fun _ _ h => parent?_push_of_some h, fun _ _ h => h,
    fun _ _ h => h⟩

theorem grows_addClosure (W : PadWorld) (c c' : Closure) : W.Grows (W.addClosure c c') :=
  ⟨rfl, fun _ _ h => h, fun _ _ h => h, fun _ _ h => h, fun _ _ h => getElem?_push_of_eq_some h,
    fun _ _ h => getElem?_push_of_eq_some h⟩

theorem grows_addClass (W : PadWorld) (info : ClassInfo) : W.Grows (W.addClass info) :=
  ⟨rfl, fun _ _ h => h, fun _ _ h => h, fun _ _ h => h, fun _ _ h => h, fun _ _ h => h⟩

theorem grows_addInstance (W : PadWorld) (classRef : Nat) : W.Grows (W.addInstance classRef) :=
  ⟨rfl, fun _ _ h => h, fun _ _ h => h, fun _ _ h => h, fun _ _ h => h, fun _ _ h => h⟩

theorem grows_setField (W : PadWorld) (ref : Nat) (name : String) (v : Value) :
    W.Grows (W.setField ref name v) :=
  ⟨rfl, fun _ _ h => h, fun _ _ h => h, fun _ _ h => h, fun _ _ h => h, fun _ _ h => h⟩

end PadWorld

namespace PadHeap

/-- The parts of the invariant that speak of values hold of a later world. -/
theorem later_fields (h : PadHeap T T' W) (hg : W.Grows W₁) :
    ∀ (i : Nat) inst name v, W.store.instances[i]? = some inst →
      inst.fields.find? name = some v → PadValue T T' W₁ v :=
  fun i inst name v hi hv => (h.fields i inst name v hi hv).grows hg

theorem later_methods (h : PadHeap T T' W) (hg : W.Grows W₁) :
    ∀ (i : Nat) info name ref, W.store.classes[i]? = some info →
      info.methods.find? name = some ref → W₁.Has T T' [.both] ref :=
  fun i info name ref hi href => (h.methods i info name ref hi href).grows hg

theorem define (h : PadHeap T T' W) (hf : W.pairs.Paired f f') (name : String) {v : Value}
    (hv : PadValue T T' W v) : PadHeap T T' (W.define f f' name v) := by
  have hg := W.grows_define f f' name v
  obtain ⟨hlt, hlt'⟩ := h.bound f f' hf
  refine { h with
    parents := ?_, older := ?_, bound := ?_, bindings := ?_, values := ?_
    fields := h.later_fields hg, methods := h.later_methods hg }
  · intro g hshared
    rw [PadWorld.define, Store.parent?_define, Store.parent?_define]
    exact h.parents g hshared
  · intro g p hshared hp
    rw [PadWorld.define, Store.parent?_define] at hp
    exact h.older g p hshared hp
  · intro g g' hpair
    rw [PadWorld.define, Store.frames_define_size, Store.frames_define_size]
    exact h.bound g g' hpair
  · intro g g' hpair
    rw [PadWorld.define, Store.bindings_define _ _ _ hlt, Store.bindings_define _ _ _ hlt']
    have hunique := h.unique f f' g g' hf hpair
    by_cases heq : f = g
    · rw [if_pos heq, if_pos (hunique.1 heq), h.bindings f f' hf]
    · rw [if_neg heq, if_neg fun heq' => heq (hunique.2 heq'), h.bindings g g' hpair]
  · intro g g' other w hpair hw
    refine PadValue.grows ?_ hg
    rw [PadWorld.define, Store.bindings_define _ _ _ hlt] at hw
    split at hw
    · rw [Bindings.find?_put] at hw
      split at hw
      · cases hw
        exact hv
      · exact h.values f f' other w hf hw
    · exact h.values g g' other w hpair hw

theorem push (h : PadHeap T T' W) {b : Bindings Value}
    (hb : ∀ name v, b.find? name = some v → PadValue T T' W v) (p p' : Nat) :
    PadHeap T T' (W.push b p p') := by
  have hg := W.grows_push b p p'
  have hold : ∀ g, g < W.pairs.shared →
      g < W.store.frames.size ∧ g < W.store'.frames.size := fun g hg => h.bound g g (h.shared g hg)
  refine { h with
    shared := fun g hshared => .inl (h.shared g hshared)
    parents := ?_, older := ?_, bound := ?_, unique := ?_, bindings := ?_, values := ?_
    fields := h.later_fields hg, methods := h.later_methods hg }
  · intro g hshared
    have hlt := hold g hshared
    rw [PadWorld.push, Store.parent?_push, Store.parent?_push, if_neg (by omega), if_neg (by omega)]
    exact h.parents g hshared
  · intro g q hshared hq
    have hlt := hold g hshared
    rw [PadWorld.push, Store.parent?_push, if_neg (by omega)] at hq
    exact h.older g q hshared hq
  · intro g g' hpair
    rw [PadWorld.push, Store.frames_push_size, Store.frames_push_size]
    obtain hpair | ⟨rfl, rfl⟩ := hpair
    · have hlt := h.bound g g' hpair
      omega
    · omega
  · intro g g' k k' hpair hpair'
    obtain hpair | ⟨rfl, rfl⟩ := hpair <;> obtain hpair' | ⟨rfl, rfl⟩ := hpair'
    · exact h.unique g g' k k' hpair hpair'
    · have hlt := h.bound g g' hpair
      omega
    · have hlt := h.bound k k' hpair'
      omega
    · exact iff_of_true rfl rfl
  · intro g g' hpair
    rw [PadWorld.push, Store.bindings_push, Store.bindings_push]
    obtain hpair | ⟨rfl, rfl⟩ := hpair
    · have hlt := h.bound g g' hpair
      rw [if_neg (by omega), if_neg (by omega)]
      exact h.bindings g g' hpair
    · rw [if_pos rfl, if_pos rfl]
  · intro g g' name v hpair hv
    refine PadValue.grows ?_ hg
    rw [PadWorld.push, Store.bindings_push] at hv
    obtain hpair | ⟨rfl, rfl⟩ := hpair
    · have hlt := h.bound g g' hpair
      rw [if_neg (by omega)] at hv
      exact h.values g g' name v hpair hv
    · rw [if_pos rfl] at hv
      exact hb name v hv

/-- A blank frame of the first store belongs to no other. -/
theorem pushFirst (h : PadHeap T T' W) (p : Nat) : PadHeap T T' (W.pushFirst p) := by
  have hg := W.grows_pushFirst p
  refine { h with
    parents := ?_, older := ?_, bound := ?_, bindings := ?_, values := ?_
    fields := h.later_fields hg, methods := h.later_methods hg }
  · intro g hshared
    have hlt := h.bound g g (h.shared g hshared)
    rw [PadWorld.pushFirst, Store.parent?_push, if_neg (by omega)]
    exact h.parents g hshared
  · intro g q hshared hq
    have hlt := h.bound g g (h.shared g hshared)
    rw [PadWorld.pushFirst, Store.parent?_push, if_neg (by omega)] at hq
    exact h.older g q hshared hq
  · intro g g' hpair
    have hlt := h.bound g g' hpair
    rw [PadWorld.pushFirst, Store.frames_push_size]
    exact ⟨by omega, hlt.2⟩
  · intro g g' hpair
    have hlt := h.bound g g' hpair
    rw [PadWorld.pushFirst, Store.bindings_push, if_neg (by omega)]
    exact h.bindings g g' hpair
  · intro g g' name v hpair hv
    have hlt := h.bound g g' hpair
    rw [PadWorld.pushFirst, Store.bindings_push, if_neg (by omega)] at hv
    exact (h.values g g' name v hpair hv).grows hg

theorem pushSecond (h : PadHeap T T' W) (p' : Nat) : PadHeap T T' (W.pushSecond p') := by
  have hg := W.grows_pushSecond p'
  refine { h with
    parents := ?_, bound := ?_, bindings := ?_
    values := fun g g' name v hpair hv => (h.values g g' name v hpair hv).grows hg
    fields := h.later_fields hg, methods := h.later_methods hg }
  · intro g hshared
    have hlt := h.bound g g (h.shared g hshared)
    rw [PadWorld.pushSecond, Store.parent?_push, if_neg (by omega)]
    exact h.parents g hshared
  · intro g g' hpair
    have hlt := h.bound g g' hpair
    rw [PadWorld.pushSecond, Store.frames_push_size]
    exact ⟨hlt.1, by omega⟩
  · intro g g' hpair
    have hlt := h.bound g g' hpair
    rw [PadWorld.pushSecond, Store.bindings_push, if_neg (by omega)]
    exact h.bindings g g' hpair

theorem closureName_addClosure (s : Store) (c : Closure) (i : Nat) :
    (s.addClosure c).2.closureName i =
      if i = s.closures.size then c.decl.name.lexeme else s.closureName i := by
  unfold Store.closureName Store.addClosure
  simp only [Array.getElem?_push]
  by_cases h : i = s.closures.size
  · simp only [if_pos h]
  · simp only [if_neg h]

theorem addClosure (h : PadHeap T T' W) {c c' : Closure} (hname : c'.decl.name = c.decl.name) :
    PadHeap T T' (W.addClosure c c') := by
  have hg := W.grows_addClosure c c'
  refine { h with
    values := fun g g' name v hpair hv => (h.values g g' name v hpair hv).grows hg
    fields := h.later_fields hg, methods := h.later_methods hg
    closures := by simp [PadWorld.addClosure, Store.addClosure, h.closures]
    names := fun i => ?_ }
  rw [PadWorld.addClosure, closureName_addClosure, closureName_addClosure, hname, h.closures,
    h.names]

/-- The closure that was added last. -/
theorem has_addClosure (h : PadHeap T T' W) {c c' : Closure} (hc : PadClosure T T' W inner c c') :
    (W.addClosure c c').Has T T' inner W.store.closures.size := by
  refine ⟨c, c', by simp [PadWorld.addClosure, Store.addClosure], ?_,
    hc.grows (W.grows_addClosure c c')⟩
  rw [← h.closures]
  simp [PadWorld.addClosure, Store.addClosure]

theorem addClass (h : PadHeap T T' W) {info : ClassInfo}
    (hmethods : ∀ name ref, info.methods.find? name = some ref → W.Has T T' [.both] ref) :
    PadHeap T T' (W.addClass info) := by
  have hg := W.grows_addClass info
  refine { h with
    values := fun g g' name v hpair hv => (h.values g g' name v hpair hv).grows hg
    fields := h.later_fields hg, methods := ?_
    classes := by simp [PadWorld.addClass, Store.addClass, h.classes] }
  intro i info' name ref hi href
  refine PadWorld.Has.grows ?_ hg
  simp only [PadWorld.addClass, Store.addClass, Array.getElem?_push] at hi
  split at hi
  · cases hi
    exact hmethods name ref href
  · exact h.methods i info' name ref hi href

theorem addInstance (h : PadHeap T T' W) (classRef : Nat) :
    PadHeap T T' (W.addInstance classRef) := by
  have hg := W.grows_addInstance classRef
  refine { h with
    values := fun g g' name v hpair hv => (h.values g g' name v hpair hv).grows hg
    fields := ?_, methods := h.later_methods hg
    instances := by simp [PadWorld.addInstance, Store.addInstance, h.instances] }
  intro i inst name v hi hv
  refine PadValue.grows ?_ hg
  simp only [PadWorld.addInstance, Store.addInstance, Array.getElem?_push] at hi
  split at hi
  · cases hi
    cases hv
  · exact h.fields i inst name v hi hv

theorem setField (h : PadHeap T T' W) (ref : Nat) (name : String) {v : Value}
    (hv : PadValue T T' W v) : PadHeap T T' (W.setField ref name v) := by
  have hg := W.grows_setField ref name v
  refine { h with
    values := fun g g' name v hpair hv => (h.values g g' name v hpair hv).grows hg
    fields := ?_, methods := h.later_methods hg
    instances := by simp [PadWorld.setField, Store.setField, h.instances] }
  intro i inst other w hi hw
  refine PadValue.grows ?_ hg
  simp only [PadWorld.setField, Store.setField, Array.getElem?_modify] at hi
  split at hi
  · obtain ⟨inst', hinst, rfl⟩ := Option.map_eq_some_iff.1 hi
    simp only [Bindings.find?_put] at hw
    split at hw
    · cases hw
      exact hv
    · exact h.fields i inst' other w hinst hw
  · exact h.fields i inst other w hi hw

end PadHeap

end

end LoxLang
