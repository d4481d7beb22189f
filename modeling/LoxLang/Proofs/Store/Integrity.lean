import LoxLang.Proofs.Store.Frames

/-!
# The integrity of a store

Every frame is of one kind for ever: it holds variables, or it holds nothing but the receiver of a
method, or nothing but the superclass of a class.  What is referred to exists, and what a thing was
made from is older than the thing itself.

* `FrameKind.Fits` — the bindings of a frame of a kind.
* `Store.Grows` — what a later store keeps of an earlier one.
* `Store.DeclaresIn` — a class has a method that was declared in a frame.
* `Store.Intact` — the invariant.
* `Store.Lineage` — the classes from a class up its chain of bases.

Principal results: `Store.Intact.define`, `Store.Intact.push`, `Store.Intact.addClass`,
`Store.Intact.findMethod?_eq`.
-/

namespace LoxLang

/-! ## Kinds of frames -/

/-- What a frame is there for. -/
inductive FrameKind where
  /-- Variables that programs declare. -/
  | ordinary
  /-- The receiver of a method. -/
  | receiver (inst : Nat)
  /-- The superclass of a class. -/
  | base (ref : Nat)

/-- The bindings of a frame of a kind. -/
def FrameKind.Fits : FrameKind → Bindings Value → Prop
  | .ordinary, b => b.find? "this" = none ∧ b.find? "super" = none
  | .receiver inst, b => b = Bindings.empty.put "this" (.object inst)
  | .base ref, b => b = Bindings.empty.put "super" (.classValue ref)

/-- The names that programs can declare. -/
def PlainName (name : String) : Prop := name ≠ "this" ∧ name ≠ "super"

namespace FrameKind

variable {k : FrameKind} {b : Bindings Value} {name : String} {v : Value}

theorem ordinary_empty : ordinary.Fits .empty := ⟨rfl, rfl⟩

theorem ordinary_put (h : ordinary.Fits b) (hname : PlainName name) (v : Value) :
    ordinary.Fits (b.put name v) := by
  constructor
  · rw [Bindings.find?_put, if_neg hname.1]
    exact h.1
  · rw [Bindings.find?_put, if_neg hname.2]
    exact h.2

/-- A frame that is ordinary is of no other kind. -/
theorem eq_ordinary (h : ordinary.Fits b) (hk : k.Fits b) : k = ordinary := by
  cases k with
  | ordinary => rfl
  | receiver inst =>
    subst hk
    simp [Fits] at h
  | base ref =>
    subst hk
    simp [Fits] at h

theorem receiver_find? {inst : Nat} (h : (receiver inst).Fits b) :
    b.find? "this" = some (.object inst) := by
  subst h
  simp

theorem base_find? {ref : Nat} (h : (base ref).Fits b) :
    b.find? "super" = some (.classValue ref) := by
  subst h
  simp

/-- The frame of a receiver binds nothing but `this`. -/
theorem receiver_of_this (h : k.Fits b) (hthis : b.find? "this" = some v) :
    ∃ inst, k = receiver inst ∧ v = .object inst := by
  cases k with
  | ordinary =>
    rw [h.1] at hthis
    cases hthis
  | receiver inst =>
    rw [receiver_find? h] at hthis
    exact ⟨inst, rfl, (Option.some.inj hthis).symm⟩
  | base ref =>
    subst h
    simp at hthis

/-- Only ordinary frames bind other names. -/
theorem ordinary_of_find? (h : k.Fits b) (hname : PlainName name) (hv : b.find? name = some v) :
    k = ordinary := by
  cases k with
  | ordinary => rfl
  | receiver inst =>
    subst h
    simp [Ne.symm hname.1] at hv
  | base ref =>
    subst h
    simp [Ne.symm hname.2] at hv

end FrameKind

/-! ## Growth -/

/-- A value refers to something that exists. -/
def Store.Holds (s : Store) : Value → Prop
  | .native ref => ref < s.natives.size
  | .function ref => ref < s.closures.size
  | .classValue ref => ref < s.classes.size
  | .object ref => ref < s.instances.size
  | _ => True

/-- What a later store keeps of an earlier one. -/
structure Store.Grows (s s₁ : Store) : Prop where
  frames : s.frames.size ≤ s₁.frames.size
  parents : ∀ f, f < s.frames.size → s₁.parent? f = s.parent? f
  kinds : ∀ (k : FrameKind) f, f < s.frames.size → k.Fits (s.bindings f) → k.Fits (s₁.bindings f)
  closures : ∀ (i : Nat) c, s.closures[i]? = some c → s₁.closures[i]? = some c
  classes : ∀ (i : Nat) info, s.classes[i]? = some info → s₁.classes[i]? = some info
  instances : s.instances.size ≤ s₁.instances.size
  natives : s₁.natives = s.natives

/-- An array whose entries are all found in another one is not longer. -/
theorem size_le_of_getElem? {α : Type} {xs ys : Array α}
    (h : ∀ (i : Nat) x, xs[i]? = some x → ys[i]? = some x) : xs.size ≤ ys.size := by
  refine Nat.le_of_not_lt fun hlt => ?_
  have hlast := h ys.size _ (Array.getElem?_eq_getElem hlt)
  rw [Array.getElem?_eq_none (Nat.le_refl _)] at hlast
  cases hlast

theorem getElem?_push_of_eq_some {α : Type} {xs : Array α} {i : Nat} {x y : α}
    (h : xs[i]? = some x) : (xs.push y)[i]? = some x := by
  have hlt := (Array.getElem?_eq_some_iff.1 h).1
  rw [Array.getElem?_push, if_neg (by omega)]
  exact h

namespace Store

variable {s s₁ s₂ : Store}

namespace Grows

theorem refl (s : Store) : s.Grows s :=
  ⟨Nat.le_refl _, fun _ _ => rfl, fun _ _ _ h => h, fun _ _ h => h, fun _ _ h => h, Nat.le_refl _,
    rfl⟩

theorem trans (h : s.Grows s₁) (h' : s₁.Grows s₂) : s.Grows s₂ where
  frames := Nat.le_trans h.frames h'.frames
  parents f hf := (h'.parents f (Nat.lt_of_lt_of_le hf h.frames)).trans (h.parents f hf)
  kinds k f hf hk := h'.kinds k f (Nat.lt_of_lt_of_le hf h.frames) (h.kinds k f hf hk)
  closures i c hc := h'.closures i c (h.closures i c hc)
  classes i info hi := h'.classes i info (h.classes i info hi)
  instances := Nat.le_trans h.instances h'.instances
  natives := h'.natives.trans h.natives

theorem holds (h : s.Grows s₁) {v : Value} (hv : s.Holds v) : s₁.Holds v := by
  cases v with
  | native ref =>
    show ref < s₁.natives.size
    rw [h.natives]
    exact hv
  | function ref => exact Nat.lt_of_lt_of_le hv (size_le_of_getElem? h.closures)
  | classValue ref => exact Nat.lt_of_lt_of_le hv (size_le_of_getElem? h.classes)
  | object ref => exact Nat.lt_of_lt_of_le hv h.instances
  | _ => trivial

theorem define {f : Nat} (hf : f < s.frames.size) (hk : FrameKind.ordinary.Fits (s.bindings f))
    {name : String} (hname : PlainName name) (v : Value) : s.Grows (s.define f name v) where
  frames := Nat.le_of_eq (s.frames_define_size f name v).symm
  parents g _ := s.parent?_define f g name v
  kinds k g hg hfits := by
    rw [s.bindings_define name v hf]
    by_cases hfg : f = g
    · subst hfg
      rw [if_pos rfl, FrameKind.eq_ordinary hk hfits]
      exact FrameKind.ordinary_put hk hname v
    · rw [if_neg hfg]
      exact hfits
  closures _ _ h := h
  classes _ _ h := h
  instances := Nat.le_refl _
  natives := rfl

theorem push (s : Store) (b : Bindings Value) (parent : Nat) : s.Grows (s.push b parent).2 where
  frames := by
    rw [frames_push_size]
    omega
  parents f hf := by rw [s.parent?_push, if_neg (by omega)]
  kinds k f hf hk := by
    rw [s.bindings_push, if_neg (by omega)]
    exact hk
  closures _ _ h := h
  classes _ _ h := h
  instances := Nat.le_refl _
  natives := rfl

theorem addClosure (s : Store) (c : Closure) : s.Grows (s.addClosure c).2 :=
  ⟨Nat.le_refl _, fun _ _ => rfl, fun _ _ _ h => h, fun _ _ h => getElem?_push_of_eq_some h,
    fun _ _ h => h, Nat.le_refl _, rfl⟩

theorem addClass (s : Store) (info : ClassInfo) : s.Grows (s.addClass info).2 :=
  ⟨Nat.le_refl _, fun _ _ => rfl, fun _ _ _ h => h, fun _ _ h => h,
    fun _ _ h => getElem?_push_of_eq_some h, Nat.le_refl _, rfl⟩

theorem addInstance (s : Store) (classRef : Nat) : s.Grows (s.addInstance classRef).2 :=
  ⟨Nat.le_refl _, fun _ _ => rfl, fun _ _ _ h => h, fun _ _ h => h, fun _ _ h => h,
    by simp [Store.addInstance], rfl⟩

theorem setField (s : Store) (ref : Nat) (name : String) (v : Value) :
    s.Grows (s.setField ref name v) :=
  ⟨Nat.le_refl _, fun _ _ => rfl, fun _ _ _ h => h, fun _ _ h => h, fun _ _ h => h,
    by simp [Store.setField], rfl⟩

end Grows

/-- One link further up. -/
theorem climb_succ_of (s : Store) {f parent : Nat} : ∀ {d g : Nat}, s.climb d g = some f →
    s.parent? f = some parent → s.climb (d + 1) g = some parent
  | 0, g, hf, hparent => by
    cases hf
    rw [Store.climb, hparent]
    rfl
  | d + 1, g, hf, hparent => by
    rw [Store.climb] at hf
    obtain ⟨next, hnext, hf⟩ := Option.bind_eq_some_iff.1 hf
    rw [Store.climb, hnext]
    exact s.climb_succ_of hf hparent

/-! ## The invariant -/

/-- A class has a method that was declared in a frame. -/
def DeclaresIn (s : Store) (i f : Nat) : Prop :=
  ∃ info name ref c, s.classes[i]? = some info ∧ info.methods.find? name = some ref ∧
    s.closures[ref]? = some c ∧ c.frame = f

structure Intact (s : Store) : Prop where
  root : globalFrame < s.frames.size
  rootParent : s.parent? globalFrame = none
  rootKind : FrameKind.ordinary.Fits (s.bindings globalFrame)
  older : ∀ f parent, s.parent? f = some parent → parent < f
  kinds : ∀ f, f < s.frames.size → ∃ k : FrameKind, k.Fits (s.bindings f)
  values : ∀ f name v, (s.bindings f).find? name = some v → s.Holds v
  fields : ∀ (i : Nat) inst name v, s.instances[i]? = some inst →
    inst.fields.find? name = some v → s.Holds v
  closures : ∀ (i : Nat) c, s.closures[i]? = some c → c.frame < s.frames.size
  methods : ∀ (i : Nat) info name ref, s.classes[i]? = some info →
    info.methods.find? name = some ref → ref < s.closures.size
  bases : ∀ (i : Nat) info base, s.classes[i]? = some info → info.base = some base → base < i
  /-- The methods that were declared in a frame of `super` belong to one class. -/
  owners : ∀ f ref i j, (FrameKind.base ref).Fits (s.bindings f) → s.DeclaresIn i f →
    s.DeclaresIn j f → i = j

namespace Intact

theorem initial : Store.initial.Intact where
  root := by decide
  rootParent := rfl
  rootKind := ⟨rfl, rfl⟩
  older f parent h := by
    have hlt := Store.initial.parent?_eq_some_lt h
    obtain rfl : f = 0 := by simpa [Store.initial, Store.empty, Store.addNative] using hlt
    cases h
  kinds f hf := by
    obtain rfl : f = 0 := by simpa [Store.initial, Store.empty, Store.addNative] using hf
    exact ⟨.ordinary, rfl, rfl⟩
  values f name v h := by
    have hlt := Store.initial.lt_size_of_find? h
    obtain rfl : f = 0 := by simpa [Store.initial, Store.empty, Store.addNative] using hlt
    have hclock : (Store.initial.bindings 0) = Bindings.empty.put "clock" (.native 0) := rfl
    rw [hclock, Bindings.find?_put] at h
    split at h
    · cases h
      exact Nat.zero_lt_one
    · cases h
  fields i inst name v h := by simp [Store.initial, Store.empty, Store.addNative] at h
  closures i c h := by simp [Store.initial, Store.empty, Store.addNative] at h
  methods i info name ref h := by simp [Store.initial, Store.empty, Store.addNative] at h
  bases i info base h := by simp [Store.initial, Store.empty, Store.addNative] at h
  owners f ref i j _ hi := by
    obtain ⟨info, _, _, _, hinfo, _⟩ := hi
    simp [Store.initial, Store.empty, Store.addNative] at hinfo

/-- Climbing leads to frames that exist. -/
theorem climb_lt (h : s.Intact) : ∀ (d : Nat) {f g : Nat},
    f < s.frames.size → s.climb d f = some g → g < s.frames.size
  | 0, f, g, hf, hg => by
    cases hg
    exact hf
  | d + 1, f, g, hf, hg => by
    rw [Store.climb] at hg
    obtain ⟨parent, hparent, hg⟩ := Option.bind_eq_some_iff.1 hg
    have hlt := h.older f parent hparent
    exact h.climb_lt d (by omega) hg

/-- The methods of classes were declared in frames that exist. -/
theorem declaresIn_lt (h : s.Intact) {i f : Nat} (hi : s.DeclaresIn i f) : f < s.frames.size := by
  obtain ⟨_, _, ref, c, _, _, hc, rfl⟩ := hi
  exact h.closures ref c hc

/-- A frame that binds `this` holds an instance and nothing else. -/
theorem receiver_of_this (h : s.Intact) {f : Nat} {v : Value}
    (hthis : (s.bindings f).find? "this" = some v) :
    ∃ inst, (FrameKind.receiver inst).Fits (s.bindings f) ∧ v = .object inst := by
  obtain ⟨k, hk⟩ := h.kinds f (s.lt_size_of_find? hthis)
  obtain ⟨inst, rfl, rfl⟩ := FrameKind.receiver_of_this hk hthis
  exact ⟨inst, hk, rfl⟩

/-- A frame that binds a name which a program can declare is ordinary. -/
theorem ordinary_of_has (h : s.Intact) {f : Nat} {name : String} (hname : PlainName name)
    (hhas : s.has f name = true) :
    f < s.frames.size ∧ FrameKind.ordinary.Fits (s.bindings f) := by
  obtain ⟨v, hv⟩ := s.has_eq_true.1 hhas
  have hf := s.lt_size_of_find? hv
  obtain ⟨k, hk⟩ := h.kinds f hf
  obtain rfl := FrameKind.ordinary_of_find? hk hname hv
  exact ⟨hf, hk⟩

theorem get_holds (h : s.Intact) {f : Nat} {name : String} {v : Value}
    (hget : s.get f name = .ok v) : s.Holds v := by
  unfold Store.get at hget
  split at hget
  · rename_i w hw
    cases hget
    exact h.values f name v hw
  · cases hget

theorem define (h : s.Intact) {f : Nat} (hf : f < s.frames.size)
    (hk : FrameKind.ordinary.Fits (s.bindings f)) {name : String} (hname : PlainName name)
    {v : Value} (hv : s.Holds v) : (s.define f name v).Intact := by
  have hg := Grows.define hf hk hname v
  have hbindings : ∀ g, (s.define f name v).bindings g =
      if f = g then (s.bindings f).put name v else s.bindings g := fun g => s.bindings_define name v hf
  refine { h with
    root := Nat.lt_of_lt_of_le h.root hg.frames
    rootParent := (hg.parents _ h.root).trans h.rootParent
    rootKind := hg.kinds _ _ h.root h.rootKind
    older := ?_, kinds := ?_, values := ?_
    fields := fun i inst other w hi hw => hg.holds (h.fields i inst other w hi hw)
    closures := fun i c hc => Nat.lt_of_lt_of_le (h.closures i c hc) hg.frames
    owners := ?_ }
  · intro g parent hp
    rw [s.parent?_define] at hp
    exact h.older g parent hp
  · intro g hlt
    rw [frames_define_size] at hlt
    obtain ⟨k, hfits⟩ := h.kinds g hlt
    exact ⟨k, hg.kinds k g hlt hfits⟩
  · intro g other w hw
    apply hg.holds
    rw [hbindings] at hw
    split at hw
    · rw [Bindings.find?_put] at hw
      split at hw
      · cases hw
        exact hv
      · exact h.values f other w hw
    · exact h.values g other w hw
  · intro g ref i j hbase hi hj
    rw [hbindings] at hbase
    split at hbase
    · cases FrameKind.eq_ordinary (FrameKind.ordinary_put hk hname v) hbase
    · exact h.owners g ref i j hbase hi hj

theorem push (h : s.Intact) {b : Bindings Value} {parent : Nat} {k : FrameKind} (hk : k.Fits b)
    (hparent : parent < s.frames.size) (hb : ∀ name v, b.find? name = some v → s.Holds v) :
    (s.push b parent).2.Intact := by
  have hg := Grows.push s b parent
  refine { h with
    root := Nat.lt_of_lt_of_le h.root hg.frames
    rootParent := (hg.parents _ h.root).trans h.rootParent
    rootKind := hg.kinds _ _ h.root h.rootKind
    older := ?_, kinds := ?_, values := ?_
    fields := fun i inst other w hi hw => hg.holds (h.fields i inst other w hi hw)
    closures := fun i c hc => Nat.lt_of_lt_of_le (h.closures i c hc) hg.frames
    owners := ?_ }
  · intro f p hp
    rw [s.parent?_push] at hp
    split at hp
    · cases hp
      omega
    · exact h.older f p hp
  · intro f hf
    rw [s.bindings_push]
    split
    · exact ⟨k, hk⟩
    · rw [frames_push_size] at hf
      exact h.kinds f (by omega)
  · intro f name v hv
    apply hg.holds
    rw [s.bindings_push] at hv
    split at hv
    · exact hb name v hv
    · exact h.values f name v hv
  · intro f ref i j hbase hi hj
    have hlt := h.declaresIn_lt (i := i) (f := f) hi
    rw [s.bindings_push, if_neg (by omega)] at hbase
    exact h.owners f ref i j hbase hi hj

theorem addClosure (h : s.Intact) {c : Closure} (hc : c.frame < s.frames.size) :
    (s.addClosure c).2.Intact := by
  have hg := Grows.addClosure s c
  have hsize : s.closures.size ≤ (s.addClosure c).2.closures.size := size_le_of_getElem? hg.closures
  refine { h with
    values := fun f name v hv => hg.holds (h.values f name v hv)
    fields := fun i inst name v hi hv => hg.holds (h.fields i inst name v hi hv)
    closures := ?_
    methods := fun i info name ref hi hr => Nat.lt_of_lt_of_le (h.methods i info name ref hi hr) hsize
    owners := ?_ }
  · intro i c' hc'
    simp only [Store.addClosure, Array.getElem?_push] at hc'
    split at hc'
    · cases hc'
      exact hc
    · exact h.closures i c' hc'
  · -- The new closure is not yet a method of any class.
    have hback : ∀ i f, (s.addClosure c).2.DeclaresIn i f → s.DeclaresIn i f := by
      rintro i f ⟨info, name, ref, c', hinfo, href, hc', hf⟩
      have hlt := h.methods i info name ref hinfo href
      simp only [Store.addClosure, Array.getElem?_push] at hc'
      rw [if_neg (by omega)] at hc'
      exact ⟨info, name, ref, c', hinfo, href, hc', hf⟩
    intro f ref i j hbase hi hj
    exact h.owners f ref i j hbase (hback i f hi) (hback j f hj)

theorem addClass (h : s.Intact) {info : ClassInfo}
    (hmethods : ∀ name ref, info.methods.find? name = some ref → ref < s.closures.size)
    (hbase : ∀ base, info.base = some base → base < s.classes.size)
    (howner : ∀ name ref c base, info.methods.find? name = some ref → s.closures[ref]? = some c →
      (FrameKind.base base).Fits (s.bindings c.frame) → ∀ i, ¬ s.DeclaresIn i c.frame) :
    (s.addClass info).2.Intact := by
  have hg := Grows.addClass s info
  have hclass : ∀ (i : Nat) info', (s.addClass info).2.classes[i]? = some info' →
      i = s.classes.size ∧ info' = info ∨ s.classes[i]? = some info' := by
    intro i info' hi
    simp only [Store.addClass, Array.getElem?_push] at hi
    split at hi
    · rename_i hsize
      cases hi
      exact .inl ⟨hsize, rfl⟩
    · exact .inr hi
  refine { h with
    values := fun f name v hv => hg.holds (h.values f name v hv)
    fields := fun i inst name v hi hv => hg.holds (h.fields i inst name v hi hv)
    methods := ?_, bases := ?_, owners := ?_ }
  · intro i info' name ref hi hr
    obtain ⟨rfl, rfl⟩ | hold := hclass i info' hi
    · exact hmethods name ref hr
    · exact h.methods i info' name ref hold hr
  · intro i info' base hi hb
    obtain ⟨rfl, rfl⟩ | hold := hclass i info' hi
    · exact hbase base hb
    · exact h.bases i info' base hold hb
  · rintro f base i j hfits ⟨info₁, name₁, ref₁, c₁, hi, href₁, hc₁, rfl⟩
      ⟨info₂, name₂, ref₂, c₂, hj, href₂, hc₂, heq⟩
    have hfits₂ : (FrameKind.base base).Fits (s.bindings c₂.frame) := by
      rw [heq]
      exact hfits
    obtain ⟨rfl, rfl⟩ | hold := hclass i info₁ hi
    · obtain ⟨rfl, rfl⟩ | hold' := hclass j info₂ hj
      · rfl
      · exact absurd ⟨info₂, name₂, ref₂, c₂, hold', href₂, hc₂, heq⟩
          (howner name₁ ref₁ c₁ base href₁ hc₁ hfits j)
    · obtain ⟨rfl, rfl⟩ | hold' := hclass j info₂ hj
      · exact absurd ⟨info₁, name₁, ref₁, c₁, hold, href₁, hc₁, heq.symm⟩
          (howner name₂ ref₂ c₂ base href₂ hc₂ hfits₂ i)
      · exact h.owners c₁.frame base i j hfits ⟨info₁, name₁, ref₁, c₁, hold, href₁, hc₁, rfl⟩
          ⟨info₂, name₂, ref₂, c₂, hold', href₂, hc₂, heq⟩

theorem addInstance (h : s.Intact) (classRef : Nat) : (s.addInstance classRef).2.Intact := by
  have hg := Grows.addInstance s classRef
  refine { h with
    values := fun f name v hv => hg.holds (h.values f name v hv)
    fields := ?_ }
  intro i inst name v hi hv
  apply hg.holds
  simp only [Store.addInstance, Array.getElem?_push] at hi
  split at hi
  · cases hi
    cases hv
  · exact h.fields i inst name v hi hv

theorem setField (h : s.Intact) (ref : Nat) (name : String) {v : Value} (hv : s.Holds v) :
    (s.setField ref name v).Intact := by
  have hg := Grows.setField s ref name v
  refine { h with
    values := fun f other w hw => hg.holds (h.values f other w hw)
    fields := ?_ }
  intro i inst other w hi hw
  apply hg.holds
  simp only [Store.setField, Array.getElem?_modify] at hi
  split at hi
  · obtain ⟨inst', hinst, rfl⟩ := Option.map_eq_some_iff.1 hi
    simp only [Bindings.find?_put] at hw
    split at hw
    · cases hw
      exact hv
    · exact h.fields i inst' other w hinst hw
  · exact h.fields i inst other w hi hw

end Intact

/-! ## Bound methods -/

/-- The closure that binding a method adds. -/
theorem bind_closure (s : Store) (c : Closure) (receiver : Value) :
    (s.bind c receiver).2.closures[(s.bind c receiver).1]? =
      some { c with frame := s.frames.size } := by
  simp [Store.bind, Store.addClosure, Store.push]

theorem bind_parent? (s : Store) (c : Closure) (receiver : Value) :
    (s.bind c receiver).2.parent? s.frames.size = some c.frame := by
  have hpush := s.parent?_push (Bindings.empty.put "this" receiver) c.frame s.frames.size
  rw [if_pos rfl] at hpush
  exact hpush

/-- The frame that binding a method adds holds the receiver only. -/
theorem bind_bindings (s : Store) (c : Closure) (receiver : Value) :
    (s.bind c receiver).2.bindings s.frames.size = Bindings.empty.put "this" receiver := by
  have hpush := s.bindings_push (Bindings.empty.put "this" receiver) c.frame s.frames.size
  rw [if_pos rfl] at hpush
  exact hpush

theorem bind_frames_size (s : Store) (c : Closure) (receiver : Value) :
    (s.bind c receiver).2.frames.size = s.frames.size + 1 :=
  s.frames_push_size (Bindings.empty.put "this" receiver) c.frame

theorem Grows.bind (s : Store) (c : Closure) (receiver : Value) : s.Grows (s.bind c receiver).2 :=
  (Grows.push s _ c.frame).trans (Grows.addClosure _ _)

theorem Intact.bind (h : s.Intact) {c : Closure} (hc : c.frame < s.frames.size) {inst : Nat}
    (hinst : s.Holds (.object inst)) : (s.bind c (.object inst)).2.Intact := by
  refine Intact.addClosure (h.push (k := .receiver inst) rfl hc fun name v hv => ?_) ?_
  · rw [Bindings.find?_put] at hv
    split at hv
    · cases hv
      exact hinst
    · cases hv
  · rw [frames_push_size]
    exact Nat.lt_succ_self _

/-! ## Chains of bases -/

/-- The classes from a class up its chain of bases, the class itself first. -/
inductive Lineage (s : Store) : Nat → List Nat → Prop where
  | last {ref : Nat} {info : ClassInfo} :
      s.classes[ref]? = some info → info.base = none → Lineage s ref [ref]
  | step {ref base : Nat} {info : ClassInfo} {refs : List Nat} :
      s.classes[ref]? = some info → info.base = some base → Lineage s base refs →
      Lineage s ref (ref :: refs)

/-- The method that a class declares itself under a name. -/
def declares? (s : Store) (name : String) (ref : Nat) : Option Nat :=
  s.classes[ref]?.bind fun info => info.methods.find? name

/-- Every class has a chain of bases, which ends. -/
theorem Intact.lineage (h : s.Intact) : ∀ ref : Nat, ref < s.classes.size →
    ∃ refs, s.Lineage ref refs := by
  intro ref
  induction ref using Nat.strongRecOn with
  | ind ref ih =>
    intro hlt
    have hinfo := Array.getElem?_eq_getElem hlt
    cases hbase : s.classes[ref].base with
    | none => exact ⟨[ref], .last hinfo hbase⟩
    | some base =>
      have holder := h.bases ref _ base hinfo hbase
      obtain ⟨refs, hrefs⟩ := ih base holder (by omega)
      exact ⟨ref :: refs, .step hinfo hbase hrefs⟩

/-- A method that is found is declared by a class. -/
theorem findMethodIn_declares {name : String} {method : Nat} : ∀ (limit : Nat) {ref : Nat},
    s.findMethodIn limit ref name = some method → ∃ i, s.declares? name i = some method
  | 0, _, h => by cases h
  | limit + 1, ref, h => by
    rw [findMethodIn] at h
    split at h
    · cases h
    · rename_i info hinfo
      split at h
      · rename_i method' hmethod
        cases h
        refine ⟨ref, ?_⟩
        rw [declares?, hinfo]
        exact hmethod
      · split at h
        · cases h
        · exact findMethodIn_declares limit h

theorem method?_declares {name : String} {ref : Nat} {c : Closure} (h : s.method? ref name = some c) :
    ∃ i method, s.declares? name i = some method ∧ s.closures[method]? = some c := by
  obtain ⟨method, hmethod, hc⟩ := Option.bind_eq_some_iff.1 h
  obtain ⟨i, hi⟩ := findMethodIn_declares _ hmethod
  exact ⟨i, method, hi, hc⟩

/-- Looking for a method goes up the chain of bases to its end, as bases are older. -/
theorem Intact.findMethodIn_eq (h : s.Intact) {name : String} {ref : Nat} {refs : List Nat}
    (hrefs : s.Lineage ref refs) : ∀ limit : Nat, ref < limit →
    s.findMethodIn limit ref name = refs.findSome? (s.declares? name) := by
  induction hrefs with
  | @last ref info hinfo hbase =>
    intro limit hlt
    obtain ⟨k, rfl⟩ := Nat.exists_eq_succ_of_ne_zero (Nat.ne_of_gt (Nat.zero_lt_of_lt hlt))
    rw [findMethodIn, hinfo, List.findSome?_cons, declares?, hinfo]
    simp only [hbase, Option.bind_some, List.findSome?_nil]
    cases info.methods.find? name <;> rfl
  | @step ref base info refs hinfo hbase _ ih =>
    intro limit hlt
    obtain ⟨k, rfl⟩ := Nat.exists_eq_succ_of_ne_zero (Nat.ne_of_gt (Nat.zero_lt_of_lt hlt))
    have holder := h.bases ref info base hinfo hbase
    rw [findMethodIn, hinfo, List.findSome?_cons, declares?, hinfo]
    simp only [hbase, Option.bind_some, ih k (by omega)]
    cases info.methods.find? name <;> rfl

/-- **The method that is found is that of the nearest class on the chain of bases.** -/
theorem Intact.findMethod?_eq (h : s.Intact) {name : String} {ref : Nat} {refs : List Nat}
    (hrefs : s.Lineage ref refs) :
    s.findMethod? ref name = refs.findSome? (s.declares? name) :=
  h.findMethodIn_eq hrefs (ref + 1) (Nat.lt_succ_self ref)

/-- The methods that are found have closures. -/
theorem Intact.method?_eq_some (h : s.Intact) {name : String} {ref method : Nat} {refs : List Nat}
    (hrefs : s.Lineage ref refs) (hmethod : refs.findSome? (s.declares? name) = some method) :
    ∃ c, s.closures[method]? = some c ∧ s.method? ref name = some c := by
  obtain ⟨k, _, hk⟩ := List.exists_of_findSome?_eq_some hmethod
  obtain ⟨info, hinfo, hfind⟩ := Option.bind_eq_some_iff.1 hk
  have hlt := h.methods k info name method hinfo hfind
  refine ⟨s.closures[method], Array.getElem?_eq_getElem hlt, ?_⟩
  rw [method?, h.findMethod?_eq hrefs, hmethod, Option.bind_some, Array.getElem?_eq_getElem hlt]

end Store

end LoxLang
