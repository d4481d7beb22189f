import LoxLang.Store

/-!
# The frames of a store

What every operation of the store does to the bindings and the parents of frames.  Frames are never
removed, and a frame keeps its parent.
-/

namespace LoxLang

namespace Store

variable (s : Store)

theorem parent?_eq_some_lt {f parent : Nat} (h : s.parent? f = some parent) : f < s.frames.size := by
  unfold parent? at h
  cases hf : s.frames[f]? with
  | none => rw [hf] at h; cases h
  | some frame => exact (Array.getElem?_eq_some_iff.1 hf).1

theorem bindings_eq_empty {f : Nat} (h : s.frames.size ≤ f) : s.bindings f = .empty := by
  unfold bindings
  rw [Array.getElem?_eq_none h]

theorem has_eq_true {f : Nat} {name : String} :
    s.has f name = true ↔ ∃ v, (s.bindings f).find? name = some v := by
  simp [has, Bindings.contains, Option.isSome_iff_exists]

theorem lt_size_of_find? {f : Nat} {name : String} {v : Value}
    (h : (s.bindings f).find? name = some v) : f < s.frames.size := by
  refine Nat.lt_of_not_le fun hle => ?_
  rw [s.bindings_eq_empty hle] at h
  cases h

/-! ## Defining -/

@[simp] theorem frames_define_size (f : Nat) (name : String) (v : Value) :
    (s.define f name v).frames.size = s.frames.size := by
  simp [define]

theorem bindings_define {f g : Nat} (name : String) (v : Value) (hf : f < s.frames.size) :
    (s.define f name v).bindings g =
      if f = g then (s.bindings f).put name v else s.bindings g := by
  unfold define bindings
  simp only [Array.getElem?_modify]
  by_cases h : f = g
  · subst h
    simp [hf]
  · simp [h]

@[simp] theorem parent?_define (f g : Nat) (name : String) (v : Value) :
    (s.define f name v).parent? g = s.parent? g := by
  unfold define parent?
  simp only [Array.getElem?_modify]
  by_cases h : f = g
  · subst h
    cases s.frames[f]? <;> simp
  · simp [h]

@[simp] theorem closures_define (f : Nat) (name : String) (v : Value) :
    (s.define f name v).closures = s.closures := rfl

@[simp] theorem classes_define (f : Nat) (name : String) (v : Value) :
    (s.define f name v).classes = s.classes := rfl

@[simp] theorem instances_define (f : Nat) (name : String) (v : Value) :
    (s.define f name v).instances = s.instances := rfl

@[simp] theorem natives_define (f : Nat) (name : String) (v : Value) :
    (s.define f name v).natives = s.natives := rfl

/-! ## New frames -/

@[simp] theorem push_fst (b : Bindings Value) (parent : Nat) :
    (s.push b parent).1 = s.frames.size := rfl

@[simp] theorem frames_push_size (b : Bindings Value) (parent : Nat) :
    (s.push b parent).2.frames.size = s.frames.size + 1 := by
  simp [push]

theorem bindings_push (b : Bindings Value) (parent f : Nat) :
    (s.push b parent).2.bindings f = if f = s.frames.size then b else s.bindings f := by
  unfold push bindings
  simp only [Array.getElem?_push]
  by_cases h : f = s.frames.size <;> simp [h]

theorem parent?_push (b : Bindings Value) (parent f : Nat) :
    (s.push b parent).2.parent? f = if f = s.frames.size then some parent else s.parent? f := by
  unfold push parent?
  simp only [Array.getElem?_push]
  by_cases h : f = s.frames.size <;> simp [h]

@[simp] theorem closures_push (b : Bindings Value) (parent : Nat) :
    (s.push b parent).2.closures = s.closures := rfl

@[simp] theorem classes_push (b : Bindings Value) (parent : Nat) :
    (s.push b parent).2.classes = s.classes := rfl

@[simp] theorem instances_push (b : Bindings Value) (parent : Nat) :
    (s.push b parent).2.instances = s.instances := rfl

@[simp] theorem natives_push (b : Bindings Value) (parent : Nat) :
    (s.push b parent).2.natives = s.natives := rfl

/-! ## Climbing -/

theorem ancestor_eq_ok {f d found : Nat} (h : s.climb d f = some found) :
    s.ancestor f (d : Int) = .ok found := by
  unfold ancestor
  simp [h]

/-- Climbing does not depend on anything but parents. -/
theorem climb_congr {s s' : Store} (h : ∀ f, s'.parent? f = s.parent? f) (d f : Nat) :
    s'.climb d f = s.climb d f := by
  induction d generalizing f with
  | zero => rfl
  | succ d ih =>
    unfold climb
    rw [h f]
    cases s.parent? f with
    | none => rfl
    | some parent => exact ih parent

/-- Where parents are older, climbing goes along the chain. -/
theorem climb_eq_chainOf {s : Store} (holder : ∀ f parent, s.parent? f = some parent → parent < f) :
    ∀ {d limit f : Nat}, f < limit → s.climb d f = (s.chainOf limit f)[d]?
  | _, 0, _, hlimit => by cases hlimit
  | 0, limit + 1, f, _ => by
    rw [Store.chainOf, Store.climb]
    split <;> rfl
  | d + 1, limit + 1, f, hlimit => by
    rw [Store.chainOf, Store.climb]
    cases hparent : s.parent? f with
    | none => rfl
    | some parent =>
      have hlt := holder f parent hparent
      rw [Option.bind_some, List.getElem?_cons_succ]
      exact climb_eq_chainOf holder (by omega)

/-! ## Methods -/

/-- Looking for a method does not depend on anything but classes. -/
theorem findMethodIn_congr {s s' : Store} (h : s'.classes = s.classes) (name : String) :
    ∀ limit ref : Nat, s'.findMethodIn limit ref name = s.findMethodIn limit ref name
  | 0, _ => rfl
  | limit + 1, ref => by
    unfold findMethodIn
    rw [h]
    simp only [findMethodIn_congr h name limit]

theorem method?_addInstance (classRef ref : Nat) (name : String) :
    (s.addInstance classRef).2.method? ref name = s.method? ref name := by
  have hclasses : (s.addInstance classRef).2.classes = s.classes := rfl
  unfold method? findMethod?
  rw [findMethodIn_congr hclasses]
  rfl

end Store

end LoxLang
