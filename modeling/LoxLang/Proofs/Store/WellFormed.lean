import Mathlib.Data.List.Forall2
import LoxLang.Proofs.Store.Changes

/-!
# Well-formed stores

Frames, classes and instances refer to each other in cycles, but parents and bases do not: a frame is
made inside one that exists, and a class is declared on top of one that exists.  So whoever follows
parents or bases comes to an end.

* `Store.WellFormed` — what refers to what.
* `Store.Finds` — what is found along chains of parents and of bases.

Principal results: `Store.WellFormed.of`, `Store.Finds.of`.
-/

namespace LoxLang

namespace Store

variable {N : Node → Prop} {s : Store}

/-- A store in which nothing dangles.  The classes are those of declarations that satisfy `N`. -/
structure WellFormed (N : Node → Prop) (s : Store) : Prop where
  global : globalFrame < s.frames.size
  globalParent : s.parent? globalFrame = none
  /-- Every other frame was made inside one that is older. -/
  parents : ∀ f, f < s.frames.size → f ≠ globalFrame →
    ∃ parent, s.parent? f = some parent ∧ parent < f
  /-- Every class was declared after its base. -/
  bases : ∀ (i : Nat) info base, s.classes[i]? = some info → info.base = some base → base < i
  bindings : ∀ f name v, (s.bindings f).find? name = some v → s.Holds v
  fields : ∀ (i : Nat) inst name v, s.instances[i]? = some inst →
    inst.fields.find? name = some v → s.Holds v
  closures : ∀ (i : Nat) c, s.closures[i]? = some c → c.frame < s.frames.size
  methods : ∀ (i : Nat) info name ref, s.classes[i]? = some info →
    info.methods.find? name = some ref → ref < s.closures.size
  instances : ∀ (i : Nat) inst, s.instances[i]? = some inst → inst.classRef < s.classes.size
  receivers : ∀ f v, (s.bindings f).find? "this" = some v →
    ∃ inst, v = .object inst ∧ inst < s.instances.size
  /-- Every class was made by a declaration. -/
  classes : ∀ ref, ref < s.classes.size → ∃ methods, s.Declares N ref methods

theorem WellFormed.of (h : s.Intact) (hfounded : s.Founded N) : s.WellFormed N where
  global := h.root
  globalParent := h.rootParent
  parents f hf hne := by
    cases hparent : s.parent? f with
    | none => exact absurd (hfounded.rooted f hf hparent) hne
    | some parent => exact ⟨parent, rfl, h.older f parent hparent⟩
  bases := h.bases
  bindings := h.values
  fields := h.fields
  closures := h.closures
  methods := h.methods
  instances := hfounded.instances
  receivers f v hthis := by
    obtain ⟨inst, _, rfl⟩ := h.receiver_of_this hthis
    exact ⟨inst, rfl, h.values f "this" _ hthis⟩
  classes := hfounded.classes

/-! ## Chains of parents -/

/-- The frames from a frame up its chain of parents, which ends in the global frame. -/
inductive Ancestry (s : Store) : Nat → List Nat → Prop
  | global : s.parent? globalFrame = none → Ancestry s globalFrame [globalFrame]
  | step {f parent : Nat} {frames : List Nat} :
      s.parent? f = some parent → Ancestry s parent frames → Ancestry s f (f :: frames)

namespace WellFormed

theorem chainOf (h : s.WellFormed N) : ∀ {limit f : Nat}, f < limit → f < s.frames.size →
    s.Ancestry f (s.chainOf limit f)
  | 0, _, hlimit, _ => by cases hlimit
  | limit + 1, f, hlimit, hf => by
    rw [Store.chainOf]
    by_cases hglobal : f = globalFrame
    · subst hglobal
      rw [h.globalParent]
      exact .global h.globalParent
    · obtain ⟨parent, hparent, holder⟩ := h.parents f hf hglobal
      rw [hparent]
      exact .step hparent (h.chainOf (by omega) (by omega))

end WellFormed

/-! ## Chains of bases -/

/-- The classes of a chain of bases have declarations. -/
theorem Founded.lineage_declares (h : s.Founded N) {ref : Nat} {refs : List Nat}
    (hrefs : s.Lineage ref refs) : ∃ declared, List.Forall₂ (s.Declares N) refs declared := by
  induction hrefs with
  | last hinfo _ =>
    obtain ⟨methods, hdecl⟩ := h.classes _ (Array.getElem?_eq_some_iff.1 hinfo).1
    exact ⟨[methods], .cons hdecl .nil⟩
  | step hinfo _ _ ih =>
    obtain ⟨methods, hdecl⟩ := h.classes _ (Array.getElem?_eq_some_iff.1 hinfo).1
    obtain ⟨declared, hrest⟩ := ih
    exact ⟨methods :: declared, .cons hdecl hrest⟩

/-- What is found in the tables of classes is what is found in their declarations. -/
theorem findSome?_declared {refs : List Nat} {declared : List (List Function)} (name : String)
    (h : List.Forall₂ (s.Declares N) refs declared) :
    ((refs.findSome? (s.declares? name)).bind fun method => s.closures[method]?).map Closure.decl =
      declared.findSome? (lastNamed? name) := by
  induction h with
  | nil => rfl
  | cons hdecl _ ih =>
    obtain ⟨info, _, _, _, hinfo, _, hmade⟩ := hdecl
    have hname := hmade.methods name
    rw [List.findSome?_cons, List.findSome?_cons, declares?, hinfo, Option.bind_some]
    generalize info.methods.find? name = method? at hname
    generalize lastNamed? name _ = decl? at hname
    cases hname with
    | none => exact ih
    | some hc =>
      obtain ⟨c, hc, rfl⟩ := hc
      rw [Option.bind_some, hc]
      rfl

/-! ## Lookups -/

/-- What is found along chains of parents and of bases. -/
structure Finds (N : Node → Prop) (s : Store) : Prop where
  /-- The chain of a frame has all its parents, up to the global frame. -/
  chain : ∀ f, f < s.frames.size → s.Ancestry f (s.chain f)
  /-- An ancestor is found within the chain, and none beyond. -/
  ancestor : ∀ f (d : Int), f < s.frames.size →
    s.ancestor f d = match (s.chain f)[d.toNat]? with
      | some found => .ok found
      | none => .error .offChain
  /-- The bases of a class form a finite chain.  A method is the last declaration of its name in the
  nearest class that declares it, and a class takes the arguments of its nearest initializer. -/
  methods : ∀ ref, ref < s.classes.size → ∃ refs declared, s.Lineage ref refs ∧
    List.Forall₂ (s.Declares N) refs declared ∧
    (∀ name, (s.method? ref name).map Closure.decl = declared.findSome? (lastNamed? name)) ∧
    s.arity? (.classValue ref) =
      some ((declared.findSome? (lastNamed? initializerName)).elim 0 (·.params.length))

/-- **In a well-formed store every chain comes to its end.** -/
theorem Finds.of (h : s.Intact) (hfounded : s.Founded N) : s.Finds N where
  chain f hf := (WellFormed.of h hfounded).chainOf (Nat.lt_succ_self f) hf
  ancestor f d hf := by
    rw [Store.ancestor, climb_eq_chainOf h.older (Nat.lt_succ_self f)]
    rfl
  methods ref href := by
    obtain ⟨refs, hrefs⟩ := h.lineage ref href
    obtain ⟨declared, hdeclared⟩ := hfounded.lineage_declares hrefs
    have hmethod : ∀ name,
        (s.method? ref name).map Closure.decl = declared.findSome? (lastNamed? name) := by
      intro name
      rw [method?, h.findMethod?_eq hrefs, findSome?_declared name hdeclared]
    refine ⟨refs, declared, hrefs, hdeclared, hmethod, ?_⟩
    rw [arity?, classArity, ← hmethod initializerName]
    cases s.method? ref initializerName <;> rfl

end Store

end LoxLang
