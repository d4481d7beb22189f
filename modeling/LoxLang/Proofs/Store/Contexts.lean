import LoxLang.Context
import LoxLang.Proofs.Bindings
import LoxLang.Proofs.Store.Frames

/-!
# Contexts and their scopes

What the operations on contexts do to scopes and parents.  A context keeps its scope and its parent;
only what a scope binds is changed in place.

* `ContextStep`, `Contexts.perform`, `Contexts.after` — what may be asked of a context.
* `Contexts.Grown`, `Contexts.Tree` — contexts that have grown from one root.
* `Contexts.OwnTree` — contexts that were made with scopes of their own.

Principal results: `Contexts.Grown.sound`, `Contexts.OwnTree.alone`.
-/

namespace LoxLang

/-- What may be asked of a context: to hold a new one, to bind a name, and to change the value of a
name that it binds, or that the context some links up binds. -/
inductive ContextStep where
  | push (context : Nat) (given : Option Nat)
  | define (context : Nat) (name : String) (value : Value)
  | set (context : Nat) (name : String) (value : Value)
  | setAt (context : Nat) (distance : Int) (name : String) (value : Value)

/-- The context that is asked. -/
def ContextStep.context : ContextStep → Nat
  | .push context _ => context
  | .define context _ _ => context
  | .set context _ _ => context
  | .setAt context _ _ _ => context

namespace Contexts

def perform (t : Contexts) : ContextStep → Except FrameError Contexts
  | .push context given => .ok (t.push context given).2
  | .define context name value => .ok (t.define context name value)
  | .set context name value => t.set context name value
  | .setAt context distance name value => t.setAt context distance name value

/-- The contexts that one goes on with: after a step that fails, they are those before. -/
def after (t : Contexts) (step : ContextStep) : Contexts :=
  match t.perform step with
  | .ok t₁ => t₁
  | .error _ => t

/-- Contexts that have grown from one root, by steps that were asked of contexts of the tree and
allowed by `Allowed`.  Scopes to be handed over are made in between. -/
inductive Grown (Allowed : Contexts → ContextStep → Prop) : Contexts → Prop where
  | root (bindings : Bindings Value) : Grown Allowed (root bindings)
  | scope {t : Contexts} (bindings : Bindings Value) :
      Grown Allowed t → Grown Allowed (t.addScope bindings).2
  | step {t : Contexts} (step : ContextStep) : Grown Allowed t → step.context < t.contexts.size →
      Allowed t step → Grown Allowed (t.after step)

/-- Contexts that have grown from one root by whatever steps. -/
def Tree : Contexts → Prop := Grown fun _ _ => True

/-- The scope that a new context keeps, if it is given one to keep, is that of no context yet. -/
def GivenOwn (t : Contexts) : ContextStep → Prop
  | .push _ given => ∀ ref ∈ given, (t.scope ref).isEmpty = false → ∀ g, t.scopeOf? g ≠ some ref
  | _ => True

/-- Contexts that have grown from one root, where each was made with a scope of its own. -/
def OwnTree : Contexts → Prop := Grown GivenOwn

theorem OwnTree.tree {t : Contexts} (h : t.OwnTree) : t.Tree := by
  induction h with
  | root b => exact .root b
  | scope b _ ih => exact .scope b ih
  | step step _ hlt _ ih => exact .step step ih hlt trivial

/-! ## Reading -/

section

variable (t : Contexts)

@[simp] theorem size_frames : t.frames.size = t.contexts.size := by simp [frames]

theorem getElem?_frames (g : Nat) :
    t.frames[g]? = t.contexts[g]?.map fun c => ⟨t.scope c.scope, c.parent⟩ := by
  simp [frames]

theorem bindings_eq (g : Nat) : t.bindings g = ((t.scopeOf? g).map t.scope).getD .empty := by
  unfold bindings view Store.bindings scopeOf?
  simp only [inside, getElem?_frames]
  cases t.contexts[g]? <;> rfl

theorem bindings_of_scope {g ref : Nat} (h : t.scopeOf? g = some ref) :
    t.bindings g = t.scope ref := by
  rw [bindings_eq, h]
  rfl

theorem parent?_eq (s : Store) (g : Nat) :
    (t.inside s).parent? g = (t.contexts[g]?).bind Context.parent := by
  unfold Store.parent? inside
  simp only [getElem?_frames]
  cases t.contexts[g]? <;> rfl

theorem lt_size_of_scopeOf? {g ref : Nat} (h : t.scopeOf? g = some ref) : g < t.contexts.size := by
  obtain ⟨c, hc, _⟩ := Option.map_eq_some_iff.1 h
  exact (Array.getElem?_eq_some_iff.1 hc).1

theorem exists_scopeOf? {g : Nat} (h : g < t.contexts.size) : ∃ ref, t.scopeOf? g = some ref :=
  ⟨t.contexts[g].scope, by simp [scopeOf?, h]⟩

theorem exists_scope_of_mem_names {g : Nat} {k : String} (h : k ∈ (t.bindings g).names) :
    ∃ ref, t.scopeOf? g = some ref ∧ k ∈ (t.scope ref).names := by
  rw [bindings_eq] at h
  cases href : t.scopeOf? g with
  | none =>
    rw [href] at h
    cases h
  | some ref =>
    rw [href] at h
    exact ⟨ref, rfl, h⟩

end

/-! ## Changes -/

section

variable {t t₁ : Contexts} {c g ref : Nat} {k : String} {v : Value}

theorem define_of_scope (h : t.scopeOf? c = some ref) :
    t.define c k v = { t with scopes := t.scopes.modify ref fun b => b.put k v } := by
  unfold define
  rw [h]

@[simp] theorem contexts_define : (t.define c k v).contexts = t.contexts := by
  unfold define
  split <;> rfl

@[simp] theorem size_scopes_define : (t.define c k v).scopes.size = t.scopes.size := by
  unfold define
  split
  · simp
  · rfl

@[simp] theorem scopeOf?_define : (t.define c k v).scopeOf? g = t.scopeOf? g := by
  unfold scopeOf?
  rw [contexts_define]

theorem scope_define (h : t.scopeOf? c = some ref) (hlt : ref < t.scopes.size) (r : Nat) :
    (t.define c k v).scope r = if ref = r then (t.scope ref).put k v else t.scope r := by
  rw [define_of_scope h]
  unfold scope
  simp only [Array.getElem?_modify]
  split
  · rename_i heq
    subst heq
    simp [hlt]
  · rfl

theorem scope_addScope (b : Bindings Value) (r : Nat) :
    (t.addScope b).2.scope r = if r = t.scopes.size then b else t.scope r := by
  unfold addScope scope
  simp only [Array.getElem?_push]
  split <;> rfl

theorem scopeOf?_add (r parent g : Nat) :
    (t.add r parent).2.scopeOf? g = if g = t.contexts.size then some r else t.scopeOf? g := by
  unfold add scopeOf?
  simp only [Array.getElem?_push]
  split <;> rfl

/-- **What a new context gets**: the scope that is handed over, or one that is new and empty. -/
theorem push_cases (t : Contexts) (parent : Nat) (given : Option Nat) :
    (∃ ref, given = some ref ∧ (t.scope ref).isEmpty = false ∧
      t.push parent given = t.add ref parent) ∨
    (∀ ref, given = some ref → (t.scope ref).isEmpty = true) ∧
      t.push parent given = (t.addScope .empty).2.add t.scopes.size parent := by
  unfold push
  cases hgiven : given.filter fun ref => !(t.scope ref).isEmpty with
  | none =>
    refine .inr ⟨fun ref hsome => ?_, rfl⟩
    simpa using Option.filter_eq_none_iff.1 hgiven ref hsome
  | some ref =>
    obtain ⟨hsome, hempty⟩ := Option.filter_eq_some_iff.1 hgiven
    exact .inl ⟨ref, hsome, by simpa using hempty, rfl⟩

/-- Only scopes that are there bind anything. -/
theorem lt_size_of_nonempty (h : (t.scope ref).isEmpty = false) : ref < t.scopes.size := by
  refine Nat.lt_of_not_le fun hle => ?_
  unfold scope at h
  rw [Array.getElem?_eq_none hle] at h
  cases h

/-- Assignment is binding a name again, in the scope of the context that the links lead to. -/
theorem setAt_eq (c : Nat) (d : Int) : t.setAt c d k v =
    match t.view.climb d.toNat c with
    | some f => t.set f k v
    | none => .error .offChain := by
  unfold setAt Store.ancestor
  cases t.view.climb d.toNat c <;> rfl

theorem set_of_mem (h : k ∈ (t.bindings c).names) : t.set c k v = .ok (t.define c k v) :=
  if_pos (Bindings.contains_eq_true.2 h)

theorem set_of_not_mem (h : k ∉ (t.bindings c).names) : t.set c k v = .error (.notDeclared k) :=
  if_neg fun hhas => h (Bindings.contains_eq_true.1 hhas)

theorem set_eq_ok (h : t.set c k v = .ok t₁) : t₁ = t.define c k v := by
  unfold set at h
  split at h
  · exact (Except.ok.inj h).symm
  · cases h

theorem after_of_ok {step : ContextStep} (h : t.perform step = .ok t₁) : t.after step = t₁ := by
  unfold after
  rw [h]

theorem after_of_error {step : ContextStep} {e : FrameError} (h : t.perform step = .error e) :
    t.after step = t := by
  unfold after
  rw [h]

/-- **What a step does**: it makes a context, it binds a name, or it does nothing. -/
theorem after_cases (t : Contexts) (step : ContextStep) :
    (∃ given, step = .push step.context given ∧ t.after step = (t.push step.context given).2) ∨
      (∃ c k v, t.after step = t.define c k v) ∨ t.after step = t := by
  have hset : ∀ {c k v step}, t.perform step = t.set c k v →
      (∃ c k v, t.after step = t.define c k v) ∨ t.after step = t := by
    intro c k v step heq
    cases hset : t.set c k v with
    | ok t₁ => exact .inl ⟨c, k, v, (after_of_ok (heq.trans hset)).trans (set_eq_ok hset)⟩
    | error e => exact .inr (after_of_error (heq.trans hset))
  cases step with
  | push c given => exact .inl ⟨given, rfl, rfl⟩
  | define c k v => exact .inr (.inl ⟨c, k, v, rfl⟩)
  | set c k v => exact .inr (hset rfl)
  | setAt c d k v =>
    cases hclimb : t.view.climb d.toNat c with
    | none =>
      refine .inr (.inr (after_of_error (e := .offChain) ?_))
      show t.setAt c d k v = _
      rw [setAt_eq, hclimb]
    | some f =>
      refine .inr (hset (c := f) (k := k) (v := v) ?_)
      show t.setAt c d k v = _
      rw [setAt_eq, hclimb]

end

/-! ## What every step keeps -/

/-- Contexts have scopes, and parents are older than the contexts inside them. -/
structure Sound (t : Contexts) : Prop where
  scopes : ∀ g ref, t.scopeOf? g = some ref → ref < t.scopes.size
  older : ∀ g parent, t.view.parent? g = some parent → parent < g

section

variable {t t₁ : Contexts} {c g ref : Nat} {k : String} {v : Value}

theorem view_parent?_congr (h : t₁.contexts = t.contexts) (g : Nat) :
    t₁.view.parent? g = t.view.parent? g := by
  unfold view
  rw [parent?_eq, parent?_eq, h]

/-- Scopes may be added and changed. -/
theorem Sound.congr (h : t.Sound) (hcontexts : t₁.contexts = t.contexts)
    (hsize : t.scopes.size ≤ t₁.scopes.size) : t₁.Sound where
  scopes g ref href := by
    unfold scopeOf? at href
    rw [hcontexts] at href
    exact Nat.lt_of_lt_of_le (h.scopes g ref href) hsize
  older g parent hparent := by
    rw [view_parent?_congr hcontexts] at hparent
    exact h.older g parent hparent

theorem Sound.addScope (h : t.Sound) (b : Bindings Value) : (t.addScope b).2.Sound :=
  h.congr rfl (by simp [Contexts.addScope])

theorem Sound.add (h : t.Sound) (href : ref < t.scopes.size) (hc : c < t.contexts.size) :
    (t.add ref c).2.Sound where
  scopes g r hr := by
    rw [scopeOf?_add] at hr
    split at hr
    · cases hr
      exact href
    · exact h.scopes g r hr
  older g parent hparent := by
    unfold view at hparent
    rw [parent?_eq] at hparent
    simp only [Contexts.add, Array.getElem?_push] at hparent
    split at hparent
    · rename_i hnew
      cases hparent
      rw [hnew]
      exact hc
    · refine h.older g parent ?_
      unfold view
      rwa [parent?_eq]

theorem Sound.push (h : t.Sound) (hc : c < t.contexts.size) (given : Option Nat) :
    (t.push c given).2.Sound := by
  obtain ⟨ref, _, hempty, hpush⟩ | ⟨_, hpush⟩ := t.push_cases c given
  · rw [hpush]
    exact h.add (lt_size_of_nonempty hempty) hc
  · rw [hpush]
    exact (h.addScope .empty).add (by simp [Contexts.addScope]) hc

/-- **Whatever has grown is sound.** -/
theorem Grown.sound {Allowed : Contexts → ContextStep → Prop} (h : t.Grown Allowed) : t.Sound := by
  induction h with
  | root b =>
    have hcontexts : ∀ (g : Nat) (c : Context), (Contexts.root b).contexts[g]? = some c → c = ⟨0, none⟩ := by
      intro g c hc
      cases g with
      | zero => exact (Option.some.inj hc).symm
      | succ g => simp [Contexts.root] at hc
    refine ⟨fun g ref href => ?_, fun g parent hparent => ?_⟩
    · obtain ⟨c, hc, rfl⟩ := Option.map_eq_some_iff.1 href
      rw [hcontexts g c hc]
      exact Nat.zero_lt_one
    · unfold view at hparent
      rw [parent?_eq] at hparent
      obtain ⟨c, hc, hp⟩ := Option.bind_eq_some_iff.1 hparent
      rw [hcontexts g c hc] at hp
      cases hp
  | scope b _ ih => exact ih.addScope b
  | @step t step _ hlt _ ih =>
    obtain ⟨given, _, hafter⟩ | ⟨c, k, v, hafter⟩ | hafter := t.after_cases step
    · rw [hafter]
      exact ih.push hlt given
    · rw [hafter]
      exact ih.congr contexts_define (by simp)
    · rwa [hafter]

/-- Each scope belongs to one context at most. -/
def Alone (t : Contexts) : Prop :=
  ∀ g g' ref, t.scopeOf? g = some ref → t.scopeOf? g' = some ref → g = g'

theorem Alone.add (h : t.Alone) (href : ∀ g, t.scopeOf? g ≠ some ref) : (t.add ref c).2.Alone := by
  intro g g' r hg hg'
  rw [scopeOf?_add] at hg hg'
  split at hg <;> split at hg'
  · rename_i hnew hnew'
    rw [hnew, hnew']
  · cases hg
    exact absurd hg' (href g')
  · cases hg'
    exact absurd hg (href g)
  · exact h g g' r hg hg'

/-- **Contexts that were made with scopes of their own never share one.** -/
theorem OwnTree.alone (h : t.OwnTree) : t.Alone := by
  induction h with
  | root b =>
    intro g g' ref hg hg'
    have hlt := lt_size_of_scopeOf? _ hg
    have hlt' := lt_size_of_scopeOf? _ hg'
    simp only [root, Array.size_singleton] at hlt hlt'
    omega
  | scope b _ ih => exact ih
  | @step t step hgrown _ hown ih =>
    obtain ⟨given, hstep, hafter⟩ | ⟨c, k, v, hafter⟩ | hafter := t.after_cases step
    · rw [hstep] at hown
      rw [hafter]
      obtain ⟨ref, rfl, hempty, hpush⟩ | ⟨_, hpush⟩ := t.push_cases step.context given
      · rw [hpush]
        exact ih.add (hown ref rfl hempty)
      · rw [hpush]
        refine Alone.add (t := (t.addScope .empty).2) ih fun g hg => ?_
        exact Nat.lt_irrefl _ (hgrown.sound.scopes g _ hg)
    · rw [hafter]
      intro g g' ref hg hg'
      rw [scopeOf?_define] at hg hg'
      exact ih g g' ref hg hg'
    · rwa [hafter]

end

end Contexts

end LoxLang
