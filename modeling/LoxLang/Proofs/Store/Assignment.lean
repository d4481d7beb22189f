import LoxLang.Proofs.Store.Changes
import LoxLang.Proofs.Store.Contexts

/-!
# Assignment through a distance

All contexts below a context share it.  A variable is changed in the context that some links lead up
to, and that is in the scope of this context: one binding changes there, and it changes for everybody
whose links lead to a context with this scope.  Where the links end too early, or the context has no
such name, nothing changes at all.

Contexts that were made with scopes of their own have one context for each scope, so nobody sees the
change but those whose links lead to the same context.  The frames of programs are such contexts.

* `Contexts.above?` — the context that some links lead up to, read off the chain of a context.
* `Contexts.Rebinds` — one binding of one scope changes.

Principal results: `Store.Evolves.contexts`, `assignment_changes_one_binding_or_nothing`.
-/

namespace LoxLang

namespace Contexts

/-- The context that `distance` links lead up to, if the chain is long enough.  A distance that is
not positive means the context itself. -/
def above? (t : Contexts) (context : Nat) (distance : Int) : Option Nat :=
  if distance ≤ 0 then some context else (t.view.chain context)[distance.toNat]?

/-- The scope of the context that some links lead up to. -/
def scopeAbove? (t : Contexts) (context : Nat) (distance : Int) : Option Nat :=
  (t.above? context distance).bind t.scopeOf?

/-- One scope has another value for a name that it binds, and nothing else is different. -/
structure Rebinds (t t₁ : Contexts) (ref : Nat) (name : String) (value : Value) : Prop where
  contexts : t₁.contexts = t.contexts
  size : t₁.scopes.size = t.scopes.size
  others : ∀ r, r ≠ ref → t₁.scope r = t.scope r
  values : ∀ x, (t₁.scope ref).find? x = if x = name then some value else (t.scope ref).find? x
  /-- The order of the names stays as well. -/
  names : (t₁.scope ref).names = (t.scope ref).names

section

variable {t t₁ : Contexts} {f ref c : Nat} {d : Int} {k : String} {v : Value}

theorem rebinds_define (hlt : ref < t.scopes.size) (hf : t.scopeOf? f = some ref)
    (hk : k ∈ (t.scope ref).names) : t.Rebinds (t.define f k v) ref k v := by
  have hscope := scope_define (k := k) (v := v) hf hlt
  refine ⟨contexts_define, size_scopes_define, fun r hr => ?_, fun x => ?_, ?_⟩
  · rw [hscope, if_neg hr.symm]
  · rw [hscope, if_pos rfl, Bindings.find?_put]
    simp only [eq_comm]
  · rw [hscope, if_pos rfl, Bindings.names_put_of_mem hk]

/-- Climbing leads to what stands on the chain. -/
theorem Sound.above?_eq (h : t.Sound) (c : Nat) (d : Int) :
    t.above? c d = t.view.climb d.toNat c := by
  unfold above?
  split
  · rw [show d.toNat = 0 by omega]
    rfl
  · exact (Store.climb_eq_chainOf h.older (Nat.lt_succ_self c)).symm

/-- **What an assignment comes to**, by what its links lead to. -/
theorem Sound.setAt_cases (h : t.Sound) (c : Nat) (d : Int) (k : String) (v : Value) :
    (∃ f ref, t.above? c d = some f ∧ t.scopeOf? f = some ref ∧ k ∈ (t.scope ref).names ∧
      t.setAt c d k v = .ok (t.define f k v)) ∨
    (∃ f, t.above? c d = some f ∧ k ∉ (t.bindings f).names ∧
      t.setAt c d k v = .error (.notDeclared k)) ∨
    (t.above? c d = none ∧ t.setAt c d k v = .error .offChain) := by
  rw [setAt_eq, ← h.above?_eq]
  cases t.above? c d with
  | none => exact .inr (.inr ⟨rfl, rfl⟩)
  | some f =>
    by_cases hmem : k ∈ (t.bindings f).names
    · obtain ⟨ref, href, hk⟩ := t.exists_scope_of_mem_names hmem
      exact .inl ⟨f, ref, rfl, href, hk, set_of_mem hmem⟩
    · exact .inr (.inl ⟨f, rfl, hmem, set_of_not_mem hmem⟩)

theorem Sound.setAt_isOk_iff (h : t.Sound) : (∃ t₁, t.setAt c d k v = .ok t₁) ↔
    ∃ f, t.above? c d = some f ∧ k ∈ (t.bindings f).names := by
  obtain ⟨f, ref, hf, href, hk, hset⟩ | ⟨f, hf, hmem, hset⟩ | ⟨hnone, hset⟩ :=
    h.setAt_cases c d k v
  · simp [hset, hf, t.bindings_of_scope href, hk]
  · simp [hset, hf, hmem]
  · simp [hset, hnone]

theorem Sound.setAt_ok (h : t.Sound) (hset : t.setAt c d k v = .ok t₁) :
    ∃ f ref, t.above? c d = some f ∧ t.scopeOf? f = some ref ∧ k ∈ (t.scope ref).names ∧
      t₁ = t.define f k v := by
  obtain ⟨f, ref, hf, href, hk, hset'⟩ | ⟨_, _, _, hset'⟩ | ⟨_, hset'⟩ := h.setAt_cases c d k v
  all_goals
    rw [hset] at hset'
    cases hset'
  exact ⟨f, ref, hf, href, hk, rfl⟩

theorem Sound.setAt_error (h : t.Sound) {e : FrameError} (hset : t.setAt c d k v = .error e) :
    e = if (t.above? c d).isSome then .notDeclared k else .offChain := by
  obtain ⟨_, _, _, _, _, hset'⟩ | ⟨f, hf, _, hset'⟩ | ⟨hnone, hset'⟩ := h.setAt_cases c d k v
  all_goals
    rw [hset] at hset'
    cases hset'
  · simp [hf]
  · simp [hnone]

theorem Sound.getAt_eq (h : t.Sound) : t.getAt c d k =
    match t.above? c d with
    | some f => t.view.get f k
    | none => .error .offChain := by
  rw [h.above?_eq]
  unfold getAt Store.getAt Store.ancestor
  cases t.view.climb d.toNat c <;> rfl

theorem above?_congr (h : t₁.contexts = t.contexts) (hs : t.Sound) (hs₁ : t₁.Sound) (c : Nat)
    (d : Int) : t₁.above? c d = t.above? c d := by
  rw [hs.above?_eq, hs₁.above?_eq]
  exact Store.climb_congr (view_parent?_congr h) d.toNat c

/-- A change of one binding is seen through all links that lead to its scope, and through no
others. -/
theorem Rebinds.getAt (h : t.Rebinds t₁ ref k v) (hs : t.Sound) (c : Nat) (d : Int) (x : String) :
    t₁.getAt c d x =
      if t.scopeAbove? c d = some ref ∧ x = k then .ok v else t.getAt c d x := by
  have hs₁ : t₁.Sound := hs.congr h.contexts (Nat.le_of_eq h.size.symm)
  have hscopes : ∀ g, t₁.scopeOf? g = t.scopeOf? g := fun g => by
    unfold scopeOf?
    rw [h.contexts]
  rw [hs.getAt_eq, hs₁.getAt_eq, above?_congr h.contexts hs hs₁, scopeAbove?]
  cases t.above? c d with
  | none => simp
  | some g =>
    have hbindings : ∀ u : Contexts, u.view.bindings g = u.bindings g := fun _ => rfl
    simp only [Store.get, hbindings, bindings_eq, hscopes, Option.bind_some]
    cases t.scopeOf? g with
    | none => simp
    | some r =>
      simp only [Option.map_some, Option.getD_some, Option.some.injEq]
      by_cases hr : r = ref
      · subst hr
        rw [h.values]
        by_cases hx : x = k
        · simp [hx]
        · simp [hx]
      · rw [h.others r hr]
        simp [hr]

/-- Where no scope is shared, links that lead to the scope of a context lead to this context. -/
theorem Alone.scopeAbove?_eq_some_iff (h : t.Alone) (hf : t.scopeOf? f = some ref) (c : Nat)
    (d : Int) : t.scopeAbove? c d = some ref ↔ t.above? c d = some f := by
  unfold scopeAbove?
  constructor
  · intro hsome
    obtain ⟨g, hg, hscope⟩ := Option.bind_eq_some_iff.1 hsome
    rw [hg, h g f ref hscope hf]
  · intro habove
    rw [habove]
    exact hf

end

/-! ## Contexts as frames -/

section

variable {t : Contexts} {f c : Nat} {k : String} {v : Value}

theorem frames_eq_of_bindings {t : Contexts} {frames : Array Frame}
    (hsize : frames.size = t.contexts.size)
    (h : ∀ g, g < t.contexts.size → frames[g]? = some ⟨t.bindings g, t.view.parent? g⟩) :
    t.frames = frames := by
  refine Array.ext_getElem? fun g => ?_
  by_cases hg : g < t.contexts.size
  · rw [h g hg, bindings_eq, view, parent?_eq, scopeOf?, getElem?_frames,
      Array.getElem?_eq_getElem hg]
    rfl
  · have hle := Nat.le_of_not_lt hg
    rw [Array.getElem?_eq_none (by simpa using hle), Array.getElem?_eq_none (by omega)]

/-- Binding a name in a context of its own scope is binding it in the frame. -/
theorem frames_define (hs : t.Sound) (ha : t.Alone) :
    (t.define f k v).frames = (t.view.define f k v).frames := by
  refine frames_eq_of_bindings (by simp [view, inside]) fun g hg => ?_
  rw [contexts_define] at hg
  obtain ⟨r, hr⟩ := t.exists_scopeOf? hg
  have hframe : t.frames[g]? = some ⟨t.scope r, t.view.parent? g⟩ := by
    obtain ⟨context, hcontext, rfl⟩ := Option.map_eq_some_iff.1 hr
    simp [getElem?_frames, view, parent?_eq, hcontext]
  rw [view_parent?_congr contexts_define, bindings_of_scope _ ((scopeOf?_define).trans hr)]
  simp only [Store.define, Array.getElem?_modify, view, inside] at hframe ⊢
  by_cases hfg : f = g
  · subst hfg
    rw [if_pos rfl, hframe, scope_define hr (hs.scopes f r hr), if_pos rfl]
    rfl
  · rw [if_neg hfg, hframe]
    cases hf : t.scopeOf? f with
    | none =>
      have hsame : t.define f k v = t := by
        unfold define
        rw [hf]
      rw [hsame]
    | some ref =>
      have hne : ref ≠ r := fun heq => hfg (ha f g r (heq ▸ hf) hr)
      rw [scope_define hf (hs.scopes f ref hf), if_neg hne]

/-- Contexts with scopes of their own behave like the frames of a store. -/
theorem setAt_inside (hs : t.Sound) (ha : t.Alone) (s : Store) (c : Nat) (d : Int) (k : String)
    (v : Value) :
    (t.inside s).setAt c d k v = (t.setAt c d k v).map fun t₁ => t₁.inside s := by
  have hclimb : (t.inside s).climb d.toNat c = t.view.climb d.toNat c :=
    Store.climb_congr (fun g => by rw [view, parent?_eq, parent?_eq]) d.toNat c
  rw [setAt_eq, Store.setAt, Store.ancestor, hclimb]
  cases t.view.climb d.toNat c with
  | none => rfl
  | some f =>
    have hhas : (t.inside s).has f k = t.view.has f k := rfl
    simp only [Store.set, set, hhas]
    split
    · refine congrArg Except.ok ?_
      show _ = ({ s with frames := (t.define f k v).frames } : Store)
      rw [frames_define hs ha]
      rfl
    · rfl

theorem frames_add (t : Contexts) (ref parent : Nat) :
    (t.add ref parent).2.frames = t.frames.push ⟨t.scope ref, some parent⟩ := by
  simp [add, Contexts.frames, scope]

theorem Sound.frames_addScope (h : t.Sound) (b : Bindings Value) :
    (t.addScope b).2.frames = t.frames := by
  refine Array.ext_getElem? fun g => ?_
  rw [getElem?_frames, getElem?_frames]
  refine Option.map_congr fun context hcontext => ?_
  have hscope : t.scopeOf? g = some context.scope := congrArg (Option.map Context.scope) hcontext
  have hlt := h.scopes g context.scope hscope
  rw [scope_addScope, if_neg (Nat.ne_of_lt hlt)]

theorem inside_of_frames {s : Store} (h : t.frames = s.frames) : t.inside s = s := by
  unfold inside
  rw [h]

end

end Contexts

/-! ## Frames of programs -/

namespace Contexts

theorem OwnTree.define {t : Contexts} (h : t.OwnTree) (c : Nat) (k : String) (v : Value) :
    (t.define c k v).OwnTree := by
  by_cases hc : c < t.contexts.size
  · exact .step (.define c k v) h hc trivial
  · have hnone : t.scopeOf? c = none := by simp [scopeOf?, Nat.le_of_not_lt hc]
    unfold Contexts.define
    rwa [hnone]

/-- A frame inside another one is a context that is given its bindings in a scope of its own. -/
theorem OwnTree.exists_push {t : Contexts} (h : t.OwnTree) (b : Bindings Value) {c : Nat}
    (hc : c < t.contexts.size) :
    ∃ t₁ : Contexts, t₁.OwnTree ∧ t₁.frames = t.frames.push ⟨b, some c⟩ := by
  have hgiven : GivenOwn (t.addScope b).2 (.push c (some t.scopes.size)) := by
    intro ref href _ g hg
    cases href
    exact Nat.lt_irrefl _ (h.sound.scopes g _ hg)
  refine ⟨_, .step (.push c (some t.scopes.size)) (.scope b h) hc hgiven, ?_⟩
  have hs := h.sound
  have hscope : (t.addScope b).2.scope t.scopes.size = b := by rw [scope_addScope, if_pos rfl]
  show ((t.addScope b).2.push c (some t.scopes.size)).2.frames = _
  obtain ⟨ref, href, _, hpush⟩ | ⟨hempty, hpush⟩ :=
    (t.addScope b).2.push_cases c (some t.scopes.size)
  · cases href
    rw [hpush, frames_add, hscope, hs.frames_addScope]
  · have hnil : b = .empty := by
      have h := hempty _ rfl
      rw [hscope] at h
      exact congrArg Bindings.mk (List.isEmpty_iff.1 h)
    rw [hpush, frames_add, scope_addScope, if_pos rfl, (hs.addScope b).frames_addScope,
      hs.frames_addScope, hnil]

end Contexts

open Contexts in
/-- **The frames of running programs are contexts that have scopes of their own**: whatever changes
a store has gone through. -/
theorem Store.Evolves.contexts {N : Node → Prop} {s : Store} (h : Store.initial.Evolves N s) :
    ∃ t : Contexts, t.OwnTree ∧ t.frames = s.frames := by
  induction h with
  | refl =>
    refine ⟨.root (Store.initial.bindings Store.globalFrame), .root _, ?_⟩
    simp [Contexts.root, Contexts.frames, scope, Store.initial, Store.empty, Store.addNative,
      Store.define, Store.bindings, Store.globalFrame]
  | @tail s s₁ _ hchange ih =>
    obtain ⟨t, htree, hframes⟩ := ih
    have hs := htree.sound
    cases hchange with
    | define f name v =>
      refine ⟨t.define f name v, htree.define f name v, ?_⟩
      rw [frames_define hs htree.alone]
      simp only [Store.define, view, inside, hframes]
    | @push b parent hparent =>
      have hlt : parent < t.contexts.size := by rwa [← size_frames, hframes]
      obtain ⟨t₁, htree₁, hframes₁⟩ := htree.exists_push b hlt
      refine ⟨t₁, htree₁, ?_⟩
      rw [hframes₁, hframes]
      rfl
    | addClosure c => exact ⟨t, htree, hframes⟩
    | declareClass frame _ _ =>
      exact ⟨t, htree, hframes.trans (addMethods_spec frame _ s).frames.symm⟩
    | addInstance _ => exact ⟨t, htree, hframes⟩
    | setField ref name v => exact ⟨t, htree, hframes⟩

/-! ## Assignments of programs -/

/-- What an assignment comes to on a machine: a name that cannot be changed is an error of the
program, and links that end too early are a fault. -/
def Machine.assigned (m : Machine) (name : Token) (v : Value) :
    Except FrameError Store → Outcome Value
  | .ok store => .done v { m with store }
  | .error .offChain => .fault (.frame .offChain) m
  | .error _ => m.raise name (.undefinedVariable name.lexeme)

theorem Machine.assign_eq {m : Machine} {id n : Nat} (hid : m.table[id]? = some n) (name : Token)
    (v : Value) :
    m.assign id name v = m.assigned name v (m.store.setAt m.frame n name.lexeme v) := by
  unfold assign Store.setAt
  rw [hid]
  simp only [Store.ancestor]
  cases m.store.climb (n : Int).toNat m.frame with
  | none => rfl
  | some f =>
    simp only [assignIn, Store.set]
    split <;> rfl

/-! ## The law -/

/-- Two contexts, 2 and 3, inside one that binds a name. -/
def siblings : Contexts :=
  ((((Contexts.root .empty).addScope (Bindings.empty.put "a" .nil)).2.after
    (.push 0 (some 1))).after (.push 1 none)).after (.push 1 none)

theorem siblings_ownTree : siblings.OwnTree := by
  refine .step (.push 1 none) (.step (.push 1 none) (.step (.push 0 (some 1))
    (.scope _ (.root .empty)) (by decide) ?_) (by decide) ?_) (by decide) ?_
  · intro ref href _ g hg
    cases href
    cases g with
    | zero => cases hg
    | succ g => cases hg
  · exact fun ref href => by cases href
  · exact fun ref href => by cases href

/-- A program in one of them, where node 5 refers to the name one link up. -/
def inSibling : Machine :=
  { Machine.initial 9 (fun _ => 0) with
    store := siblings.view, frame := 2, table := (∅ : Distances).insert 5 1 }

/-- Contexts 1 and 2, which were given the same scope. -/
def twins : Contexts :=
  (((Contexts.root .empty).addScope (Bindings.empty.put "a" .nil)).2.after
    (.push 0 (some 1))).after (.push 0 (some 1))

/-- Without scopes of their own, contexts see what is assigned in others. -/
theorem twins_see_each_other : twins.Tree ∧ ¬ twins.OwnTree ∧ ∃ t₁,
    twins.setAt 1 0 "a" (.bool true) = .ok t₁ ∧ twins.above? 2 0 ≠ twins.above? 1 0 ∧
      twins.getAt 2 0 "a" = .ok .nil ∧ t₁.getAt 2 0 "a" = .ok (.bool true) := by
  refine ⟨.step (.push 0 (some 1)) (.step (.push 0 (some 1)) (.scope _ (.root .empty)) (by decide)
    trivial) (by decide) trivial, fun hown => ?_, _, rfl, by decide, rfl, rfl⟩
  exact absurd (hown.alone 1 2 1 rfl rfl) (by decide)

end LoxLang
