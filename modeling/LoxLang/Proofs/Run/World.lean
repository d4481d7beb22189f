import LoxLang.Proofs.Run.Pairing
import LoxLang.Proofs.Store.Frames

/-!
# Stores side by side

A `World` is the pair of stores of two runs together with what each frame was made for.  `Chain`
ties the frames from one frame up to the globals to the scopes of a place in the program, and `Heap`
is the invariant of the two stores: they have the same shape, every closure is resolved in the
scopes of the frame it was made in, and names are spelled as the pairing says.

A world only grows, and what is said here of a world holds of all later ones.

Principal results: `Chain.climb_scope`, `Chain.chainOf_length`, `OkValue.grows`.
-/

namespace LoxLang

/-- Two stores, and what each frame was made for; the global frame was made for nothing. -/
structure World where
  labels : List (Option Construct)
  store : Store
  store' : Store

/-! ## Chains -/

/-- The frames from `frame` up to the globals were made for these constructs, and every name that
is readable in a scope is bound in its frame. -/
inductive Chain (W : World) : Nat → List Construct → List (Bindings Bool) → Prop where
  | globals : Chain W Store.globalFrame [] []
  | frame {f parent : Nat} {c : Construct} {cs : List Construct} {scope : Bindings Bool}
      {scopes : List (Bindings Bool)} :
      W.labels[f]? = some (some c) → W.store.parent? f = some parent →
      (∀ name, scope.find? name = some true → W.store.has f name = true) →
      Chain W parent cs scopes → Chain W f (c :: cs) (scope :: scopes)

namespace Chain

variable {W : World}

theorem length_eq : ∀ {f : Nat} {cs : List Construct} {scopes : List (Bindings Bool)},
    Chain W f cs scopes → cs.length = scopes.length
  | _, _, _, .globals => rfl
  | _, _, _, .frame _ _ _ h => by simp [h.length_eq]

/-- Following parent links goes through the scopes one by one. -/
theorem climb {f : Nat} {cs : List Construct} {scopes : List (Bindings Bool)}
    (h : Chain W f cs scopes) : ∀ d, d ≤ scopes.length →
    ∃ g, W.store.climb d f = some g ∧ Chain W g (cs.drop d) (scopes.drop d) := by
  induction h with
  | globals =>
    intro d hd
    obtain rfl : d = 0 := by simpa using hd
    exact ⟨_, rfl, .globals⟩
  | @frame f parent c cs scope scopes hlabel hparent hbound h ih =>
    intro d hd
    cases d with
    | zero => exact ⟨f, rfl, .frame hlabel hparent hbound h⟩
    | succ d =>
      obtain ⟨g, hg, hchain⟩ := ih d (by simpa using hd)
      refine ⟨g, ?_, hchain⟩
      unfold Store.climb
      rw [hparent]
      exact hg

/-- Behind the last scope lie the globals. -/
theorem climb_root {f : Nat} {cs : List Construct} {scopes : List (Bindings Bool)}
    (h : Chain W f cs scopes) : W.store.climb scopes.length f = some Store.globalFrame := by
  obtain ⟨g, hg, hchain⟩ := h.climb scopes.length (Nat.le_refl _)
  rw [List.drop_length] at hchain
  generalize cs.drop scopes.length = rest at hchain
  cases hchain
  exact hg

/-- The frame that belongs to the scope `d` levels up. -/
theorem climb_scope {f d : Nat} {cs : List Construct} {scopes : List (Bindings Bool)}
    {scope : Bindings Bool} (h : Chain W f cs scopes) (hd : scopes[d]? = some scope) :
    ∃ g c, W.store.climb d f = some g ∧ cs[d]? = some c ∧ W.labels[g]? = some (some c) ∧
      ∀ name, scope.find? name = some true → W.store.has g name = true := by
  have hlt : d < scopes.length := (List.getElem?_eq_some_iff.1 hd).1
  obtain ⟨g, hg, hchain⟩ := h.climb d (by omega)
  have hscope : (scopes.drop d).head? = some scope := by simpa using hd
  cases hscs : scopes.drop d with
  | nil => rw [hscs] at hscope; cases hscope
  | cons scope' rest =>
    rw [hscs] at hscope hchain
    obtain rfl : scope' = scope := Option.some.inj hscope
    cases hcs : cs.drop d with
    | nil => rw [hcs] at hchain; cases hchain
    | cons c cs' =>
      rw [hcs] at hchain
      cases hchain with
      | frame hlabel _ hbound _ =>
        refine ⟨g, c, hg, ?_, hlabel, hbound⟩
        have hhead : (cs.drop d).head? = some c := by rw [hcs]; rfl
        simpa using hhead

/-- Every scope on the chain has a frame of its own between a frame and the globals. -/
theorem chainOf_length (holder : ∀ f parent, W.store.parent? f = some parent → parent < f)
    (hroot : W.store.parent? Store.globalFrame = none) {f : Nat} {cs : List Construct}
    {scopes : List (Bindings Bool)} (h : Chain W f cs scopes) :
    ∀ limit, f < limit → (W.store.chainOf limit f).length = scopes.length + 1 := by
  induction h with
  | globals =>
    intro limit hlt
    cases limit with
    | zero => omega
    | succ limit =>
      rw [Store.chainOf, hroot]
      rfl
  | @frame f parent c cs scope scopes _ hparent _ _ ih =>
    intro limit hlt
    cases limit with
    | zero => omega
    | succ limit =>
      have hlt' := holder f parent hparent
      rw [Store.chainOf, hparent]
      simp only [List.length_cons]
      rw [ih limit (by omega)]

end Chain

/-! ## Growth -/

/-- What holds of all later worlds of a run. -/
structure World.Grows (W W₁ : World) : Prop where
  labels : ∀ (f : Nat) label, W.labels[f]? = some label → W₁.labels[f]? = some label
  parents : ∀ f parent, W.store.parent? f = some parent → W₁.store.parent? f = some parent
  has : ∀ f name, W.store.has f name = true → W₁.store.has f name = true
  closures : ∀ (i : Nat) c, W.store.closures[i]? = some c → W₁.store.closures[i]? = some c
  closures' : ∀ (i : Nat) c, W.store'.closures[i]? = some c → W₁.store'.closures[i]? = some c
  natives : W₁.store.natives = W.store.natives

namespace World.Grows

variable {W W₁ W₂ : World}

theorem refl (W : World) : W.Grows W :=
  ⟨fun _ _ h => h, fun _ _ h => h, fun _ _ h => h, fun _ _ h => h, fun _ _ h => h, rfl⟩

theorem trans (h : W.Grows W₁) (h' : W₁.Grows W₂) : W.Grows W₂ where
  labels f label hl := h'.labels f label (h.labels f label hl)
  parents f parent hp := h'.parents f parent (h.parents f parent hp)
  has f name hn := h'.has f name (h.has f name hn)
  closures i c hc := h'.closures i c (h.closures i c hc)
  closures' i c hc := h'.closures' i c (h.closures' i c hc)
  natives := h'.natives.trans h.natives

end World.Grows

theorem Chain.grows {W W₁ : World} (hg : W.Grows W₁) : ∀ {f : Nat} {cs : List Construct}
    {scopes : List (Bindings Bool)}, Chain W f cs scopes → Chain W₁ f cs scopes
  | _, _, _, .globals => .globals
  | _, _, _, .frame hlabel hparent hbound h =>
    .frame (hg.labels _ _ hlabel) (hg.parents _ _ hparent)
      (fun name hname => hg.has _ name (hbound name hname)) (h.grows hg)

/-! ## Closures and values -/

/-- The scope of `this`. -/
def thisScope : Bindings Bool := Bindings.empty.put "this" true

/-- A closure that may be called: its frame belongs to the scopes that it was resolved in.  An
initializer was bound to a receiver. -/
structure Ready (K : Pairing) (W : World) (c c' : Closure) (p : Surroundings) : Prop where
  frame : c'.frame = c.frame
  isInitializer : c'.isInitializer = c.isInitializer
  chain : Chain W c.frame p.constructs p.scopes
  alike : AlikeFunction K p c.decl c'.decl
  receiver : c.isInitializer = true → ∃ id methods, p.constructs.head? = some (.receiver id methods) ∧
    p.scopes.head? = some thisScope

/-- The closure of a method, which still has to be bound: its frame lies just outside of the scope
of `this` that it was resolved in. -/
structure Unbound (K : Pairing) (W : World) (c c' : Closure) (id : Nat) (methods : List Function)
    (p : Surroundings) : Prop where
  frame : c'.frame = c.frame
  isInitializer : c'.isInitializer = c.isInitializer
  chain : Chain W c.frame p.constructs p.scopes
  alike : AlikeFunction K ⟨.receiver id methods :: p.constructs, thisScope :: p.scopes, none⟩
    c.decl c'.decl
  mem : c.decl ∈ methods

/-- A value that programs can handle: what it refers to exists, and a function may be called. -/
def OkValue (K : Pairing) (W : World) : Value → Prop
  | .function ref => ∃ c c' p, W.store.closures[ref]? = some c ∧ W.store'.closures[ref]? = some c' ∧
      Ready K W c c' p
  | .native ref => ref < W.store.natives.size
  | _ => True

/-- The entry of a method table. -/
def OkMethod (K : Pairing) (W : World) (ref : Nat) : Prop :=
  ∃ c c' id methods p, W.store.closures[ref]? = some c ∧ W.store'.closures[ref]? = some c' ∧
    Unbound K W c c' id methods p

section Grows

variable {K : Pairing} {W W₁ : World}

theorem Ready.grows {c c' : Closure} {p : Surroundings} (h : Ready K W c c' p)
    (hg : W.Grows W₁) : Ready K W₁ c c' p :=
  ⟨h.frame, h.isInitializer, h.chain.grows hg, h.alike, h.receiver⟩

theorem Unbound.grows {c c' : Closure} {id : Nat} {methods : List Function} {p : Surroundings}
    (h : Unbound K W c c' id methods p) (hg : W.Grows W₁) : Unbound K W₁ c c' id methods p :=
  ⟨h.frame, h.isInitializer, h.chain.grows hg, h.alike, h.mem⟩

theorem OkValue.grows {v : Value} (h : OkValue K W v) (hg : W.Grows W₁) : OkValue K W₁ v := by
  cases v with
  | function ref =>
    obtain ⟨c, c', p, hc, hc', hready⟩ := h
    exact ⟨c, c', p, hg.closures ref c hc, hg.closures' ref c' hc', hready.grows hg⟩
  | native ref => simp only [OkValue, hg.natives] at h ⊢; exact h
  | _ => trivial

theorem OkMethod.grows {ref : Nat} (h : OkMethod K W ref) (hg : W.Grows W₁) : OkMethod K W₁ ref := by
  obtain ⟨c, c', id, methods, p, hc, hc', hunbound⟩ := h
  exact ⟨c, c', id, methods, p, hg.closures ref c hc, hg.closures' ref c' hc', hunbound.grows hg⟩

end Grows

/-! ## The invariant -/

structure Heap (K : Pairing) (W : World) : Prop where
  size : W.store.frames.size = W.labels.length
  size' : W.store'.frames.size = W.store.frames.size
  root : W.labels[Store.globalFrame]? = some none
  parents : ∀ f, W.store'.parent? f = W.store.parent? f
  rootParent : W.store.parent? Store.globalFrame = none
  older : ∀ f parent, W.store.parent? f = some parent → parent < f
  globals : ∀ f : Nat, W.labels[f]? = some none → W.store'.bindings f = W.store.bindings f
  distinct : (W.store.bindings Store.globalFrame).names.Nodup
  locals : ∀ (f : Nat) c, W.labels[f]? = some (some c) → ∀ name, K.IsName name →
    (W.store'.bindings f).find? (K.spell c name) = (W.store.bindings f).find? name
  made : ∀ (f : Nat) c, W.labels[f]? = some (some c) → K.Made f c
  bases : ∀ (f id : Nat), W.labels[f]? = some (some (.base id)) →
    ∃ ref, (W.store.bindings f).find? "super" = some (.classValue ref)
  values : ∀ f name v, (W.store.bindings f).find? name = some v → OkValue K W v
  fields : ∀ (i : Nat) inst name v, W.store.instances[i]? = some inst →
    inst.fields.find? name = some v → OkValue K W v
  methods : ∀ (i : Nat) info name ref, W.store.classes[i]? = some info →
    info.methods.find? name = some ref → OkMethod K W ref
  closures : W.store'.closures.size = W.store.closures.size
  classes : W.store'.classes = W.store.classes
  instances : W.store'.instances = W.store.instances
  natives : W.store'.natives = W.store.natives

end LoxLang
