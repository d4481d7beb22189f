import LoxLang.Proofs.Run.Heap
import LoxLang.Proofs.Run.Moment

/-!
# Machines side by side

`Twins` relates the machines of two runs that go side by side, and `Agrees` relates what comes out
of two tasks: the same value, corresponding errors, or nothing in both runs.  A fault agrees with
nothing.

Principal results: `Agrees.bind`, `Agrees.ending`.
-/

namespace LoxLang

/-! ## Twins -/

abbrev Labels := List (Option Construct)

/-- The machines of two runs at the same moment. -/
structure Twins (K : Pairing) (L : Labels) (m m' : Machine) : Prop where
  heap : Heap K ⟨L, m.store, m'.store⟩
  frame : m'.frame = m.frame
  depth : m'.depth = m.depth
  maxDepth : m'.maxDepth = m.maxDepth
  output : m'.output = m.output
  clock : m'.clock = m.clock
  table : m.table = K.table
  table' : m'.table = K.table'

/-- Twins whose current frame belongs to the scopes of a place. -/
structure Twins.At (K : Pairing) (L : Labels) (m m' : Machine) (p : Surroundings) : Prop where
  twins : Twins K L m m'
  chain : Chain ⟨L, m.store, m'.store⟩ m.frame p.constructs p.scopes

/-- Twins in a later world than `W`, back in the frame `f`. -/
structure Twins.Since (K : Pairing) (W : World) (f : Nat) (L : Labels) (m m' : Machine) :
    Prop where
  twins : Twins K L m m'
  grows : W.Grows ⟨L, m.store, m'.store⟩
  frame : m.frame = f

/-- A reference that may find no variable: a global one, or an assignment in the initializer of
the local variable that it refers to. -/
def Site.MayFail (site : Site) : Prop :=
  site.distance? = none ∨ site.use = .write ∧ site.distance? = some 0 ∧
    ∃ decl, site.around.initializing = some decl ∧ decl.name = site.name.lexeme

/-- Corresponding errors.  Where a variable is missing, the second run names it as it spells it. -/
inductive SameError (K : Pairing) : RuntimeError → RuntimeError → Prop where
  | same {t t' : Token} {cause : Cause} :
      (∀ name, cause ≠ .undefinedVariable name) → t'.line = t.line →
      SameError K ⟨t, cause⟩ ⟨t', cause⟩
  | undefined {site : Site} {t' : Token} {m : Machine} :
      K.Refers site t' → site.MayFail → K.Evaluated site.use site.id site.name m →
      m.table = K.table →
      SameError K ⟨site.name, .undefinedVariable site.name.lexeme⟩
        ⟨t', .undefinedVariable t'.lexeme⟩

/-! ## Agreement -/

/-- What comes out of two tasks that started in the world `W` and the frame `f`. -/
inductive Agrees {α : Type} (K : Pairing) (W : World) (f : Nat) (Post : World → α → Prop) :
    Outcome α → Outcome α → Prop where
  | done {L : Labels} {v : α} {m m' : Machine} :
      Twins.Since K W f L m m' → Post ⟨L, m.store, m'.store⟩ v →
      Agrees K W f Post (.done v m) (.done v m')
  | raised {L : Labels} {e e' : RuntimeError} {m m' : Machine} :
      Twins.Since K W f L m m' → SameError K e e' →
      Agrees K W f Post (.raised e m) (.raised e' m')
  | exhausted : Agrees K W f Post .exhausted .exhausted

section Agreement

variable {K : Pairing} {W W₁ : World} {f : Nat} {L : Labels} {m m' : Machine}
variable {α β : Type} {Post Post' : World → α → Prop} {o o' : Outcome α}

theorem Twins.since (h : Twins K L m m') :
    Twins.Since K ⟨L, m.store, m'.store⟩ m.frame L m m' :=
  ⟨h, .refl _, rfl⟩

theorem Twins.Since.trans (h : Twins.Since K W f L m m') {L₁ : Labels} {m₁ m₁' : Machine}
    (h₁ : Twins.Since K ⟨L, m.store, m'.store⟩ f L₁ m₁ m₁') : Twins.Since K W f L₁ m₁ m₁' :=
  ⟨h₁.twins, h.grows.trans h₁.grows, h₁.frame⟩

/-- The frame that is gone back to still belongs to its scopes. -/
theorem Twins.Since.at {p : Surroundings} (h : Twins.Since K W f L m m')
    (hchain : Chain W f p.constructs p.scopes) : Twins.At K L m m' p :=
  ⟨h.twins, by rw [h.frame]; exact hchain.grows h.grows⟩

theorem Agrees.since (h : Twins.Since K W f L m m')
    (ha : Agrees K ⟨L, m.store, m'.store⟩ f Post o o') : Agrees K W f Post o o' := by
  cases ha with
  | done h₁ hpost => exact .done (h.trans h₁) hpost
  | raised h₁ he => exact .raised (h.trans h₁) he
  | exhausted => exact .exhausted

theorem Agrees.mono (ha : Agrees K W f Post o o')
    (hpost : ∀ W₁ v, W.Grows W₁ → Post W₁ v → Post' W₁ v) : Agrees K W f Post' o o' := by
  cases ha with
  | done h₁ hp => exact .done h₁ (hpost _ _ h₁.grows hp)
  | raised h₁ he => exact .raised h₁ he
  | exhausted => exact .exhausted

/-- Going on after values that agree. -/
theorem Agrees.bind {Post' : World → β → Prop} {g g' : α → Machine → Outcome β}
    (ha : Agrees K W f Post o o')
    (hg : ∀ {L : Labels} {m m' : Machine} {v : α}, o = .done v m → Twins.Since K W f L m m' →
      Post ⟨L, m.store, m'.store⟩ v →
      Agrees K ⟨L, m.store, m'.store⟩ f Post' (g v m) (g' v m')) :
    Agrees K W f Post' (o.bind g) (o'.bind g') := by
  cases ha with
  | done h₁ hp => exact (hg rfl h₁ hp).since h₁
  | raised h₁ he => exact .raised h₁ he
  | exhausted => exact .exhausted

/-- Ending in another way, as blocks and calls do. -/
theorem Agrees.ending {W₀ : World} {f₀ : Nat} {k k' : Machine → Machine}
    (ha : Agrees K W f Post o o')
    (hk : ∀ {L : Labels} {m m' : Machine}, Twins.Since K W f L m m' →
      Twins.Since K W₀ f₀ L (k m) (k' m') ∧ (k m).store = m.store ∧ (k' m').store = m'.store) :
    Agrees K W₀ f₀ Post (o.ending k) (o'.ending k') := by
  cases ha with
  | done h₁ hp =>
    obtain ⟨h₂, hs, hs'⟩ := hk h₁
    exact .done h₂ (by rw [hs, hs']; exact hp)
  | raised h₁ he => exact .raised (hk h₁).1 he
  | exhausted => exact .exhausted

/-- The same error in both runs, other than a missing variable. -/
theorem Twins.raise (h : Twins K L m m') {t t' : Token} {cause : Cause}
    (hcause : ∀ name, cause ≠ .undefinedVariable name) (ht : t'.line = t.line) :
    Agrees K ⟨L, m.store, m'.store⟩ m.frame Post (m.raise t cause) (m'.raise t' cause) :=
  .raised h.since (.same hcause ht)

end Agreement

end LoxLang
