import LoxLang.Eval

/-!
# Operators

What an operator makes of its operands depends on the class of its token only, and it is never a
reference to something in the store.

Principal results: `Token.applyUnary?_isPlain`, `Token.applyBinary?_isPlain`.
-/

namespace LoxLang

/-- A value that refers to nothing in the store. -/
def Value.IsPlain : Value → Prop
  | .nil | .bool _ | .num _ | .str _ => True
  | .native _ | .function _ | .classValue _ | .object _ => False

section

variable {a b v : Value}

theorem Literal.value_isPlain (l : Literal) : l.value.IsPlain := by
  cases l <;> trivial

theorem Value.numeric_isPlain {f : Float → Float → Value} (h : Value.numeric f a b = .ok v)
    (hf : ∀ x y, (f x y).IsPlain) : v.IsPlain := by
  unfold Value.numeric at h
  split at h
  · cases h
    exact hf _ _
  · cases h

theorem Value.add_isPlain (h : a.add b = .ok v) : v.IsPlain := by
  unfold Value.add at h
  split at h <;> cases h <;> trivial

theorem UnaryOp.apply_isPlain {op : UnaryOp} (h : op.apply a = .ok v) : v.IsPlain := by
  cases op with
  | negate =>
    simp only [UnaryOp.apply, Value.negate] at h
    split at h <;> cases h
    trivial
  | not =>
    cases h
    trivial

theorem BinaryOp.apply_isPlain {op : BinaryOp} (h : op.apply a b = .ok v) : v.IsPlain := by
  cases op with
  | add => exact Value.add_isPlain h
  | eq | ne =>
    cases h
    trivial
  | _ => exact Value.numeric_isPlain h fun _ _ => trivial

namespace Token

variable {t t' : Token}

/-- **Operators make no references.** -/
theorem applyUnary?_isPlain (h : t.applyUnary? a = some (.ok v)) : v.IsPlain := by
  obtain ⟨op, -, hop⟩ := Option.map_eq_some_iff.1 h
  exact UnaryOp.apply_isPlain hop

theorem applyBinary?_isPlain (h : t.applyBinary? a b = some (.ok v)) : v.IsPlain := by
  obtain ⟨op, -, hop⟩ := Option.map_eq_some_iff.1 h
  exact BinaryOp.apply_isPlain hop

/-! ## Tokens of one class -/

theorem applyUnary?_congr (h : t'.kind = t.kind) (a : Value) :
    t'.applyUnary? a = t.applyUnary? a := by
  rw [applyUnary?, applyUnary?, h]

theorem applyBinary?_congr (h : t'.kind = t.kind) (a b : Value) :
    t'.applyBinary? a b = t.applyBinary? a b := by
  rw [applyBinary?, applyBinary?, h]

theorem settles_congr (h : t'.kind = t.kind) (a : Value) : t'.settles a = t.settles a := by
  rw [settles, settles, h]

end Token

end

end LoxLang
