import Mathlib
import LoxLang.Number.Binary

/-!
# Numbers and their parts

A finite number is told by its sign, its significand and its exponent, which are those of the
64-bit format.  A number that is nearest to a quotient has no negative sign, and it is not the
undefined number.

Principal results: `Parts.isDouble`, `Parts.ofFloat_injective`, `parts_nearest`.
-/

namespace LoxLang.Number

/-- The significand and the exponent of a finite number. -/
structure IsDouble (m : Nat) (e : Int) : Prop where
  significand : m < 2 ^ 53
  least : leastExponent ≤ e
  normal : leastExponent < e → 2 ^ 52 ≤ m

namespace Parts

/-- The fields of 64 bits. -/
theorem ofFloat_eq (x : Float) : ofFloat x =
    (if x.toBits.toNat / 2 ^ 52 % 2 ^ 11 = 2047 then
      if x.toBits.toNat % 2 ^ 52 = 0 then .infinite (x.toBits.toNat / 2 ^ 63 == 1) else .nan
    else if x.toBits.toNat / 2 ^ 52 % 2 ^ 11 = 0 then
      .finite (x.toBits.toNat / 2 ^ 63 == 1) (x.toBits.toNat % 2 ^ 52) leastExponent
    else .finite (x.toBits.toNat / 2 ^ 63 == 1) (2 ^ 52 + x.toBits.toNat % 2 ^ 52)
      (leastExponent - 1 + (x.toBits.toNat / 2 ^ 52 % 2 ^ 11 : Nat))) := rfl

theorem isDouble {x : Float} {negative : Bool} {m : Nat} {e : Int}
    (h : ofFloat x = .finite negative m e) : IsDouble m e := by
  rw [ofFloat_eq] at h
  split_ifs at h with hfield hfraction hzero
  · cases h
    exact ⟨by omega, by omega, fun hlt => by omega⟩
  · cases h
    exact ⟨by omega, by omega, fun _ => by omega⟩

/-- The bits of a finite number, by its parts. -/
theorem toBits_of_finite {x : Float} {negative : Bool} {m : Nat} {e : Int}
    (h : ofFloat x = .finite negative m e) :
    x.toBits.toNat = (if negative then 2 ^ 63 else 0) +
      (if m < 2 ^ 52 then m else (e - leastExponent).toNat * 2 ^ 52 + m) := by
  have hbits : x.toBits.toNat < 2 ^ 64 := x.toBits.toNat_lt
  rw [ofFloat_eq] at h
  generalize x.toBits.toNat = bits at h hbits ⊢
  have hsign : (if bits / 2 ^ 63 == 1 then 2 ^ 63 else 0) = bits / 2 ^ 63 * 2 ^ 63 := by
    rcases (by omega : bits / 2 ^ 63 = 0 ∨ bits / 2 ^ 63 = 1) with hs | hs <;> rw [hs] <;> rfl
  split_ifs at h with hfield hfraction hzero
  · cases h
    rw [hsign, if_pos (by omega)]
    omega
  · cases h
    have hexponent : (leastExponent - 1 + ((bits / 2 ^ 52 % 2 ^ 11 : Nat) : Int) -
        leastExponent).toNat = bits / 2 ^ 52 % 2 ^ 11 - 1 := by omega
    rw [hsign, if_neg (by omega), hexponent]
    omega

/-- A finite number is told by its parts. -/
theorem ofFloat_injective {x y : Float} {negative : Bool} {m : Nat} {e : Int}
    (hx : ofFloat x = .finite negative m e) (hy : ofFloat y = .finite negative m e) : x = y := by
  rw [← Float.toBits_inj, ← UInt64.toNat_inj, toBits_of_finite hx, toBits_of_finite hy]

/-- Bits up to those of the positive infinity are those of a number. -/
theorem toBits_ofBits {bits : Nat} (h : bits ≤ 2047 * 2 ^ 52) :
    (Float.ofBits bits.toUInt64).toBits.toNat = bits := by
  have hvec : bits.toUInt64.toBitVec.toNat = bits := by
    show (UInt64.ofNat bits).toNat = bits
    rw [UInt64.toNat_ofNat_of_lt']
    exact Nat.lt_of_le_of_lt h (by decide)
  have hvalid : Float.Model.Format.binary64.Valid bits.toUInt64.toBitVec := by
    refine ⟨fun hexponent hmantissa => absurd ?_ hmantissa⟩
    rw [Float.Model.UnpackedFloat.unpackExponent_def, ← BitVec.toNat_inj] at hexponent
    rw [Float.Model.UnpackedFloat.unpackMantissa_def, ← BitVec.toNat_inj]
    rw [BitVec.extractLsb'_toNat, hvec, Nat.shiftRight_eq_div_pow] at hexponent
    rw [BitVec.extractLsb'_toNat, hvec, Nat.shiftRight_zero]
    have hfield : bits / 2 ^ 52 % 2 ^ 11 = 2047 := hexponent
    show bits % 2 ^ 52 = 0
    omega
  have hpacked := Float.Model.UnpackedFloat.pack_unpack_of_valid hvalid
  show (Float.Model.UnpackedFloat.pack Float.Model.Format.binary64 _).toNat = bits
  rw [hpacked, hvec]

end Parts

theorem nearestBits_le (num den : Nat) : nearestBits num den ≤ 2047 * 2 ^ 52 := by
  unfold nearestBits
  split
  · exact Nat.zero_le _
  · exact Nat.min_le_right _ _

/-- The number nearest to a quotient is infinite, or it is finite; it is not negative. -/
theorem parts_nearest (num den : Nat) : Parts.ofFloat (nearest false num den) = .infinite false ∨
    ∃ m e, Parts.ofFloat (nearest false num den) = .finite false m e := by
  have hle := nearestBits_le num den
  have hbits := Parts.toBits_ofBits hle
  unfold nearest
  simp only [Bool.false_eq_true, if_false, Nat.add_zero]
  rw [Parts.ofFloat_eq, hbits]
  generalize nearestBits num den = bits at hle
  have hsign : (bits / 2 ^ 63 == 1) = false := by
    rw [beq_eq_false_iff_ne]
    omega
  rw [hsign]
  split_ifs with hfield hfraction hzero
  · exact .inl rfl
  · omega
  · exact .inr ⟨_, _, rfl⟩
  · exact .inr ⟨_, _, rfl⟩

end LoxLang.Number
