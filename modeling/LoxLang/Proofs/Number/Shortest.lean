import LoxLang.Number.Shortest
import LoxLang.Proofs.Number.Binary

/-!
# The shortest decimal tells the number

The decimals that are read back as a number make up an interval around it, and the intervals of two
numbers have no decimal in common.  The shortest decimal of a number lies in its interval: on a grid
that leaves seventeen digits, two neighbouring points cannot both miss it.

* `Rounds m e x` — the rational `x` is read back as `m * 2 ^ e`.

Principal results: `Rounds.unique`, `shortest_rounds`, `shortest_unique`.
-/

namespace LoxLang.Number

/-! ## Intervals -/

/-- A quarter of the last place of a number with this exponent. -/
def quarterPlace (e : Int) : ℚ := 2 ^ (e - 2)

theorem quarterPlace_pos (e : Int) : 0 < quarterPlace e := by
  unfold quarterPlace
  positivity

/-- How far the interval reaches down, in quarters of a place. -/
def reach (m : Nat) (e : Int) : Nat := if m = 2 ^ 52 ∧ leastExponent < e then 1 else 2

theorem reach_pos (m : Nat) (e : Int) : 0 < reach m e := by
  unfold reach
  split <;> decide

theorem reach_le (m : Nat) (e : Int) : reach m e ≤ 2 := by
  unfold reach
  split <;> decide

/-- The rational is read back as `m * 2 ^ e`.  The ends belong to the interval if `m` is even. -/
structure Rounds (m : Nat) (e : Int) (x : ℚ) : Prop where
  low : (4 * m - reach m e : ℚ) * quarterPlace e ≤ x
  high : x ≤ (4 * m + 2 : ℚ) * quarterPlace e
  odd : m % 2 = 1 → (4 * m - reach m e : ℚ) * quarterPlace e < x ∧
    x < (4 * m + 2 : ℚ) * quarterPlace e

theorem quarterPlace_double {e e' : Int} (h : e < e') : 2 * quarterPlace e ≤ quarterPlace e' := by
  have hstep : 2 * quarterPlace e = 2 ^ (e + 1 - 2) := by
    unfold quarterPlace
    rw [show e + 1 - 2 = 1 + (e - 2) from by ring, zpow_add₀ two_ne_zero, zpow_one]
  rw [hstep]
  exact zpow_le_zpow_right₀ one_le_two (by omega)

/-- Where the interval of a number begins that has the full count of bits. -/
theorem low_of_normal {m : Nat} {e : Int} (h : IsDouble m e) (he : leastExponent < e) :
    (2 ^ 54 - 1 : ℚ) ≤ 4 * m - reach m e := by
  have hm := h.normal he
  have hnat : 2 ^ 54 - 1 + reach m e ≤ 4 * m := by
    by_cases hpower : m = 2 ^ 52
    · have hreach : reach m e = 1 := if_pos ⟨hpower, he⟩
      omega
    · have hreach := reach_le m e
      omega
  have hcast : ((2 ^ 54 - 1 + reach m e : Nat) : ℚ) ≤ (4 * m : Nat) := by exact_mod_cast hnat
  push_cast at hcast
  norm_num at hcast ⊢
  linarith

/-- The interval of a number ends where that of a greater one begins, or before it.  If they meet,
one of the two significands is odd. -/
theorem high_le_low {m m' : Nat} {e e' : Int} (h : IsDouble m e) (h' : IsDouble m' e')
    (hlt : e < e' ∨ e = e' ∧ m < m') :
    (4 * m + 2 : ℚ) * quarterPlace e ≤ (4 * m' - reach m' e' : ℚ) * quarterPlace e' ∧
      ((4 * m + 2 : ℚ) * quarterPlace e = (4 * m' - reach m' e' : ℚ) * quarterPlace e' →
        m % 2 = 1 ∨ m' % 2 = 1) := by
  have hq := quarterPlace_pos e
  rcases hlt with hlt | ⟨rfl, hlt⟩
  · have hdouble := quarterPlace_double hlt
    have hq' := quarterPlace_pos e'
    have hlow := low_of_normal h' (Int.lt_of_le_of_lt h.least hlt)
    -- the significand below is at most that of the greatest number with its exponent
    have hhigh : ∀ k : ℚ, (4 * m + 2 : ℚ) ≤ 2 * k →
        (4 * m + 2 : ℚ) * quarterPlace e ≤ k * quarterPlace e' := by
      intro k hk
      have hk₀ : 0 ≤ k := by
        have hm : (0 : ℚ) ≤ m := by positivity
        linarith
      calc (4 * m + 2 : ℚ) * quarterPlace e ≤ 2 * k * quarterPlace e := by gcongr
        _ = k * (2 * quarterPlace e) := by ring
        _ ≤ k * quarterPlace e' := by gcongr
    have hm : (m : ℚ) ≤ 2 ^ 53 - 1 := by
      have hnat : m + 1 ≤ 2 ^ 53 := h.significand
      have hcast : ((m + 1 : Nat) : ℚ) ≤ (2 ^ 53 : Nat) := by exact_mod_cast hnat
      push_cast at hcast
      linarith
    refine ⟨(hhigh (2 ^ 54 - 1) (by linarith)).trans (by gcongr), fun heq => ?_⟩
    by_contra hodd
    have heven : (m : ℚ) ≤ 2 ^ 53 - 2 := by
      have hnat : m + 2 ≤ 2 ^ 53 := by
        have hlt := h.significand
        omega
      have hcast : ((m + 2 : Nat) : ℚ) ≤ (2 ^ 53 : Nat) := by exact_mod_cast hnat
      push_cast at hcast
      linarith
    have hbelow := hhigh (2 ^ 54 - 3) (by linarith)
    rw [heq] at hbelow
    have hcoefficient := le_of_mul_le_mul_right hbelow hq'
    linarith
  · have hreach : (reach m' e : ℚ) ≤ 2 := by exact_mod_cast reach_le m' e
    have hnext : (m : ℚ) + 1 ≤ m' := by exact_mod_cast hlt
    refine ⟨by gcongr; linarith, fun heq => ?_⟩
    have hsame : (4 * m + 2 : ℚ) = 4 * m' - reach m' e := mul_right_cancel₀ hq.ne' heq
    have hm : m' ≤ m + 1 := by
      have hle : (m' : ℚ) ≤ m + 1 := by linarith
      exact_mod_cast hle
    omega

/-- A rational that lies in the intervals of two numbers would be where they meet. -/
theorem Rounds.not_less {m m' : Nat} {e e' : Int} {x : ℚ} (h : IsDouble m e) (h' : IsDouble m' e')
    (hx : Rounds m e x) (hx' : Rounds m' e' x) : ¬ (e < e' ∨ e = e' ∧ m < m') := by
  intro hlt
  obtain ⟨hle, hmeet⟩ := high_le_low h h' hlt
  have hhigh : x = (4 * m + 2 : ℚ) * quarterPlace e := le_antisymm hx.high (hle.trans hx'.low)
  have hlow : x = (4 * m' - reach m' e' : ℚ) * quarterPlace e' :=
    le_antisymm (hx.high.trans hle) hx'.low
  rcases hmeet (hhigh.symm.trans hlow) with hodd | hodd
  · exact (hx.odd hodd).2.ne hhigh
  · exact (hx'.odd hodd).1.ne' hlow

/-- **No rational is read back as two numbers.** -/
theorem Rounds.unique {m m' : Nat} {e e' : Int} {x : ℚ} (h : IsDouble m e) (h' : IsDouble m' e')
    (hx : Rounds m e x) (hx' : Rounds m' e' x) : m = m' ∧ e = e' := by
  have hnot := hx.not_less h h' hx'
  have hnot' := hx'.not_less h' h hx
  omega

/-! ## Grids -/

theorem pow_toNat_neg_mul_zpow {b : ℚ} (hb : b ≠ 0) (k : Int) :
    b ^ (-k).toNat * b ^ k = b ^ k.toNat := by
  rcases le_total 0 k with hk | hk
  · obtain ⟨n, rfl⟩ := Int.eq_ofNat_of_zero_le hk
    simp
  · obtain ⟨n, hn⟩ := Int.eq_ofNat_of_zero_le (neg_nonneg.2 hk)
    obtain rfl : k = -n := by omega
    simp [hb]

/-- Quarters of a place and points of a grid are compared as rationals. -/
theorem beside_scale (e g : Int) : ∃ c : ℚ, 0 < c ∧
    ((Grid.beside e g).quarter : ℚ) = c * quarterPlace e ∧
    ((Grid.beside e g).point : ℚ) = c * 10 ^ g := by
  refine ⟨2 ^ (2 - e).toNat * 10 ^ (-g).toNat, by positivity, ?_, ?_⟩
  · have htwo := pow_toNat_neg_mul_zpow (b := 2) two_ne_zero (e - 2)
    rw [neg_sub] at htwo
    show ((2 ^ (e - 2).toNat * 10 ^ (-g).toNat : Nat) : ℚ) = _
    push_cast
    rw [← htwo, quarterPlace]
    ring
  · have hten := pow_toNat_neg_mul_zpow (b := 10) (by norm_num) g
    show ((2 ^ (2 - e).toNat * 10 ^ g.toNat : Nat) : ℚ) = _
    push_cast
    rw [← hten]
    ring

theorem Grid.reads_iff {m : Nat} (hm : 0 < m) (e g : Int) (p : Nat) :
    (Grid.beside e g).reads m e p = true ↔ Rounds m e (p * 10 ^ g) := by
  obtain ⟨c, hc, hquarter, hpoint⟩ := beside_scale e g
  -- a comparison of naturals is one of rationals, after a positive factor is taken out
  have hquarters : ∀ a : Nat, ((a * (Grid.beside e g).quarter : Nat) : ℚ) =
      c * (a * quarterPlace e) := fun a => by rw [Nat.cast_mul, hquarter]; ring
  have hpoints : ∀ a : Nat, ((a * (Grid.beside e g).point : Nat) : ℚ) = c * (a * 10 ^ g) :=
    fun a => by rw [Nat.cast_mul, hpoint]; ring
  have hle : ∀ a b : Nat, (a * (Grid.beside e g).quarter ≤ b * (Grid.beside e g).point ↔
      (a : ℚ) * quarterPlace e ≤ b * 10 ^ g) := fun a b => by
    rw [← Nat.cast_le (α := ℚ), hquarters, hpoints, mul_le_mul_iff_right₀ hc]
  have hge : ∀ a b : Nat, (b * (Grid.beside e g).point ≤ a * (Grid.beside e g).quarter ↔
      (b : ℚ) * 10 ^ g ≤ a * quarterPlace e) := fun a b => by
    rw [← Nat.cast_le (α := ℚ), hquarters, hpoints, mul_le_mul_iff_right₀ hc]
  have hlow : ((4 * m - reach m e : Nat) : ℚ) = 4 * m - reach m e := by
    have hreach := reach_le m e
    rw [Nat.cast_sub (by omega)]
    push_cast
    ring
  have hhigh : ((4 * m + 2 : Nat) : ℚ) = 4 * m + 2 := by push_cast; ring
  have hreads : (Grid.beside e g).reads m e p =
      if m % 2 = 0 then
        decide ((4 * m - reach m e) * (Grid.beside e g).quarter ≤ p * (Grid.beside e g).point) &&
          decide (p * (Grid.beside e g).point ≤ (4 * m + 2) * (Grid.beside e g).quarter)
      else
        decide ((4 * m - reach m e) * (Grid.beside e g).quarter < p * (Grid.beside e g).point) &&
          decide (p * (Grid.beside e g).point < (4 * m + 2) * (Grid.beside e g).quarter) := rfl
  rw [hreads]
  split
  · rename_i heven
    rw [Bool.and_eq_true, decide_eq_true_iff, decide_eq_true_iff, hle, hge, hlow, hhigh]
    exact ⟨fun h => ⟨h.1, h.2, fun hodd => by omega⟩, fun h => ⟨h.low, h.high⟩⟩
  · rename_i hodd
    rw [Bool.and_eq_true, decide_eq_true_iff, decide_eq_true_iff, ← not_le, ← not_le, hle, hge,
      hlow, hhigh, not_le, not_le]
    exact ⟨fun h => ⟨h.1.le, h.2.le, fun _ => h⟩, fun h => h.odd (by omega)⟩

theorem Grid.hit?_reads {grid : Grid} {m p : Nat} {e : Int} (h : grid.hit? m e = some p) :
    grid.reads m e p = true := by
  unfold hit? at h
  simp only at h
  split at h
  · rename_i hbelow habove
    split_ifs at h <;> cases h
    · exact hbelow
    · exact habove
    · rcases Nat.mod_two_eq_zero_or_one (4 * m * grid.quarter / grid.point) with hpar | hpar
      · rw [hpar]
        exact hbelow
      · rw [hpar]
        exact habove
  · rename_i hbelow _
    cases h
    exact hbelow
  · rename_i _ habove
    cases h
    exact habove
  · cases h

/-! ## Seventeen digits suffice -/

theorem decimalWidth_pos (n : Nat) : 0 < decimalWidth n := Nat.length_toDigits_pos

theorem pow_decimalWidth_le {n : Nat} (hn : 0 < n) : 10 ^ (decimalWidth n - 1) ≤ n := by
  by_contra hlt
  rcases Nat.eq_zero_or_pos (decimalWidth n - 1) with hzero | hpos
  · rw [hzero, pow_zero] at hlt
    omega
  · have hle : decimalWidth n ≤ decimalWidth n - 1 :=
      (Nat.length_toDigits_le_iff (by decide) hpos).2 (not_le.1 hlt)
    omega

theorem lt_pow_decimalWidth (n : Nat) : n < 10 ^ decimalWidth n :=
  (Nat.length_toDigits_le_iff (by decide) Nat.length_toDigits_pos).1 (Nat.le_refl _)

theorem zpow_decimalWidth_le {n : Nat} (hn : 0 < n) :
    (10 : ℚ) ^ ((decimalWidth n : Int) - 1) ≤ n := by
  have hwidth := decimalWidth_pos n
  rw [show ((decimalWidth n : Int) - 1) = ((decimalWidth n - 1 : Nat) : Int) from by omega,
    zpow_natCast]
  exact_mod_cast pow_decimalWidth_le hn

/-- A number reaches the power of ten below its magnitude. -/
theorem pow_magnitude_le {m : Nat} (hm : 0 < m) (e : Int) :
    (10 : ℚ) ^ (magnitude m e - 1) ≤ m * 2 ^ e := by
  unfold magnitude
  split
  · rename_i he
    obtain ⟨k, rfl⟩ := Int.eq_ofNat_of_zero_le he
    have hle := zpow_decimalWidth_le (n := m * 2 ^ k) (by positivity)
    push_cast at hle
    exact hle
  · rename_i he
    obtain ⟨k, hk⟩ := Int.eq_ofNat_of_zero_le (Int.le_of_lt (neg_pos.2 (not_le.1 he)))
    obtain rfl : e = -k := by omega
    have hvalue : (m : ℚ) * 2 ^ (-(k : Int)) = m / (2 ^ k : Nat) := by
      rw [zpow_neg, zpow_natCast]
      push_cast
      rfl
    have hden : Nat.pow 2 (-(-(k : Int))).toNat = 2 ^ k := by simp
    have hpos : 0 < 2 ^ k := Nat.two_pow_pos k
    rw [hvalue, hden]
    simp only
    split
    · rename_i hle
      calc (10 : ℚ) ^ ((decimalWidth (m / 2 ^ k) : Int) - 1) ≤ (m / 2 ^ k : Nat) :=
            zpow_decimalWidth_le (Nat.div_pos hle hpos)
        _ ≤ m / (2 ^ k : Nat) := Nat.cast_div_le
    · generalize hwidth : decimalWidth ((2 ^ k - 1) / m) = w
      have hlt : 2 ^ k - 1 < 10 ^ w * m := by
        rw [← Nat.div_lt_iff_lt_mul hm, ← hwidth]
        exact lt_pow_decimalWidth _
      have hle : ((2 ^ k : Nat) : ℚ) ≤ m * 10 ^ w := by
        have hnat : 2 ^ k ≤ m * 10 ^ w := by
          rw [Nat.mul_comm]
          omega
        exact_mod_cast hnat
      rw [show (1 - (w : Int) - 1) = -w from by ring, zpow_neg, zpow_natCast,
        le_div_iff₀ (by exact_mod_cast hpos), inv_mul_le_iff₀ (by positivity)]
      linarith

theorem mul_two_zpow (m : Nat) (e : Int) : (m : ℚ) * 2 ^ e = 4 * m * quarterPlace e := by
  unfold quarterPlace
  rw [zpow_sub₀ two_ne_zero]
  ring

/-- Two neighbouring points of a grid around a number that both miss it are far apart. -/
theorem spacing_of_missed {m : Nat} {e : Int} {x y : ℚ} (hx : x ≤ 4 * m * quarterPlace e)
    (hy : 4 * m * quarterPlace e < y) (hmissed : ¬ Rounds m e x) (hmissed' : ¬ Rounds m e y) :
    (2 + reach m e) * quarterPlace e ≤ y - x := by
  have hq := quarterPlace_pos e
  have hreach : (0 : ℚ) < reach m e := by exact_mod_cast reach_pos m e
  have hlow : x ≤ (4 * m - reach m e) * quarterPlace e := by
    by_contra hlt
    have hhigh : x < (4 * m + 2) * quarterPlace e := by nlinarith
    exact hmissed ⟨(not_le.1 hlt).le, hhigh.le, fun _ => ⟨not_le.1 hlt, hhigh⟩⟩
  have hhigh : (4 * m + 2) * quarterPlace e ≤ y := by
    by_contra hlt
    have hlow : (4 * m - reach m e) * quarterPlace e < y := by nlinarith
    exact hmissed' ⟨hlow.le, (not_le.1 hlt).le, fun _ => ⟨hlow, not_le.1 hlt⟩⟩
  linarith

/-- A grid that leaves seventeen digits of a number has a point that is read back as it. -/
theorem hit?_isSome {m : Nat} {e : Int} (h : IsDouble m e) (hm : 0 < m) :
    ((Grid.beside e (magnitude m e - 17)).hit? m e).isSome := by
  generalize hg : magnitude m e - 17 = g
  have hspacing : (10 : ℚ) ^ g * 10 ^ 16 ≤ 4 * m * quarterPlace e := by
    rw [← mul_two_zpow, ← zpow_natCast, ← zpow_add₀ (by norm_num)]
    have hmagnitude := pow_magnitude_le hm e
    rwa [show magnitude m e - 1 = g + (16 : Nat) from by push_cast; omega] at hmagnitude
  obtain ⟨c, hc, hquarter, hpoint⟩ := beside_scale e g
  have hpoint₀ : 0 < (Grid.beside e g).point := by
    have hcast : (0 : ℚ) < (Grid.beside e g).point := by rw [hpoint]; positivity
    exact_mod_cast hcast
  by_contra hnone
  rw [Bool.not_eq_true, Option.isSome_eq_false_iff, Option.isNone_iff_eq_none] at hnone
  set below := 4 * m * (Grid.beside e g).quarter / (Grid.beside e g).point with hbelow
  have hmissed : (Grid.beside e g).reads m e below = false ∧
      (Grid.beside e g).reads m e (below + 1) = false := by
    unfold Grid.hit? at hnone
    simp only [← hbelow] at hnone
    split at hnone
    · split_ifs at hnone
    · cases hnone
    · cases hnone
    · rename_i hfirst hsecond
      exact ⟨hfirst, hsecond⟩
  rw [← Bool.not_eq_true, ← Bool.not_eq_true, Grid.reads_iff hm, Grid.reads_iff hm] at hmissed
  have hcast : ((4 * m * (Grid.beside e g).quarter : Nat) : ℚ) = c * (4 * m * quarterPlace e) := by
    push_cast
    rw [hquarter]
    ring
  have hx : (below : ℚ) * 10 ^ g ≤ 4 * m * quarterPlace e := by
    have hle : ((below * (Grid.beside e g).point : Nat) : ℚ) ≤
        (4 * m * (Grid.beside e g).quarter : Nat) := by exact_mod_cast Nat.div_mul_le_self _ _
    rw [hcast, Nat.cast_mul, hpoint, mul_left_comm] at hle
    exact le_of_mul_le_mul_left hle hc
  have hy : 4 * m * quarterPlace e < ((below + 1 : Nat) : ℚ) * 10 ^ g := by
    have hlt : ((4 * m * (Grid.beside e g).quarter : Nat) : ℚ) <
        ((below + 1) * (Grid.beside e g).point : Nat) := by
      exact_mod_cast Nat.lt_mul_of_div_lt (Nat.lt_succ_self below) hpoint₀
    rw [hcast, Nat.cast_mul, hpoint, mul_left_comm ((below + 1 : Nat) : ℚ)] at hlt
    exact lt_of_mul_lt_mul_left hlt hc.le
  have hfar := spacing_of_missed hx hy hmissed.1 hmissed.2
  have hq := quarterPlace_pos e
  have hcount : (10 ^ 16 : ℚ) * (2 + reach m e) ≤ 4 * m := by
    push_cast at hfar
    have hwide : (2 + reach m e : ℚ) * quarterPlace e ≤ 10 ^ g := by linarith
    have hall : (10 ^ 16 : ℚ) * (2 + reach m e) * quarterPlace e ≤ 4 * m * quarterPlace e := by
      linarith
    exact le_of_mul_le_mul_right hall hq
  have hnat : 10 ^ 16 * (2 + reach m e) ≤ 4 * m := by exact_mod_cast hcount
  have hsignificand := h.significand
  unfold reach at hnat
  split_ifs at hnat with hpower
  · omega
  · omega

/-- The value of a decimal. -/
def Decimal.value (d : Decimal) : ℚ := d.digits * 10 ^ d.exponent

/-- **The shortest decimal of a number is read back as it.** -/
theorem shortest_rounds {m : Nat} {e : Int} (h : IsDouble m e) (hm : 0 < m) :
    Rounds m e (shortest m e).value := by
  obtain ⟨p, hp⟩ := Option.isSome_iff_exists.1 (hit?_isSome h hm)
  unfold shortest
  simp only
  cases hfound : (List.range' 1 17).findSome? fun (width : Nat) =>
      ((Grid.beside e (magnitude m e - width)).hit? m e).map fun p =>
        (⟨p, magnitude m e - width⟩ : Decimal) with
  | none =>
    rw [List.findSome?_eq_none_iff] at hfound
    have hlast := hfound 17 (by decide)
    rw [show ((17 : Nat) : Int) = 17 from rfl, hp] at hlast
    cases hlast
  | some d =>
    obtain ⟨width, _, hwidth⟩ := List.exists_of_findSome?_eq_some hfound
    obtain ⟨q, hq, rfl⟩ := Option.map_eq_some_iff.1 hwidth
    exact (Grid.reads_iff hm e _ q).1 (Grid.hit?_reads hq)

/-- The shortest decimal of a positive number is positive. -/
theorem shortest_pos {m : Nat} {e : Int} (h : IsDouble m e) (hm : 0 < m) :
    0 < (shortest m e).digits := by
  have hlow := (shortest_rounds h hm).low
  have hreach : (reach m e : ℚ) ≤ 2 := by exact_mod_cast reach_le m e
  have hsignificand : (1 : ℚ) ≤ m := by exact_mod_cast hm
  have hpos : 0 < (shortest m e).value :=
    lt_of_lt_of_le (mul_pos (by linarith) (quarterPlace_pos e)) hlow
  by_contra hzero
  rw [Decimal.value, Nat.eq_zero_of_not_pos hzero] at hpos
  simp at hpos

/-- **Numbers with shortest decimals of the same value are the same.** -/
theorem shortest_unique {m m' : Nat} {e e' : Int} (h : IsDouble m e) (h' : IsDouble m' e')
    (hm : 0 < m) (hm' : 0 < m') (hvalue : (shortest m e).value = (shortest m' e').value) :
    m = m' ∧ e = e' :=
  (shortest_rounds h hm).unique h h' (hvalue ▸ shortest_rounds h' hm')

end LoxLang.Number
