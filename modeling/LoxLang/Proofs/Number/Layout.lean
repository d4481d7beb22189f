import LoxLang.Number.Layout
import LoxLang.Proofs.Number.Shortest

/-!
# The text of a number tells the number

The text of a number in the format of `print` is that of its shortest decimal, whose value can be
read off the text.

* `digitsNat`, `textValue` — the values of digits and of a text.
* `IsNumberText` — digits, points, signs and marks of an exponent, a digit first.

Principal results: `textValue_writeDigits`, `printed_injective`, `printed_isNumberText`.
-/

namespace LoxLang.Number

/-! ## Digits -/

/-- The value of digits. -/
def digitsNat (cs : List Char) : Nat := Nat.ofDigitChars 10 cs 0

theorem digitsNat_append (cs ds : List Char) :
    digitsNat (cs ++ ds) = digitsNat cs * 10 ^ ds.length + digitsNat ds := by
  unfold digitsNat
  rw [Nat.ofDigitChars_append, Nat.ofDigitChars_eq_ofDigitChars_zero, Nat.mul_comm]

theorem digitsNat_zeros (n : Nat) : digitsNat (zeros n) = 0 := by
  unfold digitsNat zeros
  rw [Nat.ofDigitChars_replicate_zero, Nat.mul_zero]

theorem digitsNat_toDigits (n : Nat) : digitsNat (Nat.toDigits 10 n) = n :=
  Nat.ofDigitChars_ten_toDigits

def AllDigits (cs : List Char) : Prop := ∀ c ∈ cs, c.isDigit = true

theorem allDigits_zeros (n : Nat) : AllDigits (zeros n) := by
  intro c hc
  rw [List.eq_of_mem_replicate hc]
  rfl

theorem AllDigits.append {cs ds : List Char} (h : AllDigits cs) (h' : AllDigits ds) :
    AllDigits (cs ++ ds) := by
  intro c hc
  rcases List.mem_append.1 hc with hc | hc
  · exact h c hc
  · exact h' c hc

theorem allDigits_toDigits (n : Nat) : AllDigits (Nat.toDigits 10 n) := fun _ hc =>
  Nat.isDigit_of_mem_toDigits (by decide) (by decide) hc

/-- What is dropped behind the last digit other than zero. -/
theorem dropTrailingZeros_append (digits : List Char) :
    ∃ n, digits = dropTrailingZeros digits ++ zeros n := by
  have hsplit := List.takeWhile_append_dropWhile (p := (· == '0')) (l := digits.reverse)
  generalize hrun : digits.reverse.takeWhile (· == '0') = run at hsplit
  have hzeros : run = List.replicate run.length '0' := by
    refine List.eq_replicate_iff.2 ⟨rfl, fun c hc => ?_⟩
    rw [← hrun] at hc
    simpa using List.mem_takeWhile_imp hc
  refine ⟨run.length, ?_⟩
  calc digits = (digits.reverse.dropWhile (· == '0')).reverse ++ run.reverse := by
        rw [← List.reverse_append, hsplit, List.reverse_reverse]
    _ = dropTrailingZeros digits ++ zeros run.length := by
        rw [hzeros, List.reverse_replicate, List.length_replicate]
        rfl

/-! ## The value of a text -/

/-- The exponent behind a mantissa. -/
def textExponent : List Char → Int
  | 'e' :: '-' :: digits => -digitsNat digits
  | 'e' :: '+' :: digits => digitsNat digits
  | _ => 0

/-- The value of digits with at most one point. -/
def mantissaValue (cs : List Char) : ℚ :=
  let places := (cs.dropWhile (· != '.')).drop 1
  digitsNat (cs.takeWhile (· != '.') ++ places) * 10 ^ (-(places.length : Int))

/-- The value of a text. -/
def textValue (cs : List Char) : ℚ :=
  mantissaValue (cs.takeWhile (· != 'e')) * 10 ^ textExponent (cs.dropWhile (· != 'e'))

theorem ne_of_isDigit {c d : Char} (h : c.isDigit = true) (hd : d.isDigit = false) :
    (c != d) = true := by
  rw [bne_iff_ne]
  rintro rfl
  rw [h] at hd
  cases hd

theorem AllDigits.ne {cs : List Char} (h : AllDigits cs) {d : Char} (hd : d.isDigit = false) :
    ∀ c ∈ cs, (c != d) = true := fun c hc => ne_of_isDigit (h c hc) hd

/-- Digits without a point. -/
theorem mantissaValue_whole {cs : List Char} (h : AllDigits cs) : mantissaValue cs = digitsNat cs := by
  have hpoint := h.ne (d := '.') rfl
  unfold mantissaValue
  rw [List.takeWhile_eq_self_iff.2 hpoint, List.dropWhile_eq_nil_iff.2 hpoint]
  simp

/-- Digits with a point. -/
theorem mantissaValue_point {cs ds : List Char} (h : AllDigits cs) :
    mantissaValue (cs ++ '.' :: ds) = digitsNat (cs ++ ds) * 10 ^ (-(ds.length : Int)) := by
  have hpoint := h.ne (d := '.') rfl
  unfold mantissaValue
  rw [List.takeWhile_append_of_pos hpoint, List.dropWhile_append_of_pos hpoint]
  simp

theorem textValue_plain {cs : List Char} (h : ∀ c ∈ cs, (c != 'e') = true) :
    textValue cs = mantissaValue cs := by
  unfold textValue
  rw [List.takeWhile_eq_self_iff.2 h, List.dropWhile_eq_nil_iff.2 h]
  simp [textExponent]

theorem textValue_exponent {cs ds : List Char} (h : ∀ c ∈ cs, (c != 'e') = true) :
    textValue (cs ++ 'e' :: ds) = mantissaValue cs * 10 ^ textExponent ('e' :: ds) := by
  unfold textValue
  rw [List.takeWhile_append_of_pos h, List.dropWhile_append_of_pos h]
  simp

theorem length_zeros (n : Nat) : (zeros n).length = n := List.length_replicate

/-! ### The layout of `print` -/

/-- The first digit, and the others behind a point. -/
def leading : List Char → List Char
  | [] => []
  | [d] => [d]
  | d :: ds => d :: '.' :: ds

/-- An exponent with its mark and its sign. -/
def scaleText (exponent : Int) : List Char :=
  'e' :: (if exponent < 0 then '-' else '+') ::
    (zeros (2 - (Nat.toDigits 10 exponent.natAbs).length) ++ Nat.toDigits 10 exponent.natAbs)

/-- The four forms of the text of a decimal. -/
theorem printed_writeDigits (digits : List Char) (exponent : Int) :
    printed.writeDigits digits exponent =
      if -4 ≤ exponent ∧ exponent < 16 then
        if exponent < 0 then zeros 1 ++ '.' :: (zeros ((-exponent).toNat - 1) ++ digits)
        else if digits.length ≤ exponent.toNat + 1 then
          digits ++ zeros (exponent.toNat + 1 - digits.length)
        else digits.take (exponent.toNat + 1) ++ '.' :: digits.drop (exponent.toNat + 1)
      else leading digits ++ scaleText exponent := by
  have hending : printed.wholeEnding.toList = [] := rfl
  unfold Layout.writeDigits
  simp only [hending, List.append_nil, List.append_assoc, List.cons_append]
  rfl

theorem textExponent_scaleText (exponent : Int) : textExponent (scaleText exponent) = exponent := by
  unfold scaleText
  generalize 2 - (Nat.toDigits 10 exponent.natAbs).length = width
  have hsize : digitsNat (zeros width ++ Nat.toDigits 10 exponent.natAbs) = exponent.natAbs := by
    rw [digitsNat_append, digitsNat_zeros, digitsNat_toDigits, Nat.zero_mul, Nat.zero_add]
  split
  · show -((digitsNat _ : Nat) : Int) = exponent
    rw [hsize]
    omega
  · show ((digitsNat _ : Nat) : Int) = exponent
    rw [hsize]
    omega

theorem ne_mark_of_point {cs ds : List Char} (h : AllDigits cs) (h' : AllDigits ds) :
    ∀ c ∈ cs ++ '.' :: ds, (c != 'e') = true := by
  intro c hc
  rcases List.mem_append.1 hc with hc | hc
  · exact h.ne rfl c hc
  · rcases List.mem_cons.1 hc with rfl | hc
    · rfl
    · exact h'.ne rfl c hc

theorem textValue_point {cs ds : List Char} (h : AllDigits cs) (h' : AllDigits ds) :
    textValue (cs ++ '.' :: ds) = digitsNat (cs ++ ds) * 10 ^ (-(ds.length : Int)) := by
  rw [textValue_plain (ne_mark_of_point h h'), mantissaValue_point h]

theorem AllDigits.take {cs : List Char} (h : AllDigits cs) (n : Nat) : AllDigits (cs.take n) :=
  fun c hc => h c (List.mem_of_mem_take hc)

theorem AllDigits.drop {cs : List Char} (h : AllDigits cs) (n : Nat) : AllDigits (cs.drop n) :=
  fun c hc => h c (List.mem_of_mem_drop hc)

theorem mantissaValue_leading {digits : List Char} (h : AllDigits digits) (hne : digits ≠ []) :
    (∀ c ∈ leading digits, (c != 'e') = true) ∧
      mantissaValue (leading digits) = digitsNat digits * 10 ^ (1 - (digits.length : Int)) := by
  match digits, hne with
  | [d], _ => exact ⟨h.ne rfl, by rw [leading, mantissaValue_whole h]; simp⟩
  | d :: d' :: ds, _ =>
    have hd : AllDigits [d] := h.take 1
    have hds : AllDigits (d' :: ds) := h.drop 1
    rw [show leading (d :: d' :: ds) = [d] ++ '.' :: (d' :: ds) from rfl]
    refine ⟨ne_mark_of_point hd hds, ?_⟩
    rw [mantissaValue_point hd]
    congr 2

/-- **The text of a decimal tells its value.** -/
theorem textValue_writeDigits {digits : List Char} (h : AllDigits digits) (hne : digits ≠ [])
    (exponent : Int) : textValue (printed.writeDigits digits exponent) =
      digitsNat digits * 10 ^ (exponent + 1 - digits.length) := by
  rw [printed_writeDigits]
  split_ifs with hplaces hsmall hwhole
  · -- zeros stand between the point and the digits
    generalize hn : (-exponent).toNat - 1 = n
    have hzeros : zeros 1 ++ (zeros n ++ digits) = zeros (n + 1) ++ digits := by
      rw [zeros, zeros, zeros, List.replicate_succ]
      rfl
    rw [textValue_point (allDigits_zeros 1) ((allDigits_zeros n).append h), hzeros,
      digitsNat_append, digitsNat_zeros, List.length_append, length_zeros]
    congr 2
    · ring
    · omega
  · -- zeros fill up a whole number
    generalize hn : exponent.toNat + 1 - digits.length = n
    have hall := h.append (allDigits_zeros n)
    rw [textValue_plain (hall.ne rfl), mantissaValue_whole hall, digitsNat_append, digitsNat_zeros,
      length_zeros, show exponent + 1 - digits.length = (n : Int) from by omega, zpow_natCast]
    push_cast
    ring
  · -- the point stands among the digits
    rw [textValue_point (h.take _) (h.drop _), List.take_append_drop, List.length_drop]
    congr 2
    omega
  · obtain ⟨hmark, hmantissa⟩ := mantissaValue_leading h hne
    have hvalue : textValue (leading digits ++ scaleText exponent) =
        mantissaValue (leading digits) * 10 ^ textExponent (scaleText exponent) :=
      textValue_exponent hmark
    rw [hvalue, hmantissa, textExponent_scaleText, mul_assoc, ← zpow_add₀ (by norm_num)]
    congr 2
    omega

/-! ## Numbers -/

theorem digitsNat_dropTrailingZeros {n : Nat} (hn : 0 < n) :
    dropTrailingZeros (Nat.toDigits 10 n) ≠ [] ∧ AllDigits (dropTrailingZeros (Nat.toDigits 10 n)) ∧
      ∃ k, n = digitsNat (dropTrailingZeros (Nat.toDigits 10 n)) * 10 ^ k ∧
        (Nat.toDigits 10 n).length = (dropTrailingZeros (Nat.toDigits 10 n)).length + k := by
  obtain ⟨k, hk⟩ := dropTrailingZeros_append (Nat.toDigits 10 n)
  generalize dropTrailingZeros (Nat.toDigits 10 n) = digits at hk ⊢
  have hvalue : n = digitsNat digits * 10 ^ k := by
    conv_lhs => rw [← digitsNat_toDigits n, hk, digitsNat_append, digitsNat_zeros, length_zeros]
    rfl
  refine ⟨?_, ?_, k, hvalue, ?_⟩
  · rintro rfl
    rw [show digitsNat [] = 0 from rfl, Nat.zero_mul] at hvalue
    omega
  · intro c hc
    exact allDigits_toDigits n c (hk ▸ List.mem_append_left _ hc)
  · rw [hk, List.length_append, length_zeros]

/-- The text of a positive number tells the value of its shortest decimal. -/
theorem textValue_writeFinite {m : Nat} {e : Int} (h : IsDouble m e) (hm : 0 < m) :
    textValue (printed.writeFinite m e) = (shortest m e).value := by
  obtain ⟨hne, hall, k, hvalue, hlength⟩ := digitsNat_dropTrailingZeros (shortest_pos h hm)
  unfold Layout.writeFinite
  rw [if_neg (by omega)]
  simp only
  rw [textValue_writeDigits hall hne, Decimal.value]
  conv_rhs => rw [hvalue]
  rw [Nat.cast_mul, Nat.cast_pow, mul_assoc, Nat.cast_ofNat, ← zpow_natCast,
    ← zpow_add₀ (by norm_num)]
  congr 2
  omega

theorem textValue_zero (e : Int) : textValue (printed.writeFinite 0 e) = 0 := by
  have htext : printed.writeFinite 0 e = zeros 1 := rfl
  rw [htext, textValue_plain ((allDigits_zeros 1).ne rfl), mantissaValue_whole (allDigits_zeros 1)]
  rfl

/-- The text of a number that is not negative. -/
theorem write_of_finite {x : Float} {m : Nat} {e : Int} (h : Parts.ofFloat x = .finite false m e) :
    (printed.write x).toList = printed.writeFinite m e := by
  unfold Layout.write
  rw [h]
  simp [withSign]

/-- **The text of a number tells the number.** -/
theorem printed_injective {x y : Float} {m m' : Nat} {e e' : Int}
    (hx : Parts.ofFloat x = .finite false m e) (hy : Parts.ofFloat y = .finite false m' e')
    (h : printed.write x = printed.write y) : x = y := by
  have hd := Parts.isDouble hx
  have hd' := Parts.isDouble hy
  have hvalue : textValue (printed.writeFinite m e) = textValue (printed.writeFinite m' e') := by
    rw [← write_of_finite hx, ← write_of_finite hy, h]
  have hpositive : ∀ {m : Nat} {e : Int}, IsDouble m e → 0 < m →
      0 < textValue (printed.writeFinite m e) := fun hd hm => by
    have hdigits := shortest_pos hd hm
    rw [textValue_writeFinite hd hm, Decimal.value]
    positivity
  have hsame : m = m' ∧ e = e' := by
    rcases Nat.eq_zero_or_pos m with rfl | hm <;> rcases Nat.eq_zero_or_pos m' with rfl | hm'
    · refine ⟨rfl, ?_⟩
      -- zero has the least exponent
      have hleast : ∀ {e : Int}, IsDouble 0 e → e = leastExponent := fun hd => by
        by_contra hne
        have hnormal := hd.normal (lt_of_le_of_ne hd.least (Ne.symm hne))
        omega
      rw [hleast hd, hleast hd']
    · have hlt := hpositive hd' hm'
      rw [← hvalue, textValue_zero] at hlt
      exact absurd hlt (lt_irrefl 0)
    · have hlt := hpositive hd hm
      rw [hvalue, textValue_zero] at hlt
      exact absurd hlt (lt_irrefl 0)
    · rw [textValue_writeFinite hd hm, textValue_writeFinite hd' hm'] at hvalue
      exact shortest_unique hd hd' hm hm' hvalue
  obtain ⟨rfl, rfl⟩ := hsame
  exact Parts.ofFloat_injective hx hy

/-! ## The characters of the text -/

/-- Digits, points, signs and marks of an exponent, a digit first. -/
structure IsNumberText (cs : List Char) : Prop where
  first : ∃ c rest, cs = c :: rest ∧ c.isDigit = true
  all : ∀ c ∈ cs, c.isDigit = true ∨ c = '.' ∨ c = 'e' ∨ c = '+' ∨ c = '-'

theorem AllDigits.isNumberText {cs : List Char} (h : AllDigits cs) (hne : cs ≠ []) :
    IsNumberText cs := by
  cases cs with
  | nil => exact absurd rfl hne
  | cons c rest => exact ⟨⟨c, rest, rfl, h c (by simp)⟩, fun d hd => .inl (h d hd)⟩

/-- Something that starts with digits, and goes on with any of the characters. -/
theorem IsNumberText.append {cs ds : List Char} (h : IsNumberText cs)
    (h' : ∀ c ∈ ds, c.isDigit = true ∨ c = '.' ∨ c = 'e' ∨ c = '+' ∨ c = '-') :
    IsNumberText (cs ++ ds) := by
  obtain ⟨c, rest, rfl, hc⟩ := h.first
  refine ⟨⟨c, rest ++ ds, rfl, hc⟩, fun d hd => ?_⟩
  rcases List.mem_append.1 hd with hd | hd
  · exact h.all d hd
  · exact h' d hd

theorem AllDigits.point {ds : List Char} (h : AllDigits ds) :
    ∀ c ∈ '.' :: ds, c.isDigit = true ∨ c = '.' ∨ c = 'e' ∨ c = '+' ∨ c = '-' := by
  intro c hc
  rcases List.mem_cons.1 hc with rfl | hc
  · exact .inr (.inl rfl)
  · exact .inl (h c hc)

theorem scaleText_chars (exponent : Int) : ∀ c ∈ scaleText exponent,
    c.isDigit = true ∨ c = '.' ∨ c = 'e' ∨ c = '+' ∨ c = '-' := by
  have hdigits := (allDigits_zeros (2 - (Nat.toDigits 10 exponent.natAbs).length)).append
    (allDigits_toDigits exponent.natAbs)
  intro c hc
  rcases List.mem_cons.1 hc with rfl | hc
  · exact .inr (.inr (.inl rfl))
  · rcases List.mem_cons.1 hc with rfl | hc
    · split <;> simp
    · exact .inl (hdigits c hc)

theorem isNumberText_writeDigits {digits : List Char} (h : AllDigits digits) (hne : digits ≠ [])
    (exponent : Int) : IsNumberText (printed.writeDigits digits exponent) := by
  rw [printed_writeDigits]
  split_ifs with hplaces hsmall hwhole
  · exact ((allDigits_zeros 1).isNumberText (by decide)).append
      ((allDigits_zeros _).append h).point
  · exact (h.append (allDigits_zeros _)).isNumberText (by simp [hne])
  · refine ((h.take _).isNumberText ?_).append (h.drop _).point
    simp [hne]
  · refine IsNumberText.append ?_ (scaleText_chars exponent)
    match digits, hne with
    | [d], _ => exact h.isNumberText (by simp)
    | d :: d' :: ds, _ => exact ((h.take 1).isNumberText (by simp)).append (h.drop 1).point

/-- The text of a number that is not negative is made up of digits, points, signs and marks, a digit
first. -/
theorem printed_isNumberText {x : Float} {m : Nat} {e : Int}
    (h : Parts.ofFloat x = .finite false m e) : IsNumberText (printed.write x).toList := by
  rw [write_of_finite h]
  rcases Nat.eq_zero_or_pos m with rfl | hm
  · exact (allDigits_zeros 1).isNumberText (by decide)
  · obtain ⟨hne, hall, _⟩ := digitsNat_dropTrailingZeros (shortest_pos (Parts.isDouble h) hm)
    unfold Layout.writeFinite
    rw [if_neg (by omega)]
    exact isNumberText_writeDigits hall hne _

end LoxLang.Number
