/-
Rounding gives a magnitude back.

The magnitude nearest to a quotient depends on the quotient alone
(`nearest?_scale`), and a quotient that is a magnitude is rounded to it
(`nearest?_ratio`). A decimal therefore stands for the same magnitude with and
without zeros at its end, and the exact expansion of a magnitude stands for
it, so the shortest decimal does too (`magnitude?_shortest`): the digits that
are tried are kept only if they read back, and the exact ones always do.
-/
import Courseware.Number.Shortest

namespace Courseware

theorem natPow_add (a m n : Nat) : Nat.pow a (m + n) = Nat.pow a m * Nat.pow a n :=
  Nat.pow_add a m n

theorem natPow_zero (a : Nat) : Nat.pow a 0 = 1 := rfl

theorem natPow_one (a : Nat) : Nat.pow a 1 = a := Nat.pow_one a

theorem natPow_le {a m n : Nat} (ha : 0 < a) (h : m ≤ n) : Nat.pow a m ≤ Nat.pow a n :=
  Nat.pow_le_pow_right ha h

theorem natPow_pos {a : Nat} (h : 0 < a) (n : Nat) : 0 < Nat.pow a n := Nat.pow_pos h

namespace Tie

theorem nearest_scale (tie : Tie) {k : Nat} (hk : 0 < k) (num den : Nat) :
    tie.nearest (k * num) (k * den) = tie.nearest num den := by
  have hlt : ∀ a b, (2 * (k * a) < k * b) = (2 * a < b) := by
    intro a b
    rw [← Nat.mul_assoc, Nat.mul_comm 2, Nat.mul_assoc, Nat.mul_lt_mul_left hk]
  have hgt : ∀ a b, (k * b < 2 * (k * a)) = (b < 2 * a) := by
    intro a b
    rw [← Nat.mul_assoc, Nat.mul_comm 2, Nat.mul_assoc, Nat.mul_lt_mul_left hk]
  simp only [nearest, Nat.mul_div_mul_left _ _ hk, Nat.mul_mod_mul_left, hlt, hgt]

theorem nearest_exact (tie : Tie) (n : Nat) {den : Nat} (hden : 0 < den) :
    tie.nearest (n * den) den = n := by
  have hmod : 2 * (n * den % den) < den := by rw [Nat.mul_mod_left]; exact hden
  simp only [nearest, if_pos hmod, Nat.mul_div_cancel n hden]

end Tie

namespace Magnitude

theorem nearest?_scale {k : Nat} (hk : 0 < k) (num den : Nat) :
    nearest? (k * num) (k * den) = nearest? num den := by
  have hexponent : ∀ units, exponentOf (k * units) (k * den) = exponentOf units den := by
    intro units
    rw [exponentOf, Nat.mul_div_mul_left _ _ hk, exponentOf]
  simp only [nearest?, Nat.mul_assoc, hexponent, Tie.nearest_scale _ hk]

/-- The exponent that rounding finds for the units of a canonical magnitude. -/
theorem log2_units {mantissa exponent : Nat} (h : Canonical mantissa exponent) :
    (mantissa * Nat.pow 2 exponent).log2 - 52 = exponent := by
  obtain ⟨hlt, -, rfl | hle⟩ := h
  · by_cases hzero : mantissa = 0
    · subst hzero
      rw [Nat.zero_mul, Nat.log2_zero]
    · have hlog : (mantissa * Nat.pow 2 0).log2 < 53 := by
        show (mantissa * 1).log2 < 53
        rw [Nat.mul_one]
        exact (Nat.log2_lt hzero).mpr hlt
      exact Nat.sub_eq_zero_of_le (Nat.le_of_lt_succ hlog)
  · have hpos := natPow_pos (Nat.zero_lt_two) exponent
    have hmantissa : 0 < mantissa := Nat.lt_of_lt_of_le (natPow_pos Nat.zero_lt_two 52) hle
    have hlog : (mantissa * Nat.pow 2 exponent).log2 = 52 + exponent := by
      refine (Nat.log2_eq_iff (Nat.ne_of_gt (Nat.mul_pos hmantissa hpos))).mpr ⟨?_, ?_⟩
      · show Nat.pow 2 (52 + exponent) ≤ _
        rw [natPow_add]
        exact Nat.mul_le_mul_right _ hle
      · show _ < Nat.pow 2 (52 + exponent + 1)
        rw [Nat.add_right_comm, natPow_add]
        exact Nat.mul_lt_mul_of_pos_right hlt hpos
    rw [hlog, Nat.add_sub_cancel_left]

/-- **A quotient that is a magnitude is rounded to it.** -/
theorem nearest?_exact (m : Magnitude) {num den : Nat} (hden : 0 < den)
    (h : num * Nat.pow 2 1074 = m.mantissa * Nat.pow 2 m.exponent * den) :
    nearest? num den = some m := by
  have hexponent : exponentOf (num * Nat.pow 2 1074) den = m.exponent := by
    rw [exponentOf, h, Nat.mul_div_cancel _ hden, log2_units m.canonical]
  have hround : Tie.even.nearest (num * Nat.pow 2 1074) (den * Nat.pow 2 m.exponent) =
      m.mantissa := by
    rw [h, Nat.mul_assoc, Nat.mul_comm _ den]
    exact Tie.nearest_exact _ _ (Nat.mul_pos hden (natPow_pos Nat.zero_lt_two _))
  simp only [nearest?, hexponent, hround]
  rw [ofRounded?, dif_pos m.canonical]

theorem ratio_pos (m : Magnitude) : 0 < m.ratio.2 := by
  unfold ratio
  split
  · exact Nat.zero_lt_one
  · exact natPow_pos Nat.zero_lt_two _

theorem ratio_units (m : Magnitude) :
    m.ratio.1 * Nat.pow 2 1074 = m.mantissa * Nat.pow 2 m.exponent * m.ratio.2 := by
  by_cases h : 1074 ≤ m.exponent
  · obtain ⟨k, hk⟩ := Nat.exists_eq_add_of_le h
    simp only [ratio, if_pos h]
    rw [hk, Nat.add_sub_cancel_left, natPow_add 2 1074 k, Nat.mul_one, Nat.mul_assoc,
      Nat.mul_comm (Nat.pow 2 k)]
  · simp only [ratio, if_neg h]
    rw [Nat.mul_assoc, ← natPow_add 2 m.exponent, Nat.add_sub_cancel' (Nat.le_of_not_le h)]

/-- A magnitude is nearest to itself. -/
theorem nearest?_ratio (m : Magnitude) : nearest? m.ratio.1 m.ratio.2 = some m :=
  nearest?_exact m m.ratio_pos m.ratio_units

end Magnitude

/-! ## Decimals -/

namespace Decimal

theorem width_mul_ten {n : Nat} (hn : 0 < n) : width (n * 10) = width n + 1 := by
  have h := Nat.toDigits_append_toDigits (b := 10) (d := 0) (by decide) hn (by decide)
  rw [Nat.add_zero, Nat.mul_comm] at h
  rw [width, ← h, List.length_append]
  rfl

theorem width_le_iff {n k : Nat} (hk : 0 < k) : width n ≤ k ↔ n < Nat.pow 10 k :=
  Nat.length_toDigits_le_iff (by decide) hk

theorem width_pos (n : Nat) : 0 < width n := Nat.length_toDigits_pos

/-- **A zero at the end of the digits is one more in the exponent.** -/
theorem magnitude?_mul_ten {n : Nat} (hn : 0 < n) (e : Int) :
    (⟨n * 10, e⟩ : Decimal).magnitude? = (⟨n, e + 1⟩ : Decimal).magnitude? := by
  have hzero : n * 10 ≠ 0 := by omega
  have hplaces : e + ((width n + 1 : Nat) : Int) = e + 1 + width n := by omega
  have hnearest : Magnitude.nearest? (ratio ⟨n * 10, e⟩).1 (ratio ⟨n * 10, e⟩).2 =
      Magnitude.nearest? (ratio ⟨n, e + 1⟩).1 (ratio ⟨n, e + 1⟩).2 := by
    by_cases he : 0 ≤ e
    · obtain ⟨k, rfl⟩ := Int.eq_ofNat_of_zero_le he
      have hk : ((k : Int) + 1).toNat = 1 + k := by omega
      have he' : (0 : Int) ≤ k + 1 := by omega
      simp only [ratio, if_pos he, if_pos he', hk, Int.toNat_natCast, natPow_add, natPow_one,
        Nat.mul_assoc]
    · obtain ⟨k, hk⟩ : ∃ k : Nat, e = -(k + 1 : Int) := ⟨(-e - 1).toNat, by omega⟩
      have hden : (-e).toNat = 1 + k := by omega
      rw [← Magnitude.nearest?_scale (k := 10) (by decide) (ratio ⟨n, e + 1⟩).1]
      by_cases hk0 : 0 ≤ e + 1
      · have hk' : k = 0 := by omega
        have he' : (e + 1).toNat = 0 := by omega
        subst hk'
        simp only [ratio, if_neg he, if_pos hk0, hden, he', natPow_zero, natPow_one, Nat.add_zero,
          Nat.mul_one, Nat.one_mul, Nat.mul_comm n]
      · have he' : (-(e + 1)).toNat = k := by omega
        simp only [ratio, if_neg he, if_neg hk0, hden, he', natPow_add, natPow_one,
          Nat.mul_comm n]
  simp only [magnitude?, if_neg hzero, if_neg (Nat.ne_of_gt hn), width_mul_ten hn, hplaces,
    hnearest]

theorem magnitude?_stripZeros (fuel : Nat) (d : Decimal) :
    (stripZeros fuel d).magnitude? = d.magnitude? := by
  induction fuel generalizing d with
  | zero => rfl
  | succ fuel ih =>
    rw [stripZeros]
    split
    · next h =>
      have hdigits : d.digits = d.digits / 10 * 10 := by omega
      rw [ih, ← magnitude?_mul_ten (by omega), ← hdigits]
    · rfl

/-- The digits that a decimal needs stand for the same magnitude. -/
theorem magnitude?_normal (d : Decimal) : d.normal.magnitude? = d.magnitude? :=
  magnitude?_stripZeros _ d

/-- A decimal that is neither huge nor tiny stands for the magnitude nearest to it. -/
theorem magnitude?_eq_nearest? {d : Decimal} (hd : d.digits ≠ 0)
    (hlow : -400 ≤ d.exponent + width d.digits) (hhigh : d.exponent + width d.digits ≤ 400) :
    d.magnitude? = Magnitude.nearest? d.ratio.1 d.ratio.2 := by
  have hlow' : ¬ d.exponent + width d.digits < -400 := by omega
  have hhigh' : ¬ 400 < d.exponent + width d.digits := by omega
  simp only [magnitude?, if_neg hd, if_neg hlow', if_neg hhigh']

end Decimal

/-! ## The shortest decimal -/

namespace Magnitude

theorem exactDecimal_digits_pos {m : Magnitude} (hm : m.mantissa ≠ 0) :
    0 < m.exactDecimal.digits := by
  unfold exactDecimal
  split
  · exact Nat.mul_pos (Nat.pos_of_ne_zero hm) (natPow_pos (by decide) _)
  · exact Nat.mul_pos (Nat.pos_of_ne_zero hm) (natPow_pos (by decide) _)

/-- No magnitude has more than 400 digits before the point. -/
theorem exactDecimal_high (m : Magnitude) :
    m.exactDecimal.exponent + Decimal.width m.exactDecimal.digits ≤ 400 := by
  obtain ⟨hmantissa, hexponent, -⟩ := m.canonical
  unfold exactDecimal
  split
  · next h =>
    have hlt : m.mantissa * Nat.pow 2 (m.exponent - 1074) < Nat.pow 10 400 := by
      calc m.mantissa * Nat.pow 2 (m.exponent - 1074)
          ≤ Nat.pow 2 53 * Nat.pow 2 971 :=
            Nat.mul_le_mul (Nat.le_of_lt hmantissa) (natPow_le (n := 971) (by decide) (by omega))
        _ < Nat.pow 10 400 := by decide +kernel
    have hwidth := (Decimal.width_le_iff (by decide)).mpr hlt
    dsimp only
    omega
  · next h =>
    generalize hk : 1074 - m.exponent = k
    have hlt : m.mantissa * Nat.pow 5 k < Nat.pow 10 (400 + k) := by
      calc m.mantissa * Nat.pow 5 k
          ≤ Nat.pow 2 53 * Nat.pow 10 k :=
            Nat.mul_le_mul (Nat.le_of_lt hmantissa) (Nat.pow_le_pow_left (by decide) k)
        _ < Nat.pow 10 400 * Nat.pow 10 k :=
            Nat.mul_lt_mul_of_pos_right (by decide +kernel) (natPow_pos (by decide) k)
        _ = Nat.pow 10 (400 + k) := (natPow_add 10 400 k).symm
    have hwidth := (Decimal.width_le_iff (by omega)).mpr hlt
    dsimp only
    omega

/-- No magnitude but zero has more than 400 zeros after the point. -/
theorem exactDecimal_low {m : Magnitude} (hm : m.mantissa ≠ 0) :
    -400 ≤ m.exactDecimal.exponent + Decimal.width m.exactDecimal.digits := by
  unfold exactDecimal
  split
  · dsimp only
    omega
  · next h =>
    generalize hk : 1074 - m.exponent = k
    dsimp only
    have hpos := Decimal.width_pos (m.mantissa * Nat.pow 5 k)
    by_cases hsmall : k ≤ 401
    · omega
    · obtain ⟨j, rfl⟩ := Nat.exists_eq_add_of_le (Nat.le_of_not_le hsmall)
      -- ten to the `j` is five and two to the `j`, and the twos are less than the other fives
      have htwos : Nat.pow 2 j ≤ Nat.pow 5 401 :=
        Nat.le_trans (natPow_le (n := 673) (by decide) (by omega)) (by decide +kernel)
      have hle : Nat.pow 10 j ≤ m.mantissa * Nat.pow 5 (401 + j) := by
        calc Nat.pow 10 j = Nat.pow 2 j * Nat.pow 5 j := Nat.mul_pow 2 5 j
          _ ≤ Nat.pow 5 401 * Nat.pow 5 j := Nat.mul_le_mul_right _ htwos
          _ = Nat.pow 5 (401 + j) := (natPow_add 5 401 j).symm
          _ ≤ m.mantissa * Nat.pow 5 (401 + j) := Nat.le_mul_of_pos_left _ (Nat.pos_of_ne_zero hm)
      have hwidth : ¬ Decimal.width (m.mantissa * Nat.pow 5 (401 + j)) ≤ j := by
        rw [Decimal.width_le_iff (by omega)]
        exact Nat.not_lt.mpr hle
      omega

/-- **Every digit of a magnitude reads back.** -/
theorem exactDecimal_magnitude? {m : Magnitude} (hm : m.mantissa ≠ 0) :
    m.exactDecimal.magnitude? = some m := by
  have hpos := exactDecimal_digits_pos hm
  rw [Decimal.magnitude?_eq_nearest? (Nat.ne_of_gt hpos) (exactDecimal_low hm)
    (exactDecimal_high m)]
  by_cases h : 1074 ≤ m.exponent
  · have hratio : m.exactDecimal.ratio = m.ratio := by
      simp only [exactDecimal, Decimal.ratio, ratio, if_pos h, Int.le_refl, if_true, Int.toNat_zero,
        natPow_zero, Nat.mul_one]
    rw [hratio]
    exact nearest?_ratio m
  · have he : ¬ (0 : Int) ≤ (m.exponent : Int) - 1074 := by omega
    have hk : (-((m.exponent : Int) - 1074)).toNat = 1074 - m.exponent := by omega
    have hten : Nat.pow 10 (1074 - m.exponent) =
        Nat.pow 5 (1074 - m.exponent) * Nat.pow 2 (1074 - m.exponent) := Nat.mul_pow 5 2 _
    rw [← nearest?_ratio m, ← nearest?_scale (k := Nat.pow 5 (1074 - m.exponent))
      (natPow_pos (by decide) _) m.ratio.1]
    simp only [exactDecimal, Decimal.ratio, ratio, if_neg h, if_neg he, hk, hten, Nat.mul_comm]

theorem roundTo?_magnitude? {tie : Tie} {m : Magnitude} {count : Nat} {d : Decimal}
    (h : m.roundTo? tie count = some d) : d.magnitude? = some m := by
  unfold roundTo? at h
  obtain ⟨digits, -, hd⟩ := List.exists_of_findSome?_eq_some h
  dsimp only at hd
  split at hd
  · next hm =>
    cases hd
    exact hm
  · cases hd

/-- **The shortest decimal of a magnitude reads back.** -/
theorem magnitude?_shortest (tie : Tie) (m : Magnitude) : (m.shortest tie).magnitude? = some m := by
  unfold shortest
  by_cases hm : m.mantissa = 0
  · rw [if_pos hm]
    obtain ⟨-, -, hexponent | hle⟩ := m.canonical
    · cases m with
      | mk mantissa exponent canonical =>
        dsimp only at hm hexponent
        subst hm hexponent
        rfl
    · rw [hm] at hle
      exact absurd hle (by decide)
  · rw [if_neg hm, Decimal.magnitude?_normal]
    cases hfound : (List.range 17).findSome? fun i => m.roundTo? tie (i + 1) with
    | none => exact exactDecimal_magnitude? hm
    | some d =>
      obtain ⟨i, -, hi⟩ := List.exists_of_findSome?_eq_some hfound
      exact roundTo?_magnitude? hi

end Magnitude

end Courseware
