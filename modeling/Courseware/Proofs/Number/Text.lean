/-
The text of a number is read back as the number.

A document writes a number as digits, with a point among them or not, after a
minus sign or not (`exists_isPointed`). Reading gives the same digits and the same
exponent, up to zeros at the end of a whole number, and so the decimal that was
written (`ofLiteral?_written`); and that one was chosen to read back
(`magnitude?_shortest`).
-/
import Courseware.Number.Text
import Courseware.Proofs.Number.Nearest
import Mathlib.Data.List.TakeWhile

namespace Courseware

/-- Whether every character is a digit. -/
def AllDigits (cs : List Char) : Prop := ∀ c ∈ cs, c.isDigit = true

theorem AllDigits.append {cs ds : List Char} (hcs : AllDigits cs) (hds : AllDigits ds) :
    AllDigits (cs ++ ds) := fun c hc => (List.mem_append.mp hc).elim (hcs c) (hds c)

theorem allDigits_zeros (n : Nat) : AllDigits (List.replicate n '0') := by
  intro c hc
  rw [List.eq_of_mem_replicate hc]
  rfl

theorem allDigits_toDigits (n : Nat) : AllDigits (Nat.toDigits 10 n) :=
  fun _ hc => Nat.isDigit_of_mem_toDigits (by decide) (by decide) hc

/-- Digits, and a point and more digits if there are more. -/
def pointed (whole fraction : List Char) : List Char :=
  whole ++ if fraction = [] then [] else '.' :: fraction

namespace Number

theorem digitsValue_eq (digits : List Char) :
    digitsValue digits = Nat.ofDigitChars 10 digits 0 := by
  simp only [digitsValue, Nat.ofDigitChars_eq_foldl, Nat.mul_comm]

theorem digitsValue_append_zeros (digits : List Char) (n : Nat) :
    digitsValue (digits ++ List.replicate n '0') = Nat.pow 10 n * digitsValue digits := by
  rw [digitsValue_eq, digitsValue_eq, Nat.ofDigitChars_append, Nat.ofDigitChars_replicate_zero]
  rfl

theorem digitsValue_zeros_append (n : Nat) (digits : List Char) :
    digitsValue (List.replicate n '0' ++ digits) = digitsValue digits := by
  rw [digitsValue_eq, digitsValue_eq, Nat.ofDigitChars_append, Nat.ofDigitChars_replicate_zero,
    Nat.mul_zero]

@[simp] theorem digitsValue_toDigits (n : Nat) : digitsValue (Nat.toDigits 10 n) = n := by
  rw [digitsValue_eq, Nat.ofDigitChars_ten_toDigits]

/-! ## Reading -/

/-- **Digits with a point among them are read as they stand.** -/
theorem decimal?_pointed {whole fraction : List Char} (hne : whole ≠ []) (hwhole : AllDigits whole)
    (hfraction : AllDigits fraction) :
    decimal? (pointed whole fraction) =
      some ⟨digitsValue (whole ++ fraction), -(fraction.length : Int)⟩ := by
  unfold decimal? pointed
  have htake := List.takeWhile_eq_self_iff.mpr hfraction
  have hdrop := List.dropWhile_eq_nil_iff.mpr hfraction
  by_cases h : fraction = []
  · subst h
    rw [if_pos rfl, List.append_nil, List.takeWhile_eq_self_iff.mpr hwhole,
      List.dropWhile_eq_nil_iff.mpr hwhole]
    simp [hne, exponent?]
  · rw [if_neg h, List.takeWhile_append_of_pos hwhole, List.dropWhile_append_of_pos hwhole]
    simp [htake, hdrop, hne, exponent?]

theorem toLower_of_isDigit {c : Char} (h : c.isDigit = true) : c.toLower = c := by
  have hle : c.val ≤ 57 := by
    simp only [Char.isDigit, Bool.and_eq_true, decide_eq_true_eq] at h
    exact h.2
  have hupper : ¬ (c.val ≥ 'A'.val ∧ c.val ≤ 'Z'.val) := by
    rintro ⟨hge, -⟩
    rw [ge_iff_le, UInt32.le_iff_toNat_le] at hge
    rw [UInt32.le_iff_toNat_le] at hle
    exact absurd (Nat.le_trans hge hle) (by decide)
  exact dif_neg hupper

/-- A text that starts with a digit is no word. -/
theorem unsigned?_of_isDigit {c : Char} (hc : c.isDigit = true) (negative : Bool) (cs : List Char) :
    unsigned? negative (c :: cs) =
      (decimal? (c :: cs)).map fun d => ofMagnitude? negative d.magnitude? := by
  have hlower := toLower_of_isDigit hc
  have hn : c ≠ 'n' := fun h => by rw [h] at hc; exact absurd hc (by decide)
  have hi : c ≠ 'i' := fun h => by rw [h] at hc; exact absurd hc (by decide)
  unfold unsigned?
  rw [List.map_cons, hlower]
  simp [hn, hi]

/-! ## Writing -/

/-- Zeros at the end of the digits are what the exponent counts. -/
theorem magnitude?_zeros (n k : Nat) :
    (⟨Nat.pow 10 k * n, 0⟩ : Decimal).magnitude? = (⟨n, k⟩ : Decimal).magnitude? := by
  by_cases hn : n = 0
  · simp only [hn, Nat.mul_zero, Decimal.magnitude?, if_true]
  · have hshift : ∀ j : Nat, (⟨Nat.pow 10 k * n, j⟩ : Decimal).magnitude? =
        (⟨n, ((j + k : Nat) : Int)⟩ : Decimal).magnitude? := by
      induction k with
      | zero => intro j; rw [natPow_zero, Nat.one_mul, Nat.add_zero]
      | succ k ih =>
        intro j
        have hpos : 0 < Nat.pow 10 k * n :=
          Nat.mul_pos (natPow_pos (by decide) k) (Nat.pos_of_ne_zero hn)
        have hten : Nat.pow 10 (k + 1) * n = Nat.pow 10 k * n * 10 := by
          rw [natPow_add, natPow_one, Nat.mul_right_comm]
        have hj : (j : Int) + 1 = ((j + 1 : Nat) : Int) := rfl
        rw [hten, Decimal.magnitude?_mul_ten hpos, hj, ih (j + 1), Nat.add_right_comm,
          Nat.add_assoc]
    have h := hshift 0
    rw [Nat.zero_add] at h
    exact h

/-- Whether a text is that of digits with a point among them, and what they stand for. -/
structure IsPointed (text : List Char) (value : Option Magnitude) (whole fraction : List Char) :
    Prop where
  whole_ne_nil : whole ≠ []
  whole_digits : AllDigits whole
  fraction_digits : AllDigits fraction
  text_eq : text = pointed whole fraction
  value_eq : (⟨digitsValue (whole ++ fraction), -(fraction.length : Int)⟩ : Decimal).magnitude? =
    value

/-- Digits and zeros after them have no fraction. -/
theorem isPointed_zeros {digits : List Char} (hne : digits ≠ []) (hdigits : AllDigits digits)
    {e : Int} (he : 0 ≤ e) : IsPointed (digits ++ List.replicate e.toNat '0')
      (⟨digitsValue digits, e⟩ : Decimal).magnitude? (digits ++ List.replicate e.toNat '0') [] where
  whole_ne_nil := by simp [hne]
  whole_digits := hdigits.append (allDigits_zeros _)
  fraction_digits := List.forall_mem_nil _
  text_eq := by simp [pointed]
  value_eq := by
    have h := magnitude?_zeros (digitsValue digits) e.toNat
    rw [Int.toNat_of_nonneg he] at h
    rw [List.append_nil, digitsValue_append_zeros]
    exact h

/-- A point among digits. -/
theorem isPointed_among {digits : List Char} (hdigits : AllDigits digits) {places : Nat}
    (hpos : 0 < places) (hlt : places < digits.length) :
    IsPointed (digits.take (digits.length - places) ++ '.' ::
        digits.drop (digits.length - places))
      (⟨digitsValue digits, -(places : Int)⟩ : Decimal).magnitude?
      (digits.take (digits.length - places)) (digits.drop (digits.length - places)) := by
  have hlength : (digits.drop (digits.length - places)).length = places := by
    rw [List.length_drop]
    omega
  have hwhole : (digits.take (digits.length - places)).length = digits.length - places := by
    rw [List.length_take]
    omega
  have hfraction : digits.drop (digits.length - places) ≠ [] := by
    intro h
    rw [h, List.length_nil] at hlength
    omega
  refine ⟨?_, fun c hc => hdigits c (List.mem_of_mem_take hc),
    fun c hc => hdigits c (List.mem_of_mem_drop hc), ?_, ?_⟩
  · intro h
    rw [h, List.length_nil] at hwhole
    omega
  · rw [pointed, if_neg hfraction]
  · rw [List.take_append_drop, hlength]

/-- A point before digits, with zeros between. -/
theorem isPointed_before {digits : List Char} (hne : digits ≠ []) (hdigits : AllDigits digits)
    {places : Nat} (hge : digits.length ≤ places) :
    IsPointed ("0.".toList ++ List.replicate (places - digits.length) '0' ++ digits)
      (⟨digitsValue digits, -(places : Int)⟩ : Decimal).magnitude?
      ['0'] (List.replicate (places - digits.length) '0' ++ digits) := by
  have hlength : (List.replicate (places - digits.length) '0' ++ digits).length = places := by
    rw [List.length_append, List.length_replicate]
    omega
  have hvalue : digitsValue (['0'] ++ (List.replicate (places - digits.length) '0' ++ digits)) =
      digitsValue digits := by
    rw [← digitsValue_zeros_append (places - digits.length) digits]
    exact digitsValue_zeros_append 1 _
  refine ⟨by simp, allDigits_zeros 1, (allDigits_zeros _).append hdigits, ?_, ?_⟩
  · rw [pointed, if_neg (by simp [hne])]
    rfl
  · rw [hvalue, hlength]

/-- **Digits at their places are digits with a point among them**, and stand for the same
magnitude. -/
theorem exists_isPointed {digits : List Char} (hne : digits ≠ []) (hdigits : AllDigits digits)
    (e : Int) : ∃ whole fraction, IsPointed (NumberStyle.positional false digits e)
      (⟨digitsValue digits, e⟩ : Decimal).magnitude? whole fraction := by
  unfold NumberStyle.positional
  split
  · next he =>
    have h := isPointed_zeros hne hdigits he
    rw [← List.append_nil (digits ++ _)] at h
    exact ⟨_, _, h⟩
  · next he =>
    obtain ⟨places, rfl⟩ : ∃ places : Nat, e = -(places : Int) := ⟨(-e).toNat, by omega⟩
    have hplaces : (- -(places : Int)).toNat = places := by omega
    have hpos : 0 < places := by omega
    dsimp only
    rw [hplaces]
    split
    · next hlt => exact ⟨_, _, isPointed_among hdigits hpos hlt⟩
    · next hge => exact ⟨_, _, isPointed_before hne hdigits (Nat.le_of_not_lt hge)⟩

/-- **The text of a magnitude** is digits with a point among them, and reads back. -/
theorem exists_isPointed_magnitude (m : Magnitude) :
    ∃ whole fraction, IsPointed (NumberStyle.document.magnitude m) (some m) whole fraction := by
  obtain ⟨whole, fraction, h⟩ :=
    exists_isPointed Nat.toDigits_ne_nil (allDigits_toDigits (m.shortest .up).digits)
      (m.shortest .up).exponent
  rw [digitsValue_toDigits] at h
  refine ⟨whole, fraction, h.whole_ne_nil, h.whole_digits, h.fraction_digits, ?_, ?_⟩
  · rw [← h.text_eq]
    simp only [NumberStyle.magnitude, NumberStyle.document, if_true]
  · exact h.value_eq.trans (m.magnitude?_shortest .up)

theorem mem_pointed {whole fraction : List Char} (hwhole : AllDigits whole)
    (hfraction : AllDigits fraction) {c : Char} (hc : c ∈ pointed whole fraction) :
    c.isDigit = true ∨ c = '.' := by
  rcases List.mem_append.mp hc with hc | hc
  · exact .inl (hwhole c hc)
  · split at hc
    · cases hc
    · rcases List.mem_cons.mp hc with rfl | hc
      · exact .inr rfl
      · exact .inl (hfraction c hc)

/-- No character of it is the one that a literal may separate digits with. -/
theorem filter_pointed {whole fraction : List Char} (hwhole : AllDigits whole)
    (hfraction : AllDigits fraction) :
    (pointed whole fraction).filter (· ≠ '_') = pointed whole fraction := by
  refine List.filter_eq_self.mpr ?_
  intro c hc
  rcases mem_pointed hwhole hfraction hc with hdigit | rfl
  · have hne : c ≠ '_' := by
      rintro rfl
      exact absurd hdigit (by decide)
    simpa using hne
  · rfl

theorem unsigned?_pointed {text : List Char} {m : Magnitude} {whole fraction : List Char}
    (h : IsPointed text (some m) whole fraction) (negative : Bool) :
    unsigned? negative (pointed whole fraction) = some (.finite negative m) := by
  have hdecimal := decimal?_pointed h.whole_ne_nil h.whole_digits h.fraction_digits
  obtain ⟨c, cs, rfl⟩ := List.exists_cons_of_ne_nil h.whole_ne_nil
  have hc : c.isDigit = true := h.whole_digits c List.mem_cons_self
  rw [pointed, List.cons_append] at hdecimal ⊢
  rw [unsigned?_of_isDigit hc, hdecimal, Option.map_some, h.value_eq]
  rfl

/-- Digits have no sign in front of them. -/
theorem ofChars?_of_isDigit {c : Char} (hc : c.isDigit = true) (cs : List Char) :
    ofChars? (c :: cs) = unsigned? false (c :: cs) := by
  unfold ofChars?
  split
  · next h =>
    cases h
    exact absurd hc (by decide)
  · next h =>
    cases h
    exact absurd hc (by decide)
  · rfl

/-- **The text of a finite number is read back as the number.** -/
theorem ofLiteral?_written (negative : Bool) (m : Magnitude) :
    ofLiteral? (written (.finite negative m)) = some (.finite negative m) := by
  obtain ⟨whole, fraction, h⟩ := exists_isPointed_magnitude m
  have hfilter := filter_pointed h.whole_digits h.fraction_digits
  have hread := unsigned?_pointed h negative
  rw [ofLiteral?, written, NumberStyle.signed, h.text_eq]
  cases negative with
  | true =>
    rw [if_pos rfl, List.filter_cons_of_pos (by decide), hfilter]
    exact hread
  | false =>
    rw [if_neg (by decide), hfilter]
    obtain ⟨c, cs, rfl⟩ := List.exists_cons_of_ne_nil h.whole_ne_nil
    have hc : c.isDigit = true := h.whole_digits c List.mem_cons_self
    exact (ofChars?_of_isDigit hc _).trans hread

end Number

end Courseware
