/-
How far a token reaches does not depend on what follows it.

Each length function of a token is checked on two sides. Cut off at its length,
a token reaches to its own end (`nameTail_take` and the like). And a token that
reaches to its own end does so whatever delimited text follows it
(`nameTail_append` and the like), where a delimiter is a character that can
stand after a token on a line that was written: it is part of no name, number,
selector or path.
-/
import Courseware.Proofs.Number.Text
import Courseware.Token.Shape

namespace Courseware.Token

/-- A character that may follow a name, a number or a selector where it is written. -/
def isDelimiter (c : Char) : Bool :=
  c = ' ' || c = '\n' || c = ':' || c = ',' || c = ']' || c = '\x7d'

/-- Whether a text is empty or starts with a delimiter. -/
def Delimited (cs : List Char) : Prop := ∀ c, cs.head? = some c → isDelimiter c = true

/-- Whether a text is empty or starts with a character that ends a path or its line. -/
def PathEnded (cs : List Char) : Prop :=
  ∀ c, cs.head? = some c → c = '\n' ∨ endsPath c = true

theorem eq_of_isDelimiter {c : Char} (h : isDelimiter c = true) :
    c = ' ' ∨ c = '\n' ∨ c = ':' ∨ c = ',' ∨ c = ']' ∨ c = '\x7d' := by
  simpa [isDelimiter, or_assoc] using h

theorem Delimited.isDelimiter {c : Char} {cs : List Char} (h : Delimited (c :: cs)) :
    isDelimiter c = true := h c rfl

theorem PathEnded.delimited {cs : List Char} (h : PathEnded cs) : Delimited cs := by
  intro c hc
  rcases h c hc with rfl | hc
  · rfl
  · simp only [endsPath, Bool.or_eq_true, decide_eq_true_eq] at hc
    rcases hc with (rfl | rfl) | rfl <;> rfl

/-! ## Names -/

theorem nameTail_cons {inWord : Bool} {c : Char} (cs : List Char)
    (h : (if inWord = true then isNameChar c else c.isDigit) = true) :
    nameTail inWord (c :: cs) = nameTail inWord cs + 1 := by
  rw [nameTail.eq_def]
  cases inWord <;> simp_all

theorem nameTail_cons_of_delimiter {c : Char} (hc : isDelimiter c = true) (inWord : Bool)
    (cs : List Char) : nameTail inWord (c :: cs) = 0 := by
  rw [nameTail.eq_def]
  rcases eq_of_isDelimiter hc with rfl | rfl | rfl | rfl | rfl | rfl <;> cases inWord <;> rfl

theorem nameTail_of_delimited {r : List Char} (hr : Delimited r) (inWord : Bool) :
    nameTail inWord r = 0 := by
  cases r with
  | nil => rw [nameTail]
  | cons c cs => exact nameTail_cons_of_delimiter hr.isDelimiter inWord cs

theorem nameTail_take (inWord : Bool) (cs : List Char) :
    nameTail inWord (cs.take (nameTail inWord cs)) = nameTail inWord cs := by
  fun_induction nameTail inWord cs with
  | case1 => rfl
  | case2 inWord c cs hc ih => rw [List.take_succ_cons, nameTail_cons _ hc, ih]
  | _ => simp_all [nameTail]

theorem nameTail_le (inWord : Bool) (cs : List Char) : nameTail inWord cs ≤ cs.length := by
  fun_induction nameTail inWord cs <;> simp_all

theorem nameTail_append {r : List Char} (hr : Delimited r) (inWord : Bool) (cs : List Char)
    (h : nameTail inWord cs = cs.length) : nameTail inWord (cs ++ r) = cs.length := by
  fun_induction nameTail inWord cs with
  | case1 => exact nameTail_of_delimited hr _
  | case2 inWord c cs hc ih =>
    rw [List.length_cons, Nat.add_right_cancel_iff] at h
    rw [List.cons_append, nameTail_cons _ hc, ih h, List.length_cons]
  | _ => simp_all [nameTail]

theorem nameLength_take (cs : List Char) :
    nameLength (cs.take (nameLength cs)) = nameLength cs := by
  cases cs with
  | nil => rfl
  | cons c cs =>
    rw [nameLength]
    split
    · next h => rw [List.take_succ_cons, nameLength, if_pos h, nameTail_take]
    · rfl

theorem nameLength_le (cs : List Char) : nameLength cs ≤ cs.length := by
  cases cs with
  | nil => exact Nat.le_refl 0
  | cons c cs =>
    rw [nameLength]
    split
    · exact Nat.add_le_add_right (nameTail_le true cs) 1
    · exact Nat.zero_le _

theorem nameLength_cons_eq_length_iff {c : Char} {cs : List Char} :
    nameLength (c :: cs) = (c :: cs).length ↔
      isNameStart c = true ∧ nameTail true cs = cs.length := by
  rw [nameLength, List.length_cons]
  split
  · next hc => simp [hc]
  · next hc => simp [hc]

theorem nameLength_append {cs r : List Char} (hne : cs ≠ []) (h : nameLength cs = cs.length)
    (hr : Delimited r) : nameLength (cs ++ r) = cs.length := by
  cases cs with
  | nil => exact absurd rfl hne
  | cons c cs =>
    obtain ⟨hc, htail⟩ := nameLength_cons_eq_length_iff.mp h
    rw [List.cons_append, nameLength, if_pos hc, nameTail_append hr true cs htail,
      List.length_cons]

/-! ## Selectors -/

theorem not_isSelectorChar_of_isDelimiter {c : Char} (h : isDelimiter c = true) :
    isSelectorChar c = false := by
  rcases eq_of_isDelimiter h with rfl | rfl | rfl | rfl | rfl | rfl <;> rfl

theorem selectorLength_take (cs : List Char) :
    selectorLength (cs.take (selectorLength cs)) = selectorLength cs := by
  cases cs with
  | nil => rfl
  | cons c cs =>
    rw [selectorLength]
    split
    · next h =>
      have htake : cs.take (cs.takeWhile isSelectorChar).length = cs.takeWhile isSelectorChar :=
        (List.prefix_iff_eq_take.mp (List.takeWhile_prefix _)).symm
      rw [List.take_succ_cons, selectorLength, if_pos h, htake, List.takeWhile_idem]
    · rfl

theorem selectorLength_le (cs : List Char) : selectorLength cs ≤ cs.length := by
  cases cs with
  | nil => exact Nat.le_refl 0
  | cons c cs =>
    rw [selectorLength]
    split
    · exact Nat.add_le_add_right (List.takeWhile_prefix _).length_le 1
    · exact Nat.zero_le _

theorem selectorLength_cons_eq_length_iff {c : Char} {cs : List Char} :
    selectorLength (c :: cs) = (c :: cs).length ↔
      c.isAlphanum = true ∧ ∀ d ∈ cs, isSelectorChar d = true := by
  rw [selectorLength, List.length_cons, ← List.takeWhile_eq_self_iff]
  split
  · next hc =>
    simp only [hc, true_and, Nat.add_right_cancel_iff]
    exact ⟨(List.takeWhile_prefix isSelectorChar).eq_of_length, congrArg List.length⟩
  · next hc => simp [hc]

theorem selectorLength_append {cs r : List Char} (hne : cs ≠ []) (h : selectorLength cs = cs.length)
    (hr : Delimited r) : selectorLength (cs ++ r) = cs.length := by
  cases cs with
  | nil => exact absurd rfl hne
  | cons c cs =>
    obtain ⟨hc, hall⟩ := selectorLength_cons_eq_length_iff.mp h
    have hstop : r.takeWhile isSelectorChar = [] := by
      cases r with
      | nil => rfl
      | cons d ds =>
        rw [List.takeWhile_cons_of_neg]
        simp [not_isSelectorChar_of_isDelimiter hr.isDelimiter]
    rw [List.cons_append, selectorLength, if_pos hc, List.takeWhile_append_of_pos hall, hstop,
      List.append_nil, List.length_cons]

/-! ## Numbers -/

theorem numberTail_cons_of_delimiter {c : Char} (hc : isDelimiter c = true) (cs : List Char) :
    numberTail (c :: cs) = 0 := by
  rw [numberTail.eq_def]
  rcases eq_of_isDelimiter hc with rfl | rfl | rfl | rfl | rfl | rfl <;> rfl

theorem numberTail_digits {ds : List Char} (hds : AllDigits ds) (r : List Char) :
    numberTail (ds ++ r) = ds.length + numberTail r := by
  induction ds with
  | nil => simp
  | cons d ds ih =>
    have hd : d.isDigit = true := hds d List.mem_cons_self
    have ih := ih fun c hc => hds c (List.mem_cons_of_mem _ hc)
    rw [List.cons_append, numberTail.eq_def]
    simp only [hd, if_true, ih, List.length_cons]
    omega

theorem numberTail_pointed {whole fraction r : List Char} (hwhole : AllDigits whole)
    (hfraction : AllDigits fraction) (hr : Delimited r) :
    numberTail (pointed whole fraction ++ r) = (pointed whole fraction).length := by
  have hstop : numberTail r = 0 := by
    cases r with
    | nil => rw [numberTail]
    | cons c cs => exact numberTail_cons_of_delimiter hr.isDelimiter cs
  rw [pointed, List.append_assoc, numberTail_digits hwhole, List.length_append,
    Nat.add_left_cancel_iff]
  cases fraction with
  | nil => exact hstop
  | cons d ds =>
    have hd : d.isDigit = true := hfraction d List.mem_cons_self
    have hds : AllDigits ds := fun c hc => hfraction c (List.mem_cons_of_mem _ hc)
    have hpoint : numberTail ('.' :: d :: (ds ++ r)) = numberTail (ds ++ r) + 2 := by
      rw [numberTail.eq_def]
      simp [hd, isDigitSeparator]
    rw [if_neg (by simp)]
    show numberTail ('.' :: d :: (ds ++ r)) = _
    rw [hpoint, numberTail_digits hds, hstop]
    rfl

/-- **The text of a finite number is a number of its length**, whatever delimited text follows. -/
theorem numberLength_written (negative : Bool) (m : Magnitude) {r : List Char} (hr : Delimited r) :
    numberLength (Number.written (.finite negative m) ++ r) =
      (Number.written (.finite negative m)).length := by
  obtain ⟨whole, fraction, hne, hwhole, hfraction, htext, -⟩ := Number.exists_isPointed_magnitude m
  have htail := numberTail_pointed hwhole hfraction hr
  rw [Number.written, NumberStyle.signed, htext]
  cases negative with
  | true =>
    rw [if_pos rfl, List.cons_append, numberLength, htail, List.length_cons]
  | false =>
    rw [if_neg (by decide)]
    obtain ⟨c, cs, rfl⟩ := List.exists_cons_of_ne_nil hne
    have hc : c.isDigit = true := hwhole c List.mem_cons_self
    rw [← htail]
    unfold numberLength
    split
    · next h =>
      cases h
      exact absurd hc (by decide)
    · next h =>
      cases h
      exact absurd hc (by decide)
    · rfl

/-! ## Paths -/

/-- Whether a character at which a path has not ended is one of it. -/
theorem pathLength_cons (afterBlank : Bool) (c : Char) (cs : List Char) :
    pathLength afterBlank (c :: cs) =
      if c = '\n' ∨ endsPath c = true ∨ afterBlank = true ∧ startsComment (c :: cs) = true then 0
      else pathLength (c = ' ' || c = '\t') cs + 1 := by
  rw [pathLength]
  simp only [Bool.or_eq_true, Bool.and_eq_true, decide_eq_true_eq, or_assoc]

theorem pathLength_cons_eq_length_iff {afterBlank : Bool} {c : Char} {cs : List Char} :
    pathLength afterBlank (c :: cs) = (c :: cs).length ↔
      ¬ (c = '\n' ∨ endsPath c = true ∨ afterBlank = true ∧ startsComment (c :: cs) = true) ∧
        pathLength (c = ' ' || c = '\t') cs = cs.length := by
  rw [pathLength_cons, List.length_cons]
  split
  · next h => simp [h]
  · next h => simp [h]

theorem startsComment_append {cs : List Char} (h : startsComment cs = true) (r : List Char) :
    startsComment (cs ++ r) = true := by
  unfold startsComment at h
  split at h
  · rfl
  · rfl
  · rfl
  · cases h

/-- What ends a path completes no comment sign. -/
theorem startsComment_append_of_pathEnded {c : Char} {cs r : List Char} (hr : PathEnded r)
    (h : startsComment (c :: cs ++ r) = true) : startsComment (c :: cs) = true := by
  cases cs with
  | cons d ds =>
    unfold startsComment at h
    split at h <;> simp_all [startsComment]
  | nil =>
    cases r with
    | nil => exact h
    | cons d ds =>
      have hd := hr d rfl
      unfold startsComment at h
      split at h <;> simp_all [startsComment, endsPath]

theorem pathLength_take (afterBlank : Bool) (cs : List Char) :
    pathLength afterBlank (cs.take (pathLength afterBlank cs)) = pathLength afterBlank cs := by
  induction cs generalizing afterBlank with
  | nil => rfl
  | cons c cs ih =>
    rw [pathLength_cons afterBlank c cs]
    split
    · rfl
    · next h =>
      rw [List.take_succ_cons, pathLength_cons, if_neg, ih]
      rintro (hc | hc | ⟨hb, hc⟩)
      · exact h (.inl hc)
      · exact h (.inr (.inl hc))
      · refine h (.inr (.inr ⟨hb, ?_⟩))
        have := startsComment_append hc (cs.drop (pathLength (c = ' ' || c = '\t') cs))
        rwa [List.cons_append, List.take_append_drop] at this

theorem pathLength_le (afterBlank : Bool) (cs : List Char) :
    pathLength afterBlank cs ≤ cs.length := by
  induction cs generalizing afterBlank with
  | nil => exact Nat.le_refl 0
  | cons c cs ih =>
    rw [pathLength_cons]
    split
    · exact Nat.zero_le _
    · exact Nat.add_le_add_right (ih _) 1

/-- A path needs less where no comment can start. -/
theorem pathLength_false {afterBlank : Bool} {cs : List Char}
    (h : pathLength afterBlank cs = cs.length) : pathLength false cs = cs.length := by
  cases cs with
  | nil => rfl
  | cons c cs =>
    rw [pathLength_cons_eq_length_iff] at h ⊢
    refine ⟨fun hc => h.1 ?_, h.2⟩
    rcases hc with hc | hc | ⟨hb, -⟩
    · exact .inl hc
    · exact .inr (.inl hc)
    · cases hb

theorem pathLength_true {cs : List Char} (h : pathLength false cs = cs.length)
    (hcs : startsComment cs = false) : pathLength true cs = cs.length := by
  cases cs with
  | nil => rfl
  | cons c cs =>
    rw [pathLength_cons_eq_length_iff] at h ⊢
    refine ⟨fun hc => h.1 ?_, h.2⟩
    rcases hc with hc | hc | ⟨-, hc⟩
    · exact .inl hc
    · exact .inr (.inl hc)
    · rw [hcs] at hc
      cases hc

theorem pathLength_of_prefix {afterBlank : Bool} {cs r : List Char}
    (h : pathLength afterBlank (cs ++ r) = (cs ++ r).length) :
    pathLength afterBlank cs = cs.length := by
  induction cs generalizing afterBlank with
  | nil => rfl
  | cons c cs ih =>
    rw [List.cons_append, pathLength_cons_eq_length_iff] at h
    rw [pathLength_cons_eq_length_iff]
    refine ⟨fun hc => h.1 ?_, ih h.2⟩
    rcases hc with hc | hc | ⟨hb, hc⟩
    · exact .inl hc
    · exact .inr (.inl hc)
    · exact .inr (.inr ⟨hb, startsComment_append hc r⟩)

theorem pathLength_of_suffix {afterBlank : Bool} {cs r : List Char}
    (h : pathLength afterBlank (cs ++ r) = (cs ++ r).length) : pathLength false r = r.length := by
  induction cs generalizing afterBlank with
  | nil => exact pathLength_false h
  | cons c cs ih =>
    rw [List.cons_append, pathLength_cons_eq_length_iff] at h
    exact ih h.2

theorem pathLength_append {afterBlank : Bool} {cs r : List Char}
    (h : pathLength afterBlank cs = cs.length) (hr : PathEnded r) :
    pathLength afterBlank (cs ++ r) = cs.length := by
  induction cs generalizing afterBlank with
  | nil =>
    cases r with
    | nil => rfl
    | cons c r =>
      rw [List.nil_append, pathLength_cons, if_pos]
      · rfl
      · rcases hr c rfl with hc | hc
        · exact .inl hc
        · exact .inr (.inl hc)
  | cons c cs ih =>
    rw [pathLength_cons_eq_length_iff] at h
    rw [List.cons_append, pathLength_cons, if_neg, ih h.2]
    · rfl
    · rintro (hc | hc | ⟨hb, hc⟩)
      · exact h.1 (.inl hc)
      · exact h.1 (.inr (.inl hc))
      · exact h.1 (.inr (.inr ⟨hb, startsComment_append_of_pathEnded hr hc⟩))

/-! ## Comments -/

theorem commentTail_le {cs : List Char} {n : Nat} (h : commentTail cs = some n) :
    n ≤ cs.length := by
  fun_induction commentTail cs generalizing n with
  | case1 =>
    cases h
    exact Nat.le_add_left 2 _
  | case2 c cs hne ih =>
    obtain ⟨m, hm, rfl⟩ := Option.map_eq_some_iff.mp h
    rw [List.length_cons, Nat.add_le_add_iff_right]
    exact ih hm
  | case3 => cases h

theorem commentTail_append {cs : List Char} {n : Nat} (h : commentTail cs = some n)
    (r : List Char) : commentTail (cs ++ r) = some n := by
  fun_induction commentTail cs generalizing n with
  | case1 => rw [← h]; rfl
  | case2 c cs hne ih =>
    obtain ⟨m, hm, rfl⟩ := Option.map_eq_some_iff.mp h
    rw [List.cons_append, commentTail, ih hm]
    · rfl
    · intro ds hc hcs
      cases cs with
      | nil => cases hm
      | cons d cs =>
        cases hcs
        exact hne cs hc rfl
  | case3 => cases h

theorem commentTail_take {cs : List Char} {n : Nat} (h : commentTail cs = some n) :
    commentTail (cs.take n) = some n := by
  fun_induction commentTail cs generalizing n with
  | case1 => cases h; rfl
  | case2 c cs hne ih =>
    obtain ⟨m, hm, rfl⟩ := Option.map_eq_some_iff.mp h
    rw [List.take_succ_cons, commentTail, ih hm]
    · rfl
    · intro ds hc hcs
      cases cs with
      | nil => cases hm
      | cons d cs =>
        cases m with
        | zero => cases hcs
        | succ m =>
          rw [List.take_succ_cons] at hcs
          cases hcs
          exact hne cs hc rfl
  | case3 => cases h

end Courseware.Token
