/-
No token reaches further when the text goes on behind its line.

What goes on is nothing or starts with a newline (`LineEnded`). A name, a
number, a component's name, a directive, a path and a line comment take no
newline, so they reach as far as before, wherever they stop. A string and a
block comment do take newlines, but they end before the text does.

A carriage return is no part of a name, a number or a directive either, so these
also stop where what goes on starts with one (`LineBroken`).
-/
import Courseware.Proofs.Token.Lines

namespace Courseware

/-- Whether a text is empty or starts with a newline. -/
def LineEnded (cs : List Char) : Prop := ∀ c, cs.head? = some c → c = '\n'

theorem lineEnded_nil : LineEnded [] := fun c hc => by cases hc

theorem lineEnded_cons (cs : List Char) : LineEnded ('\n' :: cs) := fun c hc => by
  cases hc
  rfl

theorem LineEnded.eq {cs : List Char} (h : LineEnded cs) : cs = [] ∨ ∃ ds, cs = '\n' :: ds := by
  cases cs with
  | nil => exact .inl rfl
  | cons c ds => exact .inr ⟨ds, by rw [h c rfl]⟩

/-- Whether a text is empty or starts with a newline or a carriage return. -/
def LineBroken (cs : List Char) : Prop := ∀ c, cs.head? = some c → c = '\n' ∨ c = '\r'

theorem LineEnded.broken {cs : List Char} (h : LineEnded cs) : LineBroken cs :=
  fun c hc => .inl (h c hc)

theorem LineBroken.eq {cs : List Char} (h : LineBroken cs) :
    cs = [] ∨ ∃ c ds, cs = c :: ds ∧ (c = '\n' ∨ c = '\r') := by
  cases cs with
  | nil => exact .inl rfl
  | cons c ds => exact .inr ⟨c, ds, rfl, h c rfl⟩

variable {r : List Char}

theorem LineBroken.takeWhile_append {p : Char → Bool} (hr : LineBroken r)
    (hnewline : p '\n' = false) (hreturn : p '\r' = false) (cs : List Char) :
    (cs ++ r).takeWhile p = cs.takeWhile p := by
  rw [List.takeWhile_append]
  split
  · next hall =>
    have hcs : cs.takeWhile p = cs := (List.takeWhile_prefix p).eq_of_length hall
    rcases hr.eq with rfl | ⟨c, ds, rfl, rfl | rfl⟩
    · simp [hcs]
    · simp [hnewline, hcs]
    · simp [hreturn, hcs]
  · rfl

/-- What takes no newline ends where the line does. -/
theorem LineEnded.takeWhile_append {p : Char → Bool} (hr : LineEnded r) (hp : p '\n' = false)
    (cs : List Char) : (cs ++ r).takeWhile p = cs.takeWhile p := by
  rw [List.takeWhile_append]
  split
  · next hall =>
    have hcs : cs.takeWhile p = cs := (List.takeWhile_prefix p).eq_of_length hall
    rcases hr.eq with rfl | ⟨ds, rfl⟩
    · simp [hcs]
    · simp [hp, hcs]
  · rfl

namespace Token

/-! ## How far a token reaches -/

theorem numberTail_le (cs : List Char) : numberTail cs ≤ cs.length := by
  fun_induction numberTail cs <;> simp_all

theorem numberLength_le (cs : List Char) : numberLength cs ≤ cs.length := by
  unfold numberLength
  split
  · exact Nat.add_le_add_right (numberTail_le _) 1
  · exact Nat.add_le_add_right (numberTail_le _) 1
  · exact numberTail_le cs

theorem numberTail_onward (hr : LineBroken r) (cs : List Char) :
    numberTail (cs ++ r) = numberTail cs := by
  have hstop : numberTail r = 0 := by
    rcases hr.eq with rfl | ⟨c, ds, rfl, rfl | rfl⟩
    · rw [numberTail]
    · exact numberTail_cons_of_delimiter rfl ds
    · rw [numberTail.eq_def]
      rfl
  fun_induction numberTail cs with
  | case1 => exact hstop
  | case2 c cs hc ih => rw [List.cons_append, numberTail.eq_def]; simp [hc, ih]
  | case3 c hc hsep d ds hd ih =>
    rw [List.cons_append, List.cons_append, numberTail.eq_def]
    simp [hc, hsep, hd, ih]
  | case4 c hc hsep d ds hd =>
    rw [List.cons_append, List.cons_append, numberTail.eq_def]
    simp [hc, hsep, hd]
  | case5 c hc hsep =>
    -- a separator at the end of the line has no digit behind it
    have hdigit : '\n'.isDigit = false ∧ '\r'.isDigit = false := ⟨rfl, rfl⟩
    rw [List.cons_append, List.nil_append, numberTail.eq_def]
    rcases hr.eq with rfl | ⟨c, ds, rfl, rfl | rfl⟩
    · simp [hc, hsep]
    · simp [hc, hsep, hdigit]
    · simp [hc, hsep, hdigit]
  | case6 c cs hc hsep => rw [List.cons_append, numberTail.eq_def]; simp [hc, hsep]

theorem numberLength_onward (hr : LineBroken r) {cs : List Char} (hcs : cs ≠ []) :
    numberLength (cs ++ r) = numberLength cs := by
  obtain ⟨c, cs, rfl⟩ := List.exists_cons_of_ne_nil hcs
  have hwhole := numberTail_onward hr (c :: cs)
  have htail := numberTail_onward hr cs
  by_cases hplus : c = '+'
  · subst hplus
    exact congrArg (· + 1) htail
  · by_cases hminus : c = '-'
    · subst hminus
      exact congrArg (· + 1) htail
    · unfold numberLength
      split <;> simp_all

/-- A dot is part of a name if a segment comes after it. -/
theorem nameTail_dot (inWord : Bool) (cs : List Char) : nameTail inWord ('.' :: cs) =
    match cs with
    | d :: ds =>
      if isNameStart d then nameTail true ds + 2
      else if d.isDigit then nameTail false ds + 2
      else 0
    | [] => 0 := by
  rw [nameTail.eq_def]
  cases inWord <;> rfl

theorem nameTail_onward (hr : LineBroken r) (inWord : Bool) (cs : List Char) :
    nameTail inWord (cs ++ r) = nameTail inWord cs := by
  have hstop : ∀ inWord, nameTail inWord r = 0 := by
    intro inWord
    rcases hr.eq with rfl | ⟨c, ds, rfl, rfl | rfl⟩
    · rw [nameTail]
    · exact nameTail_cons_of_delimiter rfl inWord ds
    · rw [nameTail.eq_def]
      cases inWord <;> rfl
  fun_induction nameTail inWord cs with
  | case1 inWord => exact hstop inWord
  | case2 inWord c cs hc ih => rw [List.cons_append, nameTail_cons _ hc, ih]
  | case3 inWord d ds hd _ ih =>
    rw [List.cons_append, List.cons_append, nameTail_dot]
    simp [hd, ih]
  | case4 inWord d ds hd hdigit _ ih =>
    rw [List.cons_append, List.cons_append, nameTail_dot]
    simp [hd, hdigit, ih]
  | case5 inWord d ds hd hdigit =>
    rw [List.cons_append, List.cons_append, nameTail_dot]
    simp [hd, hdigit]
  | case6 inWord =>
    -- a dot at the end of the line has no segment behind it
    have hstart : isNameStart '\n' = false ∧ isNameStart '\r' = false := ⟨rfl, rfl⟩
    have hdigit : '\n'.isDigit = false ∧ '\r'.isDigit = false := ⟨rfl, rfl⟩
    rw [List.cons_append, List.nil_append, nameTail_dot]
    rcases hr.eq with rfl | ⟨c, ds, rfl, rfl | rfl⟩
    · rfl
    · simp [hstart, hdigit]
    · simp [hstart, hdigit]
  | case7 inWord c cs hc hdot =>
    rw [List.cons_append, nameTail.eq_def]
    simp [hc, hdot]

theorem nameLength_onward (hr : LineBroken r) {cs : List Char} (hcs : cs ≠ []) :
    nameLength (cs ++ r) = nameLength cs := by
  obtain ⟨c, cs, rfl⟩ := List.exists_cons_of_ne_nil hcs
  rw [List.cons_append, nameLength, nameLength, nameTail_onward hr]

theorem selectorLength_onward (hr : LineBroken r) (cs : List Char) :
    selectorLength (cs ++ r) = selectorLength cs := by
  cases cs with
  | nil =>
    rcases hr.eq with rfl | ⟨c, ds, rfl, rfl | rfl⟩ <;> rfl
  | cons c cs =>
    rw [List.cons_append, selectorLength, selectorLength, hr.takeWhile_append rfl rfl]

theorem directiveLength_onward (hr : LineBroken r) {cs : List Char} (hcs : cs ≠ []) :
    directiveLength (cs ++ r) = directiveLength cs := by
  obtain ⟨c, cs, rfl⟩ := List.exists_cons_of_ne_nil hcs
  have htail : (cs ++ r).takeWhile Char.isAlpha = cs.takeWhile Char.isAlpha :=
    hr.takeWhile_append rfl rfl cs
  simp [directiveLength, htail]

theorem directiveLength_le {cs : List Char} (hcs : cs ≠ []) : directiveLength cs ≤ cs.length := by
  obtain ⟨c, cs, rfl⟩ := List.exists_cons_of_ne_nil hcs
  exact Nat.add_le_add_right (List.takeWhile_prefix Char.isAlpha).length_le 1

/-- Whether what a function measures at the front of a text ends with the line at the latest. -/
structure StopsAtLineEnd (f : List Char → Nat) : Prop where
  onward : ∀ {r}, LineBroken r → ∀ {w}, w ≠ [] → f (w ++ r) = f w
  le : ∀ {w}, w ≠ [] → f w ≤ w.length

theorem numberLength_stops : StopsAtLineEnd numberLength :=
  ⟨fun hr _ hw => numberLength_onward hr hw, fun _ => numberLength_le _⟩

theorem nameLength_stops : StopsAtLineEnd nameLength :=
  ⟨fun hr _ hw => nameLength_onward hr hw, fun _ => nameLength_le _⟩

theorem selectorLength_stops : StopsAtLineEnd selectorLength :=
  ⟨fun hr _ _ => selectorLength_onward hr _, fun _ => selectorLength_le _⟩

theorem directiveLength_stops : StopsAtLineEnd directiveLength :=
  ⟨fun hr _ hw => directiveLength_onward hr hw, directiveLength_le⟩

/-- Neither a newline nor a carriage return completes a comment sign. -/
theorem startsComment_onward (hr : LineBroken r) {cs : List Char} (hcs : cs ≠ []) :
    startsComment (cs ++ r) = startsComment cs := by
  obtain ⟨c, cs, rfl⟩ := List.exists_cons_of_ne_nil hcs
  rw [Bool.eq_iff_iff]
  refine ⟨fun h => ?_, fun h => startsComment_append h r⟩
  unfold startsComment at h
  cases cs with
  | nil =>
    rcases hr.eq with rfl | ⟨d, ds, rfl, rfl | rfl⟩ <;> split at h <;> simp_all [startsComment]
  | cons d cs => split at h <;> simp_all [startsComment]

theorem pathLength_onward (hr : LineEnded r) (afterBlank : Bool) (cs : List Char) :
    pathLength afterBlank (cs ++ r) = pathLength afterBlank cs := by
  induction cs generalizing afterBlank with
  | nil =>
    rcases hr.eq with rfl | ⟨ds, rfl⟩
    · rfl
    · rw [List.nil_append, pathLength_cons, if_pos (.inl rfl)]
      rfl
  | cons c cs ih =>
    have hcomment := startsComment_onward hr.broken (List.cons_ne_nil c cs)
    rw [List.cons_append] at hcomment ⊢
    rw [pathLength_cons, pathLength_cons, hcomment, ih]

theorem stringTail_take {quote : Char} {cs content : List Char} {n : Nat}
    (h : stringTail quote cs = .ok (content, n)) :
    stringTail quote (cs.take n) = .ok (content, n) := by
  fun_induction stringTail quote cs generalizing content n with
  | case1 => cases h
  | case2 cs =>
    cases h
    rw [List.take_succ_cons, stringTail.eq_def]
    exact if_pos rfl
  | case3 => cases h
  | case4 d ds hquote ih =>
    cases htail : stringTail quote ds with
    | error fault => rw [htail] at h; cases h
    | ok tail =>
      have htake := ih htail
      rw [htail] at h
      cases h
      rw [List.take_succ_cons, List.take_succ_cons, stringTail, if_neg hquote, if_pos rfl, htake]
      rfl
  | case5 c cs hquote hback ih =>
    cases htail : stringTail quote cs with
    | error fault => rw [htail] at h; cases h
    | ok tail =>
      have htake := ih htail
      rw [htail] at h
      cases h
      rw [List.take_succ_cons, stringTail.eq_def]
      simp only [if_neg hquote, if_neg hback, htake]
      rfl

/-- A string ends before the text does, so it may go on in any way. -/
theorem stringTail_onward {quote : Char} {cs content : List Char} {n : Nat}
    (h : stringTail quote cs = .ok (content, n)) (r : List Char) :
    stringTail quote (cs ++ r) = .ok (content, n) ∧ n ≤ cs.length := by
  fun_induction stringTail quote cs generalizing content n with
  | case1 => cases h
  | case2 cs =>
    cases h
    rw [List.cons_append, stringTail.eq_def]
    exact ⟨if_pos rfl, by simp⟩
  | case3 => cases h
  | case4 d ds hquote ih =>
    cases htail : stringTail quote ds with
    | error fault => rw [htail] at h; cases h
    | ok tail =>
      obtain ⟨hgo, hle⟩ := ih htail
      rw [htail] at h
      cases h
      refine ⟨?_, by simpa using hle⟩
      rw [List.cons_append, List.cons_append, stringTail, if_neg hquote, if_pos rfl, hgo]
      rfl
  | case5 c cs hquote hback ih =>
    cases htail : stringTail quote cs with
    | error fault => rw [htail] at h; cases h
    | ok tail =>
      obtain ⟨hgo, hle⟩ := ih htail
      rw [htail] at h
      cases h
      refine ⟨?_, by simpa using hle⟩
      rw [List.cons_append, stringTail.eq_def]
      simp only [if_neg hquote, if_neg hback, hgo]
      rfl

end Token

namespace Text

theorem firstLine_onward (hr : LineEnded r) (cs : List Char) :
    firstLine (cs ++ r) = firstLine cs := hr.takeWhile_append (by simp) cs

/-- A line that has an end keeps it. -/
theorem firstLineWithEnd_onward {cs : List Char} (h : '\n' ∈ cs) (r : List Char) :
    firstLineWithEnd (cs ++ r) = firstLineWithEnd cs := by
  obtain ⟨w, ds, rfl, hw⟩ := List.eq_append_cons_of_mem h
  rw [List.append_assoc, List.cons_append, firstLineWithEnd_line hw, firstLineWithEnd_line hw]

/-- A line that has none is the whole text. -/
theorem firstLineWithEnd_last {cs : List Char} (h : '\n' ∉ cs) : firstLineWithEnd cs = cs := by
  have hall := forall_ne_newline h
  rw [firstLineWithEnd, List.dropWhile_eq_nil_iff.mpr hall]
  exact List.takeWhile_eq_self_iff.mpr hall

/-- A text starts with nothing that would go over into what is behind it. -/
theorem startsWith_onward {start : List Char} (hr : ∀ c, r.head? = some c → c ∉ start)
    (cs : List Char) : startsWith (cs ++ r) start = startsWith cs start := by
  rw [Bool.eq_iff_iff, startsWith, startsWith, List.isPrefixOf_iff_prefix,
    List.isPrefixOf_iff_prefix]
  refine ⟨fun h => ?_, fun h => h.trans (List.prefix_append cs r)⟩
  rcases List.prefix_or_prefix_of_prefix h (List.prefix_append cs r) with hcs | ⟨tail, rfl⟩
  · exact hcs
  · rw [List.prefix_append_right_inj] at h
    cases tail with
    | nil => simp
    | cons c tail =>
      obtain ⟨ds, hds⟩ := h
      exact absurd (List.mem_append_right _ List.mem_cons_self) (hr c (by rw [← hds]; rfl))

end Text

end Courseware
