/-
Tokens of more than one line are read back from their text.

A comment may hold newlines, and the text between `==` and `==` is read line by
line (`Scans.bodyLines`). What is written between the two is the text without
one newline at its end, split at its newlines, so it denotes the text with one
newline at its end (`openLine`, `closeLine`).
-/
import Courseware.Proofs.Token.Written
import Courseware.Proofs.Variables.Keys

namespace Courseware

namespace Text

theorem forall_ne_newline {w : List Char} (hw : '\n' ∉ w) :
    ∀ c ∈ w, decide (c ≠ '\n') = true := by
  intro c hc
  exact decide_eq_true fun h => hw (h ▸ hc)

/-- A text without a newline is a line before one. -/
theorem firstLine_line {w : List Char} (hw : '\n' ∉ w) (r : List Char) :
    firstLine (w ++ '\n' :: r) = w := by
  have hall := forall_ne_newline hw
  rw [firstLine, List.takeWhile_append_of_pos hall, List.takeWhile_cons_of_neg (by decide),
    List.append_nil]

theorem firstLineWithEnd_line {w : List Char} (hw : '\n' ∉ w) (r : List Char) :
    firstLineWithEnd (w ++ '\n' :: r) = w ++ ['\n'] := by
  have hall := forall_ne_newline hw
  rw [firstLineWithEnd, List.dropWhile_append_of_pos hall, List.dropWhile_cons_of_neg (by decide)]
  show firstLine (w ++ '\n' :: r) ++ ['\n'] = _
  rw [firstLine_line hw]

/-- A blank at the end of a text is trimmed. -/
theorem trimEnd_concat {c : Char} (hc : isBlank c = true) (w : List Char) :
    trimEnd (w ++ [c]) = trimEnd w := by
  rw [trimEnd, List.reverse_append, List.reverse_singleton, List.singleton_append,
    List.dropWhile_cons_of_pos hc, trimEnd]

theorem trimEnd_line (w : List Char) : trimEnd (w ++ ['\n']) = trimEnd w :=
  trimEnd_concat (by decide) w

theorem trim_concat {c : Char} (hc : isBlank c = true) (w : List Char) :
    trim (w ++ [c]) = trim w := by
  rw [trim, trimStart, List.dropWhile_append]
  split
  · next h =>
    rw [List.isEmpty_iff] at h
    rw [trim, trimStart, h, List.dropWhile_cons_of_pos hc]
    rfl
  · exact trimEnd_concat hc _

/-- A text without one newline at its end. -/
def openLine (cs : List Char) : List Char := if cs.getLast? = some '\n' then cs.dropLast else cs

/-- A text with a newline at its end. -/
def closeLine (cs : List Char) : List Char :=
  if cs.getLast? = some '\n' then cs else cs ++ ['\n']

theorem openLine_append_newline (cs : List Char) : openLine cs ++ ['\n'] = closeLine cs := by
  unfold openLine closeLine
  split
  · next h => exact List.dropLast_append_getLast? '\n' h
  · rfl

@[simp] theorem openLine_closeLine (cs : List Char) : openLine (closeLine cs) = openLine cs := by
  rw [← openLine_append_newline, openLine, if_pos List.getLast?_concat, List.dropLast_concat]

theorem newline_mem_closeLine (cs : List Char) : '\n' ∈ closeLine cs := by
  rw [← openLine_append_newline]
  exact List.mem_append_right _ List.mem_cons_self

theorem split_append_separator (separator : Char) (cs : List Char) :
    split separator (cs ++ [separator]) = split separator cs ++ [[]] :=
  split_append separator cs []

theorem split_openLine_prefix (cs : List Char) : split '\n' (openLine cs) <+: split '\n' cs := by
  unfold openLine
  split
  · next h =>
    have hcs : cs.dropLast ++ ['\n'] = cs := List.dropLast_append_getLast? '\n' h
    refine ⟨[[]], ?_⟩
    rw [← split_append_separator, hcs]
  · exact List.prefix_refl _

theorem join_ne_nil {separator w : List Char} (h : w ≠ []) (ws : List (List Char)) :
    join separator (w :: ws) ≠ [] := by
  cases ws <;> simp [join, h]

/-- Lines that are joined are lines that end each. -/
theorem join_append {separator : Char} {ws : List (List Char)} (h : ws ≠ []) :
    join [separator] ws ++ [separator] = ws.flatMap (· ++ [separator]) := by
  induction ws with
  | nil => exact absurd rfl h
  | cons w ws ih =>
    cases ws with
    | nil => simp [join]
    | cons v ws =>
      rw [join, List.append_assoc, ih (List.cons_ne_nil _ _), List.flatMap_cons]
      · rfl
      · exact List.cons_ne_nil _ _

/-- A newline at the end of a text does not change what it starts with. -/
theorem startsWith_line {w start : List Char} (hstart : '\n' ∉ start)
    (h : startsWith w start = false) : startsWith (w ++ ['\n']) start = false := by
  cases hline : startsWith (w ++ ['\n']) start with
  | false => rfl
  | true =>
    rcases List.prefix_concat_iff.mp (List.isPrefixOf_iff_prefix.mp hline) with heq | hprefix
    · rw [heq] at hstart
      exact absurd (List.mem_append_right _ List.mem_cons_self) hstart
    · rw [startsWith, List.isPrefixOf_iff_prefix.mpr hprefix] at h
      cases h

end Text

namespace Scanner

variable {selectors r : List Char} {line openedAt : Nat} {ts : List Token} {last : Token}

/-! ## Comments -/

theorem lineComment_written {w : List Char} (hline : '\n' ∉ w) (htrim : Text.trimEnd w = w)
    (r : List Char) (line openedAt : Nat) : (between (w ++ '\n' :: r) line openedAt).lineComment =
      (.ok ⟨.comment (String.ofList w), String.ofList w, line⟩,
        between ('\n' :: r) (line + Text.newlines w) openedAt) := by
  simp [lineComment, Text.firstLine_line hline, htrim, advance, front]

/-- A comment is one token, the newline after it not part of it. -/
theorem Scans.comment {text : String} (htext : Token.IsComment text.toList)
    (h : Scans selectors (between ('\n' :: r) (line + Text.newlines text.toList) openedAt) ts
      last) :
    Scans selectors (between (text.toList ++ '\n' :: r) line openedAt)
      (⟨.comment text, text, line⟩ :: ts) last := by
  obtain ⟨w, rfl⟩ : ∃ w, text = String.ofList w := ⟨text.toList, String.ofList_toList.symm⟩
  rw [String.toList_ofList] at htext h ⊢
  cases htext with
  | @hash cs hline htrim =>
    have hw : '\n' ∉ '#' :: cs := by simpa using hline
    have htrim : Text.trimEnd ('#' :: cs) = '#' :: cs := by
      rw [Text.trimEnd_cons (by decide), htrim]
    exact h.cons rfl (by simp) (lineComment_written hw htrim r line openedAt)
  | @slashes cs hline htrim =>
    have hw : '\n' ∉ '/' :: '/' :: cs := by simpa using hline
    have htrim : Text.trimEnd ('/' :: '/' :: cs) = '/' :: '/' :: cs := by
      rw [Text.trimEnd_cons (by decide), Text.trimEnd_cons (by decide), htrim]
    exact h.cons rfl (by simp) (lineComment_written hw htrim r line openedAt)
  | @block cs hends =>
    have hblock : (between ('/' :: '*' :: cs ++ '\n' :: r) line openedAt).blockComment =
        (between ('/' :: '*' :: cs ++ '\n' :: r) line openedAt).take ('/' :: '*' :: cs).length
          (.comment (String.ofList ('/' :: '*' :: cs))) := by
      have htail := Token.commentTail_append hends ('\n' :: r)
      simp only [blockComment, List.cons_append, List.drop_succ_cons, List.drop_zero, htail, front,
        List.take_succ_cons, List.take_left, List.length_cons]
    exact h.cons rfl (by simp) (hblock.trans (take_append _ _ line .initial openedAt _))

/-! ## Lines of a value -/

/-- The tokens of some lines of a value, of which the first one is on `line`. -/
def bodyLines : (line : Nat) → List (List Char) → List Grammar.BodyLine
  | _, [] => []
  | line, w :: ws =>
    ⟨⟨String.ofList (w ++ ['\n']), line⟩, String.ofList (w ++ ['\n'])⟩ :: bodyLines (line + 1) ws

/-- Whether a line can be one of a value: it does not end it. -/
structure IsInnerLine (w : List Char) : Prop where
  line : '\n' ∉ w
  goesOn : Text.trimEnd w ≠ ['=', '=']

theorem next_bodyLine {w : List Char} (hw : IsInnerLine w) (r : List Char) (line openedAt : Nat) :
    (Scanner.mk (w ++ '\n' :: r) line .body openedAt).next selectors =
      (.ok ⟨.body (String.ofList (w ++ ['\n'])), String.ofList (w ++ ['\n']), line⟩,
        ⟨r, line + 1, .body, openedAt⟩) := by
  have hnext : (Scanner.mk (w ++ '\n' :: r) line .body openedAt).next selectors =
      (Scanner.mk (w ++ '\n' :: r) line .body openedAt).take (w ++ ['\n']).length
        (.body (String.ofList (w ++ ['\n']))) := by
    simp only [next, Scanner.bodyLine, Text.firstLineWithEnd_line hw.line, Text.trimEnd_line]
    rw [if_neg (by simp), if_neg hw.goesOn]
  have htake := take_append (w ++ ['\n']) r line .body openedAt
    (.body (String.ofList (w ++ ['\n'])))
  rw [List.append_assoc, Text.newlines_append, Text.newlines,
    List.count_eq_zero_of_not_mem hw.line, Nat.zero_add] at htake
  exact hnext.trans htake

theorem Scans.bodyLine {w : List Char} (hw : IsInnerLine w)
    (h : Scans selectors ⟨r, line + 1, .body, openedAt⟩ ts last) :
    Scans selectors ⟨w ++ '\n' :: r, line, .body, openedAt⟩
      (⟨.body (String.ofList (w ++ ['\n'])), String.ofList (w ++ ['\n']), line⟩ :: ts) last :=
  .token (next_bodyLine hw r line openedAt) (by simp) h

theorem Scans.closing (h : Scans selectors (between r (line + 1) openedAt) ts last) :
    Scans selectors ⟨'=' :: '=' :: '\n' :: r, line, .body, openedAt⟩
      (⟨.closing, "==\n", line⟩ :: ts) last :=
  .token rfl (by simp) h

/-- The lines of a value and the `==` after them. -/
theorem Scans.bodyLines {ws : List (List Char)} (hws : ∀ w ∈ ws, IsInnerLine w)
    (h : Scans selectors (between r (line + ws.length + 1) openedAt) ts last) :
    Scans selectors ⟨ws.flatMap (· ++ ['\n']) ++ '=' :: '=' :: '\n' :: r, line, .body, openedAt⟩
      ((bodyLines line ws).map Grammar.BodyLine.token ++
        ⟨.closing, "==\n", line + ws.length⟩ :: ts) last := by
  induction ws generalizing line with
  | nil => exact h.closing
  | cons w ws ih =>
    rw [List.length_cons, Nat.add_comm ws.length, ← Nat.add_assoc] at h ⊢
    rw [List.flatMap_cons, List.append_assoc, List.append_assoc]
    exact (ih (fun v hv => hws v (List.mem_cons_of_mem _ hv)) h).bodyLine (hws w List.mem_cons_self)

/-- The `==` that opens a value over several lines. -/
theorem Scans.opening (openedAt : Nat) (h : Scans selectors ⟨r, line + 1, .body, line⟩ ts last) :
    Scans selectors (between ('=' :: '=' :: '\n' :: r) line openedAt) (⟨.opening, "==", line⟩ :: ts)
      last := by
  refine .token ?_ (by simp) h
  rfl

end Scanner

end Courseware
