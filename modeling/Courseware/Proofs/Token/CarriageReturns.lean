/-
The same tokens are read where every line ends in a carriage return.

`Text.returned` puts a carriage return in front of each newline. The scanner
comes across it in one of three ways. Between two tokens it is skipped with the
newline. At the end of a path, a line comment or the line of a `==` it is trimmed
with the other blanks. And a name, a number, a component's name and a directive
stop at it as they stop at the newline (`LineBroken`).

What is left are the tokens that hold a newline: the lines of a value, and strings
and comments over several lines. Without these (`Token.OnOneLine`), a token of a
text is read from the other one with the same kind and on the same line
(`returns_next`), and so are all of them (`Scans.returned`). A path and a line
comment leave the newline behind and take the carriage return with them, so there
the scanners stand on two sides of it, and read the same next
(`Returning.returns_lineEnd`).
-/
import Courseware.Proofs.Token.Continued

namespace Courseware

open Text (newlines)

namespace Text

/-- A text with a carriage return in front of each newline. -/
def returned (cs : List Char) : List Char :=
  cs.flatMap fun c => if c = '\n' then ['\r', '\n'] else [c]

@[simp] theorem returned_nil : returned [] = [] := rfl

theorem returned_newline (cs : List Char) : returned ('\n' :: cs) = '\r' :: '\n' :: returned cs :=
  rfl

theorem returned_cons {c : Char} (hc : c ≠ '\n') (cs : List Char) :
    returned (c :: cs) = c :: returned cs := by simp [returned, hc]

theorem returned_append (as bs : List Char) : returned (as ++ bs) = returned as ++ returned bs :=
  List.flatMap_append

theorem returned_line {w : List Char} (hw : '\n' ∉ w) : returned w = w := by
  induction w with
  | nil => rfl
  | cons c w ih =>
    rw [List.mem_cons, not_or] at hw
    rw [returned_cons (Ne.symm hw.1), ih hw.2]

/-- A line is left as it is, and what comes after it is not. -/
theorem returned_take {n : Nat} {cs : List Char} (hline : '\n' ∉ cs.take n) :
    returned cs = cs.take n ++ returned (cs.drop n) := by
  conv_lhs => rw [← List.take_append_drop n cs]
  rw [returned_append, returned_line hline]

@[simp] theorem newlines_returned (cs : List Char) : newlines (returned cs) = newlines cs := by
  induction cs with
  | nil => rfl
  | cons c cs ih =>
    unfold newlines at ih ⊢
    by_cases hc : c = '\n'
    · subst hc
      rw [returned_newline, List.count_cons_of_ne (by decide), List.count_cons_self, ih,
        List.count_cons_self]
    · rw [returned_cons hc, List.count_cons_of_ne hc, ih, List.count_cons_of_ne hc]

/-- A text is its first line and what starts with the end of the line. -/
theorem exists_firstLine (cs : List Char) :
    ∃ w r, cs = w ++ r ∧ '\n' ∉ w ∧ LineEnded r ∧ LineBroken (returned r) := by
  by_cases hmem : '\n' ∈ cs
  · obtain ⟨w, ds, rfl, hw⟩ := List.eq_append_cons_of_mem hmem
    refine ⟨w, '\n' :: ds, rfl, hw, lineEnded_cons ds, fun c hc => ?_⟩
    cases hc
    exact .inr rfl
  · exact ⟨cs, [], (List.append_nil cs).symm, hmem, lineEnded_nil, lineEnded_nil.broken⟩

/-- What does not depend on how its line ends is the same for both texts. -/
theorem returned_congr {α : Type} {f : List Char → α}
    (hf : ∀ {r}, LineBroken r → ∀ {w}, w ≠ [] → f (w ++ r) = f w) {cs : List Char}
    (hhead : cs.head? ≠ some '\n') : f (returned cs) = f cs := by
  obtain ⟨w, r, rfl, hw, hr, hr'⟩ := exists_firstLine cs
  rw [returned_append, returned_line hw]
  by_cases hne : w = []
  · subst hne
    rcases hr.eq with rfl | ⟨ds, rfl⟩
    · rfl
    · exact absurd rfl hhead
  · rw [hf hr' hne, hf hr.broken hne]

/-- A character that ends no line stands second in both texts or in none. -/
theorem head?_returned {d : Char} (hnewline : d ≠ '\n') (hreturn : d ≠ '\r') (cs : List Char) :
    (returned cs).head? = some d ↔ cs.head? = some d := by
  cases cs with
  | nil => exact Iff.rfl
  | cons c cs =>
    by_cases hc : c = '\n'
    · subst hc
      rw [returned_newline, List.head?_cons, List.head?_cons, Option.some.injEq, Option.some.injEq]
      exact ⟨fun h => absurd h.symm hreturn, fun h => absurd h.symm hnewline⟩
    · rw [returned_cons hc]
      exact Iff.rfl

theorem startsWith_returned {start : List Char} (hnewline : '\n' ∉ start) (hreturn : '\r' ∉ start)
    (cs : List Char) : startsWith (returned cs) start = startsWith cs start := by
  have honward : ∀ {r}, LineBroken r → ∀ w, startsWith (w ++ r) start = startsWith w start := by
    intro r hr w
    refine startsWith_onward (fun c hc => ?_) w
    rcases hr c hc with rfl | rfl
    · exact hnewline
    · exact hreturn
  obtain ⟨w, r, rfl, hw, hr, hr'⟩ := exists_firstLine cs
  rw [returned_append, returned_line hw, honward hr' w, honward hr.broken w]

/-! ### Blanks at the end of a line -/

theorem firstLineWithEnd_returned (cs : List Char) :
    firstLineWithEnd (returned cs) = returned (firstLineWithEnd cs) := by
  by_cases hmem : '\n' ∈ cs
  · obtain ⟨w, ds, rfl, hw⟩ := List.eq_append_cons_of_mem hmem
    have hw' : '\n' ∉ w ++ ['\r'] := by simpa using hw
    have hcs : returned (w ++ '\n' :: ds) = w ++ ['\r'] ++ '\n' :: returned ds := by
      rw [returned_append, returned_line hw, returned_newline, List.append_assoc]
      rfl
    rw [firstLineWithEnd_line hw, hcs, firstLineWithEnd_line hw', returned_append,
      returned_line hw, List.append_assoc]
    rfl
  · rw [returned_line hmem, firstLineWithEnd_last hmem, returned_line hmem]

/-- The end of a line is trimmed with its carriage return. -/
theorem trimEnd_returned (cs : List Char) :
    trimEnd (returned (firstLineWithEnd cs)) = trimEnd (firstLineWithEnd cs) := by
  by_cases hmem : '\n' ∈ cs
  · obtain ⟨w, ds, rfl, hw⟩ := List.eq_append_cons_of_mem hmem
    have hline : returned (w ++ ['\n']) = w ++ ['\r'] ++ ['\n'] := by
      rw [returned_append, returned_line hw, List.append_assoc]
      rfl
    rw [firstLineWithEnd_line hw, hline, trimEnd_line, trimEnd_line, trimEnd_concat (by decide)]
  · rw [firstLineWithEnd_last hmem, returned_line hmem]

theorem trim_returned_eq_nil {cs : List Char} (h : trim cs = []) : trim (returned cs) = [] := by
  have hblank : ∀ c ∈ returned cs, isBlank c = true := by
    intro c hc
    obtain ⟨d, hd, hmem⟩ := List.mem_flatMap.mp hc
    have hd := blank_of_trim h d hd
    split at hmem
    · rcases List.mem_pair.mp hmem with rfl | rfl <;> decide
    · rwa [List.mem_singleton.mp hmem]
  rw [trim, trimStart, List.dropWhile_eq_nil_iff.mpr hblank]
  rfl

/-! ### Blanks between two tokens -/

theorem takeWhile_returned {p : Char → Bool} (hnewline : p '\n' = true) (hreturn : p '\r' = true)
    (cs : List Char) : (returned cs).takeWhile p = returned (cs.takeWhile p) := by
  induction cs with
  | nil => rfl
  | cons c cs ih =>
    by_cases hc : c = '\n'
    · subst hc
      rw [returned_newline, List.takeWhile_cons_of_pos hreturn, List.takeWhile_cons_of_pos hnewline,
        List.takeWhile_cons_of_pos hnewline, returned_newline, ih]
    · rw [returned_cons hc, List.takeWhile_cons, List.takeWhile_cons, ih]
      split
      · rw [returned_cons hc]
      · rfl

/-- Gaps that are not at the end of the line are the same. -/
theorem takeWhile_isGap_returned {cs : List Char}
    (h : (cs.dropWhile isGap).head? ≠ some '\n') :
    (returned cs).takeWhile isGap = cs.takeWhile isGap := by
  induction cs with
  | nil => rfl
  | cons c cs ih =>
    cases hgap : isGap c with
    | true =>
      have hc : c ≠ '\n' := by
        rintro rfl
        cases hgap
      rw [List.dropWhile_cons_of_pos hgap] at h
      rw [returned_cons hc, List.takeWhile_cons_of_pos hgap, List.takeWhile_cons_of_pos hgap, ih h]
    | false =>
      have hgap : ¬ isGap c = true := by simp [hgap]
      rw [List.dropWhile_cons_of_neg hgap] at h
      have hc : c ≠ '\n' := by
        rintro rfl
        exact h rfl
      rw [returned_cons hc, List.takeWhile_cons_of_neg hgap, List.takeWhile_cons_of_neg hgap]

end Text

open Text (returned)

/-! ## How far a token reaches -/

namespace Token

/-- What ends with the line takes no newline. -/
theorem StopsAtLineEnd.newline_notMem {f : List Char → Nat} (hf : StopsAtLineEnd f)
    {cs : List Char} (hhead : cs.head? ≠ some '\n') : '\n' ∉ cs.take (f cs) := by
  obtain ⟨w, r, rfl, hw, hr, -⟩ := Text.exists_firstLine cs
  by_cases hne : w = []
  · subst hne
    rcases hr.eq with rfl | ⟨ds, rfl⟩
    · simp
    · exact absurd rfl hhead
  · rw [hf.onward hr.broken hne, List.take_append_of_le_length (hf.le hne)]
    exact fun hmem => hw (List.mem_of_mem_take hmem)

theorem selectorLength_returned (cs : List Char) :
    selectorLength (returned cs) = selectorLength cs ∧ '\n' ∉ cs.take (selectorLength cs) := by
  by_cases hhead : cs.head? = some '\n'
  · obtain ⟨ds, rfl⟩ := List.head?_eq_some_iff.mp hhead
    exact ⟨rfl, List.not_mem_nil⟩
  · exact ⟨Text.returned_congr selectorLength_stops.onward hhead,
      selectorLength_stops.newline_notMem hhead⟩

theorem stringTail_returned {quote : Char} {cs content : List Char} {n : Nat}
    (h : stringTail quote cs = .ok (content, n)) (hline : '\n' ∉ cs.take n) :
    stringTail quote (returned cs) = .ok (content, n) := by
  rw [Text.returned_take hline]
  exact (stringTail_onward (stringTail_take h) _).1

theorem commentTail_returned {cs : List Char} {n : Nat} (h : commentTail cs = some n)
    (hline : '\n' ∉ cs.take n) : commentTail (returned cs) = some n := by
  rw [Text.returned_take hline]
  exact commentTail_append (commentTail_take h) _

/-- A path takes no newline. -/
theorem newline_notMem_path (afterBlank : Bool) (cs : List Char) :
    '\n' ∉ cs.take (pathLength afterBlank cs) := by
  have hwhole : pathLength afterBlank (cs.take (pathLength afterBlank cs)) =
      (cs.take (pathLength afterBlank cs)).length := by
    rw [pathLength_take, List.length_take_of_le (pathLength_le afterBlank cs)]
  exact Scanner.newline_notMem_of_pathLength hwhole

/-- A path takes the carriage return at the end of its line. -/
theorem pathLength_returned (afterBlank : Bool) (cs : List Char) :
    pathLength afterBlank (returned cs) = pathLength afterBlank cs ∨
      ∃ w ds, cs = w ++ '\n' :: ds ∧ '\n' ∉ w ∧ pathLength afterBlank cs = w.length ∧
        pathLength afterBlank (returned cs) = w.length + 1 := by
  induction cs generalizing afterBlank with
  | nil => exact .inl rfl
  | cons c cs ih =>
    by_cases hc : c = '\n'
    · subst hc
      refine .inr ⟨[], cs, rfl, List.not_mem_nil, ?_, ?_⟩
      · rw [pathLength_cons, if_pos (.inl rfl)]
        rfl
      · rw [Text.returned_newline, pathLength_cons, if_neg (by simp [endsPath, startsComment]),
          pathLength_cons, if_pos (.inl rfl)]
        rfl
    · have hcomment : startsComment (c :: returned cs) = startsComment (c :: cs) := by
        rw [← Text.returned_cons hc]
        exact Text.returned_congr (fun hr _ hw => startsComment_onward hr hw) (by simpa using hc)
      rw [Text.returned_cons hc, pathLength_cons, pathLength_cons, hcomment]
      split
      · exact .inl rfl
      · rcases ih (c = ' ' || c = '\t') with hsame | ⟨w, ds, rfl, hw, hlength, hlength'⟩
        · exact .inl (by rw [hsame])
        · have hw : '\n' ∉ c :: w := by simp [hw, Ne.symm hc]
          exact .inr ⟨c :: w, ds, rfl, hw, by rw [hlength]; rfl, by rw [hlength']; rfl⟩

end Token

/-! ## One token -/

/-- Whether a token is no line of a value, and no string or comment over several lines. -/
def Token.OnOneLine (t : Token) : Prop :=
  match t.kind with
  | .body _ => False
  | .string _ | .comment _ => '\n' ∉ t.lexeme.toList
  | _ => True

namespace Scanner

variable {selectors : List Char} {s s' : Scanner}

/-- Whether a scanner has the text of another one with a carriage return in front of each
newline. -/
structure Returning (s s' : Scanner) : Prop where
  rest : s'.rest = returned s.rest
  line : s'.line = s.line
  mode : s'.mode = s.mode

/-- Whether the token that is read in one place is also read in another one, and is followed by the
same, if it does not go over several lines. -/
def Returns (selectors : List Char) (a b : Item × Scanner) : Prop :=
  ∀ t u, a = (.ok t, u) → t.OnOneLine →
    ∃ t' u' v, b = (.ok t', u') ∧ t.Below 0 t' ∧ Returning u v ∧
      u'.next selectors = v.next selectors

theorem Returning.inMode (h : Returning s s') (mode : ScanMode) :
    Returning (s.inMode mode) (s'.inMode mode) := ⟨h.rest, h.line, rfl⟩

/-- Behind a part of the one text and the same part of the other. -/
theorem Returning.advance_append (h : Returning s s') {w r : List Char} (hrest : s.rest = w ++ r) :
    Returning (s.advance w.length) (s'.advance (returned w).length) := by
  have hrest' : s'.rest = returned w ++ returned r := by
    rw [h.rest, hrest, Text.returned_append]
  refine ⟨?_, ?_, h.mode⟩
  · simp [advance, hrest, hrest']
  · simp [advance, front, hrest, hrest', h.line]

theorem Returning.front (h : Returning s s') {n : Nat} (hn : n ≤ s.rest.length)
    (hline : '\n' ∉ s.front n) : s'.front n = s.front n := by
  have hlength : (s.rest.take n).length = n := List.length_take_of_le hn
  rw [Scanner.front, h.rest, Text.returned_take hline, List.take_append_of_le_length hlength.ge,
    List.take_of_length_le hlength.le, Scanner.front]

theorem Returning.advance (h : Returning s s') {n : Nat} (hn : n ≤ s.rest.length)
    (hline : '\n' ∉ s.front n) : Returning (s.advance n) (s'.advance n) := by
  have hfront : returned (s.rest.take n) = s.rest.take n := Text.returned_line hline
  have hadvance := h.advance_append (List.take_append_drop n s.rest).symm
  rwa [hfront, List.length_take_of_le hn] at hadvance

/-- A token that ends with its line is as long in both places. -/
theorem Returning.stop {f : List Char → Nat} (h : Returning s s') (hf : Token.StopsAtLineEnd f)
    (hhead : s.rest.head? ≠ some '\n') (hrest : s.rest ≠ []) :
    f s'.rest = f s.rest ∧ f s.rest ≤ s.rest.length ∧ '\n' ∉ s.front (f s.rest) :=
  ⟨by rw [h.rest, Text.returned_congr hf.onward hhead], hf.le hrest, hf.newline_notMem hhead⟩

theorem returns_fail (n : Nat) (fault : LexicalFault) (b : Item × Scanner) :
    Returns selectors (s.fail n fault) b := fun t u h => by cases h

theorem returns_take (h : Returning s s') {n : Nat} (hn : n ≤ s.rest.length)
    (hline : '\n' ∉ s.front n) (kind : TokenKind) :
    Returns selectors (s.take n kind) (s'.take n kind) := by
  intro t u htake _
  cases htake
  exact ⟨_, _, _, rfl, ⟨rfl, h.line⟩, h.advance hn hline, rfl⟩

/-- Between two tokens it does not matter on which side of a carriage return the scanner stands. -/
theorem next_advance (hmode : s.mode = .initial) {w r : List Char}
    (hrest : s.rest = w ++ '\r' :: r) :
    (s.advance (w.length + 1)).next selectors = (s.advance w.length).next selectors := by
  obtain ⟨rest, line, mode, openedAt⟩ := s
  obtain rfl : rest = w ++ '\r' :: r := hrest
  obtain rfl : mode = .initial := hmode
  have hbefore : (Scanner.mk (w ++ '\r' :: r) line .initial openedAt).advance w.length =
      between (['\r'] ++ r) (line + newlines w) openedAt := by
    simp [Scanner.advance, Scanner.front]
  have htake : (w ++ '\r' :: r).take (w.length + 1) = w ++ ['\r'] := List.take_length_add_append 1
  have hbehind : (Scanner.mk (w ++ '\r' :: r) line .initial openedAt).advance (w.length + 1) =
      between r (line + newlines w + newlines ['\r']) openedAt := by
    simp [Scanner.advance, Scanner.front, htake, Nat.add_assoc]
  have hspace : ∀ c ∈ ['\r'], Text.isSpace c = true := List.forall_mem_singleton.mpr rfl
  rw [hbefore, hbehind, next_spaces hspace]

theorem Returning.rest_lineEnd (h : Returning s s') {w ds : List Char}
    (hrest : s.rest = w ++ '\n' :: ds) (hw : '\n' ∉ w) :
    s'.rest = w ++ '\r' :: '\n' :: returned ds := by
  rw [h.rest, hrest, Text.returned_append, Text.returned_line hw, Text.returned_newline]

/-- At the end of a line, the carriage return may be taken with what stands in front of it. -/
theorem Returning.returns_lineEnd (hmode : s.mode = .initial) (h : Returning s s')
    {w ds : List Char} (hrest : s.rest = w ++ '\n' :: ds) (hw : '\n' ∉ w) {t t' : Token}
    (ht : t.Below 0 t') :
    Returns selectors (.ok t, s.advance w.length) (.ok t', s'.advance (w.length + 1)) := by
  intro _ _ hread _
  cases hread
  have hadvance := h.advance_append hrest
  rw [Text.returned_line hw] at hadvance
  exact ⟨_, _, _, rfl, ht, hadvance,
    next_advance (h.mode.trans hmode) (h.rest_lineEnd hrest hw)⟩

theorem returns_lineComment (hmode : s.mode = .initial) (h : Returning s s') :
    Returns selectors s.lineComment s'.lineComment := by
  by_cases hmem : '\n' ∈ s.rest
  · obtain ⟨w, ds, hrest, hw⟩ := List.eq_append_cons_of_mem hmem
    have hw' : '\n' ∉ w ++ ['\r'] := by simpa using hw
    have hrest' : s'.rest = w ++ ['\r'] ++ '\n' :: returned ds := by
      rw [h.rest_lineEnd hrest hw, List.append_assoc, List.singleton_append]
    have htrim : Text.trimEnd (w ++ ['\r']) = Text.trimEnd w := Text.trimEnd_concat (by decide) w
    unfold lineComment
    rw [hrest, hrest', Text.firstLine_line hw, Text.firstLine_line hw']
    dsimp only
    rw [htrim, List.length_append]
    exact h.returns_lineEnd hmode hrest hw ⟨rfl, h.line⟩
  · have hrest : s'.rest = s.rest := by rw [h.rest, Text.returned_line hmem]
    have hle := (Text.firstLine_prefix s.rest).length_le
    have hline : '\n' ∉ s.front (Text.firstLine s.rest).length :=
      fun hfront => hmem (List.mem_of_mem_take hfront)
    intro t u hcomment _
    cases hcomment
    unfold lineComment
    rw [hrest]
    exact ⟨_, _, _, rfl, ⟨rfl, h.line⟩, h.advance hle hline, rfl⟩

theorem returns_blockComment {cs : List Char} (hrest : s.rest = '/' :: '*' :: cs)
    (h : Returning s s') : Returns selectors s.blockComment s'.blockComment := by
  have hdrop : s.rest.drop 2 = cs := by rw [hrest]; rfl
  have hdrop' : s'.rest.drop 2 = returned cs := by rw [h.rest, hrest]; rfl
  intro t u hcomment hline
  unfold blockComment at hcomment ⊢
  rw [hdrop] at hcomment
  rw [hdrop']
  cases htail : Token.commentTail cs with
  | none =>
    rw [htail] at hcomment
    cases hcomment
  | some n =>
    rw [htail] at hcomment
    cases hcomment
    have hfront : '\n' ∉ s.front (n + 2) := by simpa [Token.OnOneLine] using hline
    have hle : n + 2 ≤ s.rest.length := by
      have hn := Token.commentTail_le htail
      rw [hrest, List.length_cons, List.length_cons]
      omega
    have hcs : '\n' ∉ cs.take n := fun hmem =>
      hfront (by rw [front, hrest]; simpa using hmem)
    rw [Token.commentTail_returned htail hcs]
    dsimp only
    rw [h.front hle hfront]
    exact returns_take h hle hfront _ _ _ rfl hline

theorem returns_opening {cs : List Char} (hrest : s.rest = '=' :: '=' :: cs)
    (h : Returning s s') : Returns selectors s.opening s'.opening := by
  have hdrop : s.rest.drop 2 = cs := by rw [hrest]; rfl
  have hdrop' : s'.rest.drop 2 = returned cs := by rw [h.rest, hrest]; rfl
  obtain ⟨r, hr⟩ := Text.firstLineWithEnd_prefix cs
  have hcs : s.rest = ('=' :: '=' :: Text.firstLineWithEnd cs) ++ r := by
    rw [hrest, List.cons_append, List.cons_append, hr]
  intro t u hopening _
  unfold opening at hopening ⊢
  rw [hdrop] at hopening
  rw [hdrop', Text.firstLineWithEnd_returned]
  dsimp only at hopening ⊢
  split at hopening
  · next htrim =>
    cases hopening
    rw [Text.trim_returned_eq_nil htrim]
    have hadvance := h.advance_append hcs
    exact ⟨_, _, { s'.advance ((returned (Text.firstLineWithEnd cs)).length + 2) with
      mode := .body, openedAt := s'.line }, rfl, ⟨rfl, h.line⟩,
      ⟨hadvance.rest, hadvance.line, rfl⟩, rfl⟩
  · cases hopening

theorem returns_directive (hhead : s.rest.head? ≠ some '\n') (hrest : s.rest ≠ [])
    (h : Returning s s') : Returns selectors s.directive s'.directive := by
  obtain ⟨hcount, hle, hline⟩ := h.stop Token.directiveLength_stops hhead hrest
  unfold directive
  dsimp only
  rw [hcount, h.front hle hline]
  split
  · exact returns_take (h.inMode .path) hle hline _
  · exact returns_fail _ _ _

theorem returns_string (hhead : s.rest.head? ≠ some '\n') (hrest : s.rest ≠ []) (quote : Char)
    (h : Returning s s') : Returns selectors (s.string quote) (s'.string quote) := by
  obtain ⟨c, cs, hcs⟩ := List.exists_cons_of_ne_nil hrest
  have hc : c ≠ '\n' := by
    rintro rfl
    exact hhead (by rw [hcs]; rfl)
  have hdrop : s.rest.drop 1 = cs := by rw [hcs]; rfl
  have hdrop' : s'.rest.drop 1 = returned cs := by rw [h.rest, hcs, Text.returned_cons hc]; rfl
  intro t u hstring hline
  unfold string at hstring ⊢
  rw [hdrop] at hstring
  rw [hdrop']
  cases htail : Token.stringTail quote cs with
  | error fault =>
    rw [htail] at hstring
    cases hstring
  | ok tail =>
    obtain ⟨content, n⟩ := tail
    rw [htail] at hstring
    cases hstring
    have hfront : '\n' ∉ s.front (n + 1) := by simpa [Token.OnOneLine] using hline
    have hle : n + 1 ≤ s.rest.length := by
      rw [hcs, List.length_cons]
      exact Nat.add_le_add_right (Token.stringTail_onward htail []).2 1
    have htake : '\n' ∉ cs.take n := fun hmem =>
      hfront (by rw [front, hcs]; exact List.mem_cons_of_mem c hmem)
    rw [Token.stringTail_returned htail htake]
    exact returns_take h hle hfront _ _ _ rfl hline

theorem returns_number (hhead : s.rest.head? ≠ some '\n') (hrest : s.rest ≠ [])
    (h : Returning s s') : Returns selectors s.number s'.number := by
  obtain ⟨hcount, hle, hline⟩ := h.stop Token.numberLength_stops hhead hrest
  unfold number
  dsimp only
  rw [hcount, h.front hle hline]
  split
  · exact returns_take h hle hline _
  · exact returns_fail _ _ _

theorem returns_name (hhead : s.rest.head? ≠ some '\n') (hrest : s.rest ≠ [])
    (h : Returning s s') (c : Char) : Returns selectors (s.name c) (s'.name c) := by
  obtain ⟨hcount, hle, hline⟩ := h.stop Token.nameLength_stops hhead hrest
  unfold name
  rw [hcount]
  split
  · exact returns_fail _ _ _
  · rw [h.front hle hline]
    exact returns_take h hle hline _

theorem returns_selector (hhead : s.rest.head? ≠ some '\n') (hrest : s.rest ≠ [])
    (h : Returning s s') {start : List Char} (hnewline : '\n' ∉ start)
    (hstart : Text.startsWith s.rest start = true) (c : Char) :
    Returns selectors (s.selector start c) (s'.selector start c) := by
  obtain ⟨cs, hcs⟩ := List.isPrefixOf_iff_prefix.mp hstart
  have hdrop : s.rest.drop start.length = cs := by rw [← hcs, List.drop_left]
  have hdrop' : s'.rest.drop start.length = returned cs := by
    rw [h.rest, ← hcs, Text.returned_append, Text.returned_line hnewline, List.drop_left]
  obtain ⟨hcount, htail⟩ := Token.selectorLength_returned cs
  have hle : start.length + Token.selectorLength cs ≤ s.rest.length := by
    have hn := Token.selectorLength_le cs
    rw [← hcs, List.length_append]
    omega
  have hline : '\n' ∉ s.front (start.length + Token.selectorLength cs) := by
    rw [front, ← hcs, List.take_length_add_append, List.mem_append, not_or]
    exact ⟨hnewline, htail⟩
  unfold selector
  rw [hdrop, hdrop', hcount]
  split
  · exact returns_name hhead hrest h c
  · dsimp only
    rw [h.front hle hline]
    exact returns_take h hle hline _

theorem returns_token (hnewline : '\n' ∉ selectors) (hreturn : '\r' ∉ selectors)
    (hmode : s.mode = .initial) (hhead : s.rest.head? ≠ some '\n') (h : Returning s s') :
    Returns selectors (s.token selectors) (s'.token selectors) := by
  cases hrest : s.rest with
  | nil =>
    have hrest' : s'.rest = [] := by rw [h.rest, hrest, Text.returned_nil]
    unfold token
    rw [hrest, hrest']
    exact returns_take h (Nat.zero_le _) List.not_mem_nil _
  | cons c cs =>
    have hne : s.rest ≠ [] := by simp [hrest]
    have hc : c ≠ '\n' := by
      rintro rfl
      exact hhead (by rw [hrest]; rfl)
    have hrest' : s'.rest = c :: returned cs := by rw [h.rest, hrest, Text.returned_cons hc]
    have hstarts : Text.startsWith s'.rest selectors = Text.startsWith s.rest selectors := by
      rw [h.rest, Text.startsWith_returned hnewline hreturn]
    have hone : '\n' ∉ s.front 1 := by
      rw [front, hrest]
      simpa using Ne.symm hc
    exact token_alike hrest hrest' (fun d hd hd' => Text.head?_returned hd hd' cs) hstarts
      (returns_lineComment hmode h) (fun ds hds => returns_blockComment hds h)
      (fun ds hds => returns_opening hds h) (fun kind => returns_take h (by simp [hrest]) hone kind)
      (returns_directive hhead hne h) (fun quote => returns_string hhead hne quote h)
      (returns_number hhead hne h)
      (fun _ hstart => returns_selector hhead hne h hnewline hstart c) (returns_name hhead hne h c)

theorem returns_path (h : Returning s s') : Returns selectors s.path s'.path := by
  have hle := Token.pathLength_le true s.rest
  have hline : '\n' ∉ s.front (Token.pathLength true s.rest) :=
    Token.newline_notMem_path true s.rest
  unfold path
  dsimp only
  rcases Token.pathLength_returned true s.rest with hsame | ⟨w, ds, hrest, hw, hcount, hcount'⟩
  · rw [← h.rest] at hsame
    rw [hsame, h.front hle hline]
    split
    · exact returns_fail _ _ _
    · exact returns_take (h.inMode .initial) hle hline _
  · have hfront : s.front w.length = w := by rw [front, hrest, List.take_left]
    have hfront' : s'.front (w.length + 1) = w ++ ['\r'] := by
      rw [front, h.rest_lineEnd hrest hw, List.take_length_add_append]
      rfl
    have htrim : Text.trim (w ++ ['\r']) = Text.trim w := Text.trim_concat (by decide) w
    rw [← h.rest] at hcount'
    rw [hcount, hcount', hfront, hfront', htrim]
    split
    · exact returns_fail _ _ _
    · exact (h.inMode .initial).returns_lineEnd rfl hrest hw ⟨rfl, h.line⟩

/-- Where a line ends there is no path. -/
theorem path_newline {ds : List Char} (hrest : s.rest = '\n' :: ds) :
    s.path = (s.inMode .initial).fail 0 .missingPath := by
  unfold path
  rw [hrest, Token.pathLength_cons, if_pos (.inl rfl)]
  rfl

theorem returns_bodyLine (h : Returning s s') : Returns selectors s.bodyLine s'.bodyLine := by
  intro t u hbody hline
  obtain ⟨r, hr⟩ := Text.firstLineWithEnd_prefix s.rest
  unfold bodyLine at hbody ⊢
  dsimp only at hbody ⊢
  split at hbody
  · cases hbody
  · next hrest =>
    have hrest' : s'.rest ≠ [] := by
      rw [h.rest]
      obtain ⟨c, cs, hcs⟩ := List.exists_cons_of_ne_nil hrest
      by_cases hc : c = '\n'
      · rw [hcs, hc, Text.returned_newline]
        exact List.cons_ne_nil _ _
      · rw [hcs, Text.returned_cons hc]
        exact List.cons_ne_nil _ _
    rw [if_neg hrest', h.rest, Text.firstLineWithEnd_returned, Text.trimEnd_returned]
    split at hbody
    · next hclose =>
      cases hbody
      rw [if_pos hclose]
      exact ⟨_, _, _, rfl, ⟨rfl, h.line⟩, (h.inMode .initial).advance_append hr.symm, rfl⟩
    · -- a line of a value is more than one line
      cases hbody
      exact absurd hline not_false

theorem skip_rest (s : Scanner) (p : Char → Bool) : (s.skip p).rest = s.rest.dropWhile p := by
  have hsplit : s.rest.takeWhile p ++ s.rest.dropWhile p = s.rest :=
    List.takeWhile_append_dropWhile
  calc (s.skip p).rest
      = (s.rest.takeWhile p ++ s.rest.dropWhile p).drop (s.rest.takeWhile p).length := by
        rw [hsplit]
        rfl
    _ = s.rest.dropWhile p := List.drop_left

/-- What is skipped between two tokens may be the ends of lines. -/
theorem Returning.skip_isSpace (h : Returning s s') :
    Returning (s.skip Text.isSpace) (s'.skip Text.isSpace) := by
  unfold skip
  rw [h.rest, Text.takeWhile_returned rfl rfl]
  exact h.advance_append List.takeWhile_append_dropWhile.symm

/-- What is skipped in front of a path stays on its line. -/
theorem Returning.skip_isGap (h : Returning s s')
    (hhead : (s.rest.dropWhile Text.isGap).head? ≠ some '\n') :
    Returning (s.skip Text.isGap) (s'.skip Text.isGap) := by
  have hgap : '\n' ∉ s.rest.takeWhile Text.isGap := fun hmem => by
    cases List.mem_takeWhile_imp hmem
  have hadvance := h.advance_append (List.takeWhile_append_dropWhile (p := Text.isGap)).symm
  rw [Text.returned_line hgap] at hadvance
  unfold skip
  rw [h.rest, Text.takeWhile_isGap_returned hhead]
  exact hadvance

/-- **A token that stays on its line is also read where the lines end in carriage returns.** -/
theorem returns_next (hnewline : '\n' ∉ selectors) (hreturn : '\r' ∉ selectors)
    (h : Returning s s') : Returns selectors (s.next selectors) (s'.next selectors) := by
  unfold next
  rw [h.mode]
  split
  · next hmode =>
    have hhead : (s.skip Text.isSpace).rest.head? ≠ some '\n' := by
      intro hhead
      have hspace := List.head?_dropWhile_not Text.isSpace s.rest
      rw [skip_rest] at hhead
      rw [hhead] at hspace
      cases hspace
    exact returns_token hnewline hreturn hmode hhead h.skip_isSpace
  · by_cases hhead : (s.rest.dropWhile Text.isGap).head? = some '\n'
    · obtain ⟨ds, hds⟩ := List.head?_eq_some_iff.mp hhead
      rw [path_newline ((skip_rest s Text.isGap).trans hds)]
      exact returns_fail _ _ _
    · exact returns_path (h.skip_isGap hhead)
  · exact returns_bodyLine h

/-! ## All tokens -/

/-- **The tokens that are read are also read where the lines end in carriage returns.** -/
theorem Scans.returned {ts : List Token} {last : Token} (hnewline : '\n' ∉ selectors)
    (hreturn : '\r' ∉ selectors) (h : Scans selectors s ts last) :
    (∀ t ∈ ts, t.OnOneLine) → ∀ {s' : Scanner}, Returning s s' →
      ∃ ts' last', List.Forall₂ (Token.Below 0) ts ts' ∧ Scans selectors s' ts' last' := by
  induction h with
  | @finish s u t hnext hkind =>
    intro _ s' hs
    have hline : t.OnOneLine := by
      rw [Token.OnOneLine, hkind]
      trivial
    obtain ⟨t', u', v, hnext', ht, -, -⟩ := returns_next hnewline hreturn hs t u hnext hline
    exact ⟨[], t', .nil, .finish hnext' (by rw [ht.kind, hkind])⟩
  | @token s u t ts last hnext hkind hrest ih =>
    intro hts s' hs
    obtain ⟨ht, hts⟩ := List.forall_mem_cons.mp hts
    obtain ⟨t', u', v, hnext', hbelow, hv, hsame⟩ :=
      returns_next hnewline hreturn hs t u hnext ht
    obtain ⟨ts', last', hall, hscans⟩ := ih hts hv
    have hkind' : t'.kind ≠ .finish := by
      rw [hbelow.kind]
      exact hkind
    exact ⟨t' :: ts', last', .cons hbelow hall, .token hnext' hkind' (hscans.congr hsame)⟩

end Scanner

end Courseware
