/-
What the tokens of a text are made of.

A token is read from the front of a text, and its own text is one that would
be read in the same way: a name reaches to its end, a path is trimmed and
holds nothing that ends it, a comment starts and ends as one (`IsLexeme`).
Every token that is read is such a lexeme, and every one but the last takes
something from the text (`next_sound`). This is all that the proofs about
writing need to know of where a document came from.
-/
import Courseware.Proofs.Token.Munch
import Courseware.Token.Scanner
import Mathlib.Data.List.DropRight

namespace Courseware

namespace Text

theorem trimEnd_prefix (cs : List Char) : trimEnd cs <+: cs := List.rdropWhile_prefix _ _

theorem trimStart_suffix (cs : List Char) : trimStart cs <:+ cs := List.dropWhile_suffix _

@[simp] theorem trimEnd_trimEnd (cs : List Char) : trimEnd (trimEnd cs) = trimEnd cs :=
  List.rdropWhile_idempotent _ _

/-- A text that does not start with a blank keeps its first character. -/
theorem trimEnd_cons {c : Char} (hc : isBlank c = false) (cs : List Char) :
    trimEnd (c :: cs) = c :: trimEnd cs := by
  unfold trimEnd
  rw [List.reverse_cons, List.dropWhile_append]
  split
  · next h =>
    rw [List.isEmpty_iff] at h
    rw [h]
    simp [hc]
  · simp

theorem trimStart_of_head {cs : List Char} (h : ∀ c, cs.head? = some c → isBlank c = false) :
    trimStart cs = cs := by
  cases cs with
  | nil => rfl
  | cons c cs => exact List.dropWhile_cons_of_neg (by simp [h c rfl])

theorem head_trimStart {cs : List Char} {c : Char} (h : (trimStart cs).head? = some c) :
    isBlank c = false := by
  have := List.head?_dropWhile_not isBlank cs
  rw [← trimStart, h] at this
  simpa using this

/-- A trimmed text starts with no blank. -/
theorem head_trim {cs : List Char} {c : Char} (h : (trim cs).head? = some c) :
    isBlank c = false := by
  obtain ⟨r, hr⟩ := trimEnd_prefix (trimStart cs)
  have hhead : (trimStart cs).head? = some c := by
    rw [trim] at h
    rw [← hr, List.head?_append, h]
    rfl
  exact head_trimStart hhead

@[simp] theorem trim_trim (cs : List Char) : trim (trim cs) = trim cs := by
  have hstart : trimStart (trim cs) = trim cs := trimStart_of_head fun _ => head_trim
  rw [trim, hstart, trim, trimEnd_trimEnd]

/-- A trimmed text stands somewhere in the text. -/
theorem exists_trim (cs : List Char) : ∃ before after, cs = before ++ (trim cs ++ after) := by
  obtain ⟨before, hbefore⟩ := trimStart_suffix cs
  obtain ⟨after, hafter⟩ := trimEnd_prefix (trimStart cs)
  exact ⟨before, after, by rw [trim, hafter, hbefore]⟩

end Text

namespace Token

/-! ## Lexemes -/

/-- Whether a text is a dotted name or a truth value. -/
structure IsWord (cs : List Char) : Prop where
  nonempty : cs ≠ []
  reaches : nameLength cs = cs.length

/-- Whether a text is a dotted name, and no truth value. -/
structure IsName (cs : List Char) : Prop extends IsWord cs where
  kind : nameKind cs = .name (String.ofList cs)

/-- Whether a text is the name of a component. -/
def IsSelector (start cs : List Char) : Prop :=
  ∃ tail, cs = start ++ tail ∧ tail ≠ [] ∧ selectorLength tail = tail.length

/-- Whether a text is a path, which may follow a directive if no comment starts it. -/
structure IsPath (cs : List Char) : Prop where
  nonempty : cs ≠ []
  trimmed : Text.trim cs = cs
  reaches : pathLength false cs = cs.length

/-- Whether a text is a comment to the end of its line, or one between `/*` and `*/`. -/
inductive IsComment : List Char → Prop
  | hash {cs : List Char} (line : '\n' ∉ cs) (trimmed : Text.trimEnd cs = cs) :
    IsComment ('#' :: cs)
  | slashes {cs : List Char} (line : '\n' ∉ cs) (trimmed : Text.trimEnd cs = cs) :
      IsComment ('/' :: '/' :: cs)
  | block {cs : List Char} (ends : commentTail cs = some cs.length) : IsComment ('/' :: '*' :: cs)

/-- Whether a token is one that can be read, where components start with `selectors`. -/
def IsLexeme (selectors : List Char) : TokenKind → Prop
  | .name text => IsName text.toList
  | .selector text => IsSelector selectors text.toList
  | .path text => IsPath text.toList
  | .comment text => IsComment text.toList
  | _ => True

theorem nameKind_cases (cs : List Char) :
    (∃ b, nameKind cs = .boolean b) ∨ nameKind cs = .name (String.ofList cs) := by
  unfold nameKind
  dsimp only
  split
  · exact .inl ⟨true, rfl⟩
  · split
    · exact .inl ⟨false, rfl⟩
    · exact .inr rfl

/-- A lexeme that is cut off at its length has that length. -/
theorem ne_nil_of_take {cs : List Char} {n : Nat} (hpos : n ≠ 0) (hle : n ≤ cs.length) :
    cs.take n ≠ [] ∧ (cs.take n).length = n := by
  have hlength : (cs.take n).length = n := by rw [List.length_take, Nat.min_eq_left hle]
  exact ⟨fun h => hpos (by rw [← hlength, h, List.length_nil]), hlength⟩

theorem isLexeme_nameKind (selectors : List Char) {cs : List Char} (hpos : nameLength cs ≠ 0) :
    IsLexeme selectors (nameKind (cs.take (nameLength cs))) := by
  rcases nameKind_cases (cs.take (nameLength cs)) with ⟨b, h⟩ | h
  · rw [h]
    trivial
  · obtain ⟨hne, hlength⟩ := ne_nil_of_take hpos (nameLength_le cs)
    rw [h, IsLexeme, String.toList_ofList]
    exact ⟨⟨hne, by rw [nameLength_take, hlength]⟩, h⟩

theorem isSelector_take {start cs : List Char} (hstart : Text.startsWith cs start = true)
    (hpos : selectorLength (cs.drop start.length) ≠ 0) :
    IsSelector start (cs.take (start.length + selectorLength (cs.drop start.length))) := by
  obtain ⟨r, rfl⟩ := List.isPrefixOf_iff_prefix.mp hstart
  rw [List.drop_left] at hpos ⊢
  obtain ⟨hne, hlength⟩ := ne_nil_of_take hpos (selectorLength_le r)
  rw [List.take_length_add_append]
  exact ⟨_, rfl, hne, by rw [selectorLength_take, hlength]⟩

theorem isPath_trim {cs : List Char} (hne : Text.trim (cs.take (pathLength true cs)) ≠ []) :
    IsPath (Text.trim (cs.take (pathLength true cs))) := by
  have hlength : (cs.take (pathLength true cs)).length = pathLength true cs := by
    rw [List.length_take, Nat.min_eq_left (pathLength_le true cs)]
  have hreach := pathLength_take true cs
  generalize cs.take (pathLength true cs) = path at hne hlength hreach
  obtain ⟨before, after, hpath⟩ := Text.exists_trim path
  have hall : pathLength true (before ++ (Text.trim path ++ after)) =
      (before ++ (Text.trim path ++ after)).length := by
    rw [← hpath, hreach, hlength]
  exact ⟨hne, Text.trim_trim path, pathLength_of_prefix (pathLength_of_suffix hall)⟩

theorem isComment_line {cs : List Char}
    (h : (∃ ds, cs = '#' :: ds) ∨ ∃ ds, cs = '/' :: '/' :: ds) :
    IsComment (Text.trimEnd (Text.firstLine cs)) := by
  have hline : ∀ ds, '\n' ∉ Text.trimEnd (Text.firstLine ds) := by
    intro ds hmem
    have := List.mem_takeWhile_imp ((Text.trimEnd_prefix _).subset hmem)
    simp at this
  rcases h with ⟨ds, rfl⟩ | ⟨ds, rfl⟩
  · rw [Text.firstLine, List.takeWhile_cons_of_pos (by decide), Text.trimEnd_cons (by decide)]
    exact .hash (hline ds) (Text.trimEnd_trimEnd _)
  · rw [Text.firstLine, List.takeWhile_cons_of_pos (by decide),
      List.takeWhile_cons_of_pos (by decide), Text.trimEnd_cons (by decide),
      Text.trimEnd_cons (by decide)]
    exact .slashes (hline ds) (Text.trimEnd_trimEnd _)

theorem isComment_block {cs : List Char} {n : Nat} (h : commentTail cs = some n) :
    IsComment (('/' :: '*' :: cs).take (n + 2)) := by
  rw [List.take_succ_cons, List.take_succ_cons]
  refine .block ?_
  rw [commentTail_take h, List.length_take, Nat.min_eq_left (commentTail_le h)]

end Token

/-! ## What the scanner reads -/

namespace Scanner

variable {selectors : List Char} {s : Scanner}

/-- Whether a token that was read, unless it is the last one, is a lexeme and took something from
the text. -/
def Sound (selectors : List Char) (s : Scanner) (r : Item × Scanner) : Prop :=
  ∀ t, r.1 = .ok t → t.kind ≠ .finish →
    Token.IsLexeme selectors t.kind ∧ r.2.rest.length < s.rest.length

theorem advance_lt {n : Nat} (hn : n ≠ 0) (hne : s.rest ≠ []) :
    (s.advance n).rest.length < s.rest.length := by
  have := List.length_pos_iff.mpr hne
  simp only [advance, List.length_drop]
  omega

theorem sound_fail (n : Nat) (fault : LexicalFault) : Sound selectors s (s.fail n fault) :=
  fun _ h => by cases h

theorem sound_take {n : Nat} {kind : TokenKind} (hn : n ≠ 0) (hne : s.rest ≠ [])
    (hkind : Token.IsLexeme selectors kind) : Sound selectors s (s.take n kind) := by
  rintro t h -
  cases h
  exact ⟨hkind, advance_lt hn hne⟩

theorem sound_lineComment
    (h : (∃ cs, s.rest = '#' :: cs) ∨ ∃ cs, s.rest = '/' :: '/' :: cs) :
    Sound selectors s s.lineComment := by
  rintro t ht -
  cases ht
  refine ⟨?_, advance_lt ?_ ?_⟩
  · simp only [Token.IsLexeme, String.toList_ofList]
    exact Token.isComment_line h
  · rcases h with ⟨cs, h⟩ | ⟨cs, h⟩ <;> rw [h] <;> simp [Text.firstLine]
  · rcases h with ⟨cs, h⟩ | ⟨cs, h⟩ <;> rw [h] <;> simp

theorem sound_blockComment {cs : List Char} (h : s.rest = '/' :: '*' :: cs) :
    Sound selectors s s.blockComment := by
  unfold blockComment
  split
  · next tail htail =>
    rw [h] at htail
    refine sound_take (by omega) (by simp [h]) ?_
    simp only [Token.IsLexeme, String.toList_ofList, front, h]
    exact Token.isComment_block htail
  · exact sound_fail _ _

theorem sound_opening (hne : s.rest ≠ []) : Sound selectors s s.opening := by
  unfold opening
  dsimp only
  split
  · rintro t h -
    cases h
    exact ⟨trivial, advance_lt (by omega) hne⟩
  · exact sound_fail _ _

theorem sound_directive (hne : s.rest ≠ []) : Sound selectors s s.directive := by
  unfold directive
  dsimp only
  split
  · rintro t h -
    cases h
    exact ⟨trivial, advance_lt (by simp [Token.directiveLength]) hne⟩
  · exact sound_fail _ _

theorem sound_string (hne : s.rest ≠ []) (quote : Char) : Sound selectors s (s.string quote) := by
  unfold string
  split
  · exact sound_take (by omega) hne trivial
  · exact sound_fail _ _

theorem sound_number (hn : Token.numberLength s.rest ≠ 0) (hne : s.rest ≠ []) :
    Sound selectors s s.number := by
  unfold number
  dsimp only
  split
  · exact sound_take hn hne trivial
  · exact sound_fail _ _

theorem sound_name (hne : s.rest ≠ []) (c : Char) : Sound selectors s (s.name c) := by
  unfold name
  split
  · exact sound_fail _ _
  · next hpos =>
    exact sound_take hpos hne (Token.isLexeme_nameKind selectors hpos)

theorem sound_selector (hne : s.rest ≠ []) (hstart : Text.startsWith s.rest selectors = true)
    (c : Char) : Sound selectors s (s.selector selectors c) := by
  unfold selector
  split
  · exact sound_name hne c
  · next hpos =>
    refine sound_take (fun h => hpos (by omega)) hne ?_
    simp only [Token.IsLexeme, String.toList_ofList]
    exact Token.isSelector_take hstart hpos

theorem numberLength_ne_zero {c : Char} {cs : List Char}
    (h : (c.isDigit || ((c = '+' || c = '-') && (cs.head?.any Char.isDigit))) = true) :
    Token.numberLength (c :: cs) ≠ 0 := by
  simp only [Bool.or_eq_true, Bool.and_eq_true, decide_eq_true_eq] at h
  unfold Token.numberLength
  split
  · exact Nat.succ_ne_zero _
  · exact Nat.succ_ne_zero _
  · next hplus hminus =>
    rcases h with hc | ⟨rfl | rfl, -⟩
    · rw [Token.numberTail.eq_def]
      simp [hc]
    · exact absurd rfl (hplus cs)
    · exact absurd rfl (hminus cs)

theorem sound_token (selectors : List Char) (s : Scanner) :
    Sound selectors s (s.token selectors) := by
  unfold token
  split
  case h_1 =>
    rintro t h hkind
    cases h
    exact absurd rfl hkind
  case h_2 cs h => exact sound_lineComment (.inl ⟨cs, h⟩)
  case h_3 cs h => exact sound_lineComment (.inr ⟨cs, h⟩)
  case h_4 cs h => exact sound_blockComment h
  case h_5 h => exact sound_opening (by simp [h])
  case h_13 h => exact sound_directive (by simp [h])
  case h_14 h | h_15 h => exact sound_string (by simp [h]) _
  case h_16 h =>
    have hne : s.rest ≠ [] := by simp [h]
    split
    · next hnumber =>
      refine sound_number ?_ hne
      rw [h]
      exact numberLength_ne_zero hnumber
    · split
      · next hselector => exact sound_selector hne hselector.2 _
      · exact sound_name hne _
  all_goals next h => exact sound_take Nat.one_ne_zero (by simp [h]) trivial

theorem skip_le (s : Scanner) (p : Char → Bool) : (s.skip p).rest.length ≤ s.rest.length := by
  simp only [skip, advance, List.length_drop]
  omega

theorem sound_path (s : Scanner) : Sound selectors s s.path := by
  unfold path
  dsimp only
  split
  · exact sound_fail _ _
  · next hne =>
    have htrim : Text.trim (s.front (Token.pathLength true s.rest)) ≠ [] := fun h => hne h
    have hpos : Token.pathLength true s.rest ≠ 0 := fun h => htrim (by rw [h]; rfl)
    have hrest : s.rest ≠ [] := fun h => hpos (by rw [h]; rfl)
    rintro t ht -
    cases ht
    refine ⟨?_, advance_lt hpos hrest⟩
    simp only [Token.IsLexeme, String.toList_ofList]
    exact Token.isPath_trim htrim

theorem firstLineWithEnd_length_ne_zero {cs : List Char} (h : cs ≠ []) :
    (Text.firstLineWithEnd cs).length ≠ 0 := by
  unfold Text.firstLineWithEnd
  split
  · next hdrop =>
    have hall := List.dropWhile_eq_nil_iff.mp hdrop
    rw [Text.firstLine, List.takeWhile_eq_self_iff.mpr hall]
    simpa using h
  · simp

theorem sound_bodyLine (s : Scanner) : Sound selectors s s.bodyLine := by
  unfold bodyLine
  dsimp only
  split
  · exact fun _ h => by cases h
  · next hne =>
    have hpos := firstLineWithEnd_length_ne_zero hne
    split
    · rintro t h -
      cases h
      exact ⟨trivial, advance_lt hpos hne⟩
    · exact sound_take hpos hne trivial

/-- **Every token that is read is a lexeme**, and every one but the last takes something from the
text. -/
theorem next_sound (selectors : List Char) (s : Scanner) :
    Sound selectors s (s.next selectors) := by
  unfold next
  split
  · intro t h hkind
    obtain ⟨hlexeme, hlt⟩ := sound_token selectors (s.skip Text.isSpace) t h hkind
    exact ⟨hlexeme, Nat.lt_of_lt_of_le hlt (skip_le s _)⟩
  · intro t h hkind
    obtain ⟨hlexeme, hlt⟩ := sound_path (s.skip Text.isGap) t h hkind
    exact ⟨hlexeme, Nat.lt_of_lt_of_le hlt (skip_le s _)⟩
  · exact sound_bodyLine s

end Scanner

end Courseware
