/-
Reading a text as tokens loses nothing and invents nothing.

A text that is read to its end is the lexemes of its tokens with gaps of blanks
in front of them (`Tiling`), and the line of a token is one more than the
newlines before its lexeme. One token takes from the text a gap, its lexeme, and
sometimes blanks behind it that are no part of it (`Takes`): those at the end of
a line comment, and the line that an opening `==` stands on. Such blanks count
to the gap of the token that comes next, so a tiling is built from the last
token on.
-/
import Courseware.Proofs.Document.Reading

namespace Courseware

namespace Text

/-- Whether a text is made of blanks. -/
def Blank (cs : List Char) : Prop := ∀ c ∈ cs, isBlank c = true

theorem blank_nil : Blank [] := List.forall_mem_nil _

theorem Blank.append {cs ds : List Char} (h : Blank cs) (h' : Blank ds) : Blank (cs ++ ds) := by
  intro c hc
  rcases List.mem_append.mp hc with hc | hc
  · exact h c hc
  · exact h' c hc

theorem blank_takeWhile {p : Char → Bool} (hp : ∀ c, p c = true → isBlank c = true)
    (cs : List Char) : Blank (cs.takeWhile p) :=
  fun _ hc => hp _ (List.mem_takeWhile_imp hc)

/-- What is trimmed off the end of a text is blank. -/
theorem exists_trimEnd (cs : List Char) : ∃ after, cs = trimEnd cs ++ after ∧ Blank after := by
  refine ⟨(cs.reverse.takeWhile isBlank).reverse, ?_, ?_⟩
  · rw [trimEnd, ← List.reverse_append, List.takeWhile_append_dropWhile, List.reverse_reverse]
  · intro c hc
    exact List.mem_takeWhile_imp (List.mem_reverse.mp hc)

/-- A text of which trimming leaves nothing is blank. -/
theorem blank_of_trim {cs : List Char} (h : trim cs = []) : Blank cs := by
  have hstart : Blank (trimStart cs) := by
    obtain ⟨after, hafter, hblank⟩ := exists_trimEnd (trimStart cs)
    rw [trim] at h
    rw [hafter, h]
    exact hblank
  have hfront : Blank (cs.takeWhile isBlank) := blank_takeWhile (fun _ hc => hc) cs
  have hcs : cs.takeWhile isBlank ++ trimStart cs = cs := List.takeWhile_append_dropWhile
  rw [← hcs]
  exact hfront.append hstart

theorem firstLine_prefix (cs : List Char) : firstLine cs <+: cs := List.takeWhile_prefix _

theorem firstLineWithEnd_prefix (cs : List Char) : firstLineWithEnd cs <+: cs := by
  have hcs : firstLine cs ++ cs.dropWhile (· ≠ '\n') = cs := List.takeWhile_append_dropWhile
  unfold firstLineWithEnd
  split
  · exact firstLine_prefix cs
  · next c rest hrest =>
    refine ⟨rest, ?_⟩
    rw [List.append_assoc, List.singleton_append, ← hrest, hcs]

end Text

open Text (Blank newlines)

namespace Scanner

variable {selectors : List Char} {s s' : Scanner} {t : Token}

/-! ## What one token takes -/

/-- What is taken from the text to read a token: blanks in front of it, its lexeme, and blanks
behind it. The last token takes all that is left. -/
structure Takes (s : Scanner) (gap : List Char) (t : Token) (after : List Char) (s' : Scanner) :
    Prop where
  rest : s.rest = gap ++ (t.lexeme.toList ++ (after ++ s'.rest))
  gap_blank : Blank gap
  after_blank : Blank after
  line : t.line = s.line + newlines gap
  next_line : s'.line = t.line + newlines (t.lexeme.toList ++ after)
  finish : t.kind = .finish → t.lexeme = "" ∧ after = [] ∧ s'.rest = []

theorem takes_take {n : Nat} {kind : TokenKind} (hkind : kind ≠ .finish)
    (h : s.take n kind = (.ok t, s')) : Takes s [] t [] s' := by
  cases h
  refine ⟨?_, Text.blank_nil, Text.blank_nil, rfl, ?_, fun hfinish => absurd hfinish hkind⟩
  · simp [advance, front]
  · simp [advance]

theorem takes_finish (hrest : s.rest = []) (h : s.take 0 .finish = (.ok t, s')) :
    Takes s [] t [] s' := by
  cases h
  have hadvance : (s.advance 0).rest = [] := by simp [advance, hrest]
  refine ⟨?_, Text.blank_nil, Text.blank_nil, rfl, ?_, fun _ => ⟨?_, rfl, hadvance⟩⟩
  · simp [front, hadvance, hrest]
  · simp [advance]
  · simp [front]

/-- A line comment leaves the blanks at the end of its line behind. -/
theorem takes_lineComment (h : s.lineComment = (.ok t, s')) : ∃ after, Takes s [] t after s' := by
  cases h
  obtain ⟨after, hline, hblank⟩ := Text.exists_trimEnd (Text.firstLine s.rest)
  have hfront : s.front (Text.firstLine s.rest).length = Text.firstLine s.rest :=
    (List.prefix_iff_eq_take.mp (Text.firstLine_prefix s.rest)).symm
  have hrest : s.rest = Text.firstLine s.rest ++ s.rest.drop (Text.firstLine s.rest).length := by
    rw [front] at hfront
    exact (List.take_append_drop _ s.rest).symm.trans (by rw [hfront])
  refine ⟨after, ?_, Text.blank_nil, hblank, rfl, ?_, fun hfinish => by cases hfinish⟩
  · simp only [List.nil_append, String.toList_ofList, advance]
    rw [← List.append_assoc, ← hline]
    exact hrest
  · simp only [String.toList_ofList, advance]
    rw [hfront, ← hline]

theorem takes_blockComment (h : s.blockComment = (.ok t, s')) : Takes s [] t [] s' := by
  unfold blockComment at h
  split at h
  · exact takes_take (by simp) h
  · cases h

/-- An opening `==` leaves the blanks behind it and the end of its line behind. -/
theorem takes_opening {cs : List Char} (hrest : s.rest = '=' :: '=' :: cs)
    (h : s.opening = (.ok t, s')) : ∃ after, Takes s [] t after s' := by
  have hdrop : s.rest.drop 2 = cs := by rw [hrest]; rfl
  obtain ⟨r, hr⟩ := Text.firstLineWithEnd_prefix cs
  unfold opening at h
  rw [hdrop] at h
  dsimp only at h
  split at h
  · next htrim =>
    cases h
    have hblank := Text.blank_of_trim htrim
    have hcs : s.rest = ('=' :: '=' :: Text.firstLineWithEnd cs) ++ r := by
      rw [hrest, List.cons_append, List.cons_append, hr]
    have hlength : (Text.firstLineWithEnd cs).length + 2 =
        ('=' :: '=' :: Text.firstLineWithEnd cs).length := rfl
    refine ⟨Text.firstLineWithEnd cs, ?_, Text.blank_nil, hblank, rfl, ?_,
      fun hfinish => by cases hfinish⟩
    · simp only [advance, hcs, hlength, List.drop_left]
      rfl
    · simp only [advance, front, hcs, hlength, List.take_left]
      rfl
  · cases h

/-- What is taken does not depend on the mode that is left. -/
theorem Takes.of_inMode {mode : ScanMode} {gap after : List Char}
    (h : Takes (s.inMode mode) gap t after s') : Takes s gap t after s' :=
  ⟨h.rest, h.gap_blank, h.after_blank, h.line, h.next_line, h.finish⟩

theorem takes_directive (h : s.directive = (.ok t, s')) : Takes s [] t [] s' := by
  unfold directive at h
  dsimp only at h
  split at h
  · exact (takes_take (by simp) h).of_inMode
  · cases h

theorem takes_string {quote : Char} (h : s.string quote = (.ok t, s')) : Takes s [] t [] s' := by
  unfold string at h
  split at h
  · exact takes_take (by simp) h
  · cases h

theorem takes_number (h : s.number = (.ok t, s')) : Takes s [] t [] s' := by
  unfold number at h
  dsimp only at h
  split at h
  · exact takes_take (by simp) h
  · cases h

theorem nameKind_ne_finish (cs : List Char) : Token.nameKind cs ≠ .finish := by
  rcases Token.nameKind_cases cs with ⟨b, h⟩ | h
  · simp [h]
  · simp [h]

theorem takes_name {c : Char} (h : s.name c = (.ok t, s')) : Takes s [] t [] s' := by
  unfold name at h
  split at h
  · cases h
  · exact takes_take (nameKind_ne_finish _) h

theorem takes_selector {start : List Char} {c : Char} (h : s.selector start c = (.ok t, s')) :
    Takes s [] t [] s' := by
  unfold selector at h
  split at h
  · exact takes_name h
  · exact takes_take (by simp) h

theorem takes_token (h : s.token selectors = (.ok t, s')) : ∃ after, Takes s [] t after s' := by
  unfold token at h
  split at h
  case h_1 hrest => exact ⟨[], takes_finish hrest h⟩
  case h_2 | h_3 => exact takes_lineComment h
  case h_4 => exact ⟨[], takes_blockComment h⟩
  case h_5 cs hrest => exact takes_opening hrest h
  case h_13 => exact ⟨[], takes_directive h⟩
  case h_14 | h_15 => exact ⟨[], takes_string h⟩
  case h_16 =>
    refine ⟨[], ?_⟩
    split at h
    · exact takes_number h
    · split at h
      · exact takes_selector h
      · exact takes_name h
  all_goals exact ⟨[], takes_take (by simp) h⟩

theorem takes_path (h : s.path = (.ok t, s')) : Takes s [] t [] s' := by
  unfold path at h
  dsimp only at h
  split at h
  · cases h
  · exact (takes_take (by simp) h).of_inMode

theorem takes_bodyLine (h : s.bodyLine = (.ok t, s')) : Takes s [] t [] s' := by
  unfold bodyLine at h
  dsimp only at h
  split at h
  · cases h
  · split at h
    · exact (takes_take (by simp) h).of_inMode
    · exact takes_take (by simp) h

/-- What is skipped in front of a token is its gap. -/
theorem Takes.of_skip {p : Char → Bool} (hp : ∀ c, p c = true → Text.isBlank c = true)
    {after : List Char} (h : Takes (s.skip p) [] t after s') :
    Takes s (s.rest.takeWhile p) t after s' := by
  have hfront : s.front (s.rest.takeWhile p).length = s.rest.takeWhile p :=
    (List.prefix_iff_eq_take.mp (List.takeWhile_prefix p)).symm
  have hrest : s.rest = s.rest.takeWhile p ++ (s.skip p).rest := by
    rw [front] at hfront
    exact (List.take_append_drop _ s.rest).symm.trans (by rw [hfront]; rfl)
  have hline : (s.skip p).line = s.line + newlines (s.rest.takeWhile p) := by
    rw [← hfront]
    rfl
  refine ⟨?_, Text.blank_takeWhile hp _, h.after_blank, ?_, h.next_line, h.finish⟩
  · have h := h.rest
    rw [List.nil_append] at h
    rw [← h]
    exact hrest
  · rw [h.line, hline]
    rfl

/-- **A token takes a gap of blanks, its lexeme, and blanks behind it.** -/
theorem exists_takes (h : s.next selectors = (.ok t, s')) :
    ∃ gap after, Takes s gap t after s' := by
  unfold next at h
  split at h
  · obtain ⟨after, htakes⟩ := takes_token h
    exact ⟨_, after, htakes.of_skip fun _ => Text.isBlank_of_isSpace⟩
  · have hgap : ∀ c, Text.isGap c = true → Text.isBlank c = true := by
      intro c hc
      exact Text.isBlank_of_isSpace (by simp [Text.isSpace, hc])
    exact ⟨_, [], (takes_path h).of_skip hgap⟩
  · exact ⟨[], [], takes_bodyLine h⟩

end Scanner

/-! ## What all tokens take -/

/-- A token and the gap in front of it. -/
structure Piece where
  gap : List Char
  token : Token

/-- The text of a piece. -/
def Piece.text (p : Piece) : List Char := p.gap ++ p.token.lexeme.toList

/-- Whether a text is made of pieces in order, and their tokens stand on the lines that they say:
the first line is `line`, and each newline in front of a lexeme counts one more. -/
structure Tiling (line : Nat) (text : List Char) (pieces : List Piece) : Prop where
  text_eq : text = pieces.flatMap Piece.text
  blank : ∀ p ∈ pieces, Blank p.gap
  line_eq : ∀ before p after, pieces = before ++ p :: after →
    p.token.line = line + newlines (before.flatMap Piece.text ++ p.gap)

theorem tiling_nil (line : Nat) : Tiling line [] [] :=
  ⟨rfl, List.forall_mem_nil _, fun before p after h => by simp at h⟩

/-- One piece in front of others. -/
theorem Tiling.cons {line : Nat} {text : List Char} {pieces : List Piece} {p : Piece}
    (hblank : Blank p.gap) (hline : p.token.line = line + newlines p.gap)
    (h : Tiling (line + newlines p.text) text pieces) :
    Tiling line (p.text ++ text) (p :: pieces) := by
  refine ⟨?_, List.forall_mem_cons.mpr ⟨hblank, h.blank⟩, ?_⟩
  · rw [h.text_eq, List.flatMap_cons]
  · intro before q after hq
    cases before with
    | nil =>
      cases hq
      exact hline
    | cons r before =>
      obtain ⟨rfl, hpieces⟩ := List.cons.inj hq
      rw [h.line_eq before q after hpieces]
      simp only [List.flatMap_cons, Text.newlines_append]
      omega

namespace Scanner

variable {selectors : List Char} {s : Scanner} {ts : List Token} {last : Token}

/-- The last token takes nothing but its gap. -/
theorem Scans.lexeme_last (h : Scans selectors s ts last) : last.lexeme = "" := by
  induction h with
  | finish hnext hkind =>
    obtain ⟨gap, after, htakes⟩ := exists_takes hnext
    exact (htakes.finish hkind).1
  | token _ _ _ ih => exact ih

/-- The tokens that are read tile the text. Blanks in front of it that the token before left
behind count to the first gap. -/
theorem Scans.exists_tiling (h : Scans selectors s ts last) :
    ∀ {left : List Char} {line : Nat}, Blank left → s.line = line + newlines left →
      ∃ pieces, pieces.map Piece.token = ts ++ [last] ∧ Tiling line (left ++ s.rest) pieces := by
  induction h with
  | @finish s s' t hnext hkind =>
    intro left line hleft hline
    obtain ⟨gap, after, htakes⟩ := exists_takes hnext
    obtain ⟨hlexeme, hafter, hrest⟩ := htakes.finish hkind
    have hgap : Blank (left ++ gap) := hleft.append htakes.gap_blank
    have htoken : t.line = line + newlines (left ++ gap) := by
      rw [htakes.line, hline, Text.newlines_append, Nat.add_assoc]
    have htext : left ++ s.rest = Piece.text ⟨left ++ gap, t⟩ ++ [] := by
      rw [htakes.rest, hafter, hrest]
      simp [Piece.text]
    refine ⟨[⟨left ++ gap, t⟩], rfl, ?_⟩
    rw [htext]
    exact (tiling_nil _).cons hgap htoken
  | @token s s' t ts last hnext hkind _ ih =>
    intro left line hleft hline
    obtain ⟨gap, after, htakes⟩ := exists_takes hnext
    have hgap : Blank (left ++ gap) := hleft.append htakes.gap_blank
    have htoken : t.line = line + newlines (left ++ gap) := by
      rw [htakes.line, hline, Text.newlines_append, Nat.add_assoc]
    have hnextLine : s'.line =
        line + newlines (Piece.text ⟨left ++ gap, t⟩) + newlines after := by
      rw [htakes.next_line, htoken]
      simp only [Piece.text, Text.newlines_append]
      omega
    obtain ⟨pieces, htokens, htiling⟩ := ih htakes.after_blank hnextLine
    have htext : left ++ s.rest = Piece.text ⟨left ++ gap, t⟩ ++ (after ++ s'.rest) := by
      rw [htakes.rest]
      simp [Piece.text]
    refine ⟨⟨left ++ gap, t⟩ :: pieces, by rw [List.map_cons, htokens]; rfl, ?_⟩
    rw [htext]
    exact htiling.cons hgap htoken

end Scanner

/-- **Reading a text to its end loses nothing and invents nothing.** The text is the lexemes of its
tokens in order with gaps of blanks in front of them, the last token has the empty lexeme, and each
token stands on the line that the newlines before its lexeme count. -/
theorem Item.exists_tiling_ofText {selectors text : String} {last : Token}
    (hmem : .ok last ∈ Item.ofText selectors text) (hlast : last.kind = .finish) :
    ∃ (pieces : List Piece) (gap : List Char),
      Item.ofText selectors text = pieces.map (fun p => .ok p.token) ++ [.ok last] ∧
      last.lexeme = "" ∧ Tiling 1 text.toList (pieces ++ [Piece.mk gap last]) := by
  rcases Item.scans_or_error selectors text with ⟨ts, t, hts⟩ | ⟨ts, e, hitems, hts⟩
  · have hitems := Item.ofText_of_scans hts
    have ht : t = last := by
      rw [hitems] at hmem
      rcases List.mem_append.mp hmem with hmem | hmem
      · obtain ⟨u, hu, hok⟩ := List.mem_map.mp hmem
        cases hok
        exact absurd hlast (hts.kind_ne_finish _ hu)
      · cases List.mem_singleton.mp hmem
        rfl
    subst ht
    have hline : (Scanner.ofText text).line = 1 + newlines [] := rfl
    obtain ⟨all, htokens, htiling⟩ := hts.exists_tiling Text.blank_nil hline
    obtain ⟨pieces, back, rfl, hpieces, hback⟩ := List.map_eq_append_iff.mp htokens
    obtain ⟨p, rfl, hp⟩ := List.map_eq_singleton_iff.mp hback
    obtain ⟨gap, u⟩ := p
    cases hp
    refine ⟨pieces, gap, ?_, hts.lexeme_last, htiling⟩
    rw [hitems, ← hpieces, List.map_map]
    rfl
  · -- a text that ends in an error has no last token
    rw [hitems] at hmem
    rcases List.mem_append.mp hmem with hmem | hmem
    · obtain ⟨u, hu, hok⟩ := List.mem_map.mp hmem
      cases hok
      exact absurd hlast (hts _ hu)
    · cases List.mem_singleton.mp hmem

/-- A comment and a string of two lines each, a path, and the lines of a value. -/
def linesText : String :=
  "/* a\nb */ s = 'x\ny' # c \n@include d \n m == \n k\n==\nz = ui-w\n"

def linesTokens : List Token :=
  [⟨.comment "/* a\nb */", "/* a\nb */", 1⟩, ⟨.name "s", "s", 2⟩, ⟨.equals, "=", 2⟩,
    ⟨.string "x\ny", "'x\ny'", 2⟩, ⟨.comment "# c", "# c", 3⟩,
    ⟨.directive .inclusion, "@include", 4⟩, ⟨.path "d", "d ", 4⟩, ⟨.name "m", "m", 5⟩,
    ⟨.opening, "==", 5⟩, ⟨.body " k\n", " k\n", 6⟩, ⟨.closing, "==\n", 7⟩, ⟨.name "z", "z", 8⟩,
    ⟨.equals, "=", 8⟩, ⟨.selector "ui-w", "ui-w", 8⟩]

/-- The blanks that trimming leaves out of it are in the gaps, and it ends on its ninth line. -/
theorem Item.exists_tiling_ofText_lines :
    .ok ⟨.finish, "", 9⟩ ∈ Item.ofText "ui-" linesText ∧
      ∃ (pieces : List Piece) (gap : List Char), pieces.map Piece.token = linesTokens ∧
        Tiling 1 linesText.toList (pieces ++ [Piece.mk gap ⟨.finish, "", 9⟩]) := by
  have hitems : Item.ofText "ui-" linesText = linesTokens.map .ok ++ [.ok ⟨.finish, "", 9⟩] := by
    decide +kernel
  have hmem : .ok ⟨.finish, "", 9⟩ ∈ Item.ofText "ui-" linesText := by
    rw [hitems]
    exact List.mem_append_right _ List.mem_cons_self
  obtain ⟨pieces, gap, htokens, -, htiling⟩ := Item.exists_tiling_ofText hmem rfl
  refine ⟨hmem, pieces, gap, ?_, htiling⟩
  rw [hitems, List.append_cancel_right_eq] at htokens
  have hinjective : Function.Injective (.ok : Token → Item) := fun _ _ h => by
    cases h
    rfl
  refine hinjective.list_map ?_
  rw [htokens, List.map_map]
  rfl

end Courseware
