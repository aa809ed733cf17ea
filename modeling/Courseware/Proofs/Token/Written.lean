/-
Tokens are read back from their text.

For each kind of token there is one lemma: where its text stands between two
tokens and delimited text follows, the scanner reads the token and stands
behind it. The lemmas are about `Scans`, so each of them puts one token in
front of those that are read from the rest of the text.
-/
import Courseware.Document.Text
import Courseware.Proofs.Document.Reading

namespace Courseware

namespace Token

/-! ## No token of one line holds a newline -/

theorem isNameChar_of_isDigit {c : Char} (h : c.isDigit = true) : isNameChar c = true := by
  simp [isNameChar, Char.isAlphanum, h]

theorem isNameChar_of_isNameStart {c : Char} (h : isNameStart c = true) : isNameChar c = true := by
  simp only [isNameStart, Bool.or_eq_true, decide_eq_true_eq] at h
  rcases h with h | h <;> simp [isNameChar, Char.isAlphanum, h]

theorem mem_of_nameTail {inWord : Bool} {cs : List Char} (h : nameTail inWord cs = cs.length) :
    ∀ c ∈ cs, isNameChar c = true ∨ c = '.' := by
  fun_induction nameTail inWord cs with
  | case1 => exact List.forall_mem_nil _
  | case2 inWord c cs hc ih =>
    rw [List.length_cons, Nat.add_right_cancel_iff] at h
    refine List.forall_mem_cons.mpr ⟨.inl ?_, ih h⟩
    cases inWord with
    | true => exact hc
    | false => exact isNameChar_of_isDigit hc
  | case3 | case4 => simp_all [isNameChar_of_isDigit, isNameChar_of_isNameStart]
  | _ => simp_all

theorem IsWord.exists_start {cs : List Char} (h : IsWord cs) :
    ∃ c ds, cs = c :: ds ∧ isNameStart c = true ∧ nameTail true ds = ds.length := by
  obtain ⟨c, ds, rfl⟩ := List.exists_cons_of_ne_nil h.nonempty
  exact ⟨c, ds, rfl, nameLength_cons_eq_length_iff.mp h.reaches⟩

/-- What a name is made of. -/
theorem IsWord.mem {cs : List Char} (h : IsWord cs) : ∀ c ∈ cs, isNameChar c = true ∨ c = '.' := by
  obtain ⟨c, ds, rfl, hc, htail⟩ := h.exists_start
  exact List.forall_mem_cons.mpr ⟨.inl (isNameChar_of_isNameStart hc), mem_of_nameTail htail⟩

theorem mem_of_selectorLength {cs : List Char} (h : selectorLength cs = cs.length) :
    ∀ c ∈ cs, isSelectorChar c = true := by
  cases cs with
  | nil => exact List.forall_mem_nil _
  | cons c cs =>
    obtain ⟨hc, hall⟩ := selectorLength_cons_eq_length_iff.mp h
    exact List.forall_mem_cons.mpr ⟨by simp [isSelectorChar, isNameChar, hc], hall⟩

/-- Whether a character starts a token of its own kind, whatever components start with. -/
def isSign (c : Char) : Bool :=
  ['#', '/', '=', ':', ',', '[', ']', '\x7b', '\x7d', '@', '"', '\x27', '+', '-', ' ', '\t', '\r',
    '\n'].contains c

theorem isSign_eq_false {p : Char → Bool} (hp : ∀ c, isSign c = true → p c = false) {c : Char}
    (h : p c = true) : isSign c = false := by
  cases hc : isSign c with
  | false => rfl
  | true => rw [hp c hc] at h; cases h

theorem isSign_of_isAlphanum {c : Char} (h : c.isAlphanum = true) : isSign c = false := by
  refine isSign_eq_false (fun c hc => ?_) h
  simp only [isSign, List.contains_eq_mem, List.mem_cons, decide_eq_true_eq, List.not_mem_nil,
    or_false] at hc
  rcases hc with rfl | rfl | rfl | rfl | rfl | rfl | rfl | rfl | rfl | rfl | rfl | rfl | rfl | rfl |
    rfl | rfl | rfl | rfl <;> rfl

theorem isSign_of_isNameStart {c : Char} (h : isNameStart c = true) : isSign c = false := by
  simp only [isNameStart, Bool.or_eq_true, decide_eq_true_eq] at h
  rcases h with h | rfl
  · exact isSign_of_isAlphanum (by simp [Char.isAlphanum, h])
  · rfl

end Token

namespace Scanner

variable {selectors : List Char}

/-- A scanner between two tokens. -/
abbrev between (rest : List Char) (line openedAt : Nat) : Scanner :=
  ⟨rest, line, .initial, openedAt⟩

theorem token_of_not_isSign {c : Char} (hc : Token.isSign c = false) (cs : List Char)
    (line openedAt : Nat) : (between (c :: cs) line openedAt).token selectors =
      if c.isDigit = true then (between (c :: cs) line openedAt).number
      else if selectors ≠ [] ∧ Text.startsWith (c :: cs) selectors = true then
        (between (c :: cs) line openedAt).selector selectors c
      else (between (c :: cs) line openedAt).name c := by
  unfold token
  split <;> simp_all [Token.isSign]

/-- The characters of a token are taken, and the rest is left. -/
theorem take_append (w r : List Char) (line : Nat) (mode : ScanMode) (openedAt : Nat)
    (kind : TokenKind) : (Scanner.mk (w ++ r) line mode openedAt).take w.length kind =
      (.ok ⟨kind, String.ofList w, line⟩, ⟨r, line + Text.newlines w, mode, openedAt⟩) := by
  simp [take, front, advance]

theorem take_front {w : List Char} (hw : '\n' ∉ w) (r : List Char) (line openedAt : Nat)
    (kind : TokenKind) : (between (w ++ r) line openedAt).take w.length kind =
      (.ok ⟨kind, String.ofList w, line⟩, between r line openedAt) := by
  rw [take_append, Text.newlines, List.count_eq_zero_of_not_mem hw, Nat.add_zero]

theorem take_text {text : String} (htext : '\n' ∉ text.toList) (r : List Char)
    (line openedAt : Nat) (kind : TokenKind) :
    (between (text.toList ++ r) line openedAt).take text.toList.length kind =
      (.ok ⟨kind, text, line⟩, between r line openedAt) := by
  rw [take_front htext, String.ofList_toList]

/-! ## Between tokens -/

theorem skip_of_head {c : Char} {p : Char → Bool} (hc : p c = false) (cs : List Char)
    (line : Nat) (mode : ScanMode) (openedAt : Nat) :
    (Scanner.mk (c :: cs) line mode openedAt).skip p = ⟨c :: cs, line, mode, openedAt⟩ := by
  simp [skip, hc, advance, front]

theorem next_of_not_isSpace {c : Char} (hc : Text.isSpace c = false) (cs : List Char)
    (line openedAt : Nat) : (between (c :: cs) line openedAt).next selectors =
      (between (c :: cs) line openedAt).token selectors := by
  simp only [next, skip_of_head hc]

theorem next_space (cs : List Char) (line openedAt : Nat) :
    (between (' ' :: cs) line openedAt).next selectors =
      (between cs line openedAt).next selectors := by
  have h : Text.isSpace ' ' = true := rfl
  simp [next, skip, advance, front, h, Text.newlines]

theorem next_newline (cs : List Char) (line openedAt : Nat) :
    (between ('\n' :: cs) line openedAt).next selectors =
      (between cs (line + 1) openedAt).next selectors := by
  have h : Text.isSpace '\n' = true := rfl
  simp [next, skip, advance, front, h, Text.newlines, Nat.add_right_comm, Nat.add_assoc]

theorem Scans.congr {s s' : Scanner} (h : s.next selectors = s'.next selectors) {ts : List Token}
    {last : Token} (hs : Scans selectors s' ts last) : Scans selectors s ts last := by
  cases hs with
  | finish hnext hkind => exact .finish (h.trans hnext) hkind
  | token hnext hkind hrest => exact .token (h.trans hnext) hkind hrest

variable {r : List Char} {line openedAt : Nat} {ts : List Token} {last : Token}

theorem Scans.space (h : Scans selectors (between r line openedAt) ts last) :
    Scans selectors (between (' ' :: r) line openedAt) ts last :=
  h.congr (next_space r line openedAt)

theorem Scans.newline (h : Scans selectors (between r (line + 1) openedAt) ts last) :
    Scans selectors (between ('\n' :: r) line openedAt) ts last :=
  h.congr (next_newline r line openedAt)

/-- A token whose first character is no space is the next one. -/
theorem Scans.cons {c : Char} {cs : List Char} {t : Token} {s : Scanner}
    (h : Scans selectors s ts last) (hc : Text.isSpace c = false) (hkind : t.kind ≠ .finish)
    (htoken : (between (c :: cs) line openedAt).token selectors = (.ok t, s)) :
    Scans selectors (between (c :: cs) line openedAt) (t :: ts) last :=
  .token ((next_of_not_isSpace hc cs line openedAt).trans htoken) hkind h

/-! ## Signs -/

theorem Scans.equals (h : Scans selectors (between (' ' :: r) line openedAt) ts last) :
    Scans selectors (between ('=' :: ' ' :: r) line openedAt) (⟨.equals, "=", line⟩ :: ts) last :=
  h.cons rfl (by simp) rfl

/-- The signs that are tokens of their own, whatever follows. -/
def signs : List (Char × TokenKind) :=
  [(':', .colon), (',', .comma), ('[', .leftBracket), (']', .rightBracket), ('\x7b', .leftBrace),
    ('\x7d', .rightBrace)]

theorem Scans.sign {c : Char} {kind : TokenKind} (hmem : (c, kind) ∈ signs)
    (h : Scans selectors (between r line openedAt) ts last) :
    Scans selectors (between (c :: r) line openedAt) (⟨kind, String.ofList [c], line⟩ :: ts)
      last := by
  simp only [signs, List.mem_cons, Prod.mk.injEq, List.not_mem_nil, or_false] at hmem
  rcases hmem with ⟨rfl, rfl⟩ | ⟨rfl, rfl⟩ | ⟨rfl, rfl⟩ | ⟨rfl, rfl⟩ | ⟨rfl, rfl⟩ | ⟨rfl, rfl⟩ <;>
    exact h.cons rfl (by simp) rfl

/-! ## Words -/

theorem not_isSpace_of_not_isSign {c : Char} (h : Token.isSign c = false) :
    Text.isSpace c = false := by
  cases hspace : Text.isSpace c with
  | false => rfl
  | true =>
    simp only [Text.isSpace, Text.isGap, Bool.or_eq_true, decide_eq_true_eq] at hspace
    rcases hspace with ((rfl | rfl) | rfl) | rfl <;> cases h

theorem not_isDigit_of_isAlpha {c : Char} (h : c.isAlpha = true) : c.isDigit = false := by
  have hletter : 'A'.toNat ≤ c.toNat := by
    rcases (Bool.or_eq_true _ _).mp h with hupper | hlower
    · exact UInt32.le_iff_toNat_le.mp (of_decide_eq_true hupper).1
    · have hlower : 'a'.toNat ≤ c.toNat :=
        UInt32.le_iff_toNat_le.mp (of_decide_eq_true ((Bool.and_eq_true _ _).mp hlower).1)
      exact Nat.le_trans (by decide) hlower
  cases hdigit : c.isDigit with
  | false => rfl
  | true => exact absurd (Nat.le_trans hletter (Char.isDigit_iff_toNat.mp hdigit).2) (by decide)

theorem not_isDigit_of_isNameStart {c : Char} (h : Token.isNameStart c = true) :
    c.isDigit = false := by
  simp only [Token.isNameStart, Bool.or_eq_true, decide_eq_true_eq] at h
  rcases h with h | rfl
  · exact not_isDigit_of_isAlpha h
  · rfl

/-- What components start with where nothing else is asked for. -/
def defaultSelectors : List Char := "wc-".toList

/-- No word is the start of a component's name. -/
theorem not_startsWith_of_isWord {cs r : List Char} (hcs : Token.IsWord cs)
    (hr : Token.Delimited r) : Text.startsWith (cs ++ r) defaultSelectors = false := by
  cases hstart : Text.startsWith (cs ++ r) defaultSelectors with
  | false => rfl
  | true =>
    obtain ⟨t, ht⟩ := List.isPrefixOf_iff_prefix.mp hstart
    have ht : 'w' :: 'c' :: '-' :: t = cs ++ r := ht
    -- the sign would be one of the word, or what follows it
    match cs with
    | [] => exact absurd rfl hcs.nonempty
    | [_] =>
      cases ht
      exact absurd hr.isDelimiter (by decide)
    | [_, _] =>
      cases ht
      exact absurd hr.isDelimiter (by decide)
    | _ :: _ :: _ :: _ =>
      simp only [List.cons_append, List.cons.injEq] at ht
      obtain ⟨-, -, rfl, -⟩ := ht
      rcases hcs.mem '-' (by simp) with h | h <;> revert h <;> decide

theorem name_written {w : List Char} (hw : Token.IsWord w) (hr : Token.Delimited r)
    (line openedAt : Nat) (c : Char) : (between (w ++ r) line openedAt).name c =
      (.ok ⟨Token.nameKind w, String.ofList w, line⟩, between r line openedAt) := by
  have hpos : w.length ≠ 0 := fun h => hw.nonempty (List.eq_nil_of_length_eq_zero h)
  have hline : '\n' ∉ w := by
    intro hmem
    rcases hw.mem _ hmem with h | h <;> revert h <;> decide
  rw [Scanner.name, Token.nameLength_append hw.nonempty hw.reaches hr]
  split
  · next hzero => exact absurd hzero hpos
  · rw [front, List.take_left]
    exact take_front hline r line openedAt _

/-- A word is one token, of its own kind. -/
theorem next_word {w : List Char} (hw : Token.IsWord w) (hr : Token.Delimited r)
    (line openedAt : Nat) : (between (w ++ r) line openedAt).next defaultSelectors =
      (.ok ⟨Token.nameKind w, String.ofList w, line⟩, between r line openedAt) := by
  have hstart := not_startsWith_of_isWord hw hr
  obtain ⟨c, cs, rfl, hc, -⟩ := hw.exists_start
  have hname := name_written hw hr line openedAt c
  have hsign := Token.isSign_of_isNameStart hc
  rw [List.cons_append] at hstart hname ⊢
  rw [next_of_not_isSpace (not_isSpace_of_not_isSign hsign), token_of_not_isSign hsign,
    if_neg (by simp [not_isDigit_of_isNameStart hc]), if_neg (by simp [hstart])]
  exact hname

theorem Scans.word {w : List Char} (hw : Token.IsWord w) (hr : Token.Delimited r)
    (h : Scans defaultSelectors (between r line openedAt) ts last) :
    Scans defaultSelectors (between (w ++ r) line openedAt)
      (⟨Token.nameKind w, String.ofList w, line⟩ :: ts) last := by
  have hkind : Token.nameKind w ≠ .finish := by
    rcases Token.nameKind_cases w with ⟨b, h⟩ | h <;> rw [h] <;> simp
  exact .token (next_word hw hr line openedAt) hkind h

theorem Scans.name {n : String} (hn : Token.IsName n.toList) (hr : Token.Delimited r)
    (h : Scans defaultSelectors (between r line openedAt) ts last) :
    Scans defaultSelectors (between (n.toList ++ r) line openedAt) (⟨.name n, n, line⟩ :: ts)
      last := by
  have hword := h.word hn.toIsWord hr
  rw [hn.kind, String.ofList_toList] at hword
  exact hword

theorem Scans.boolean (b : Bool) (hr : Token.Delimited r)
    (h : Scans defaultSelectors (between r line openedAt) ts last) :
    Scans defaultSelectors (between ((Atom.boolean b).written ++ r) line openedAt)
      (⟨.boolean b, String.ofList (Atom.boolean b).written, line⟩ :: ts) last := by
  cases b with
  | true => exact h.word ⟨by decide, by decide⟩ hr
  | false => exact h.word ⟨by decide, by decide⟩ hr

theorem newline_notMem_of_isSelector {w : List Char} (hw : Token.IsSelector defaultSelectors w) :
    '\n' ∉ w := by
  obtain ⟨tail, rfl, -, hreach⟩ := hw
  intro hmem
  rcases List.mem_append.mp hmem with hmem | hmem
  · revert hmem
    decide
  · exact absurd (Token.mem_of_selectorLength hreach _ hmem) (by decide)

theorem selector_written {n : String} (hn : Token.IsSelector defaultSelectors n.toList)
    (hr : Token.Delimited r) (line openedAt : Nat) (c : Char) :
    (between (n.toList ++ r) line openedAt).selector defaultSelectors c =
      (.ok ⟨.selector n, n, line⟩, between r line openedAt) := by
  have hline := newline_notMem_of_isSelector hn
  obtain ⟨tail, hn, hne, hreach⟩ := hn
  have hlength :
      Token.selectorLength ((n.toList ++ r).drop defaultSelectors.length) = tail.length := by
    rw [hn, List.append_assoc, List.drop_left]
    exact Token.selectorLength_append hne hreach hr
  have hcount : defaultSelectors.length + tail.length = n.toList.length := by
    rw [hn, List.length_append]
  have hpos : tail.length ≠ 0 := fun h => hne (List.eq_nil_of_length_eq_zero h)
  rw [Scanner.selector, hlength]
  split
  · next hzero => exact absurd hzero hpos
  · dsimp only
    rw [hcount, front, List.take_left, String.ofList_toList]
    exact take_text hline r line openedAt _

theorem Scans.selector {n : String} (hn : Token.IsSelector defaultSelectors n.toList)
    (hr : Token.Delimited r) (h : Scans defaultSelectors (between r line openedAt) ts last) :
    Scans defaultSelectors (between (n.toList ++ r) line openedAt) (⟨.selector n, n, line⟩ :: ts)
      last := by
  have hselector := selector_written hn hr line openedAt 'w'
  obtain ⟨tail, hn, -⟩ := hn
  have hcons : n.toList ++ r = 'w' :: ('c' :: '-' :: (tail ++ r)) := by rw [hn]; rfl
  have hstart : Text.startsWith ('w' :: ('c' :: '-' :: (tail ++ r))) defaultSelectors = true := by
    simp [Text.startsWith, defaultSelectors]
  rw [hcons] at hselector ⊢
  refine h.cons rfl (by simp) ?_
  rw [token_of_not_isSign rfl, if_neg (by decide), if_pos ⟨by decide, hstart⟩]
  exact hselector

/-! ## Numbers -/

theorem newline_notMem_written (negative : Bool) (m : Magnitude) :
    '\n' ∉ Number.written (.finite negative m) := by
  obtain ⟨whole, fraction, -, hwhole, hfraction, htext, -⟩ := Number.exists_isPointed_magnitude m
  have hpointed : '\n' ∉ pointed whole fraction := by
    intro hmem
    rcases Number.mem_pointed hwhole hfraction hmem with h | h <;> revert h <;> decide
  rw [Number.written, NumberStyle.signed, htext]
  cases negative with
  | true => simpa using hpointed
  | false => exact hpointed

theorem token_of_minus {c : Char} (hc : c.isDigit = true) (cs : List Char) (line openedAt : Nat) :
    (between ('-' :: c :: cs) line openedAt).token selectors =
      (between ('-' :: c :: cs) line openedAt).number := by
  unfold token
  split <;> rename_i h <;> cases h
  simp [hc]

theorem number_written (negative : Bool) (m : Magnitude) (hr : Token.Delimited r)
    (line openedAt : Nat) :
    (between (Number.written (.finite negative m) ++ r) line openedAt).number =
      (.ok ⟨.number (.finite negative m), Number.text (.finite negative m), line⟩,
        between r line openedAt) := by
  rw [Scanner.number, Token.numberLength_written negative m hr, front, List.take_left]
  simp only [Number.ofLiteral?_written]
  exact take_front (newline_notMem_written negative m) r line openedAt _

theorem Scans.number (negative : Bool) (m : Magnitude) (hr : Token.Delimited r)
    (h : Scans selectors (between r line openedAt) ts last) :
    Scans selectors (between (Number.written (.finite negative m) ++ r) line openedAt)
      (⟨.number (.finite negative m), Number.text (.finite negative m), line⟩ :: ts) last := by
  have hnumber := number_written negative m hr line openedAt
  obtain ⟨whole, fraction, hne, hwhole, -, htext, -⟩ := Number.exists_isPointed_magnitude m
  obtain ⟨c, cs, rfl⟩ := List.exists_cons_of_ne_nil hne
  have hc : c.isDigit = true := hwhole c List.mem_cons_self
  have hsign : Token.isSign c = false := Token.isSign_of_isAlphanum (by simp [Char.isAlphanum, hc])
  rw [Number.written, NumberStyle.signed, htext] at hnumber ⊢
  cases negative with
  | true =>
    refine h.cons (c := '-') rfl (by simp) ?_
    rw [← hnumber]
    exact token_of_minus hc _ line openedAt
  | false =>
    refine h.cons (c := c) (not_isSpace_of_not_isSign hsign) (by simp) ?_
    rw [← hnumber]
    exact (token_of_not_isSign hsign _ _ _).trans (if_pos hc)

/-! ## Strings -/

end Scanner

namespace Token

theorem stringTail_escape (c : Char) (r : List Char) :
    stringTail '"' (Atom.escape c ++ r) =
      (stringTail '"' r).map fun (content, n) => (c :: content, n + (Atom.escape c).length) := by
  unfold Atom.escape
  split
  case h_6 hquote hbackslash _ _ _ =>
    rw [List.cons_append, List.nil_append, stringTail.eq_def]
    exact (if_neg hquote).trans (if_neg hbackslash)
  all_goals rfl

/-- The content of a string is read back from between its quotes. -/
theorem stringTail_quoted (cs r : List Char) :
    stringTail '"' (cs.flatMap Atom.escape ++ '"' :: r) =
      .ok (cs, (cs.flatMap Atom.escape).length + 1) := by
  induction cs with
  | nil =>
    rw [List.flatMap_nil, List.nil_append, stringTail.eq_def]
    rfl
  | cons c cs ih =>
    rw [List.flatMap_cons, List.append_assoc, stringTail_escape, ih, List.length_append]
    simp only [Except.map, Except.ok.injEq, Prod.mk.injEq, true_and]
    omega

theorem newline_notMem_escape (c : Char) : '\n' ∉ Atom.escape c := by
  unfold Atom.escape
  split
  case h_6 hnewline _ _ => simpa using Ne.symm hnewline
  all_goals decide

end Token

namespace Scanner

variable {selectors : List Char} {r : List Char} {line openedAt : Nat} {ts : List Token}
  {last : Token}

theorem Scans.string (s : String) (h : Scans selectors (between r line openedAt) ts last) :
    Scans selectors (between (Atom.quote s ++ r) line openedAt)
      (⟨.string s, String.ofList (Atom.quote s), line⟩ :: ts) last := by
  have hlength : (Atom.quote s).length = (s.toList.flatMap Atom.escape).length + 1 + 1 := by
    simp [Atom.quote]
  have hline : '\n' ∉ Atom.quote s := by
    simp only [Atom.quote, List.cons_append, List.mem_cons, List.mem_append, List.mem_flatMap,
      List.not_mem_nil, or_false, not_or, not_exists, not_and]
    exact ⟨by decide, fun c _ => Token.newline_notMem_escape c, by decide⟩
  have hstring : (between (Atom.quote s ++ r) line openedAt).string '"' =
      (.ok ⟨.string s, String.ofList (Atom.quote s), line⟩, between r line openedAt) := by
    have htail : Token.stringTail '"' ((Atom.quote s ++ r).drop 1) =
        .ok (s.toList, (s.toList.flatMap Atom.escape).length + 1) := by
      simpa [Atom.quote] using Token.stringTail_quoted s.toList r
    rw [Scanner.string, htail]
    simp only [String.ofList_toList]
    rw [← hlength]
    exact take_front hline r line openedAt _
  refine h.cons (c := '"') rfl (by simp) ?_
  exact hstring

/-! ## Directives -/

theorem directiveLength_keyword (d : Directive) (cs : List Char) :
    Token.directiveLength (d.keyword.toList ++ ' ' :: cs) = d.keyword.toList.length := by
  cases d <;> rfl

theorem ofKeyword?_keyword (d : Directive) : Directive.ofKeyword? d.keyword = some d := by
  cases d <;> decide

/-- A path is not left between its first and its last character. -/
theorem newline_notMem_of_pathLength {afterBlank : Bool} {cs : List Char}
    (h : Token.pathLength afterBlank cs = cs.length) : '\n' ∉ cs := by
  induction cs generalizing afterBlank with
  | nil => exact List.not_mem_nil
  | cons c cs ih =>
    rw [Token.pathLength_cons_eq_length_iff] at h
    rw [List.mem_cons, not_or]
    exact ⟨fun hc => h.1 (.inl hc.symm), ih h.2⟩

theorem not_isGap_of_isPath {c : Char} {cs : List Char} (h : Token.IsPath (c :: cs)) :
    Text.isGap c = false := by
  have hblank : Text.isBlank c = false := Text.head_trim (by rw [h.trimmed]; rfl)
  cases hgap : Text.isGap c with
  | false => rfl
  | true =>
    rw [Text.isBlank_of_isSpace (by simp [Text.isSpace, hgap])] at hblank
    cases hblank

/-- One space in front of what is no gap is skipped. -/
theorem skip_space {c : Char} (hc : Text.isGap c = false) (cs : List Char) (line : Nat)
    (mode : ScanMode) (openedAt : Nat) :
    (Scanner.mk (' ' :: c :: cs) line mode openedAt).skip Text.isGap =
      ⟨c :: cs, line, mode, openedAt⟩ := by
  have hspace : Text.isGap ' ' = true := rfl
  simp [skip, advance, front, hc, hspace, Text.newlines]

/-- After a directive the space before the path is skipped. -/
theorem next_path (selectors : List Char) {path : String} (hpath : Token.IsPath path.toList)
    (hcomment : Token.startsComment path.toList = false) (hr : Token.PathEnded r)
    (line openedAt : Nat) :
    (Scanner.mk (' ' :: (path.toList ++ r)) line .path openedAt).next selectors =
      (.ok ⟨.path path, path, line⟩, between r line openedAt) := by
  have hlength := Token.pathLength_append (Token.pathLength_true hpath.reaches hcomment) hr
  have hskip : (Scanner.mk (' ' :: (path.toList ++ r)) line .path openedAt).skip Text.isGap =
      ⟨path.toList ++ r, line, .path, openedAt⟩ := by
    obtain ⟨c, cs, hcs⟩ := List.exists_cons_of_ne_nil hpath.nonempty
    rw [hcs]
    exact skip_space (not_isGap_of_isPath (hcs ▸ hpath)) _ line _ openedAt
  have hline := newline_notMem_of_pathLength hpath.reaches
  simp only [next, hskip, Scanner.path, hlength, front, List.take_left, hpath.trimmed]
  split
  · next hnil => exact absurd hnil hpath.nonempty
  · rw [String.ofList_toList]
    exact take_text hline r line openedAt _

theorem directive_written (d : Directive) (path : String) (r : List Char) (line openedAt : Nat) :
    (between (Atom.directive d.keyword path ++ r) line openedAt).directive =
      (.ok ⟨.directive d, d.keyword, line⟩,
        ⟨' ' :: (path.toList ++ r), line, .path, openedAt⟩) := by
  have hline : '\n' ∉ d.keyword.toList := by cases d <;> decide
  rw [Atom.directive, List.append_assoc, List.cons_append, Scanner.directive,
    directiveLength_keyword, front, List.take_left, String.ofList_toList, ofKeyword?_keyword]
  simp [take, front, advance, inMode, Text.newlines, List.count_eq_zero_of_not_mem hline]

/-- A directive is read, whatever its path is. -/
theorem next_directive (selectors : List Char) (d : Directive) (path : String) (r : List Char)
    (line openedAt : Nat) :
    (between (Atom.directive d.keyword path ++ r) line openedAt).next selectors =
      (.ok ⟨.directive d, d.keyword, line⟩,
        ⟨' ' :: (path.toList ++ r), line, .path, openedAt⟩) := by
  have hdirective := directive_written d path r line openedAt
  have hkeyword : d.keyword.toList = '@' :: d.keyword.toList.tail := by cases d <;> rfl
  rw [← hdirective, Atom.directive, hkeyword]
  exact next_of_not_isSpace (c := '@') rfl _ line openedAt

/-- A directive and its path are two tokens, the path without the space before it. -/
theorem Scans.directive (d : Directive) {path : String} (hpath : Token.IsPath path.toList)
    (hcomment : Token.startsComment path.toList = false) (hr : Token.PathEnded r)
    (h : Scans selectors (between r line openedAt) ts last) :
    Scans selectors (between (Atom.directive d.keyword path ++ r) line openedAt)
      (⟨.directive d, d.keyword, line⟩ :: ⟨.path path, path, line⟩ :: ts) last := by
  have hpath := next_path selectors hpath hcomment hr line openedAt
  exact .token (next_directive selectors d path r line openedAt) (by simp)
    (.token hpath (by simp) h)

end Scanner

end Courseware
