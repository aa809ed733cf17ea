/-
Strings over several lines, written and read again.

A string with a newline is written as it stands between two lines `==`: nothing in
it is escaped. So its text is read back to one assignment of the same string, up to
blanks at its ends, if and only if none of its lines looks like the closing one and
the first one does not name a language (`Document.readsBack_iff`). Where a line of
the string closes it, what follows the line is text of its own and ends in an `==`,
which is a token at least, and there is no document of one node. Where the first
line names a language it is left out, and the string that is read is shorter.

Reading in two parts is `Reads`: some tokens, and where the scanner stands behind
them. What scans from there on is what scans behind the tokens (`Reads.scans_iff`).
-/
import Courseware.Proofs.Document.RoundTrip
import Courseware.Proofs.Token.Continued

namespace Courseware

namespace Text

theorem trimEnd_append_length (cs ds : List Char) :
    (trimEnd ds).length ≤ (trimEnd (cs ++ ds)).length := by
  unfold trimEnd
  rw [List.reverse_append, List.dropWhile_append]
  split
  · next h =>
    rw [List.isEmpty_iff] at h
    rw [h]
    exact Nat.zero_le _
  · simp

theorem trim_closeLine (cs : List Char) : trim (closeLine cs) = trim cs := by
  unfold closeLine
  split
  · rfl
  · exact trim_concat (by decide) cs

/-- A text that starts with more than blanks is trimmed to more than what comes after that. -/
theorem trim_length_lt {c : Char} (hc : isBlank c = false) {before after cs : List Char}
    (h : trimStart cs = c :: (before ++ after)) : (trim after).length < (trim cs).length := by
  obtain ⟨blanks, hblanks⟩ := trimStart_suffix after
  have hend := trimEnd_append_length blanks (trimStart after)
  have hall := trimEnd_append_length before after
  rw [hblanks] at hend
  rw [trim, trim, h, trimEnd_cons hc, List.length_cons]
  omega

end Text

namespace Scanner

variable {selectors : List Char} {s s' s'' : Scanner} {ts : List Token}

/-! ## Reading in two parts -/

/-- Whether a scanner reads some tokens, not the last one, and then stands where another one does,
but for spaces. -/
inductive Reads (selectors : List Char) : Scanner → List Token → Scanner → Prop
  | done {s s' : Scanner} (h : s.next selectors = s'.next selectors) : Reads selectors s [] s'
  | token {s s' s'' : Scanner} {t : Token} {ts : List Token}
      (h : s.next selectors = (.ok t, s')) (hkind : t.kind ≠ .finish)
      (hrest : Reads selectors s' ts s'') : Reads selectors s (t :: ts) s''

/-- **What scans behind the tokens that are read is what scans behind where they end.** -/
theorem Reads.scans_iff (h : Reads selectors s ts s') {us : List Token} {last : Token} :
    Scans selectors s us last ↔ ∃ vs, us = ts ++ vs ∧ Scans selectors s' vs last := by
  induction h generalizing us with
  | done h => exact ⟨fun hs => ⟨us, rfl, hs.congr h.symm⟩, fun ⟨_, hus, hs⟩ => hus ▸ hs.congr h⟩
  | @token s s' s'' t ts h hkind _ ih =>
    constructor
    · intro hs
      cases hs with
      | finish h' hfinish =>
        cases h.symm.trans h'
        exact absurd hfinish hkind
      | token h' _ hrest =>
        cases h.symm.trans h'
        obtain ⟨vs, rfl, hvs⟩ := ih.mp hrest
        exact ⟨vs, rfl, hvs⟩
    · rintro ⟨vs, rfl, hvs⟩
      exact .token h hkind (ih.mpr ⟨vs, rfl, hvs⟩)

/-- Where nothing is read any more, only spaces are left. -/
theorem isSpace_of_scans_nil {r : List Char} {line openedAt : Nat} {last : Token}
    (h : Scans selectors (between r line openedAt) [] last) : ∀ c ∈ r, Text.isSpace c = true := by
  cases h with
  | finish h hkind => exact (eq_of_next_finish h hkind).2.1

theorem scans_nil (selectors : List Char) (line openedAt : Nat) :
    Scans selectors (between [] line openedAt) [] ⟨.finish, "", line⟩ := .finish rfl rfl

/-! ## Lines between `==` and `==` -/

/-- Behind a key the space before the `==` is skipped. -/
theorem next_opening (r : List Char) (line openedAt : Nat) :
    (between (' ' :: '=' :: '=' :: '\n' :: r) line openedAt).next selectors =
      (.ok ⟨.opening, "==", line⟩, ⟨r, line + 1, .body, line⟩) := by
  rw [next_space]
  rfl

/-- A line that looks like the closing one is. -/
theorem next_closingLine {w : List Char} (hline : '\n' ∉ w) (hcloses : Text.trimEnd w = ['=', '='])
    (r : List Char) (line openedAt : Nat) :
    (Scanner.mk (w ++ '\n' :: r) line .body openedAt).next selectors =
      (.ok ⟨.closing, String.ofList (w ++ ['\n']), line⟩, between r (line + 1) openedAt) := by
  have hnext : (Scanner.mk (w ++ '\n' :: r) line .body openedAt).next selectors =
      (between (w ++ '\n' :: r) line openedAt).take (w ++ ['\n']).length .closing := by
    simp only [next, Scanner.bodyLine, Text.firstLineWithEnd_line hline, Text.trimEnd_line]
    rw [if_neg (by simp), if_pos hcloses]
    rfl
  have htake := take_append (w ++ ['\n']) r line .initial openedAt .closing
  rw [List.append_assoc, Text.newlines_append, Text.newlines,
    List.count_eq_zero_of_not_mem hline, Nat.zero_add] at htake
  exact hnext.trans htake

/-- Whether some lines, with an `==` behind them, are read up to their end: every one of them is a
line of the value, and nothing is left behind the `==`. -/
def ReadWhole (line : Nat) (ws : List (List Char)) (lines : List Grammar.BodyLine)
    (rest : List Char) : Prop :=
  lines = bodyLines line ws ∧ rest = [] ∧ ∀ w ∈ ws, Text.trimEnd w ≠ ['=', '=']

/-- **Lines are read up to the first one that closes the value.** That is the `==` behind them, or
one of them; then the `==` is left. -/
theorem reads_lines (selectors : List Char) (ws : List (List Char)) (hws : ∀ w ∈ ws, '\n' ∉ w)
    (line openedAt : Nat) :
    ∃ (lines : List Grammar.BodyLine) (closing : Grammar.Mark) (rest : List Char) (next : Nat),
      Reads selectors ⟨ws.flatMap (· ++ ['\n']) ++ ['=', '='], line, .body, openedAt⟩
        (lines.map Grammar.BodyLine.token ++ [closing.token .closing])
        (between rest next openedAt) ∧
      (ReadWhole line ws lines rest ∨
        '=' ∈ rest ∧ ∃ w ∈ ws, Text.trimEnd w = ['=', '=']) := by
  induction ws generalizing line with
  | nil =>
    exact ⟨[], ⟨"==", line⟩, [], line, .token rfl (by simp [Grammar.Mark.token]) (.done rfl),
      .inl ⟨rfl, rfl, List.forall_mem_nil _⟩⟩
  | cons w ws ih =>
    obtain ⟨hw, hws⟩ := List.forall_mem_cons.mp hws
    rw [List.flatMap_cons, List.append_assoc, List.append_assoc]
    by_cases hcloses : Text.trimEnd w = ['=', '=']
    · refine ⟨[], ⟨String.ofList (w ++ ['\n']), line⟩, ws.flatMap (· ++ ['\n']) ++ ['=', '='],
        line + 1, ?_, .inr ⟨by simp, w, List.mem_cons_self, hcloses⟩⟩
      exact .token (next_closingLine hw hcloses _ line openedAt) (by simp [Grammar.Mark.token])
        (.done rfl)
    · obtain ⟨lines, closing, rest, next, hreads, hrest⟩ := ih hws (line + 1)
      refine ⟨⟨⟨String.ofList (w ++ ['\n']), line⟩, String.ofList (w ++ ['\n'])⟩ :: lines, closing,
        rest, next, ?_, ?_⟩
      · exact .token (next_bodyLine ⟨hw, hcloses⟩ _ line openedAt)
          (by simp [Grammar.BodyLine.token, Grammar.Mark.token]) hreads
      · rcases hrest with ⟨rfl, hrest, hall⟩ | ⟨hrest, v, hv, hclosing⟩
        · exact .inl ⟨rfl, hrest, List.forall_mem_cons.mpr ⟨hcloses, hall⟩⟩
        · exact .inr ⟨hrest, v, List.mem_cons_of_mem _ hv, hclosing⟩

end Scanner

namespace Grammar

open Scanner (Reads between defaultSelectors bodyLines)

/-- A first line that names a language is one that is left out. -/
theorem isHint_of_startsWith {w : List Char}
    (h : Text.startsWith (Text.trimStart w) "#!lang=".toList = true) :
    Parser.isHint (String.ofList (w ++ ['\n'])) = true := by
  have hstarts := List.isPrefixOf_iff_prefix.mp h
  have hne : (w.dropWhile Text.isBlank).isEmpty = false := by
    cases hw : Text.trimStart w with
    | nil => rw [hw] at h; cases h
    | cons => rw [← Text.trimStart, hw]; rfl
  rw [Parser.isHint, String.toList_ofList, Text.trimStart, List.dropWhile_append, hne]
  exact List.isPrefixOf_iff_prefix.mpr (hstarts.trans (List.prefix_append _ _))

/-- The node that assigns a string to a key. -/
abbrev assigning (key s : String) : Node := ⟨.assignment key (.atom 0 (.string s)), 0, ""⟩

/-- A key and some lines with an `==` behind them are read up to where the value is closed. -/
theorem reads_body {selectors : List Char} {key : String} {ws : List (List Char)}
    (hws : ∀ w ∈ ws, '\n' ∉ w) {r : List Char}
    (hr : r = ' ' :: '=' :: '=' :: '\n' :: (ws.flatMap (· ++ ['\n']) ++ ['=', '=']))
    (hkey : (between (key.toList ++ r) 1 0).next selectors =
      (.ok ((Mark.mk key 1).token (.name key)), between r 1 0)) :
    ∃ (lines : List BodyLine) (closing : Mark) (rest : List Char) (next : Nat),
      Reads selectors (between (key.toList ++ r) 1 0)
        ((Mark.mk key 1).token (.name key) :: (Mark.mk "==" 1).token .opening ::
          (lines.map BodyLine.token ++ [closing.token .closing]))
        (between rest next 1) ∧
      (Scanner.ReadWhole 2 ws lines rest ∨
        '=' ∈ rest ∧ ∃ w ∈ ws, Text.trimEnd w = ['=', '=']) := by
  obtain ⟨lines, closing, rest, next, hreads, hrest⟩ := Scanner.reads_lines selectors ws hws 2 1
  subst hr
  have hbody := Reads.token (Scanner.next_opening _ 1 0) (by simp) hreads
  exact ⟨lines, closing, rest, next, .token hkey (by simp [Mark.token]) hbody, hrest⟩

/-- **The text of a string over several lines is read** as the key, the lines up to the first one
that closes the value, and what is left then. -/
theorem reads_text {key : String} (hkey : Token.IsName key.toList) {s : String}
    (hs : '\n' ∈ s.toList) :
    ∃ (lines : List BodyLine) (closing : Mark) (rest : List Char) (next : Nat),
      Reads defaultSelectors (.ofText (assigning key s).text)
        ((Mark.mk key 1).token (.name key) :: (Mark.mk "==" 1).token .opening ::
          (lines.map BodyLine.token ++ [closing.token .closing]))
        (between rest next 1) ∧
      (Scanner.ReadWhole 2 (Text.split '\n' (Text.openLine s.toList)) lines rest ∨
        '=' ∈ rest ∧ ∃ w ∈ Text.split '\n' (Text.openLine s.toList),
          Text.trimEnd w = ['=', '=']) := by
  -- the lines, each with its newline, are the text and the newline before the closing `==`
  have hlines : (Text.split '\n' (Text.openLine s.toList)).flatMap (· ++ ['\n']) =
      Text.openLine s.toList ++ ['\n'] := by
    rw [← Text.join_append (Text.split_ne_nil _ _), Text.join_split]
  have hname := Scanner.next_word hkey.toIsWord
    (delimited_space ('=' :: '=' :: '\n' :: (Text.openLine s.toList ++ ['\n'] ++ ['=', '=']))) 1 0
  rw [hkey.kind, String.ofList_toList] at hname
  have hread := reads_body (fun w => Text.not_mem_of_mem_split) (by rw [hlines]) hname
  rw [Scanner.ofText, Node.text, String.toList_ofList, Statement.written_lines hs, Scanner.ofChars]
  simpa using hread

/-- A statement whose tokens start as those of a value over several lines is one, and ends where
the value is closed. -/
theorem StatementTree.eq_body {tree : StatementTree} {m o c : Mark} {key : String}
    {lines : List BodyLine} {ts : List Token}
    (h : tree.tokens = m.token (.name key) :: o.token .opening ::
      (lines.map BodyLine.token ++ c.token .closing :: ts)) :
    tree = .body m key o lines c ∧ ts = [] := by
  cases tree with
  | body m' key' o' lines' c' =>
    simp only [tokens, List.cons.injEq] at h
    obtain ⟨hname, hopening, hlines⟩ := h
    obtain ⟨rfl, hclosing, rfl⟩ := lines_inj (by simp [Mark.token]) (by simp [Mark.token]) hlines
    rw [Mark.token_inj] at hname hopening hclosing
    obtain ⟨hkey, rfl⟩ := hname
    obtain ⟨-, rfl⟩ := hopening
    obtain ⟨-, rfl⟩ := hclosing
    cases hkey
    exact ⟨rfl, rfl⟩
  | comment | empty | inclusion | extension => simp [tokens, Remark.token, Mark.token] at h
  | assigned m' key' equals v => simp [tokens, Mark.token] at h

/-- **What the lines of a string denote is the string, up to blanks at its ends, unless its first
line is left out.** -/
theorem trimmed_keptLines_iff {s : String}
    (hlines : ∀ w ∈ Text.split '\n' s.toList, Text.trimEnd w ≠ ['=', '=']) (line : Nat) :
    Text.trimmed (joinLines (keptLines true
      (bodyLines line (Text.split '\n' (Text.openLine s.toList))))) = Text.trimmed s ↔
        LinesRewritable s := by
  constructor
  · refine fun htrimmed => ⟨hlines, fun w hw => ?_⟩
    by_contra hhint
    rw [Bool.not_eq_false] at hhint
    obtain ⟨ws, hsplit⟩ : ∃ ws, Text.split '\n' (Text.openLine s.toList) = w :: ws := by
      obtain ⟨more, hmore⟩ := Text.split_openLine_prefix s.toList
      cases hsplit : Text.split '\n' (Text.openLine s.toList) with
      | nil => exact absurd hsplit (Text.split_ne_nil _ _)
      | cons v ws =>
        rw [← hmore, hsplit] at hw
        cases hw
        exact ⟨ws, rfl⟩
    have hclose : Text.closeLine s.toList = w ++ '\n' :: ws.flatMap (· ++ ['\n']) := by
      rw [← Text.openLine_append_newline, ← Text.join_split '\n' (Text.openLine s.toList),
        Text.join_append (Text.split_ne_nil _ _), hsplit]
      simp
    obtain ⟨x, hx⟩ := List.isPrefixOf_iff_prefix.mp hhint
    have hstart : Text.trimStart (Text.closeLine s.toList) =
        '#' :: (("!lang=".toList ++ x ++ ['\n']) ++ ws.flatMap (· ++ ['\n'])) := by
      rw [hclose, Text.trimStart, List.dropWhile_append]
      rw [Text.trimStart] at hx
      rw [← hx]
      simp
    have hshorter := Text.trim_length_lt (by decide) hstart
    rw [hsplit, bodyLines, keptLines, isHint_of_startsWith hhint] at htrimmed
    have hrest : joinLines (bodyLines (line + 1) ws) =
        String.ofList (ws.flatMap (· ++ ['\n'])) := joinLines_bodyLines _ _
    simp only [Bool.and_self, if_true, hrest, Text.trimmed, String.toList_ofList] at htrimmed
    rw [String.ofList_injective htrimmed, Text.trim_closeLine] at hshorter
    exact Nat.lt_irrefl _ hshorter
  · intro h
    rw [joinLines_keptLines h, Text.trimmed, String.toList_ofList, Text.trim_closeLine,
      Text.trimmed]

end Grammar

namespace Document

open Scanner (Scans)
open Grammar (StatementTree Mark)

/-- Whether the text of an assignment of a string is read back: as one node, which assigns to the
same key a string that is the same up to blanks at its ends. -/
def ReadsBack (key s : String) : Prop :=
  ∃ d l line s', ofText {} (Grammar.assigning key s).text = .ok d ∧
    d.nodes = [⟨.assignment key (.atom l (.string s')), line, ""⟩] ∧
      Text.trimmed s' = Text.trimmed s

/-- The lines of a string are those that it is written on, and an empty one if it ends in a
newline. -/
theorem forall_split_of_openLine {P : List Char → Prop} {cs : List Char} (hnil : P [])
    (h : ∀ w ∈ Text.split '\n' (Text.openLine cs), P w) : ∀ w ∈ Text.split '\n' cs, P w := by
  rw [Text.openLine] at h
  split at h
  · next hlast =>
    rw [← List.dropLast_append_getLast? '\n' hlast, Text.split_append_separator]
    exact List.forall_mem_append.mpr ⟨h, by simpa using hnil⟩
  · exact h

/-- A document of one node has no place for what is left behind a line that closes the value. -/
theorem linesRewritable_of_readsBack {key : String} (hkey : Token.IsName key.toList) {s : String}
    (hs : '\n' ∈ s.toList) (h : ReadsBack key s) : LinesRewritable s := by
  obtain ⟨d, l, line, s', hd, hnodes, htrimmed⟩ := h
  obtain ⟨lines, closing, rest, next, hreads, hrest⟩ := Grammar.reads_text hkey hs
  obtain ⟨g, last, hscans, -, rfl⟩ := ofText_eq_ok_iff_exists_derivation.mp hd
  obtain ⟨tree, rfl, hnode⟩ := List.map_eq_singleton_iff.mp hnodes
  obtain ⟨vs, htokens, hvs⟩ := hreads.scans_iff.mp hscans
  simp only [Grammar.tokens, List.append_nil, List.cons_append, List.append_assoc,
    List.nil_append] at htokens
  obtain ⟨rfl, rfl⟩ := StatementTree.eq_body htokens
  rcases hrest with ⟨rfl, -, hall⟩ | ⟨hequals, -⟩
  · cases hnode
    have hlines := forall_split_of_openLine (by decide) hall
    exact (Grammar.trimmed_keptLines_iff hlines 2).mp htrimmed
  · exact absurd (Scanner.isSpace_of_scans_nil hvs _ hequals) (by decide)

theorem readsBack_of_linesRewritable {key : String} (hkey : Token.IsName key.toList) {s : String}
    (hs : '\n' ∈ s.toList) (h : LinesRewritable s) : ReadsBack key s := by
  obtain ⟨lines, closing, rest, next, hreads, hrest⟩ := Grammar.reads_text hkey hs
  rcases hrest with ⟨hread, rfl, -⟩ | ⟨-, w, hw, hcloses⟩
  · have htrimmed := (Grammar.trimmed_keptLines_iff h.goesOn 2).mpr h
    rw [← hread] at htrimmed
    have hscans := hreads.scans_iff.mpr ⟨[], rfl, Scanner.scans_nil _ next 1⟩
    let tree : StatementTree := .body ⟨key, 1⟩ key ⟨"==", 1⟩ lines closing
    have hd : ofText {} (Grammar.assigning key s).text = .ok (Grammar.document true [tree]) :=
      ofText_eq_ok_iff_exists_derivation.mpr
        ⟨[tree], ⟨.finish, "", next⟩, hscans, ⟨trivial, trivial⟩, rfl⟩
    exact ⟨_, 1, 1, _, hd, rfl, htrimmed⟩
  · exact absurd hcloses (h.goesOn w ((Text.split_openLine_prefix s.toList).subset hw))

/-- **A string over several lines is read back if and only if its lines can stand between the two
`==`**: none of them looks like the closing one, and the first one does not name a language. -/
theorem readsBack_iff {key : String} (hkey : Token.IsName key.toList) {s : String}
    (hs : '\n' ∈ s.toList) : ReadsBack key s ↔ LinesRewritable s :=
  ⟨linesRewritable_of_readsBack hkey hs, readsBack_of_linesRewritable hkey hs⟩

/-- A line with more than an `==` in it closes nothing. -/
theorem readsBack_iff_longer_line : Token.IsName "k".toList ∧ '\n' ∈ "a\n== b\r\n".toList ∧
    ReadsBack "k" "a\n== b\r\n" := by
  have hkey : Token.IsName "k".toList := ⟨⟨by decide, by decide⟩, by decide⟩
  have hs : '\n' ∈ "a\n== b\r\n".toList := by decide
  exact ⟨hkey, hs, (readsBack_iff hkey hs).mpr ⟨by decide, fun w hw => by cases hw; rfl⟩⟩

/-- **A string with a line `==` is not read back**: what follows the line is taken for
statements. -/
theorem not_readsBack_closing_line :
    ¬ ∀ key s : String, Token.IsName key.toList → '\n' ∈ s.toList → ReadsBack key s := by
  intro hall
  have hkey : Token.IsName "k".toList := ⟨⟨by decide, by decide⟩, by decide⟩
  have hs : '\n' ∈ "a\n==\nb".toList := by decide
  have hlines := linesRewritable_of_readsBack hkey hs (hall "k" "a\n==\nb" hkey hs)
  exact hlines.goesOn ['=', '='] (by decide) rfl

end Document

end Courseware
