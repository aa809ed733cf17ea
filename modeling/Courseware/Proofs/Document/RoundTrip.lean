/-
Writing a document and reading it again.

The text of a statement reads as the tokens of one derivation, which denotes
the statement (`exists_isTreeOf`). So the text of a document that was read
parses again, to the same statements, with no warnings (`ofText_source`). Two
things are not kept. A statement may stand on another line. And a string over
several lines ends in a newline when it is read again, whether or not it did
before; the text of such a string says no more than that its last line ends,
which is why writing a second time changes nothing.

What has to be asked of the statements is that they can be written at all
(`Statement.Rewritable`): an infinite number has no literal, a path that looks
like a comment would be read as one, and in a string over several lines a line
`==` would end it and a first line that names a language would be dropped.
-/
import Courseware.Proofs.Document.Writing
import Courseware.Proofs.Token.Lines

namespace Courseware

/-- Whether the lines of a string can stand between `==` and `==`: none of them ends it, and the
first one does not name a language. -/
structure LinesRewritable (s : String) : Prop where
  goesOn : ∀ w ∈ Text.split '\n' s.toList, Text.trimEnd w ≠ ['=', '=']
  noHint : ∀ w, (Text.split '\n' s.toList).head? = some w →
    Text.startsWith (Text.trimStart w) "#!lang=".toList = false

namespace Grammar

open Scanner (bodyLines IsInnerLine)

theorem isHint_line {w : List Char}
    (h : Text.startsWith (Text.trimStart w) "#!lang=".toList = false) :
    Parser.isHint (String.ofList (w ++ ['\n'])) = false := by
  rw [Parser.isHint, String.toList_ofList, Text.trimStart, List.dropWhile_append]
  split
  · rfl
  · exact Text.startsWith_line (by decide) h

theorem joinLines_bodyLines (line : Nat) (ws : List (List Char)) :
    joinLines (bodyLines line ws) = String.ofList (ws.flatMap (· ++ ['\n'])) := by
  have key : ∀ (line : Nat) (text : String),
      (bodyLines line ws).foldl (fun text l => text ++ l.text) text =
        text ++ String.ofList (ws.flatMap (· ++ ['\n'])) := by
    induction ws with
    | nil => simp [bodyLines]
    | cons w ws ih =>
      intro line text
      simp [bodyLines, ih, String.append_assoc]
  rw [joinLines, key, String.empty_append]

/-- The lines that a string is written on denote it again, with a newline at its end. -/
theorem joinLines_keptLines {s : String} (hs : LinesRewritable s) (line : Nat) :
    joinLines (keptLines true (bodyLines line (Text.split '\n' (Text.openLine s.toList)))) =
      String.ofList (Text.closeLine s.toList) := by
  have hjoin := joinLines_bodyLines line (Text.split '\n' (Text.openLine s.toList))
  rw [← Text.join_append (Text.split_ne_nil _ _), Text.join_split,
    Text.openLine_append_newline] at hjoin
  cases hsplit : Text.split '\n' (Text.openLine s.toList) with
  | nil => exact absurd hsplit (Text.split_ne_nil _ _)
  | cons w ws =>
    have hw : (Text.split '\n' s.toList).head? = some w := by
      obtain ⟨more, hmore⟩ := Text.split_openLine_prefix s.toList
      rw [← hmore, hsplit]
      rfl
    rw [hsplit] at hjoin
    rw [← hjoin, bodyLines, keptLines, isHint_line (hs.noHint w hw)]
    rfl

theorem isInnerLine_of_mem_split {s : String} (hs : LinesRewritable s) :
    ∀ w ∈ Text.split '\n' (Text.openLine s.toList), IsInnerLine w := fun w hw =>
  ⟨Text.not_mem_of_mem_split hw, hs.goesOn w ((Text.split_openLine_prefix s.toList).subset hw)⟩

end Grammar

/-! ## Statements -/

namespace Statement

/-- Whether a statement that was read can be written. -/
def Rewritable : Statement → Prop
  | .assignment _ v =>
    v.Forall Atom.Rewritable (fun _ => True) ∧
      ∀ line s, v = .atom line (.string s) → '\n' ∈ s.toList → LinesRewritable s
  | .comment _ => True
  | .inclusion path | .extension path => Token.startsComment path.toList = false

/-- A statement with all its parts on one line. -/
def onLine (line : Nat) : Statement → Statement
  | .assignment key v => .assignment key (v.onLine line)
  | .comment text => .comment text
  | .inclusion path => .inclusion path
  | .extension path => .extension path

/-- A statement in which an assigned string over several lines ends in a newline. -/
def closed : Statement → Statement
  | .assignment key (.atom line (.string s)) =>
    .assignment key (.atom line (.string
      (if '\n' ∈ s.toList then String.ofList (Text.closeLine s.toList) else s)))
  | st => st

theorem written_lines {s : String} (hs : '\n' ∈ s.toList) (key : String) (line : Nat) :
    (assignment key (.atom line (.string s))).written =
      key.toList ++ " ==\n".toList ++ Text.openLine s.toList ++ "\n==".toList := if_pos hs

/-- Whether a value is written on the line of its key. -/
def IsInline (v : Value) : Prop := ∀ line s, v = .atom line (.string s) → '\n' ∉ s.toList

theorem isInline_or (v : Value) :
    IsInline v ∨ ∃ line s, v = .atom line (.string s) ∧ '\n' ∈ s.toList := by
  by_cases h : IsInline v
  · exact .inl h
  · simp only [IsInline, not_forall, not_not] at h
    obtain ⟨line, s, hv, hs⟩ := h
    exact .inr ⟨line, s, hv, hs⟩

theorem written_inline {v : Value} (hv : IsInline v) (key : String) :
    (assignment key v).written = writtenInline key v := by
  cases v with
  | atom line a =>
    cases a with
    | string s => exact if_neg (hv line s rfl)
    | _ => rfl
  | array | object => rfl

theorem closed_inline {v : Value} (hv : IsInline v) (key : String) :
    (assignment key v).closed = assignment key v := by
  cases v with
  | atom line a =>
    cases a with
    | string s => rw [closed, if_neg (hv line s rfl)]
    | _ => rfl
  | array | object => rfl

theorem closed_lines {s : String} (hs : '\n' ∈ s.toList) (key : String) (line : Nat) :
    (assignment key (.atom line (.string s))).closed =
      assignment key (.atom line (.string (String.ofList (Text.closeLine s.toList)))) := by
  rw [closed, if_pos hs]

@[simp] theorem onLine_onLine (l l' : Nat) (st : Statement) :
    (st.onLine l).onLine l' = st.onLine l' := by
  cases st <;> simp [onLine]

theorem IsInline.onLine {v : Value} (hv : IsInline v) (l : Nat) : IsInline (v.onLine l) := by
  rintro line s h
  cases v with
  | atom line a =>
    cases h
    exact hv line s rfl
  | array | object => cases h

/-- The text of a statement does not depend on its lines. -/
@[simp] theorem written_onLine (l : Nat) (st : Statement) : (st.onLine l).written = st.written := by
  cases st with
  | assignment key v =>
    rcases isInline_or v with hv | ⟨line, s, rfl, hs⟩
    · rw [onLine, written_inline hv, written_inline (hv.onLine l), writtenInline, writtenInline,
        Value.written_onLine]
    · exact (written_lines hs key l).trans (written_lines hs key line).symm
  | comment | inclusion | extension => rfl

/-- Nor on the newline at the end of a string over several lines. -/
@[simp] theorem written_closed (st : Statement) : st.closed.written = st.written := by
  cases st with
  | assignment key v =>
    rcases isInline_or v with hv | ⟨line, s, rfl, hs⟩
    · rw [closed_inline hv]
    · have hlist := String.toList_ofList (l := Text.closeLine s.toList)
      have hclose := Text.newline_mem_closeLine s.toList
      rw [← hlist] at hclose
      rw [closed_lines hs, written_lines hs, written_lines hclose, hlist, Text.openLine_closeLine]
  | comment | inclusion | extension => rfl

theorem written_ne_nil {st : Statement} (h : st.IsLexeme Scanner.defaultSelectors) :
    st.written ≠ [] := by
  cases st with
  | assignment key v =>
    rcases isInline_or v with hv | ⟨line, s, rfl, hs⟩
    · simp [written_inline hv, writtenInline]
    · simp [written_lines hs]
  | comment text =>
    intro hnil
    have hcomment : Token.IsComment [] := hnil ▸ h
    cases hcomment
  | inclusion path | extension path => simp [written, Atom.directive]

end Statement

namespace Grammar

open Scanner (Scans between defaultSelectors bodyLines)

/-- Whether a derivation is that of the text of a statement on a line, after which a new line
starts. -/
structure IsTreeOf (st : Statement) (line : Nat) (tree : StatementTree) (next : Nat) : Prop where
  statement : tree.statement true = st.closed.onLine line
  notes : tree.notes = []
  fits : ∀ ts, tree.Fits ts
  scans : ∀ ⦃r : List Char⦄ ⦃ts : List Token⦄ ⦃last : Token⦄,
    (∀ openedAt, Scans defaultSelectors (between r next openedAt) ts last) → ∀ openedAt,
      Scans defaultSelectors (between (st.written ++ '\n' :: r) line openedAt) (tree.tokens ++ ts)
        last

theorem delimited_space (r : List Char) : Token.Delimited (' ' :: r) := by
  rintro c ⟨⟩
  rfl

theorem not_leavesEmpty_valueTree (line : Nat) (v : Value) :
    ¬ LeavesEmpty line (valueTree line v).tokens := by
  obtain ⟨t, ts, htokens, hcomment, -⟩ := (valueTree line v).tokens_eq_cons
  have hline := head_valueTree line v t (by rw [htokens]; rfl)
  rw [htokens]
  rintro (⟨text, htext⟩ | hlater)
  · exact hcomment text htext
  · rw [hline] at hlater
    exact Nat.lt_irrefl _ hlater

theorem isTreeOf_inline {key : String} (hkey : Token.IsName key.toList) {v : Value}
    (hinline : Statement.IsInline v) (hv : v.Writable) (line : Nat) :
    IsTreeOf (.assignment key v) line
      (.assigned ⟨key, line⟩ key ⟨"=", line⟩ (valueTree line v)) (line + 1) where
  statement := by
    rw [Statement.closed_inline hinline, StatementTree.statement, value_valueTree line v hv]
    rfl
  notes := notes_valueTree line v hv
  fits _ := not_leavesEmpty_valueTree line v
  scans := by
    intro r ts last h openedAt
    have hvalue := spells_value line v hv (pathEnded_cons (.inl rfl) r) (h openedAt).newline
    have hname := hvalue.space.equals.space.name hkey (delimited_space _)
    rw [Statement.written_inline hinline, Statement.writtenInline]
    simpa [StatementTree.tokens, Mark.token] using hname

theorem isTreeOf_lines {key : String} (hkey : Token.IsName key.toList) {s : String}
    (hs : '\n' ∈ s.toList) (hlines : LinesRewritable s) (l line : Nat) :
    IsTreeOf (.assignment key (.atom l (.string s))) line
      (.body ⟨key, line⟩ key ⟨"==", line⟩
        (bodyLines (line + 1) (Text.split '\n' (Text.openLine s.toList)))
        ⟨"==\n", line + 1 + (Text.split '\n' (Text.openLine s.toList)).length⟩)
      (line + 1 + (Text.split '\n' (Text.openLine s.toList)).length + 1) where
  statement := by
    rw [Statement.closed_lines hs, StatementTree.statement, joinLines_keptLines hlines]
    rfl
  notes := rfl
  fits _ := trivial
  scans := by
    intro r ts last h openedAt
    have hbody := (h line).bodyLines (isInnerLine_of_mem_split hlines)
    have hname := (hbody.opening openedAt).space.name hkey (delimited_space _)
    -- the lines, each with its newline, are the text and the newline before the closing `==`
    rw [← Text.join_append (Text.split_ne_nil _ _), Text.join_split] at hname
    rw [Statement.written_lines hs]
    simpa [StatementTree.tokens, Mark.token] using hname

theorem isTreeOf_comment {text : String} (htext : Token.IsComment text.toList) (line : Nat) :
    IsTreeOf (.comment text) line (.comment ⟨⟨text, line⟩, text⟩)
      (line + Text.newlines text.toList + 1) where
  statement := rfl
  notes := rfl
  fits _ := trivial
  scans _ _ _ h openedAt := (h openedAt).newline.comment htext

theorem isTreeOf_inclusion {path : String} (hpath : Token.IsPath path.toList)
    (hcomment : Token.startsComment path.toList = false) (line : Nat) :
    IsTreeOf (.inclusion path) line (.inclusion ⟨"@include", line⟩ ⟨path, line⟩ path)
      (line + 1) where
  statement := rfl
  notes := rfl
  fits _ := trivial
  scans r _ _ h openedAt :=
    (h openedAt).newline.directive .inclusion hpath hcomment (pathEnded_cons (.inl rfl) r)

theorem isTreeOf_extension {path : String} (hpath : Token.IsPath path.toList)
    (hcomment : Token.startsComment path.toList = false) (line : Nat) :
    IsTreeOf (.extension path) line (.extension ⟨"@extends", line⟩ ⟨path, line⟩ path)
      (line + 1) where
  statement := rfl
  notes := rfl
  fits _ := trivial
  scans r _ _ h openedAt :=
    (h openedAt).newline.directive .extension hpath hcomment (pathEnded_cons (.inl rfl) r)

/-- **The text of a statement has a derivation that denotes it.** -/
theorem exists_isTreeOf {st : Statement} (hst : st.IsLexeme defaultSelectors)
    (hwrite : st.Rewritable) (line : Nat) : ∃ tree next, IsTreeOf st line tree next := by
  cases st with
  | assignment key v =>
    obtain ⟨hkey, hv⟩ := hst
    rcases Statement.isInline_or v with hinline | ⟨l, s, rfl, hs⟩
    · exact ⟨_, _, isTreeOf_inline hkey hinline (hv.and hwrite.1) line⟩
    · exact ⟨_, _, isTreeOf_lines hkey hs (hwrite.2 l s rfl hs) l line⟩
  | comment text => exact ⟨_, _, isTreeOf_comment hst line⟩
  | inclusion path => exact ⟨_, _, isTreeOf_inclusion hst hwrite line⟩
  | extension path => exact ⟨_, _, isTreeOf_extension hst hwrite line⟩

/-- The text of statements has derivations that denote them. -/
theorem exists_trees (sts : List Statement) (line : Nat)
    (h : ∀ st ∈ sts, st.IsLexeme defaultSelectors ∧ st.Rewritable) :
    ∃ (g : List StatementTree) (last : Token), Admissible g ∧ g.flatMap (·.notes) = [] ∧
      g.map (fun tree => (tree.statement true).onLine 0) = sts.map (fun st => st.closed.onLine 0) ∧
      ∀ openedAt, Scans defaultSelectors
        (between (sts.flatMap fun st => st.written ++ ['\n']) line openedAt) (tokens g) last := by
  induction sts generalizing line with
  | nil => exact ⟨[], ⟨.finish, "", line⟩, trivial, rfl, rfl, fun _ => .finish rfl rfl⟩
  | cons st sts ih =>
    obtain ⟨⟨hst, hwrite⟩, hsts⟩ := List.forall_mem_cons.mp h
    -- the line of the next statement is known only once the tree of this one is
    obtain ⟨tree, next, htree⟩ := exists_isTreeOf hst hwrite line
    obtain ⟨g, last, hg, hnotes, hstatements, hscans⟩ := ih next hsts
    refine ⟨tree :: g, last, ⟨htree.fits _, hg⟩, ?_, ?_, fun openedAt => ?_⟩
    · rw [List.flatMap_cons, htree.notes, hnotes, List.append_nil]
    · rw [List.map_cons, List.map_cons, hstatements, htree.statement, Statement.onLine_onLine]
    · rw [List.flatMap_cons, List.append_assoc]
      exact htree.scans hscans openedAt

end Grammar

/-! ## Documents -/

namespace Node

def onLine (line : Nat) (n : Node) : Node := ⟨n.statement.onLine line, line, n.origin⟩

/-- A node in which an assigned string over several lines ends in a newline. -/
def closed (n : Node) : Node := ⟨n.statement.closed, n.line, n.origin⟩

end Node

namespace Document

/-- The text of nodes is that of their statements, each with a newline. -/
theorem toList_source {nodes : List Node}
    (h : ∀ n ∈ nodes, n.statement.IsLexeme Scanner.defaultSelectors) :
    (source nodes).toList = (nodes.map (·.statement)).flatMap fun st => st.written ++ ['\n'] := by
  rw [source, String.toList_ofList]
  cases nodes with
  | nil => rfl
  | cons n nodes =>
    have hn := Statement.written_ne_nil (h n List.mem_cons_self)
    rw [List.map_cons, if_neg (Text.join_ne_nil hn _), Text.join_append (List.cons_ne_nil _ _)]
    simp [List.flatMap_map]

/-- The text of nodes depends on that of their statements only. -/
theorem source_congr {nodes nodes' : List Node}
    (h : nodes.map (·.statement.written) = nodes'.map (·.statement.written)) :
    source nodes = source nodes' := by
  rw [source, source, h]

/-- The nodes of a document that was read have no origin yet. -/
theorem origin_of_ofText {options : Options} {text : String} {d : Document}
    (h : ofText options text = .ok d) : ∀ n ∈ d.nodes, n.origin = "" := by
  obtain ⟨g, last, -, -, rfl⟩ := ofText_eq_ok_iff_exists_derivation.mp h
  intro n hn
  obtain ⟨tree, -, rfl⟩ := List.mem_map.mp hn
  rfl

/-- **A document that is written and read again is the same**, up to lines and up to the newline at
the end of a string over several lines, and writing it again changes nothing. -/
theorem ofText_source {text : String} {d : Document} (h : ofText {} text = .ok d)
    (hd : ∀ n ∈ d.nodes, n.statement.Rewritable) :
    ∃ d', ofText {} (source d.nodes) = .ok d' ∧ ofScannedText {} (source d.nodes) = .ok d' ∧
      d'.notes = [] ∧ d'.nodes.map (·.onLine 0) = d.nodes.map (·.closed.onLine 0) ∧
      source d'.nodes = source d.nodes := by
  have hlexeme := isLexeme_of_ofText h
  have horigin := origin_of_ofText h
  have hsts : ∀ st ∈ d.nodes.map (·.statement),
      st.IsLexeme Scanner.defaultSelectors ∧ st.Rewritable := by
    intro st hst
    obtain ⟨n, hn, rfl⟩ := List.mem_map.mp hst
    exact ⟨hlexeme n hn, hd n hn⟩
  obtain ⟨g, last, hg, hnotes, hstatements, hscans⟩ :=
    Grammar.exists_trees (d.nodes.map (·.statement)) 1 hsts
  have hread : ofText {} (source d.nodes) = .ok (Grammar.document true g) := by
    refine ofText_eq_ok_iff_exists_derivation.mpr ⟨g, last, ?_, hg, rfl⟩
    have hscans := hscans 0
    rw [← toList_source hlexeme] at hscans
    exact hscans
  have hnodes : (Grammar.document true g).nodes.map (·.onLine 0) =
      d.nodes.map (·.closed.onLine 0) := by
    have hmap := congrArg (List.map fun st => (⟨st, 0, ""⟩ : Node)) hstatements
    simp only [List.map_map] at hmap
    rw [Grammar.document, List.map_map]
    refine Eq.trans hmap (List.map_congr_left fun n hn => ?_)
    rw [Function.comp_apply, Function.comp_apply, ← horigin n hn]
    rfl
  have hwritten := congrArg (List.map fun n : Node => n.statement.written) hnodes
  simp only [List.map_map, Function.comp_def, Node.onLine, Node.closed, Statement.written_onLine,
    Statement.written_closed] at hwritten
  exact ⟨_, hread, ofScannedText_eq_ok_iff.mpr hread, hnotes, hnodes, source_congr hwritten⟩

/-- A nested value with a comment after it, and a string of two lines that ends in no newline. -/
def nestedText : String :=
  "form = \x7bids: [wc-a1, true], note: \"x\\ny\"\x7d # kept\ntitle = \"first\\nlast\""

def nestedTokens : List Token :=
  [⟨.name "form", "form", 1⟩, ⟨.equals, "=", 1⟩, ⟨.leftBrace, "\x7b", 1⟩,
    ⟨.name "ids", "ids", 1⟩, ⟨.colon, ":", 1⟩, ⟨.leftBracket, "[", 1⟩,
    ⟨.selector "wc-a1", "wc-a1", 1⟩, ⟨.comma, ",", 1⟩, ⟨.boolean true, "true", 1⟩,
    ⟨.rightBracket, "]", 1⟩, ⟨.comma, ",", 1⟩, ⟨.name "note", "note", 1⟩, ⟨.colon, ":", 1⟩,
    ⟨.string "x\ny", "\"x\\ny\"", 1⟩, ⟨.rightBrace, "\x7d", 1⟩, ⟨.comment "# kept", "# kept", 1⟩,
    ⟨.name "title", "title", 2⟩, ⟨.equals, "=", 2⟩,
    ⟨.string "first\nlast", "\"first\\nlast\"", 2⟩, ⟨.finish, "", 2⟩]

def nestedForm (line : Nat) : Value :=
  .object line [("ids", .array line [.atom line (.component "wc-a1"), .atom line (.boolean true)]),
    ("note", .atom line (.string "x\ny"))]

/-- It is read again with a newline at the end of the string, and with its text unchanged. -/
theorem ofText_source_nested : ∃ d d', ofText {} nestedText = .ok d ∧
    (∀ n ∈ d.nodes, n.statement.Rewritable) ∧ ofText {} (source d.nodes) = .ok d' ∧
    d'.notes = [] ∧ d'.nodes.map (·.onLine 0) =
      [⟨.assignment "form" (nestedForm 0), 0, ""⟩, ⟨.comment "# kept", 0, ""⟩,
        ⟨.assignment "title" (.atom 0 (.string "first\nlast\n")), 0, ""⟩] ∧
    source d'.nodes = source d.nodes := by
  have htokens : Token.ofText? "wc-" nestedText = .ok nestedTokens := by decide +kernel
  have hd : ofText {} nestedText = .ok ⟨[⟨.assignment "form" (nestedForm 1), 1, ""⟩,
      ⟨.comment "# kept", 1, ""⟩, ⟨.assignment "title" (.atom 2 (.string "first\nlast")), 2, ""⟩],
      []⟩ := by
    rw [← ofScannedText_eq_ok_iff, ofScannedText, htokens]
    rfl
  have hlines : LinesRewritable "first\nlast" :=
    ⟨by decide, fun w hw => by cases hw; rfl⟩
  have hwrite : ∀ n ∈ [(⟨.assignment "form" (nestedForm 1), 1, ""⟩ : Node),
      ⟨.comment "# kept", 1, ""⟩, ⟨.assignment "title" (.atom 2 (.string "first\nlast")), 2, ""⟩],
      n.statement.Rewritable := by
    simp only [List.forall_mem_cons]
    refine ⟨⟨?_, ?_⟩, trivial, ⟨trivial, ?_⟩, List.forall_mem_nil _⟩
    · exact ⟨trivial, ⟨trivial, trivial, trivial⟩, trivial, trivial⟩
    · rintro line s ⟨⟩
    · rintro line s ⟨⟩ -
      exact hlines
  obtain ⟨d', hd', -, hnotes, hnodes, hsource⟩ := ofText_source hd hwrite
  exact ⟨_, d', hd, hwrite, hd', hnotes, hnodes, hsource⟩

end Document

end Courseware
