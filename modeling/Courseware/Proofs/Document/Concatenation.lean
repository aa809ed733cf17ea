/-
Two documents, one behind the other, make one document.

Texts with a newline between them make the statements of the first and then
those of the second, which stand further down by the lines of the first
(`Document.ofText_append_newline`). On the side of the text, the scanner reads
of the first what it reads of it alone, and then the second (`Scans.onward`). On
the side of the tokens, a derivation followed by a derivation is one
(`admissible_append`): the only statement that looks at what comes after it is
an assignment without a value, and what comes after it stands on a later line.
-/
import Courseware.Proofs.Document.Lowered

namespace Courseware

open Text (newlines)

/-! ## Lines of tokens -/

namespace Scanner

variable {selectors : List Char} {s : Scanner} {ts : List Token} {last : Token}

/-- The last token stands on the last line of the text. -/
theorem Scans.line_last (h : Scans selectors s ts last) : last.line = s.line + newlines s.rest := by
  induction h with
  | finish hnext hkind => exact (eq_of_next_finish hnext hkind).2.2
  | token hnext _ _ ih =>
    obtain ⟨gap, after, htakes⟩ := exists_takes hnext
    have hrest := congrArg newlines htakes.rest
    have hline := htakes.line
    have hnextLine := htakes.next_line
    simp only [Text.newlines_append] at hrest hnextLine
    omega

/-- No token stands before the text, and none behind its last line. -/
theorem Scans.line_mem (h : Scans selectors s ts last) :
    ∀ t ∈ ts, s.line ≤ t.line ∧ t.line ≤ last.line := by
  induction h with
  | finish => exact List.forall_mem_nil _
  | token hnext _ hrest ih =>
    obtain ⟨gap, after, htakes⟩ := exists_takes hnext
    have hline := htakes.line
    have hnextLine := htakes.next_line
    have hlast := hrest.line_last
    refine List.forall_mem_cons.mpr ⟨by omega, fun t ht => ?_⟩
    have := ih t ht
    omega

end Scanner

/-! ## Derivations in a row -/

namespace Grammar

theorem tokens_append (g g' : List StatementTree) : tokens (g ++ g') = tokens g ++ tokens g' := by
  induction g with
  | nil => rfl
  | cons s g ih => simp only [List.cons_append, tokens, ih, List.append_assoc]

theorem leavesEmpty_of_later {line : Nat} {us : List Token} (h : ∀ u ∈ us, line < u.line) :
    LeavesEmpty line us := by
  cases us with
  | nil => trivial
  | cons u us => exact .inr (h u List.mem_cons_self)

/-- What may follow a statement may be followed by later lines. -/
theorem StatementTree.Fits.append {s : StatementTree} {ts us : List Token} (h : s.Fits ts)
    (hus : ∀ t ∈ s.tokens, ∀ u ∈ us, t.line < u.line) : s.Fits (ts ++ us) := by
  cases s with
  | empty m key equals =>
    cases ts with
    | nil =>
      exact leavesEmpty_of_later (hus (equals.token .equals) (by simp [StatementTree.tokens]))
    | cons t ts => exact h
  | assigned m key equals v => exact h
  | comment | body | inclusion | extension => trivial

theorem admissible_append {g g' : List StatementTree} (hg : Admissible g) (hg' : Admissible g')
    (hlater : ∀ t ∈ tokens g, ∀ u ∈ tokens g', t.line < u.line) : Admissible (g ++ g') := by
  induction g with
  | nil => exact hg'
  | cons s g ih =>
    obtain ⟨hfits, hg⟩ := hg
    have hstatement : ∀ t ∈ s.tokens, ∀ u ∈ tokens g', t.line < u.line :=
      fun t ht => hlater t (List.mem_append_left _ ht)
    have hrest := ih hg fun t ht => hlater t (List.mem_append_right _ ht)
    have hfits : s.Fits (tokens (g ++ g')) := by
      rw [tokens_append]
      exact hfits.append hstatement
    exact ⟨hfits, hrest⟩

end Grammar

/-- A document and another one behind it. -/
def Document.append (d e : Document) : Document := ⟨d.nodes ++ e.nodes, d.notes ++ e.notes⟩

theorem Grammar.document_append (stripHint : Bool) (g g' : List StatementTree) :
    document stripHint (g ++ g') = (document stripHint g).append (document stripHint g') := by
  simp [document, Document.append]

/-- Tokens that make a document and, on later lines, tokens that make another one. -/
theorem Parser.document?_append {stripHint : Bool} {ts us : List Token} {d e : Document}
    (hd : start.document? stripHint ts = some d) (he : start.document? stripHint us = some e)
    (hlater : ∀ t ∈ ts, ∀ u ∈ us, t.line < u.line) :
    start.document? stripHint (ts ++ us) = some (d.append e) := by
  obtain ⟨g, hg, rfl⟩ := Grammar.exists_derivation ts start d rfl hd
  obtain ⟨g', hg', rfl⟩ := Grammar.exists_derivation us start e rfl he
  rw [Grammar.document?_tokens hg start rfl] at hd
  rw [Grammar.document?_tokens hg' start rfl] at he
  cases hd
  cases he
  rw [← Grammar.tokens_append,
    Grammar.document?_tokens (Grammar.admissible_append hg hg' hlater) start rfl,
    Grammar.document_append]
  rfl

/-! ## Texts in a row -/

/-- A token that stands further down is one that stands somewhere. -/
theorem exists_of_mem_below {k : Nat} {ts ts' : List Token}
    (h : List.Forall₂ (Token.Below k) ts ts') {t' : Token} (ht : t' ∈ ts') :
    ∃ t ∈ ts, t'.line = t.line + k := by
  induction h with
  | nil => cases ht
  | @cons t u ts us hbelow _ ih =>
    rcases List.mem_cons.mp ht with rfl | ht
    · exact ⟨t, List.mem_cons_self, hbelow.line⟩
    · obtain ⟨v, hv, hline⟩ := ih ht
      exact ⟨v, List.mem_cons_of_mem _ hv, hline⟩

namespace Document

variable {options : Options} {text text' : String} {d d' : Document}

/-- A text with another one behind it, on the same line. -/
theorem onward_ofText (text text' : String) : Scanner.Onward 0 ('\n' :: text'.toList)
    (.ofText text) (.ofText (text ++ "\n" ++ text')) :=
  ⟨by simp [Scanner.ofText, Scanner.ofChars], rfl, rfl⟩

/-- A text by itself, further down. -/
theorem onward_between (text : String) (k openedAt : Nat) : Scanner.Onward k []
    (.ofText text) (Scanner.between text.toList (1 + k) openedAt) :=
  ⟨by simp [Scanner.ofText, Scanner.ofChars], rfl, rfl⟩

/-- **A text behind another one.** If two texts make documents, then the texts with a newline
between them make the first document with the second one behind it, whose lines are further down by
the lines of the first text; and they make the same one if they are scanned first. -/
theorem ofText_append_newline (hstart : '\n' ∉ options.componentStart.toList)
    (h : ofText options text = .ok d) (h' : ofText options text' = .ok d') :
    ofText options (text ++ "\n" ++ text') =
        .ok (d.append (d'.down (1 + newlines text.toList))) ∧
      ofScannedText options (text ++ "\n" ++ text') =
        .ok (d.append (d'.down (1 + newlines text.toList))) := by
  rw [ofScannedText_eq_ok_iff, and_self, ofText_eq_ok_iff]
  obtain ⟨ts, last, hts, hd⟩ := ofText_eq_ok_iff.mp h
  obtain ⟨us, last', hus, hd'⟩ := ofText_eq_ok_iff.mp h'
  have hlast : last.line = 1 + newlines text.toList := hts.line_last
  -- the first text is read up to its end, where the newline is skipped
  obtain ⟨ts', openedAt, hbelow, hscans⟩ :=
    hts.onward (lineEnded_cons text'.toList) hstart (onward_ofText text text')
  -- the second one is read behind it as it is read alone
  obtain ⟨us', openedAt', hbelow', hscans'⟩ :=
    hus.onward lineEnded_nil hstart (onward_between text' (1 + newlines text.toList) openedAt)
  have hend : Scanner.Scans options.componentStart.toList
      (Scanner.between [] (last'.line + (1 + newlines text.toList)) openedAt') []
      ⟨.finish, "", last'.line + (1 + newlines text.toList)⟩ := .finish rfl rfl
  have hsecond := hscans' [] _ hend
  rw [List.append_nil, Nat.add_comm 1, ← hlast] at hsecond
  refine ⟨ts' ++ us', _, hscans us' _ hsecond.newline, ?_⟩
  have hfirst := Parser.document?_down hbelow hd
  rw [Document.down_zero] at hfirst
  refine Parser.document?_append hfirst (Parser.document?_down hbelow' hd') ?_
  intro t ht u hu
  obtain ⟨t₀, ht₀, htline⟩ := exists_of_mem_below hbelow ht
  obtain ⟨u₀, hu₀, huline⟩ := exists_of_mem_below hbelow' hu
  have hbefore := (hts.line_mem t₀ ht₀).2
  have hafter : 1 ≤ u₀.line := (hus.line_mem u₀ hu₀).1
  omega

/-- A value over several lines that ends with the text. -/
def bodyText : String := "m ==\n k\n=="

def bodyNode (line : Nat) : Node := ⟨.assignment "m" (.atom line (.string " k\n")), line, ""⟩

/-- An object over two lines with a repeated key, and an `=` without a value at the end. -/
def objectText : String := "b = \x7bk: true,\n k: [c]\x7d\na ="

def objectNodes (line : Nat) : List Node :=
  [⟨.assignment "b" (.object line [("k", .array (line + 1) [.atom (line + 1) (.reference "c")])]),
      line, ""⟩,
    ⟨.assignment "a" (.atom (line + 2) (.string "")), line + 2, ""⟩]

/-- In either order: the line that ends the value takes the newline with it, and the `=` at the end
is left without a value by the line after it. -/
theorem ofText_append_newline_body_object :
    ofText {} (bodyText ++ "\n" ++ objectText) =
        .ok ⟨bodyNode 1 :: objectNodes 4, [Parser.repeatedKey "k" 5]⟩ ∧
      ofText {} (objectText ++ "\n" ++ bodyText) =
        .ok ⟨objectNodes 1 ++ [bodyNode 4], [Parser.repeatedKey "k" 2]⟩ := by
  have hstart : '\n' ∉ (Options.componentStart {}).toList := by decide
  have hbodyTokens : Token.ofText? "wc-" bodyText = .ok [⟨.name "m", "m", 1⟩,
      ⟨.opening, "==", 1⟩, ⟨.body " k\n", " k\n", 2⟩, ⟨.closing, "==", 3⟩, ⟨.finish, "", 3⟩] := by
    decide +kernel
  have hobjectTokens : Token.ofText? "wc-" objectText = .ok [⟨.name "b", "b", 1⟩,
      ⟨.equals, "=", 1⟩, ⟨.leftBrace, "\x7b", 1⟩, ⟨.name "k", "k", 1⟩, ⟨.colon, ":", 1⟩,
      ⟨.boolean true, "true", 1⟩, ⟨.comma, ",", 1⟩, ⟨.name "k", "k", 2⟩, ⟨.colon, ":", 2⟩,
      ⟨.leftBracket, "[", 2⟩, ⟨.name "c", "c", 2⟩, ⟨.rightBracket, "]", 2⟩,
      ⟨.rightBrace, "\x7d", 2⟩, ⟨.name "a", "a", 3⟩, ⟨.equals, "=", 3⟩, ⟨.finish, "", 3⟩] := by
    decide +kernel
  have hbody : ofText {} bodyText = .ok ⟨[bodyNode 1], []⟩ := by
    rw [← ofScannedText_eq_ok_iff, ofScannedText, hbodyTokens]
    rfl
  have hobject : ofText {} objectText = .ok ⟨objectNodes 1, [Parser.repeatedKey "k" 2]⟩ := by
    rw [← ofScannedText_eq_ok_iff, ofScannedText, hobjectTokens]
    rfl
  exact ⟨(ofText_append_newline hstart hbody hobject).1,
    (ofText_append_newline hstart hobject hbody).1⟩

end Document

end Courseware
