/-
A document is the same whether its text is scanned first or as it is parsed.

A parser that reads a text asks for a token when it takes the one before, so it
is one token ahead of what it judges (`Parser.readOn`). It may stop in the middle
of the text, and then never sees what is behind. If all of the text scans, that
makes no difference: its document, or its error, is that of the tokens. If some
of it does not, there is no document; the error is that of the scan, unless the
tokens in front already make none whatever follows them (`ofText_lookahead`).
-/
import Courseware.Proofs.Document.LineNumbers

namespace Courseware

namespace Parser

variable {selectors : List Char} {stripHint : Bool}

/-- The document that a parser makes of a text, where it looks at a token and the rest is still to
be scanned. The next token is asked for when this one is taken, before it is judged. -/
def readOn (selectors : List Char) (stripHint : Bool) (p : Parser) (ahead : Token) (s : Scanner) :
    Except Error Document :=
  if _hahead : ahead.kind = .finish then p.finish ahead.line
  else
    match p.step stripHint ahead with
    | .refuse e => .error e
    | .take judged =>
      match _hnext : s.next selectors with
      | (.error e, _) => .error e
      | (.ok t, s') =>
        match judged with
        | .error e => .error e
        | .ok q => readOn selectors stripHint q t s'
termination_by if ahead.kind = .finish then 0 else s.rest.length + 1
decreasing_by
  rw [if_neg _hahead]
  split
  · exact Nat.succ_pos _
  · next hkind => exact Nat.succ_lt_succ (Scanner.next_lt _hnext hkind)

/-- **Reading on makes what the items of the rest make.** -/
theorem readOn_eq_run {fuel : Nat} {s : Scanner} {ahead : Token}
    (hfuel : ahead.kind ≠ .finish → s.rest.length < fuel) (p : Parser) (line : Nat) :
    p.readOn selectors stripHint ahead s = p.run stripHint line
      (.ok ahead :: if ahead.kind = .finish then [] else s.itemsWithin selectors fuel) := by
  induction fuel generalizing p line ahead s with
  | zero =>
    have hahead : ahead.kind = .finish := by
      by_contra hne
      exact absurd (hfuel hne) (Nat.not_lt_zero _)
    rw [readOn, run, dif_pos hahead, if_pos hahead]
  | succ fuel ih =>
    by_cases hahead : ahead.kind = .finish
    · rw [readOn, run, dif_pos hahead, if_pos hahead]
    · have hfuel := hfuel hahead
      rw [readOn, run, dif_neg hahead, if_neg hahead, if_neg hahead, Scanner.itemsWithin]
      cases p.step stripHint ahead with
      | refuse e => rfl
      | take judged =>
        dsimp only
        rcases hnext : s.next selectors with ⟨e | t, s'⟩
        · cases judged <;> rfl
        · cases judged with
          | error e => rfl
          | ok q =>
            refine ih (fun hkind => ?_) q ahead.line
            have hlt := Scanner.next_lt hnext hkind
            omega

/-- Tokens that more can follow to a document leave it to what follows them. -/
theorem run_of_continued {ts more : List Token} (hts : ∀ t ∈ ts, t.kind ≠ .finish) {p : Parser}
    {line : Nat} {d : Document} (h : p.run stripHint line ((ts ++ more).map .ok) = .ok d)
    (e : Error) : p.run stripHint line (ts.map .ok ++ [.error e]) = .error e := by
  induction ts generalizing p line with
  | nil => rfl
  | cons t ts ih =>
    obtain ⟨ht, hts⟩ := List.forall_mem_cons.mp hts
    simp only [List.cons_append, List.map_cons, run, if_neg ht] at h ⊢
    cases hstep : p.step stripHint t with
    | refuse e =>
      rw [hstep] at h
      cases h
    | take judged =>
      rw [hstep] at h
      cases judged with
      | error e => cases h
      | ok q => exact ih hts h

end Parser

namespace Document

/-- The document of a text that is scanned one token ahead of the parser. -/
def readAhead (options : Options) (text : String) : Except Error Document :=
  match (Scanner.ofText text).next options.componentStart.toList with
  | (.error e, _) => .error e
  | (.ok t, s) => Parser.start.readOn options.componentStart.toList options.stripHint t s

theorem ofText_eq_readAhead (options : Options) (text : String) :
    ofText options text = readAhead options text := by
  unfold ofText ofItems Item.ofText readAhead
  rw [Scanner.itemsWithin]
  rcases hnext : (Scanner.ofText text).next options.componentStart.toList with ⟨e | t, s⟩
  · rfl
  · exact (Parser.readOn_eq_run (Scanner.next_lt hnext) Parser.start 1).symm

/-- **Scanning ahead of the parser and scanning first agree.** A text that is parsed as it is
scanned is read one token ahead. If all of it scans, the outcome is that of its tokens, document or
error. If it does not, there is no document: the error is that of the scan or one of syntax, and it
is that of the scan if the tokens in front of it can be continued to a document. -/
theorem ofText_lookahead (options : Options) (text : String) :
    ofText options text = readAhead options text ∧
    (∀ ts, Token.ofText? options.componentStart text = .ok ts →
      ofText options text = ofTokens options.stripHint ts) ∧
    ∀ e, Token.ofText? options.componentStart text = .error e →
      (ofText options text = .error e ∨
        ∃ line detail, ofText options text = .error (.syntactic line detail)) ∧
      ∃ ts, Item.ofText options.componentStart text = ts.map .ok ++ [.error e] ∧
        ∀ more d, ofTokens options.stripHint (ts ++ more) = .ok d →
          ofText options text = .error e := by
  refine ⟨ofText_eq_readAhead options text, ?_⟩
  rcases Item.scans_or_error options.componentStart text with
    ⟨ts, last, hts⟩ | ⟨ts, e, hitems, hts⟩
  · have htokens := Token.ofText?_of_scans hts
    refine ⟨fun us hus => ?_, fun e he => (by cases htokens.symm.trans he)⟩
    cases htokens.symm.trans hus
    rw [ofText, ofTokens, Item.ofText_of_scans hts, List.map_append]
    rfl
  · have htokens : Token.ofText? options.componentStart text = .error e := by
      rw [Token.ofText?, hitems, Item.mapM_error]
    refine ⟨fun us hus => (by cases htokens.symm.trans hus), fun e' he => ?_⟩
    cases htokens.symm.trans he
    refine ⟨?_, ts, hitems, fun more d hd => ?_⟩
    · cases hdocument : ofText options text with
      | ok d =>
        rw [ofText, ofItems, hitems] at hdocument
        exact absurd hdocument (Parser.run_error hts e _ _ d)
      | error e' =>
        rw [ofText, ofItems] at hdocument
        rcases Parser.run_eq_error (P := fun _ => True) (fun _ _ => trivial) (fun _ _ => trivial)
          trivial hdocument with hmem | ⟨line, -, detail, rfl⟩
        · rw [hitems] at hmem
          rcases List.mem_append.mp hmem with hmem | hmem
          · obtain ⟨t, -, ht⟩ := List.mem_map.mp hmem
            cases ht
          · cases List.mem_singleton.mp hmem
            exact .inl rfl
        · exact .inr ⟨line, detail, rfl⟩
    · rw [ofText, ofItems, hitems]
      exact Parser.run_of_continued hts hd e

/-- A text that does not scan to its end, and its tokens up to there. -/
def brokenText : String := "x = true\ny = [$"

def brokenTokens : List Token :=
  [⟨.name "x", "x", 1⟩, ⟨.equals, "=", 1⟩, ⟨.boolean true, "true", 1⟩, ⟨.name "y", "y", 2⟩,
    ⟨.equals, "=", 2⟩, ⟨.leftBracket, "[", 2⟩]

/-- They can be continued by the bracket that is missing, so the error is that of the scan. Without
the character that has no token, the text scans, and the error is that of its tokens. -/
theorem ofText_lookahead_broken :
    (∃ d, ofTokens true (brokenTokens ++ [⟨.rightBracket, "]", 2⟩]) = .ok d) ∧
    Token.ofText? "wc-" brokenText = .error ((LexicalFault.unexpectedCharacter '$').error 2) ∧
    ofText {} brokenText = .error ((LexicalFault.unexpectedCharacter '$').error 2) ∧
    Token.ofText? "wc-" "x = true\ny = [" = .ok (brokenTokens ++ [⟨.finish, "", 2⟩]) ∧
    ofText {} "x = true\ny = [" = .error (Expected.value.atEnd 2) := by
  have hcontinued : ∃ d, ofTokens true (brokenTokens ++ [⟨.rightBracket, "]", 2⟩]) = .ok d :=
    ⟨_, rfl⟩
  have hitems : Item.ofText "wc-" brokenText =
      brokenTokens.map .ok ++ [.error ((LexicalFault.unexpectedCharacter '$').error 2)] := by
    decide +kernel
  have hbroken : Token.ofText? "wc-" brokenText =
      .error ((LexicalFault.unexpectedCharacter '$').error 2) := by
    rw [Token.ofText?, hitems, Item.mapM_error]
  have hwhole : Token.ofText? "wc-" "x = true\ny = [" =
      .ok (brokenTokens ++ [⟨.finish, "", 2⟩]) := by
    decide +kernel
  have hrefused : ofTokens true (brokenTokens ++ [⟨.finish, "", 2⟩]) =
      .error (Expected.value.atEnd 2) := rfl
  refine ⟨hcontinued, hbroken, ?_, hwhole, ?_⟩
  · obtain ⟨-, ts, hts, hall⟩ := (ofText_lookahead {} brokenText).2.2 _ hbroken
    obtain ⟨d, hd⟩ := hcontinued
    rw [hitems, List.append_cancel_right_eq] at hts
    have hinjective : Function.Injective (.ok : Token → Item) := fun _ _ h => by
      cases h
      rfl
    rw [hinjective.list_map hts] at hd
    exact hall _ d hd
  · rw [(ofText_lookahead {} "x = true\ny = [").2.1 _ hwhole]
    exact hrefused

end Document

end Courseware
