/-
Where the tokens of a document end.

A document ends at the first token that says so. Without one it ends behind its
last token, on the line of that. So what follows the first end does not matter,
and an end that is left out can be put back (`Document.ofTokens_ends`).

A parser goes over the tokens in front of the end one at a time. Either it refuses
one of them, or it stands behind the last one and has the document end there
(`Parser.run_append`). The end itself is never taken: whatever the parser is in
the middle of, at any depth, it finishes or fails on the line of the end. A parser
that pulls its tokens has the end in front of it for as long as it asks for more
(`Feed.take`), and comes to the same.
-/
import Courseware.Proofs.Document.Feed

namespace Courseware

/-- The line that some tokens end on: that of the last one, and of what is in front of them if there
are none. -/
def Token.lastLine (line : Nat) (ts : List Token) : Nat := (ts.getLast?.map (·.line)).getD line

@[simp] theorem Token.lastLine_cons (line : Nat) (t : Token) (ts : List Token) :
    lastLine line (t :: ts) = lastLine t.line ts := by
  cases ts <;> simp [lastLine, List.getLast?_cons]

namespace Parser

/-- The parser behind some tokens, where no error follows them, or the error that one of them is
refused for. -/
def past (stripHint : Bool) : Parser → List Token → Except Error Parser
  | p, [] => .ok p
  | p, t :: ts =>
    match p.step stripHint t with
    | .refuse e => .error e
    | .take (.error e) => .error e
    | .take (.ok q) => past stripHint q ts

variable {stripHint : Bool}

theorem past_append (p : Parser) (ts us : List Token) :
    p.past stripHint (ts ++ us) = (p.past stripHint ts).bind fun q => q.past stripHint us := by
  induction ts generalizing p with
  | nil => rfl
  | cons t ts ih =>
    simp only [List.cons_append, past]
    rcases p.step stripHint t with e | ⟨e | q⟩
    · rfl
    · rfl
    · exact ih q

/-- Where there is a token next, it comes after the error of the one before. -/
theorem firstError_ok (e : Error) (ts : List Token) : firstError e (ts.map .ok) = e := by
  cases ts <;> rfl

/-- **What becomes of tokens is what becomes of the rest of them behind the first ones**, as long as
the document does not end among these. -/
theorem run_append {ts : List Token} (hts : ∀ t ∈ ts, t.kind ≠ .finish) (us : List Token)
    (p : Parser) (line : Nat) : p.run stripHint line ((ts ++ us).map .ok) =
      (p.past stripHint ts).bind fun q =>
        q.run stripHint (Token.lastLine line ts) (us.map .ok) := by
  induction ts generalizing p line with
  | nil => rfl
  | cons t ts ih =>
    obtain ⟨ht, hts⟩ := List.forall_mem_cons.mp hts
    simp only [List.cons_append, List.map_cons, run, if_neg ht, past, Token.lastLine_cons]
    rcases p.step stripHint t with e | ⟨e | q⟩
    · rfl
    · exact congrArg Except.error (firstError_ok e (ts ++ us))
    · exact ih hts q t.line

end Parser

namespace Document

variable {stripHint : Bool} {ts : List Token}

theorem ofTokens_append (hts : ∀ t ∈ ts, t.kind ≠ .finish) (us : List Token) :
    ofTokens stripHint (ts ++ us) =
      (Parser.start.past stripHint ts).bind fun q =>
        q.run stripHint (Token.lastLine 1 ts) (us.map .ok) :=
  Parser.run_append hts us Parser.start 1

/-- A document ends where its tokens say so. -/
theorem ofTokens_of_finish (hts : ∀ t ∈ ts, t.kind ≠ .finish) {last : Token}
    (hlast : last.kind = .finish) (us : List Token) : ofTokens stripHint (ts ++ last :: us) =
      (Parser.start.past stripHint ts).bind fun q => q.finish last.line := by
  rw [ofTokens_append hts]
  simp only [List.map_cons, Parser.run, if_pos hlast]

/-- A document whose tokens do not say where it ends does so behind them. -/
theorem ofTokens_of_open (hts : ∀ t ∈ ts, t.kind ≠ .finish) : ofTokens stripHint ts =
    (Parser.start.past stripHint ts).bind fun q => q.finish (Token.lastLine 1 ts) := by
  rw [← List.append_nil ts, ofTokens_append hts []]
  simp only [List.map_nil, Parser.run, List.append_nil]

/-- **A document ends at the first end of its tokens, given or implied.** Whatever follows it, the
outcome is the same, be it a document or an error; and tokens without an end make what they make
with one behind them on the line of the last of them, or on the first line if there are none. A
parser that pulls its tokens one at a time, and in front of which the end stays, makes the same of
them. -/
theorem ofTokens_ends (stripHint : Bool) (hts : ∀ t ∈ ts, t.kind ≠ .finish) :
    (∀ (last : Token) (us : List Token), last.kind = .finish →
      ofTokens stripHint (ts ++ last :: us) = ofTokens stripHint (ts ++ [last])) ∧
    (∀ lexeme : String, ofTokens stripHint ts =
      ofTokens stripHint (ts ++ [⟨.finish, lexeme, (ts.getLast?.map (·.line)).getD 1⟩])) ∧
    ∀ us : List Token, ofFeed stripHint (us.map .ok) = ofTokens stripHint us := by
  refine ⟨fun last us hlast => ?_, fun lexeme => ?_, fun us => ofFeed_eq_ofItems stripHint _⟩
  · rw [ofTokens_of_finish hts hlast us, ofTokens_of_finish hts hlast []]
  · rw [ofTokens_of_open hts, ofTokens_of_finish hts rfl []]
    rfl

/-- An object that is cut off on its second line, inside an array. -/
def unclosedTokens : List Token :=
  [⟨.name "x", "x", 1⟩, ⟨.equals, "=", 1⟩, ⟨.leftBrace, "\x7b", 1⟩, ⟨.name "k", "k", 1⟩,
    ⟨.colon, ":", 1⟩, ⟨.leftBracket, "[", 1⟩, ⟨.boolean true, "true", 2⟩]

/-- The tokens that would close it. -/
def closingTokens : List Token := [⟨.rightBracket, "]", 2⟩, ⟨.rightBrace, "\x7d", 2⟩]

/-- Behind the end they come too late, also for a parser that pulls them. Without an end the error
is on the line of the last token. -/
theorem ofTokens_ends_unclosed : (∀ t ∈ unclosedTokens, t.kind ≠ .finish) ∧
    (∃ d, ofTokens true (unclosedTokens ++ closingTokens) = .ok d) ∧
    ofTokens true (unclosedTokens ++ ⟨.finish, "", 5⟩ :: closingTokens) =
      .error (Expected.afterItem.atEnd 5) ∧
    ofFeed true ((unclosedTokens ++ ⟨.finish, "", 5⟩ :: closingTokens).map .ok) =
      .error (Expected.afterItem.atEnd 5) ∧
    ofTokens true unclosedTokens = .error (Expected.afterItem.atEnd 2) := by
  have hts : ∀ t ∈ unclosedTokens, t.kind ≠ .finish := by decide
  obtain ⟨hgiven, himplied, hpulled⟩ := ofTokens_ends true hts
  have hends : ofTokens true (unclosedTokens ++ ⟨.finish, "", 5⟩ :: closingTokens) =
      .error (Expected.afterItem.atEnd 5) := by
    rw [hgiven ⟨.finish, "", 5⟩ closingTokens rfl]
    rfl
  refine ⟨hts, ⟨_, rfl⟩, hends, ?_, ?_⟩
  · rw [hpulled]
    exact hends
  · rw [himplied ""]
    rfl

end Document

end Courseware
