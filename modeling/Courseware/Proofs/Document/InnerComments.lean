/-
Comments inside arrays and objects.

A comment may be put into an array or an object of a document without changing what
it denotes, but not everywhere: not in front of the path of a directive, and not on
either side of the colon between a key and its value, where the document is refused
for the comment (`Document.ofTokens_comment_inside`).

Where a place is can be read off the tokens in front of it. A parser is as deep as
there are brackets open (`Parser.Stepped`), and inside one it takes no comment only
if it waits for a colon, a value of an entry, or a path. Its last token tells which:
it waits for the value of an entry right behind the colon, and for a path right
behind the directive.
-/
import Courseware.Proofs.Document.Ending
import Courseware.Proofs.Grammar.Soundness

namespace Courseware

/-! ## Places among tokens -/

namespace Token

/-- Whether a token opens an array or an object. -/
def opens (t : Token) : Bool := t.kind = .leftBracket || t.kind = .leftBrace

/-- Whether a token closes an array or an object. -/
def closes (t : Token) : Bool := t.kind = .rightBracket || t.kind = .rightBrace

/-- Whether the place behind some tokens is inside an array or an object: the document does not end
in front of it, and more of them are opened there than closed. -/
structure InsideLiteral (before : List Token) : Prop where
  reached : ∀ t ∈ before, t.kind ≠ .finish
  isOpen : before.countP closes < before.countP opens

/-- Whether the place behind some tokens is right behind a directive. -/
def BehindDirective (before : List Token) : Prop :=
  ∃ t ∈ before.getLast?, ∃ d, t.kind = .directive d

/-- Whether a place is right behind a colon, or right in front of one. -/
def BesideColon (before after : List Token) : Prop :=
  (∃ t ∈ before.getLast?, t.kind = .colon) ∨ ∃ t ∈ after.head?, t.kind = .colon

end Token

/-! ## How deep a parser is -/

/-- How many arrays and objects a value goes into. -/
def Hole.depth : Hole → Nat
  | .assigned .. => 0
  | .item _ _ around => around.depth + 1
  | .entry _ _ _ _ around => around.depth + 1

/-- How many arrays and objects are open. -/
def Mode.depth : Mode → Nat
  | .value hole | .valueFile _ _ hole => hole.depth
  | .array _ _ _ hole | .object _ _ _ hole | .entry _ _ _ _ hole => hole.depth + 1
  | _ => 0

/-- What a mode tells of the token that led to it. -/
def Mode.Tells : Mode → TokenKind → Prop
  | .value _, kind => kind = .colon
  | .valueFile d _ _, kind => kind = .directive d
  | _, kind => kind ≠ .colon

namespace Parser

variable {stripHint : Bool} {p q : Parser} {hole : Hole} {depth : Nat} {t : Token}

/-- What a token does to a parser that takes it at some depth: the parser is deeper if the token
opens an array or an object, less deep if it closes one, and its mode tells what the token was. -/
structure Stepped (depth : Nat) (t : Token) (q : Parser) : Prop where
  depth_eq : q.mode.depth + (if t.closes then 1 else 0) = depth + if t.opens then 1 else 0
  tells : q.mode.Tells t.kind

@[simp] theorem depth_fill (p : Parser) (v : Value) (hole : Hole) :
    (p.fill v hole).mode.depth = hole.depth := by
  cases hole <;> rfl

theorem tells_fill (p : Parser) (v : Value) (hole : Hole) {kind : TokenKind}
    (h : kind ≠ .colon) : (p.fill v hole).mode.Tells kind := by
  cases hole <;> exact h

theorem stepped_startValue (h : p.startValue hole t = .ok q) : Stepped hole.depth t q := by
  obtain ⟨kind, lexeme, line⟩ := t
  cases kind <;> cases h
  case number | boolean | string | name | selector =>
    exact ⟨depth_fill p _ hole, tells_fill p _ hole (by simp)⟩
  case directive => exact ⟨rfl, rfl⟩
  case leftBracket | leftBrace => exact ⟨rfl, by simp [inMode, Mode.Tells]⟩

theorem stepped_startStatement (h : p.startStatement t = .take (.ok q)) : Stepped 0 t q := by
  obtain ⟨kind, lexeme, line⟩ := t
  cases kind with
  | directive d => cases d <;> cases h <;> exact ⟨rfl, by simp [inMode, Mode.Tells]⟩
  | _ => cases h <;> exact ⟨rfl, by simp [inMode, emit, Mode.Tells]⟩

theorem stepped_startRightSide {key : String} {line equalsLine : Nat}
    (h : p.startRightSide key line equalsLine t = .take (.ok q)) : Stepped 0 t q := by
  unfold startRightSide at h
  split at h
  · exact stepped_startStatement h
  · split at h
    · exact stepped_startStatement h
    · injection h with h
      exact stepped_startValue h

theorem stepped_fileValue {d : Directive} {line : Nat} {path : String}
    (ht : t.kind = .path path) (h : p.fileValue d line hole path = .ok q) :
    Stepped hole.depth t q := by
  obtain ⟨kind, lexeme, tline⟩ := t
  cases ht
  cases d with
  | inclusion => cases h
  | extension | url | content =>
    cases h
    exact ⟨depth_fill p _ hole, tells_fill p _ hole (by simp)⟩

/-- The end of an array or an object. -/
theorem stepped_fill {v : Value} (hcloses : t.closes = true) :
    Stepped (hole.depth + 1) t (p.fill v hole) := by
  obtain ⟨kind, lexeme, line⟩ := t
  cases kind <;> cases hcloses
  case rightBracket | rightBrace =>
    exact ⟨by rw [depth_fill]; rfl, tells_fill p v hole (by simp)⟩

theorem stepped_advance (h : p.advance stripHint t = .ok q) : Stepped p.mode.depth t q := by
  obtain ⟨nodes, notes, m⟩ := p
  obtain ⟨kind, lexeme, line⟩ := t
  unfold advance at h
  dsimp only at h
  split at h
  case h_6 | h_12 | h_13 => exact stepped_startValue h
  case h_7 => exact stepped_fileValue rfl h
  case h_9 | h_10 | h_15 | h_16 =>
    cases h
    exact stepped_fill rfl
  case h_21 => cases h
  all_goals
    cases h
    exact ⟨rfl, by simp [inMode, emit, Mode.Tells]⟩

/-- **A token makes a parser deeper, or less deep, by what it opens or closes.** -/
theorem stepped_step (h : p.step stripHint t = .take (.ok q)) : Stepped p.mode.depth t q := by
  unfold step at h
  cases hmode : p.mode with
  | statement =>
    rw [hmode] at h
    exact stepped_startStatement h
  | rightSide key line equalsLine =>
    rw [hmode] at h
    exact stepped_startRightSide h
  | _ =>
    simp only [hmode] at h
    injection h with h
    have := stepped_advance h
    rwa [hmode] at this

/-- **A parser is as deep as there are more arrays and objects opened than closed** among the tokens
that it has gone past. -/
theorem depth_of_past {ts : List Token} (h : p.past stripHint ts = .ok q) :
    q.mode.depth + ts.countP Token.closes = p.mode.depth + ts.countP Token.opens := by
  induction ts generalizing p with
  | nil =>
    cases h
    rfl
  | cons t ts ih =>
    rw [past] at h
    split at h
    · cases h
    · cases h
    · next r hr =>
      have hstep := (stepped_step hr).depth_eq
      have hrest := ih h
      rw [List.countP_cons, List.countP_cons]
      omega

/-- The last of the tokens that a parser has gone past is one that it took. -/
theorem exists_step_of_past {ts : List Token} (h : p.past stripHint (ts ++ [t]) = .ok q) :
    ∃ r : Parser, r.step stripHint t = .take (.ok q) := by
  rw [past_append] at h
  cases hr : p.past stripHint ts with
  | error e =>
    rw [hr] at h
    cases h
  | ok r =>
    rw [hr] at h
    replace h : r.past stripHint [t] = .ok q := h
    rw [past] at h
    split at h
    · cases h
    · cases h
    · next r' hr' =>
      cases h
      exact ⟨r, hr'⟩

/-! ## A comment inside an array or an object -/

/-- A colon is only taken behind the key of an entry. -/
theorem exists_entry_of_colon (ht : t.kind = .colon) (h : p.step stripHint t = .take (.ok q)) :
    ∃ line before key keyLine hole, p.mode = .entry line before key keyLine hole := by
  obtain ⟨nodes, notes, m⟩ := p
  obtain ⟨kind, lexeme, line⟩ := t
  cases ht
  cases m with
  | entry line before key keyLine hole => exact ⟨line, before, key, keyLine, hole, rfl⟩
  | array place => cases place <;> cases h
  | object place => cases place <;> cases h
  | rightSide key line equalsLine =>
    simp only [step, startRightSide] at h
    split at h <;> cases h
  | _ => cases h

/-- The token that a parser goes on with, where it is not finished. -/
theorem exists_step_of_run {ts : List Token} {line : Nat} {d : Document}
    (hp : ∀ line d, p.finish line ≠ .ok d) (h : p.run stripHint line (ts.map .ok) = .ok d) :
    ∃ t us q, ts = t :: us ∧ p.step stripHint t = .take (.ok q) := by
  cases ts with
  | nil => exact absurd h (hp _ _)
  | cons t us =>
    rw [List.map_cons, run] at h
    split at h
    · exact absurd h (hp _ _)
    · split at h
      · cases h
      · cases h
      · next q hq => exact ⟨t, us, q, rfl, hq⟩

/-- The line of the token before is only there for errors. -/
theorem run_line {items : List Item} {line : Nat} {d : Document}
    (h : p.run stripHint line items = .ok d) (line' : Nat) :
    p.run stripHint line' items = .ok d := by
  cases items with
  | nil => exact (finish_eq_ok_iff line line').mp h
  | cons item items => cases item <;> exact h

/-- Inside an array or an object, a parser that goes on to a document does so over a comment as
well, unless it waits for the value of an entry or for the colon in front of it. -/
theorem run_comment {ts : List Token} {line : Nat} {d : Document} {text : String}
    (hdepth : 0 < p.mode.depth) (hpath : ∀ d line hole, p.mode ≠ .valueFile d line hole)
    (hc : t.kind = .comment text) (h : p.run stripHint line (ts.map .ok) = .ok d) :
    (p.run stripHint line ((t :: ts).map .ok) = .ok d ∧
      (∀ hole, p.mode ≠ .value hole) ∧ ∀ u ∈ ts.head?, u.kind ≠ .colon) ∨
    ∃ expected : Expected, (expected = .value ∨ ∃ key, expected = .colon key) ∧
      p.run stripHint line ((t :: ts).map .ok) = .error (expected.instead t) ∧
      ((∃ hole, p.mode = .value hole) ∨ ∃ u ∈ ts.head?, u.kind = .colon) := by
  obtain ⟨nodes, notes, m⟩ := p
  obtain ⟨kind, lexeme, cline⟩ := t
  cases hc
  have hnoColon (hm : ∀ line before key keyLine hole, m ≠ .entry line before key keyLine hole)
      (hfinish : ∀ line d, finish ⟨nodes, notes, m⟩ line ≠ .ok d) :
      ∀ u ∈ ts.head?, u.kind ≠ .colon := by
    obtain ⟨u, us, q, rfl, hq⟩ := exists_step_of_run hfinish h
    rintro u ⟨⟩ hu
    obtain ⟨line, before, key, keyLine, hole, hentry⟩ := exists_entry_of_colon hu hq
    exact hm line before key keyLine hole hentry
  cases m with
  | statement | key | rightSide | body | file => exact absurd hdepth (Nat.lt_irrefl 0)
  | valueFile d line hole => exact absurd rfl (hpath d line hole)
  | array place | object place =>
    refine .inl ⟨run_line h cline, fun hole => by simp, hnoColon (by simp) fun _ _ hd => ?_⟩
    cases hd
  | value hole =>
    refine .inr ⟨.value, .inl rfl, ?_, .inl ⟨hole, rfl⟩⟩
    exact congrArg Except.error (firstError_ok _ ts)
  | entry line before key keyLine hole =>
    refine .inr ⟨.colon key, .inr ⟨key, rfl⟩, congrArg Except.error (firstError_ok _ ts), .inr ?_⟩
    obtain ⟨u, us, q, rfl, hq⟩ := exists_step_of_run (fun _ _ hd => by cases hd) h
    exact ⟨u, rfl, (Grammar.kind_of_step_colon (p := ⟨nodes, notes, .statement⟩) hq).1⟩

end Parser

namespace Document

open Token (InsideLiteral BehindDirective BesideColon)

variable {stripHint : Bool} {before after : List Token} {d : Document} {c : Token} {text : String}

/-- The parser at a place inside an array or an object of a document: it is inside one as well, and
its mode tells what the last token in front of the place was. -/
theorem exists_past_of_inside (h : ofTokens stripHint (before ++ after) = .ok d)
    (hinside : InsideLiteral before) :
    ∃ p : Parser, Parser.start.past stripHint before = .ok p ∧
      p.run stripHint (Token.lastLine 1 before) (after.map .ok) = .ok d ∧ 0 < p.mode.depth ∧
      ∃ t ∈ before.getLast?, p.mode.Tells t.kind := by
  have hopen := hinside.isOpen
  rw [ofTokens_append hinside.reached] at h
  cases hpast : Parser.start.past stripHint before with
  | error e =>
    rw [hpast] at h
    cases h
  | ok p =>
    rw [hpast] at h
    have hdepth := Parser.depth_of_past hpast
    have hstart : Parser.start.mode.depth = 0 := rfl
    obtain ⟨front, t, rfl⟩ : ∃ front t, before = front ++ [t] := by
      rcases List.eq_nil_or_concat before with rfl | ⟨front, t, rfl⟩
      · exact absurd hopen (Nat.lt_irrefl 0)
      · exact ⟨front, t, List.concat_eq_append⟩
    obtain ⟨r, hr⟩ := Parser.exists_step_of_past hpast
    exact ⟨p, rfl, h, by omega, t, by simp, (Parser.stepped_step hr).tells⟩

/-- **A comment inside an array or an object is invisible, unless it is beside a colon.** Put
anywhere into one of a document, but not between a directive and its path, it leaves the document
as it is. Between the key of an entry and the colon, or between the colon and the value, the
document is refused, since the comment is none of these. -/
theorem ofTokens_comment_inside (h : ofTokens stripHint (before ++ after) = .ok d)
    (hinside : InsideLiteral before) (hpath : ¬ BehindDirective before)
    (hc : c.kind = .comment text) :
    (ofTokens stripHint (before ++ c :: after) = .ok d ↔ ¬ BesideColon before after) ∧
    (BesideColon before after → ∃ expected : Expected,
      (expected = .value ∨ ∃ key, expected = .colon key) ∧
        ofTokens stripHint (before ++ c :: after) = .error (expected.instead c)) := by
  obtain ⟨p, hpast, hrun, hdepth, t, ht, htells⟩ := exists_past_of_inside h hinside
  have hcolon : (∃ hole, p.mode = .value hole) ↔ ∃ t ∈ before.getLast?, t.kind = .colon := by
    constructor
    · rintro ⟨hole, hmode⟩
      rw [hmode] at htells
      exact ⟨t, ht, htells⟩
    · rintro ⟨u, hu, hkind⟩
      cases Option.mem_unique ht hu
      cases hmode : p.mode with
      | value hole => exact ⟨hole, rfl⟩
      | valueFile d line hole =>
        rw [hmode, hkind] at htells
        cases htells
      | _ =>
        rw [hmode] at htells
        exact absurd hkind htells
  have hfile : ∀ d line hole, p.mode ≠ .valueFile d line hole := by
    intro d line hole hmode
    rw [hmode] at htells
    exact hpath ⟨t, ht, d, htells⟩
  have hmore : ofTokens stripHint (before ++ c :: after) =
      p.run stripHint (Token.lastLine 1 before) ((c :: after).map .ok) := by
    rw [ofTokens_append hinside.reached, hpast]
    rfl
  rw [hmore, BesideColon, ← hcolon]
  rcases Parser.run_comment hdepth hfile hc hrun with
    ⟨hok, hvalue, hnext⟩ | ⟨expected, hexpected, herror, hbeside⟩
  · have hnot : ¬ ((∃ hole, p.mode = .value hole) ∨ ∃ u ∈ after.head?, u.kind = .colon) := by
      rintro (⟨hole, hmode⟩ | ⟨u, hu, hkind⟩)
      · exact hvalue hole hmode
      · exact hnext u hu hkind
    exact ⟨iff_of_true hok hnot, fun hbeside => absurd hbeside hnot⟩
  · rw [herror]
    exact ⟨iff_of_false (by simp) (not_not_intro hbeside), fun _ => ⟨expected, hexpected, rfl⟩⟩

/-- An object with an array in it, whose last item is a directive. -/
def literalTokens : List Token :=
  [⟨.name "x", "x", 1⟩, ⟨.equals, "=", 1⟩, ⟨.leftBrace, "\x7b", 1⟩, ⟨.name "k", "k", 1⟩,
    ⟨.colon, ":", 1⟩, ⟨.leftBracket, "[", 1⟩, ⟨.boolean true, "true", 2⟩, ⟨.comma, ",", 2⟩,
    ⟨.directive .url, "@copyurl", 3⟩, ⟨.path "a", "a", 3⟩, ⟨.rightBracket, "]", 3⟩,
    ⟨.rightBrace, "\x7d", 4⟩]

def remarkToken : Token := ⟨.comment "# c", "# c", 1⟩

/-- A comment is invisible behind the comma, and refused in front of the colon. -/
theorem ofTokens_comment_inside_nested :
    ∃ d, ofTokens true literalTokens = .ok d ∧
      ofTokens true (literalTokens.take 8 ++ remarkToken :: literalTokens.drop 8) = .ok d ∧
      ∃ expected : Expected,
        ofTokens true (literalTokens.take 4 ++ remarkToken :: literalTokens.drop 4) =
          .error (expected.instead remarkToken) := by
  obtain ⟨d, hd⟩ : ∃ d, ofTokens true literalTokens = .ok d := ⟨_, rfl⟩
  refine ⟨d, hd, ?_, ?_⟩
  · have hd : ofTokens true (literalTokens.take 8 ++ literalTokens.drop 8) = .ok d := hd
    have hinside : InsideLiteral (literalTokens.take 8) := ⟨by decide, by decide⟩
    have hpath : ¬ BehindDirective (literalTokens.take 8) := by rintro ⟨t, ⟨⟩, d, ⟨⟩⟩
    refine (ofTokens_comment_inside hd hinside hpath (c := remarkToken) rfl).1.mpr ?_
    rintro (⟨t, ⟨⟩, ⟨⟩⟩ | ⟨t, ⟨⟩, ⟨⟩⟩)
  · have hd : ofTokens true (literalTokens.take 4 ++ literalTokens.drop 4) = .ok d := hd
    have hinside : InsideLiteral (literalTokens.take 4) := ⟨by decide, by decide⟩
    have hpath : ¬ BehindDirective (literalTokens.take 4) := by rintro ⟨t, ⟨⟩, d, ⟨⟩⟩
    have hcolon : ⟨.colon, ":", 1⟩ ∈ (literalTokens.drop 4).head? := rfl
    obtain ⟨expected, -, herror⟩ := (ofTokens_comment_inside hd hinside hpath
      (c := remarkToken) rfl).2 (.inr ⟨_, hcolon, rfl⟩)
    exact ⟨expected, herror⟩

/-- **A comment between the colon and the value of an entry is not invisible**: the document is
refused. -/
theorem not_ofTokens_comment_behind_colon :
    ¬ ∀ (before after : List Token) (d : Document) (c : Token) (text : String),
      ofTokens true (before ++ after) = .ok d → InsideLiteral before → ¬ BehindDirective before →
        c.kind = .comment text → ofTokens true (before ++ c :: after) = .ok d := by
  intro hall
  obtain ⟨d, hd⟩ : ∃ d, ofTokens true literalTokens = .ok d := ⟨_, rfl⟩
  have hrefused : ofTokens true (literalTokens.take 5 ++ remarkToken :: literalTokens.drop 5) =
      .error (Expected.value.instead remarkToken) := rfl
  have hok := hall (literalTokens.take 5) (literalTokens.drop 5) d remarkToken "# c" hd
    ⟨by decide, by decide⟩ (by rintro ⟨t, ⟨⟩, d, ⟨⟩⟩) rfl
  cases hrefused.symm.trans hok

end Document

end Courseware
