/-
Parsers that pull one token at a time.

A parser holds the token that it looks at in a place that could be empty
(`Feed`), and taking a token from an empty place is an error of its own. A token
that is taken makes room for the next one, unless it is the end of the document:
that stays where it is, however often it is taken. The place is empty only behind
an error, with which the parser ends. So a parser that pulls makes the same of its
items as one that goes over them (`Document.ofFeed_eq_ofItems`).
-/
import Courseware.Document.Parser

namespace Courseware

/-- What a parser has in front of it: the token that it looks at, if there is one, and the items
behind that. -/
structure Feed where
  ahead : Option Token
  behind : List Item

namespace Feed

/-- The error of a parser that takes a token and looks at none. -/
def exhausted : Error := .syntactic 0 (.coded "Unexpected end of input" 201)

/-- The next of some items; behind the last one the document ends, on the line of the token
before. -/
def pull (line : Nat) : List Item → Item × List Item
  | [] => (.ok ⟨.finish, "", line⟩, [])
  | item :: items => (item, items)

/-- The token that is looked at, taken, and what is in front of the parser then. Where there is an
error in place of the next token, none is looked at. -/
def take (f : Feed) : Item × Feed :=
  match f.ahead with
  | none => (.error exhausted, f)
  | some t =>
    if t.kind = .finish then (.ok t, f)
    else
      match pull t.line f.behind with
      | (.error e, items) => (.error e, ⟨none, items⟩)
      | (.ok next, items) => (.ok t, ⟨some next, items⟩)

/-- How many tokens can still be taken before the end of the document. -/
def size (f : Feed) : Nat :=
  match f.ahead with
  | none => 0
  | some t => if t.kind = .finish then 0 else f.behind.length + 1

theorem size_take {f : Feed} {t : Token} (hahead : f.ahead = some t) (hkind : t.kind ≠ .finish) :
    f.take.2.size < f.size := by
  obtain ⟨ahead, behind⟩ := f
  cases hahead
  rw [show size ⟨some t, behind⟩ = behind.length + 1 from if_neg hkind]
  rcases behind with _ | ⟨e | next, items⟩
  · simp [take, hkind, pull, size]
  · simp [take, hkind, pull, size]
  · simp only [take, if_neg hkind, pull, size, List.length_cons]
    split <;> omega

end Feed

namespace Parser

variable {stripHint : Bool}

/-- The document that a parser makes of what it has in front of it. Where it looks at no token, it
ends the document if it may, and takes a token otherwise. -/
def feed (stripHint : Bool) (p : Parser) (f : Feed) : Except Error Document :=
  match _hahead : f.ahead with
  | none =>
    match p.finish 0 with
    | .ok d => .ok d
    | .error _ => .error Feed.exhausted
  | some t =>
    if _hkind : t.kind = .finish then p.finish t.line
    else
      match p.step stripHint t with
      | .refuse e => .error e
      | .take judged =>
        match f.take.1, judged with
        | .error e, _ => .error e
        | .ok _, .error e => .error e
        | .ok _, .ok q => feed stripHint q f.take.2
termination_by f.size
decreasing_by exact Feed.size_take _hahead _hkind

theorem feed_finish {p : Parser} {t : Token} {items : List Item} (hkind : t.kind = .finish) :
    p.feed stripHint ⟨some t, items⟩ = p.finish t.line := by
  rw [feed]
  exact dif_pos hkind

/-- **A parser always looks at a token.** What it makes of the items in front of it is what it makes
of them where it cannot be without one. -/
theorem feed_eq_run (p : Parser) (line : Nat) (t : Token) (items : List Item) :
    p.feed stripHint ⟨some t, items⟩ = p.run stripHint line (.ok t :: items) := by
  induction items generalizing p line t with
  | nil =>
    by_cases hkind : t.kind = .finish
    · rw [feed_finish hkind, run, if_pos hkind]
    · rw [feed, run]
      dsimp only
      rw [dif_neg hkind, if_neg hkind]
      rcases p.step stripHint t with e | ⟨e | q⟩
      · rfl
      · simp only [Feed.take, if_neg hkind, Feed.pull, firstError]
      · simp only [Feed.take, if_neg hkind, Feed.pull, run]
        exact feed_finish rfl
  | cons item items ih =>
    by_cases hkind : t.kind = .finish
    · rw [feed_finish hkind, run, if_pos hkind]
    · rw [feed, run]
      dsimp only
      rw [dif_neg hkind, if_neg hkind]
      rcases p.step stripHint t with e | judged
      · rfl
      · -- an error in place of the next token comes before what becomes of this one
        simp only [Feed.take, if_neg hkind]
        rcases item with e | u
        · rcases judged with e' | q <;> rfl
        · rcases judged with e' | q
          · rfl
          · exact ih q t.line u

end Parser

namespace Document

/-- The document that a parser makes of items which it pulls one at a time, the first one before it
starts. -/
def ofFeed (stripHint : Bool) (items : List Item) : Except Error Document :=
  match Feed.pull 1 items with
  | (.error e, _) => .error e
  | (.ok t, behind) => Parser.start.feed stripHint ⟨some t, behind⟩

theorem ofFeed_eq_ofItems (stripHint : Bool) (items : List Item) :
    ofFeed stripHint items = ofItems stripHint items := by
  rcases items with _ | ⟨e | t, items⟩
  · exact Parser.feed_finish rfl
  · rfl
  · exact Parser.feed_eq_run Parser.start 1 t items

end Document

end Courseware
