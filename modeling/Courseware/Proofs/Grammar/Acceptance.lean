/-
The parser makes of the tokens of a derivation the document it denotes.

The parser judges one token at a time, and `document?` is what it makes of the
tokens that follow. For each kind of tree there is one lemma: it moves the
parser over the tokens of the tree, whatever follows them, to the state in
which what the tree denotes fills the hole that it was read for. They are
proved together by induction on the trees.
-/
import Courseware.Proofs.Grammar.Derivation

namespace Courseware

namespace Parser

/-- The document that tokens make from here on, if they make one: what `run` does, without the
errors. -/
def document? (stripHint : Bool) : Parser → List Token → Option Document
  | p, [] => (p.finish 0).toOption
  | p, t :: ts =>
    match p.step stripHint t with
    | .take (.ok p) => document? stripHint p ts
    | _ => none

variable {stripHint : Bool}

theorem document?_cons {p q : Parser} {t : Token} (ts : List Token)
    (h : p.step stripHint t = .take (.ok q)) :
    p.document? stripHint (t :: ts) = q.document? stripHint ts := by
  simp only [document?, h]

theorem finish_eq_ok_iff {p : Parser} {d : Document} (line line' : Nat) :
    p.finish line = .ok d ↔ p.finish line' = .ok d := by
  unfold finish
  split <;> simp

/-- **Up to the end of a document, `run` makes what `document?` makes.** -/
theorem run_eq_ok_iff {ts : List Token} {finish : Token} (hf : finish.kind = .finish)
    (hts : ∀ t ∈ ts, t.kind ≠ .finish) (p : Parser) (line : Nat) (more : List Item)
    (d : Document) :
    p.run stripHint line (ts.map .ok ++ .ok finish :: more) = .ok d ↔
      p.document? stripHint ts = some d := by
  induction ts generalizing p line with
  | nil =>
    simp only [List.map_nil, List.nil_append, run, hf, if_true, document?]
    rw [finish_eq_ok_iff _ 0]
    cases p.finish 0 <;> simp [Except.toOption]
  | cons t ts ih =>
    have ht : t.kind ≠ .finish := hts t (by simp)
    simp only [List.map_cons, List.cons_append, run, if_neg ht, document?]
    match p.step stripHint t with
    | .refuse e => simp
    | .take (.error e) => simp
    | .take (.ok q) => exact ih (fun t h => hts t (by simp [h])) q t.line

/-- Tokens that leave a parser as it is can be skipped. -/
theorem document?_skip {p : Parser} {skipped : List Token}
    (h : ∀ t ∈ skipped, p.step stripHint t = .take (.ok p)) (ts : List Token) :
    p.document? stripHint (skipped ++ ts) = p.document? stripHint ts := by
  induction skipped with
  | nil => rfl
  | cons t skipped ih =>
    rw [List.cons_append, document?_cons _ (h t (by simp))]
    exact ih fun t ht => h t (by simp [ht])

theorem document?_remarks_array (p : Parser) (place : Place) (line : Nat) (before : List Value)
    (hole : Hole) (remarks : List Grammar.Remark) (ts : List Token) :
    (p.inMode (.array place line before hole)).document? stripHint
        (remarks.map Grammar.Remark.token ++ ts) =
      (p.inMode (.array place line before hole)).document? stripHint ts := by
  refine document?_skip (fun t ht => ?_) ts
  obtain ⟨r, -, rfl⟩ := List.mem_map.mp ht
  rfl

theorem document?_remarks_object (p : Parser) (place : Place) (line : Nat) (before : Dict Value)
    (hole : Hole) (remarks : List Grammar.Remark) (ts : List Token) :
    (p.inMode (.object place line before hole)).document? stripHint
        (remarks.map Grammar.Remark.token ++ ts) =
      (p.inMode (.object place line before hole)).document? stripHint ts := by
  refine document?_skip (fun t ht => ?_) ts
  obtain ⟨r, -, rfl⟩ := List.mem_map.mp ht
  rfl

/-- The parser with more notes. -/
def withNotes (p : Parser) (notes : List Note) : Parser := { p with notes := p.notes ++ notes }

@[simp] theorem withNotes_nil (p : Parser) : p.withNotes [] = p := by simp [withNotes]

@[simp] theorem withNotes_withNotes (p : Parser) (ns ms : List Note) :
    (p.withNotes ns).withNotes ms = p.withNotes (ns ++ ms) := by simp [withNotes]

/-- Whether a token is read as the start of a value that fills a hole. -/
def Awaits (stripHint : Bool) (p : Parser) (hole : Hole) (t : Token) : Prop :=
  p.step stripHint t = .take (p.startValue hole t)

/-- An item or an entry ends its place. -/
theorem step_comma_array (p : Parser) (line : Nat) (before : List Value) (hole : Hole)
    (comma : Grammar.Mark) :
    (p.inMode (.array .read line before hole)).step stripHint (comma.token .comma) =
      .take (.ok (p.inMode (.array .due line before hole))) := rfl

theorem step_comma_object (p : Parser) (line : Nat) (before : Dict Value) (hole : Hole)
    (comma : Grammar.Mark) :
    (p.inMode (.object .read line before hole)).step stripHint (comma.token .comma) =
      .take (.ok (p.inMode (.object .due line before hole))) := rfl

theorem step_rightBracket {place : Place} (hplace : place ≠ .due) (p : Parser) (line : Nat)
    (before : List Value) (hole : Hole) (closing : Grammar.Mark) :
    (p.inMode (.array place line before hole)).step stripHint (closing.token .rightBracket) =
      .take (.ok (p.fill (.array line before.reverse) hole)) := by
  cases place with
  | due => exact absurd rfl hplace
  | opened | read => cases hole <;> rfl

theorem step_rightBrace {place : Place} (hplace : place ≠ .due) (p : Parser) (line : Nat)
    (before : Dict Value) (hole : Hole) (closing : Grammar.Mark) :
    (p.inMode (.object place line before hole)).step stripHint (closing.token .rightBrace) =
      .take (.ok (p.fill (.object line before) hole)) := by
  cases place with
  | due => exact absurd rfl hplace
  | opened | read => cases hole <;> rfl

/-- The key of an entry and the colon after it. -/
theorem document?_key {place : Place} (hplace : place ≠ .read) (p : Parser) (line : Nat)
    (before : Dict Value) (hole : Hole) (key : String) (keyMark colon : Grammar.Mark)
    (ts : List Token) :
    (p.inMode (.object place line before hole)).document? stripHint
        (keyMark.token (.name key) :: colon.token .colon :: ts) =
      (p.inMode (.value (.entry line before key keyMark.line hole))).document? stripHint ts := by
  cases place with
  | read => exact absurd rfl hplace
  | opened | due => rfl

theorem awaits_value (p : Parser) (hole : Hole) (t : Token) :
    (p.inMode (.value hole)).Awaits stripHint hole t := rfl

theorem awaits_item {place : Place} (hplace : place ≠ .read) (p : Parser) (line : Nat)
    (before : List Value) (hole : Hole) {t : Token} (hc : ∀ text, t.kind ≠ .comment text)
    (hb : t.kind ≠ .rightBracket) :
    (p.inMode (.array place line before hole)).Awaits stripHint (.item line before hole) t := by
  unfold Awaits
  obtain ⟨kind, lexeme, tline⟩ := t
  cases place with
  | read => exact absurd rfl hplace
  | opened => cases kind <;> first | rfl | exact absurd rfl hb | exact absurd rfl (hc _)
  | due => cases kind <;> first | rfl | exact absurd rfl hb | exact absurd rfl (hc _)

/-- What `fill` does to the key of an entry in the notes. -/
theorem fill_entry (p : Parser) (v : Value) (line : Nat) (before : Dict Value) (key : String)
    (keyLine : Nat) (around : Hole) :
    p.fill v (.entry line before key keyLine around) =
      (p.withNotes (if Dict.hasKey before key then [repeatedKey key keyLine] else [])).inMode
        (.object .read line (Dict.insert before key v) around) := by
  by_cases h : Dict.hasKey before key = true <;> simp [fill, withNotes, inMode, h]

end Parser

namespace Grammar

open Courseware.Parser

variable {stripHint : Bool}

/-- A value starts with a token that is neither a comment nor a closing bracket. -/
theorem ValueTree.tokens_eq_cons (v : ValueTree) :
    ∃ t ts, v.tokens = t :: ts ∧ (∀ text, t.kind ≠ .comment text) ∧ t.kind ≠ .rightBracket := by
  cases v with
  | literal m l => cases l <;> exact ⟨_, _, rfl, by simp [Mark.token, Literal.kind]⟩
  | file | emptyArray | array | emptyObject | object =>
    exact ⟨_, _, rfl, by simp [Mark.token]⟩

theorem ValueTree.awaits_item (v : ValueTree) {place : Place} (hplace : place ≠ .read) (p : Parser)
    (line : Nat) (before : List Value) (hole : Hole) :
    ∀ t ∈ v.tokens.head?,
      (p.inMode (.array place line before hole)).Awaits stripHint (.item line before hole) t := by
  obtain ⟨t, ts, hv, hc, hb⟩ := v.tokens_eq_cons
  rw [hv]
  rintro t ⟨⟩
  exact Parser.awaits_item hplace p line before hole hc hb

mutual

/-- The tokens of a value fill the hole that it is awaited for. -/
theorem document?_value : ∀ (v : ValueTree) (p : Parser) (hole : Hole) (ts : List Token),
    (∀ t ∈ v.tokens.head?, p.Awaits stripHint hole t) →
    p.document? stripHint (v.tokens ++ ts) =
      ((p.withNotes v.notes).fill v.value hole).document? stripHint ts
  | .literal m l, p, hole, ts, h => by
    have h : p.Awaits stripHint hole (m.token l.kind) := h _ rfl
    simp only [ValueTree.notes, withNotes_nil]
    refine document?_cons ts (h.trans ?_)
    cases l <;> rfl
  | .file m f pm path, p, hole, ts, h => by
    have h : p.Awaits stripHint hole (m.token (.directive f.directive)) := h _ rfl
    have hpath : (p.inMode (.valueFile f.directive m.line hole)).step stripHint
        (pm.token (.path path)) = .take (.ok (p.fill (.atom m.line (f.atom path)) hole)) := by
      cases f <;> cases hole <;> rfl
    simp only [ValueTree.notes, withNotes_nil]
    exact (document?_cons _ h).trans (document?_cons ts hpath)
  | .emptyArray o remarks c, p, hole, ts, h => by
    have h : p.Awaits stripHint hole (o.token .leftBracket) := h _ rfl
    simp only [ValueTree.tokens, ValueTree.notes, withNotes_nil, List.cons_append,
      List.append_assoc]
    rw [document?_cons _ h, document?_remarks_array]
    exact document?_cons ts (step_rightBracket (by simp) p o.line [] hole c)
  | .array o items c, p, hole, ts, h => by
    have h : p.Awaits stripHint hole (o.token .leftBracket) := h _ rfl
    simp only [ValueTree.tokens, ValueTree.notes, List.cons_append, List.append_assoc]
    rw [document?_cons _ h]
    exact document?_items items p .opened o.line [] hole c ts (by simp)
  | .emptyObject o remarks c, p, hole, ts, h => by
    have h : p.Awaits stripHint hole (o.token .leftBrace) := h _ rfl
    simp only [ValueTree.tokens, ValueTree.notes, withNotes_nil, List.cons_append,
      List.append_assoc]
    rw [document?_cons _ h, document?_remarks_object]
    exact document?_cons ts (step_rightBrace (by simp) p o.line [] hole c)
  | .object o entries c, p, hole, ts, h => by
    have h : p.Awaits stripHint hole (o.token .leftBrace) := h _ rfl
    simp only [ValueTree.tokens, ValueTree.notes, List.cons_append, List.append_assoc]
    rw [document?_cons _ h]
    exact document?_entries entries p .opened o.line [] [] hole c ts (by simp)
      (by simp [Dict.hasKey, Dict.get?])

/-- The tokens of items and of the bracket behind them complete an array. -/
theorem document?_items : ∀ (items : ItemsTree) (p : Parser) (place : Place) (line : Nat)
    (before : List Value) (hole : Hole) (closing : Mark) (ts : List Token), place ≠ .read →
    (p.inMode (.array place line before hole)).document? stripHint
        (items.tokens ++ closing.token .rightBracket :: ts) =
      ((p.withNotes items.notes).fill (.array line (before.reverse ++ items.values)) hole).document?
        stripHint ts
  | .last remarks v after, p, place, line, before, hole, closing, ts, hplace => by
    simp only [ItemsTree.tokens, ItemsTree.notes, ItemsTree.values, List.append_assoc]
    rw [document?_remarks_array,
      document?_value v _ _ _ (v.awaits_item hplace p line before hole)]
    change ((p.withNotes v.notes).inMode (.array .read line (v.value :: before) hole)).document?
      stripHint _ = _
    rw [document?_remarks_array, document?_cons ts (step_rightBracket (by simp) _ _ _ _ _),
      List.reverse_cons]
  | .more remarks v after comma rest, p, place, line, before, hole, closing, ts, hplace => by
    simp only [ItemsTree.tokens, ItemsTree.notes, ItemsTree.values, List.append_assoc,
      List.cons_append]
    rw [document?_remarks_array,
      document?_value v _ _ _ (v.awaits_item hplace p line before hole)]
    change ((p.withNotes v.notes).inMode (.array .read line (v.value :: before) hole)).document?
      stripHint _ = _
    rw [document?_remarks_array, document?_cons _ (step_comma_array _ _ _ _ _),
      document?_items rest _ .due line (v.value :: before) hole closing ts (by simp),
      withNotes_withNotes, List.reverse_cons, List.append_assoc]
    rfl

/-- The tokens of entries and of the brace behind them complete an object. -/
theorem document?_entries : ∀ (entries : EntriesTree) (p : Parser) (place : Place) (line : Nat)
    (before : Dict Value) (seen : List String) (hole : Hole) (closing : Mark) (ts : List Token),
    place ≠ .read → (∀ k, Dict.hasKey before k = true ↔ k ∈ seen) →
    (p.inMode (.object place line before hole)).document? stripHint
        (entries.tokens ++ closing.token .rightBrace :: ts) =
      ((p.withNotes (entries.notes seen)).fill (.object line (entries.insertInto before))
        hole).document? stripHint ts
  | .last remarks km key colon v after, p, place, line, before, seen, hole, closing, ts, hplace,
      hseen => by
    simp only [EntriesTree.tokens, EntriesTree.notes, EntriesTree.insertInto, List.append_assoc,
      List.cons_append]
    rw [document?_remarks_object, document?_key hplace,
      document?_value v _ _ _ (fun t _ => awaits_value p (.entry line before key km.line hole) t),
      fill_entry]
    change (((p.withNotes v.notes).withNotes _).inMode _).document? stripHint _ = _
    rw [document?_remarks_object, document?_cons ts (step_rightBrace (by simp) _ _ _ _ _),
      withNotes_withNotes]
    simp only [hseen]
  | .more remarks km key colon v after comma rest, p, place, line, before, seen, hole, closing,
      ts, hplace, hseen => by
    simp only [EntriesTree.tokens, EntriesTree.notes, EntriesTree.insertInto, List.append_assoc,
      List.cons_append]
    rw [document?_remarks_object, document?_key hplace,
      document?_value v _ _ _ (fun t _ => awaits_value p (.entry line before key km.line hole) t),
      fill_entry]
    change (((p.withNotes v.notes).withNotes _).inMode _).document? stripHint _ = _
    have hseen' : ∀ k, Dict.hasKey (Dict.insert before key v.value) k = true ↔ k ∈ key :: seen := by
      intro k
      rw [Dict.hasKey_insert, List.mem_cons, ← hseen]
      simp
    rw [document?_remarks_object, document?_cons _ (step_comma_object _ _ _ _ _),
      document?_entries rest _ .due line _ (key :: seen) hole closing ts (by simp) hseen',
      withNotes_withNotes, withNotes_withNotes]
    simp only [hseen]

end

/-! ## Statements -/

/-- Where nothing is read, an assignment without a value is complete once its `=` leaves it
empty. -/
theorem document?_rightSide {equalsLine : Nat} {ts : List Token} (h : LeavesEmpty equalsLine ts)
    (p : Parser) (key : String) (line : Nat) :
    (p.inMode (.rightSide key line equalsLine)).document? stripHint ts =
      (p.emitEmpty key line).document? stripHint ts := by
  cases ts with
  | nil => rfl
  | cons t ts =>
    have hstep : (p.inMode (.rightSide key line equalsLine)).step stripHint t =
        (p.emitEmpty key line).step stripHint t := by
      change Parser.startRightSide _ key line equalsLine t = Parser.startStatement _ t
      unfold startRightSide
      split
      · rfl
      · next hc =>
        rw [if_pos (h.resolve_left fun ⟨text, ht⟩ => hc text ht)]
        rfl
    simp only [Parser.document?, hstep]

theorem awaits_rightSide {equalsLine : Nat} {t : Token} {ts : List Token}
    (h : ¬ LeavesEmpty equalsLine (t :: ts)) (p : Parser) (key : String) (line : Nat) :
    (p.inMode (.rightSide key line equalsLine)).Awaits stripHint (.assigned key line) t := by
  simp only [LeavesEmpty, not_or, not_exists] at h
  change Parser.startRightSide _ key line equalsLine t = _
  unfold startRightSide
  split
  · next text hc => exact absurd hc (h.1 text)
  · rw [if_neg h.2]

/-- The lines of a value over several lines, of which `text` was read. -/
theorem document?_lines (lines : List BodyLine) (p : Parser) (key : String) (line : Nat)
    (text : String) (closing : Mark) (ts : List Token) :
    (p.inMode (.body key line text false)).document? stripHint
        (lines.map BodyLine.token ++ closing.token .closing :: ts) =
      (p.emit (.assignment key (.atom line (.string
        (lines.foldl (fun text l => text ++ l.text) text)))) line).document? stripHint ts := by
  induction lines generalizing text with
  | nil => rfl
  | cons l lines ih =>
    simp only [List.map_cons, List.cons_append, List.foldl_cons]
    rw [document?_cons (q := p.inMode (.body key line (text ++ l.text) false)) _ rfl]
    exact ih _

theorem document?_body (lines : List BodyLine) (p : Parser) (key : String) (line : Nat)
    (closing : Mark) (ts : List Token) :
    (p.inMode (.body key line "" true)).document? stripHint
        (lines.map BodyLine.token ++ closing.token .closing :: ts) =
      (p.emit (.assignment key (.atom line (.string
        (joinLines (keptLines stripHint lines))))) line).document? stripHint ts := by
  cases lines with
  | nil => rfl
  | cons l lines =>
    have hstep : (p.inMode (.body key line "" true)).step stripHint l.token = .take (.ok
        (p.inMode (.body key line (if stripHint && isHint l.text then "" else "" ++ l.text)
          false))) := rfl
    simp only [List.map_cons, List.cons_append]
    rw [document?_cons _ hstep, document?_lines]
    by_cases h : (stripHint && isHint l.text) = true <;> simp [keptLines, joinLines, h]

/-- A whole statement, and what may follow it. -/
theorem document?_statement (s : StatementTree) (p : Parser) (ts : List Token) (hs : s.Fits ts)
    (hp : p.mode = .statement) :
    p.document? stripHint (s.tokens ++ ts) =
      ((p.withNotes s.notes).emit (s.statement stripHint) s.line).document? stripHint ts := by
  obtain ⟨nodes, notes, mode⟩ := p
  obtain rfl : mode = .statement := hp
  cases s with
  | comment remark => simp only [StatementTree.notes, withNotes_nil]; rfl
  | inclusion m pm path => simp only [StatementTree.notes, withNotes_nil]; rfl
  | extension m pm path => simp only [StatementTree.notes, withNotes_nil]; rfl
  | empty m key equals =>
    simp only [StatementTree.notes, withNotes_nil]
    exact document?_rightSide hs _ key m.line
  | assigned m key equals v =>
    obtain ⟨t, us, hv, -, -⟩ := v.tokens_eq_cons
    have hawaits : ∀ t ∈ v.tokens.head?, (Parser.inMode ⟨nodes, notes, .statement⟩
        (.rightSide key m.line equals.line)).Awaits stripHint (.assigned key m.line) t := by
      simp only [StatementTree.Fits, hv] at hs
      rw [hv]
      rintro t ⟨⟩
      exact awaits_rightSide hs _ key m.line
    exact document?_value v _ _ ts hawaits
  | body m key o lines c =>
    simp only [StatementTree.notes, withNotes_nil, StatementTree.tokens, List.cons_append,
      List.append_assoc, List.nil_append]
    exact document?_body lines ⟨nodes, notes, .statement⟩ key m.line c ts

/-- **Completeness**: what a derivation denotes is what the parser makes of its tokens. -/
theorem document?_tokens {g : List StatementTree} (hg : Admissible g) (p : Parser)
    (hp : p.mode = .statement) :
    p.document? stripHint (tokens g) =
      some ⟨p.nodes ++ (document stripHint g).nodes, p.notes ++ (document stripHint g).notes⟩ := by
  induction g generalizing p with
  | nil =>
    obtain ⟨nodes, notes, mode⟩ := p
    obtain rfl : mode = .statement := hp
    simp [tokens, Parser.document?, Parser.finish, document, Except.toOption]
  | cons s g ih =>
    rw [tokens, document?_statement s p _ hg.1 hp, ih hg.2 _ rfl]
    simp [document, Parser.emit, Parser.withNotes, StatementTree.node]

end Grammar

end Courseware
