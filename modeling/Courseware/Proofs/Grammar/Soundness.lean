/-
Whatever the parser accepts derives from the grammar.

A parser that awaits a value and goes on to make a document has the tokens of
a value in front of it (`ValuesDerive`), and so for the items of an
array and the entries of an object. What is left after a value is again
accepted, by the lemmas that move the parser over a tree, so the rest of a
literal is found the same way. The induction is on how many tokens there are.
-/
import Courseware.Proofs.Grammar.Acceptance

namespace Courseware.Grammar

open Courseware.Parser

variable {stripHint : Bool}

theorem Mark.exists_token (t : Token) : ∃ m : Mark, t = m.token t.kind := ⟨⟨t.lexeme, t.line⟩, rfl⟩

/-- The comments in front of some tokens. -/
theorem exists_remarks (ts : List Token) : ∃ (remarks : List Remark) (us : List Token),
    ts = remarks.map Remark.token ++ us ∧ ∀ t ∈ us.head?, ∀ text, t.kind ≠ .comment text := by
  induction ts with
  | nil => exact ⟨[], [], rfl, by simp⟩
  | cons t ts ih =>
    by_cases h : ∃ text, t.kind = .comment text
    · obtain ⟨text, ht⟩ := h
      obtain ⟨remarks, us, rfl, hus⟩ := ih
      refine ⟨⟨⟨t.lexeme, t.line⟩, text⟩ :: remarks, us, ?_, hus⟩
      simp [Remark.token, Mark.token, ← ht]
    · refine ⟨[], t :: ts, rfl, ?_⟩
      rintro t ⟨⟩ text ht
      exact h ⟨text, ht⟩

/-- What remains to be read of a document is not empty inside a literal. -/
theorem exists_cons_of_document? {p : Parser} {ts : List Token} {d : Document}
    (hp : ∀ e, p.finish 0 ≠ .ok e) (h : p.document? stripHint ts = some d) :
    ∃ t us, ts = t :: us := by
  cases ts with
  | nil =>
    simp only [Parser.document?] at h
    cases hf : p.finish 0 with
    | ok e => exact absurd hf (hp e)
    | error e => rw [hf] at h; cases h
  | cons t us => exact ⟨t, us, rfl⟩

/-- A token that is accepted is taken. -/
theorem document?_cons_eq_some {p : Parser} {t : Token} {ts : List Token} {d : Document}
    (h : p.document? stripHint (t :: ts) = some d) :
    ∃ q, p.step stripHint t = .take (.ok q) ∧ q.document? stripHint ts = some d := by
  simp only [Parser.document?] at h
  split at h
  · next q hq => exact ⟨q, hq, h⟩
  · cases h

/-- That any up to `n` tokens that are accepted where a value is awaited start with those of a
value. -/
def ValuesDerive (stripHint : Bool) (n : Nat) : Prop :=
  ∀ (t : Token) (ts : List Token) (p : Parser) (hole : Hole) (d : Document), ts.length < n →
    p.Awaits stripHint hole t → p.document? stripHint (t :: ts) = some d →
    ∃ (v : ValueTree) (rest : List Token), t :: ts = v.tokens ++ rest

/-- The tokens of a value and the comments after it, with the token that comes next. -/
theorem ValuesDerive.exists_after {n : Nat} (hn : ValuesDerive stripHint n) {t : Token}
    {ts : List Token} {p : Parser} {hole : Hole} {d : Document} (hlen : ts.length < n)
    (ha : p.Awaits stripHint hole t) (h : p.document? stripHint (t :: ts) = some d) :
    ∃ (v : ValueTree) (rest : List Token), t :: ts = v.tokens ++ rest ∧
      rest.length ≤ ts.length ∧
      ((p.withNotes v.notes).fill v.value hole).document? stripHint rest = some d := by
  obtain ⟨v, rest, hv⟩ := hn t ts p hole d hlen ha h
  have hhead : ∀ u ∈ v.tokens.head?, p.Awaits stripHint hole u := by
    obtain ⟨u, us, hu, -, -⟩ := v.tokens_eq_cons
    rw [hu] at hv ⊢
    rintro u ⟨⟩
    injection hv with htu
    exact htu ▸ ha
  refine ⟨v, rest, hv, ?_, ?_⟩
  · obtain ⟨u, us, hu, -, -⟩ := v.tokens_eq_cons
    have := congrArg List.length hv
    simp only [hu, List.length_cons, List.length_append] at this
    omega
  · rw [← document?_value v p hole rest hhead, ← hv]
    exact h

/-- The comments in front of some tokens inside an array or an object do not change what is
accepted, and something follows them. -/
theorem exists_remarks_of_document? {p : Parser} {ts : List Token} {d : Document}
    (hp : ∀ e, p.finish 0 ≠ .ok e)
    (hskip : ∀ (remarks : List Remark) (us : List Token),
      p.document? stripHint (remarks.map Remark.token ++ us) = p.document? stripHint us)
    (h : p.document? stripHint ts = some d) :
    ∃ (remarks : List Remark) (t : Token) (us : List Token),
      ts = remarks.map Remark.token ++ t :: us ∧ (∀ text, t.kind ≠ .comment text) ∧
        p.document? stripHint (t :: us) = some d := by
  obtain ⟨remarks, us, rfl, hus⟩ := exists_remarks ts
  rw [hskip] at h
  obtain ⟨t, us, rfl⟩ := exists_cons_of_document? hp h
  exact ⟨remarks, t, us, rfl, hus t rfl, h⟩

/-- After an item there is a comma or the bracket. -/
theorem kind_of_step_array {p q : Parser} {line : Nat} {before : List Value} {hole : Hole}
    {t : Token} (hc : ∀ text, t.kind ≠ .comment text)
    (h : (p.inMode (.array .read line before hole)).step stripHint t = .take (.ok q)) :
    t.kind = .comma ∨ t.kind = .rightBracket := by
  obtain ⟨kind, lexeme, tline⟩ := t
  cases kind <;> first | exact .inl rfl | exact .inr rfl | exact absurd rfl (hc _) | cases h

theorem kind_of_step_object {p q : Parser} {line : Nat} {before : Dict Value} {hole : Hole}
    {t : Token} (hc : ∀ text, t.kind ≠ .comment text)
    (h : (p.inMode (.object .read line before hole)).step stripHint t = .take (.ok q)) :
    t.kind = .comma ∨ t.kind = .rightBrace := by
  obtain ⟨kind, lexeme, tline⟩ := t
  cases kind <;> first | exact .inl rfl | exact .inr rfl | exact absurd rfl (hc _) | cases h

/-- An entry starts with its key, unless the braces are empty. -/
theorem kind_of_step_entry {p q : Parser} {place : Place} {line : Nat} {before : Dict Value}
    {hole : Hole} {t : Token} (hplace : place ≠ .read) (hc : ∀ text, t.kind ≠ .comment text)
    (h : (p.inMode (.object place line before hole)).step stripHint t = .take (.ok q)) :
    (place = .opened ∧ t.kind = .rightBrace) ∨
      ∃ key, t.kind = .name key ∧ q = p.inMode (.entry line before key t.line hole) := by
  obtain ⟨kind, lexeme, tline⟩ := t
  cases place with
  | read => exact absurd rfl hplace
  | opened =>
    cases kind <;> first | exact .inl ⟨rfl, rfl⟩ | exact absurd rfl (hc _) |
      (cases h; exact .inr ⟨_, rfl, rfl⟩) | cases h
  | due =>
    cases kind <;> first | exact absurd rfl (hc _) | (cases h; exact .inr ⟨_, rfl, rfl⟩) | cases h

theorem kind_of_step_colon {p q : Parser} {line : Nat} {before : Dict Value} {key : String}
    {keyLine : Nat} {hole : Hole} {t : Token}
    (h : (p.inMode (.entry line before key keyLine hole)).step stripHint t = .take (.ok q)) :
    t.kind = .colon ∧ q = p.inMode (.value (.entry line before key keyLine hole)) := by
  obtain ⟨kind, lexeme, tline⟩ := t
  cases kind <;> first | (cases h; exact ⟨rfl, rfl⟩) | cases h

/-- What is accepted inside an array is its closing bracket, or items and then the bracket. -/
theorem array_of_document? {n : Nat} (hn : ValuesDerive stripHint n) (ts : List Token)
    (p : Parser) (place : Place) (line : Nat) (before : List Value) (hole : Hole) (d : Document)
    (hplace : place ≠ .read) (hlen : ts.length ≤ n)
    (h : (p.inMode (.array place line before hole)).document? stripHint ts = some d) :
    (place = .opened ∧ ∃ (remarks : List Remark) (c : Mark) (rest : List Token),
      ts = remarks.map Remark.token ++ c.token .rightBracket :: rest) ∨
    ∃ (items : ItemsTree) (c : Mark) (rest : List Token),
      ts = items.tokens ++ c.token .rightBracket :: rest := by
  obtain ⟨remarks, t, us, hts, hc, h⟩ := exists_remarks_of_document?
    (fun e he => by cases he) (document?_remarks_array p place line before hole) h
  have hlen' : ts.length = remarks.length + (us.length + 1) := by simp [hts]
  -- a bracket can only stand here where there are no items yet
  by_cases hb : t.kind = .rightBracket
  · obtain ⟨m, hm⟩ := Mark.exists_token t
    rw [hb] at hm
    subst hm
    cases place with
    | read => exact absurd rfl hplace
    | opened => exact .inl ⟨rfl, remarks, m, us, hts⟩
    | due =>
      obtain ⟨q, hq, -⟩ := document?_cons_eq_some h
      cases hq
  obtain ⟨v, rest, hv, hrest, h⟩ := hn.exists_after (by omega)
    (awaits_item hplace p line before hole hc hb) h
  obtain ⟨after, t', us', rfl, hc', h⟩ := exists_remarks_of_document?
    (fun e he => by cases he)
    (document?_remarks_array (p.withNotes v.notes) .read line (v.value :: before) hole) h
  obtain ⟨q, hq, h⟩ := document?_cons_eq_some h
  obtain ⟨m, hm⟩ := Mark.exists_token t'
  simp only [List.length_append, List.length_map, List.length_cons] at hrest
  have hlt : us'.length < ts.length := by omega
  right
  rw [hts, hv]
  -- a comma is followed by what is accepted inside an array again, and there are fewer tokens
  rcases kind_of_step_array hc' hq with hk | hk
  · rw [hk] at hm
    subst hm
    cases hq
    rcases array_of_document? hn us' _ .due line _ hole d (by simp) (by omega) h with
      ⟨hd, -⟩ | ⟨items, c, rest, rfl⟩
    · cases hd
    · exact ⟨.more remarks v after m items, c, rest, by simp [ItemsTree.tokens]⟩
  · rw [hk] at hm
    subst hm
    exact ⟨.last remarks v after, m, us', by simp [ItemsTree.tokens]⟩
termination_by ts.length

/-- What is accepted inside an object is its closing brace, or entries and then the brace. -/
theorem object_of_document? {n : Nat} (hn : ValuesDerive stripHint n) (ts : List Token)
    (p : Parser) (place : Place) (line : Nat) (before : Dict Value) (hole : Hole) (d : Document)
    (hplace : place ≠ .read) (hlen : ts.length ≤ n)
    (h : (p.inMode (.object place line before hole)).document? stripHint ts = some d) :
    (place = .opened ∧ ∃ (remarks : List Remark) (c : Mark) (rest : List Token),
      ts = remarks.map Remark.token ++ c.token .rightBrace :: rest) ∨
    ∃ (entries : EntriesTree) (c : Mark) (rest : List Token),
      ts = entries.tokens ++ c.token .rightBrace :: rest := by
  obtain ⟨remarks, t, us, hts, hc, h⟩ := exists_remarks_of_document?
    (fun e he => by cases he) (document?_remarks_object p place line before hole) h
  have hlen' : ts.length = remarks.length + (us.length + 1) := by simp [hts]
  obtain ⟨q, hq, h₁⟩ := document?_cons_eq_some h
  obtain ⟨m, hm⟩ := Mark.exists_token t
  rcases kind_of_step_entry hplace hc hq with ⟨rfl, hk⟩ | ⟨key, hk, rfl⟩
  · rw [hk] at hm
    exact .inl ⟨rfl, remarks, m, us, hm ▸ hts⟩
  obtain ⟨t₂, us₂, hus⟩ := exists_cons_of_document? (fun e he => by cases he) h₁
  rw [hus] at h₁
  obtain ⟨q₂, hq₂, h₂⟩ := document?_cons_eq_some h₁
  obtain ⟨colon, hcolon⟩ := Mark.exists_token t₂
  obtain ⟨hk₂, rfl⟩ := kind_of_step_colon hq₂
  obtain ⟨t₃, us₃, hus₂⟩ := exists_cons_of_document? (fun e he => by cases he) h₂
  rw [hus₂] at h₂
  have hlen₃ : us.length = us₃.length + 2 := by simp [hus, hus₂]
  obtain ⟨v, rest, hv, hrest, h₃⟩ := hn.exists_after (by omega) (awaits_value _ _ t₃) h₂
  rw [fill_entry] at h₃
  obtain ⟨after, t', us', rfl, hc', h₄⟩ := exists_remarks_of_document?
    (fun e he => by cases he) (document?_remarks_object _ .read line _ hole) h₃
  obtain ⟨q', hq', h₅⟩ := document?_cons_eq_some h₄
  obtain ⟨m', hm'⟩ := Mark.exists_token t'
  simp only [List.length_append, List.length_map, List.length_cons] at hrest
  have hlt : us'.length < ts.length := by omega
  right
  rw [hk] at hm
  rw [hk₂] at hcolon
  rw [hts, hus, hus₂, hv, hm, hcolon]
  rcases kind_of_step_object hc' hq' with hk' | hk'
  · rw [hk'] at hm'
    subst hm'
    cases hq'
    rcases object_of_document? hn us' _ .due line _ hole d (by simp) (by omega) h₅ with
      ⟨hd, -⟩ | ⟨entries, c, rest, rfl⟩
    · cases hd
    · exact ⟨.more remarks m key colon v after m' entries, c, rest, by simp [EntriesTree.tokens]⟩
  · rw [hk'] at hm'
    subst hm'
    exact ⟨.last remarks m key colon v after, m', us', by simp [EntriesTree.tokens]⟩
termination_by ts.length

/-- A directive that makes a value is followed by its path. -/
theorem file_of_document? {p : Parser} {directive : Directive} {line : Nat} {hole : Hole}
    {ts : List Token} {d : Document}
    (h : (p.inMode (.valueFile directive line hole)).document? stripHint ts = some d) :
    ∃ (f : FileValue) (m : Mark) (path : String) (rest : List Token),
      directive = f.directive ∧ ts = m.token (.path path) :: rest := by
  obtain ⟨⟨kind, lexeme, tline⟩, us, rfl⟩ := exists_cons_of_document? (fun e he => by cases he) h
  obtain ⟨q, hq, -⟩ := document?_cons_eq_some h
  cases kind with
  | path path =>
    cases directive with
    | inclusion => cases hq
    | extension => exact ⟨.dictionary, ⟨lexeme, tline⟩, path, us, rfl, rfl⟩
    | url => exact ⟨.address, ⟨lexeme, tline⟩, path, us, rfl, rfl⟩
    | content => exact ⟨.content, ⟨lexeme, tline⟩, path, us, rfl, rfl⟩
  | _ => cases hq

/-- **Where a value is awaited, what is accepted starts with the tokens of a value.** -/
theorem valuesDerive (n : Nat) : ValuesDerive stripHint n := by
  induction n with
  | zero => exact fun t ts p hole d hlen => absurd hlen (Nat.not_lt_zero _)
  | succ n ih =>
    intro t ts p hole d hlen ha h
    obtain ⟨q, hq, h⟩ := document?_cons_eq_some h
    obtain ⟨kind, lexeme, line⟩ := t
    have hstart : p.startValue hole ⟨kind, lexeme, line⟩ = .ok q := by
      rw [ha] at hq
      injection hq
    let m : Mark := ⟨lexeme, line⟩
    cases kind with
    | number x => exact ⟨.literal m (.number x), ts, rfl⟩
    | boolean b => exact ⟨.literal m (.boolean b), ts, rfl⟩
    | string s => exact ⟨.literal m (.string s), ts, rfl⟩
    | name s => exact ⟨.literal m (.name s), ts, rfl⟩
    | selector s => exact ⟨.literal m (.selector s), ts, rfl⟩
    | directive directive =>
      cases hstart
      obtain ⟨f, pm, path, rest, rfl, rfl⟩ := file_of_document? h
      exact ⟨.file m f pm path, rest, rfl⟩
    | leftBracket =>
      cases hstart
      rcases array_of_document? ih ts p .opened line [] hole d (by simp) (by omega) h with
        ⟨-, remarks, c, rest, rfl⟩ | ⟨items, c, rest, rfl⟩
      · exact ⟨.emptyArray m remarks c, rest, by simp [ValueTree.tokens, Mark.token, m]⟩
      · exact ⟨.array m items c, rest, by simp [ValueTree.tokens, Mark.token, m]⟩
    | leftBrace =>
      cases hstart
      rcases object_of_document? ih ts p .opened line [] hole d (by simp) (by omega) h with
        ⟨-, remarks, c, rest, rfl⟩ | ⟨entries, c, rest, rfl⟩
      · exact ⟨.emptyObject m remarks c, rest, by simp [ValueTree.tokens, Mark.token, m]⟩
      · exact ⟨.object m entries c, rest, by simp [ValueTree.tokens, Mark.token, m]⟩
    | _ => cases hstart

/-! ## Statements -/

/-- After the key of an assignment there is one of the two signs. -/
theorem kind_of_step_key {p q : Parser} {key : String} {line : Nat} {t : Token}
    (h : (p.inMode (.key key line)).step stripHint t = .take (.ok q)) :
    (t.kind = .equals ∧ q = p.inMode (.rightSide key line t.line)) ∨
      (t.kind = .opening ∧ q = p.inMode (.body key line "" true)) := by
  obtain ⟨kind, lexeme, tline⟩ := t
  cases kind <;> first | (cases h; exact .inl ⟨rfl, rfl⟩) | (cases h; exact .inr ⟨rfl, rfl⟩) |
    cases h

/-- What is accepted among the lines of a value is lines and then the sign that ends them. -/
theorem lines_of_document? {ts : List Token} {p : Parser} {key : String} {line : Nat}
    {text : String} {first : Bool} {d : Document}
    (h : (p.inMode (.body key line text first)).document? stripHint ts = some d) :
    ∃ (lines : List BodyLine) (c : Mark) (rest : List Token),
      ts = lines.map BodyLine.token ++ c.token .closing :: rest := by
  induction ts generalizing text first with
  | nil => cases h
  | cons t ts ih =>
    obtain ⟨kind, lexeme, tline⟩ := t
    obtain ⟨q, hq, h⟩ := document?_cons_eq_some h
    cases kind with
    | closing => exact ⟨[], ⟨lexeme, tline⟩, ts, rfl⟩
    | body more =>
      cases hq
      obtain ⟨lines, c, rest, rfl⟩ := ih h
      exact ⟨⟨⟨lexeme, tline⟩, more⟩ :: lines, c, rest, rfl⟩
    | _ => cases hq

/-- The directive of a statement is followed by its path. -/
theorem path_of_document? {p : Parser} {directive : Directive} {line : Nat} {ts : List Token}
    {d : Document} (h : (p.inMode (.file directive line)).document? stripHint ts = some d) :
    ∃ (m : Mark) (path : String) (rest : List Token), ts = m.token (.path path) :: rest := by
  obtain ⟨⟨kind, lexeme, tline⟩, us, rfl⟩ := exists_cons_of_document? (fun e he => by cases he) h
  obtain ⟨q, hq, -⟩ := document?_cons_eq_some h
  cases kind with
  | path path => exact ⟨⟨lexeme, tline⟩, path, us, rfl⟩
  | _ => cases hq

/-- What is accepted after an `=` is left empty, or starts with the tokens of a value. -/
theorem rightSide_of_document? {p : Parser} {key : String} {line equalsLine : Nat}
    {ts : List Token} {d : Document}
    (h : (p.inMode (.rightSide key line equalsLine)).document? stripHint ts = some d) :
    LeavesEmpty equalsLine ts ∨ ∃ (v : ValueTree) (rest : List Token), ts = v.tokens ++ rest ∧
      ¬ LeavesEmpty equalsLine v.tokens ∧ rest.length ≤ ts.length := by
  by_cases hempty : LeavesEmpty equalsLine ts
  · exact .inl hempty
  cases ts with
  | nil => exact absurd trivial hempty
  | cons t ts =>
    obtain ⟨v, rest, hv, hrest, -⟩ := (valuesDerive (ts.length + 1)).exists_after
      (Nat.lt_succ_self _) (awaits_rightSide hempty p key line) h
    refine .inr ⟨v, rest, hv, ?_, Nat.le_succ_of_le hrest⟩
    -- only the first token matters, and it is the first one of the value
    obtain ⟨u, us, hu, -, -⟩ := v.tokens_eq_cons
    rw [hu] at hv ⊢
    injection hv with htu
    exact htu ▸ hempty

/-- After a key, what is accepted makes it an assignment. -/
theorem assignment_of_document? {p : Parser} {key : String} {line : Nat} {ts : List Token}
    {d : Document} (h : (p.inMode (.key key line)).document? stripHint ts = some d) (m : Mark) :
    ∃ (s : StatementTree) (rest : List Token), m.token (.name key) :: ts = s.tokens ++ rest ∧
      s.Fits rest ∧ rest.length ≤ ts.length := by
  obtain ⟨t, us, rfl⟩ := exists_cons_of_document? (fun e he => by cases he) h
  obtain ⟨q, hq, h⟩ := document?_cons_eq_some h
  obtain ⟨sign, hsign⟩ := Mark.exists_token t
  rcases kind_of_step_key hq with ⟨hk, rfl⟩ | ⟨hk, rfl⟩
  · rw [hk] at hsign
    subst hsign
    rcases rightSide_of_document? h with hempty | ⟨v, rest, rfl, hvalue, hrest⟩
    · exact ⟨.empty m key sign, us, rfl, hempty, Nat.le_succ _⟩
    · exact ⟨.assigned m key sign v, rest, rfl, hvalue, Nat.le_succ_of_le hrest⟩
  · rw [hk] at hsign
    subst hsign
    obtain ⟨lines, c, rest, rfl⟩ := lines_of_document? h
    refine ⟨.body m key sign lines c, rest, ?_, trivial, ?_⟩
    · simp [StatementTree.tokens]
    · simp only [List.length_cons, List.length_append]
      omega

/-- Where a statement may start, what is accepted starts with the tokens of a statement. -/
theorem statement_of_document? {t : Token} {ts : List Token} {p : Parser} {d : Document}
    (hp : p.mode = .statement) (h : p.document? stripHint (t :: ts) = some d) :
    ∃ (s : StatementTree) (rest : List Token), t :: ts = s.tokens ++ rest ∧ s.Fits rest ∧
      rest.length ≤ ts.length := by
  obtain ⟨nodes, notes, mode⟩ := p
  obtain rfl : mode = .statement := hp
  obtain ⟨kind, lexeme, line⟩ := t
  let m : Mark := ⟨lexeme, line⟩
  obtain ⟨q, hq, h⟩ := document?_cons_eq_some h
  cases kind with
  | comment text => exact ⟨.comment ⟨m, text⟩, ts, rfl, trivial, Nat.le_refl _⟩
  | directive directive =>
    cases directive with
    | inclusion =>
      cases hq
      obtain ⟨pm, path, rest, rfl⟩ := path_of_document? h
      exact ⟨.inclusion m pm path, rest, rfl, trivial, Nat.le_succ _⟩
    | extension =>
      cases hq
      obtain ⟨pm, path, rest, rfl⟩ := path_of_document? h
      exact ⟨.extension m pm path, rest, rfl, trivial, Nat.le_succ _⟩
    | url | content => cases hq
  | name key =>
    cases hq
    exact assignment_of_document? h m
  | _ => cases hq

/-- **Soundness**: tokens that the parser accepts have a derivation. -/
theorem exists_derivation (ts : List Token) (p : Parser) (d : Document) (hp : p.mode = .statement)
    (h : p.document? stripHint ts = some d) : ∃ g, Derives g ts := by
  match ts with
  | [] => exact ⟨[], trivial, rfl⟩
  | t :: ts =>
    obtain ⟨s, rest, hs, hfits, hlen⟩ := statement_of_document? hp h
    rw [hs, document?_statement s p rest hfits hp] at h
    obtain ⟨g, hg, rfl⟩ := exists_derivation rest _ d rfl h
    exact ⟨s :: g, ⟨hfits, hg⟩, hs.symm⟩
termination_by ts.length

end Courseware.Grammar
