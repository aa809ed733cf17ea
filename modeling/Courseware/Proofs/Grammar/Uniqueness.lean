/-
A list of tokens has at most one derivation, and the parser accepts exactly
the lists that have one.

Two trees of a kind whose tokens are in front of the same list are equal: the
first token of each decides the production, the comments in front of something
end where it starts, and after an `=` the line and the kind of the next token
decide whether there is a value.
-/
import Courseware.Proofs.Grammar.Soundness

namespace Courseware.Grammar

@[simp] theorem Mark.token_inj {m n : Mark} {k l : TokenKind} :
    m.token k = n.token l ↔ k = l ∧ m = n := by
  obtain ⟨ml, mn⟩ := m
  obtain ⟨nl, nn⟩ := n
  simp [Mark.token]

theorem Remark.token_injective : Function.Injective Remark.token := by
  rintro ⟨m, text⟩ ⟨n, text'⟩ h
  simp only [Remark.token, Mark.token_inj, TokenKind.comment.injEq] at h
  rw [h.1, h.2]

theorem BodyLine.token_injective : Function.Injective BodyLine.token := by
  rintro ⟨m, text⟩ ⟨n, text'⟩ h
  simp only [BodyLine.token, Mark.token_inj, TokenKind.body.injEq] at h
  rw [h.1, h.2]

theorem Literal.kind_injective : Function.Injective Literal.kind := by
  rintro (_ | _ | _ | _ | _) (_ | _ | _ | _ | _) h <;> simp_all [Literal.kind]

theorem FileValue.directive_injective : Function.Injective FileValue.directive := by
  rintro (_ | _ | _) (_ | _ | _) h <;> first | rfl | cases h

/-- Tokens of one sort end at the first one of another sort. -/
theorem map_append_cons_inj {α : Type} {f : α → Token} {P : Token → Prop}
    (hf : Function.Injective f) (hP : ∀ x, P (f x)) {xs ys : List α} {t u : Token}
    {ts us : List Token} (ht : ¬ P t) (hu : ¬ P u)
    (h : xs.map f ++ t :: ts = ys.map f ++ u :: us) : xs = ys ∧ t = u ∧ ts = us := by
  induction xs generalizing ys with
  | nil =>
    cases ys with
    | nil => simpa using h
    | cons y ys =>
      simp only [List.map_nil, List.nil_append, List.map_cons, List.cons_append,
        List.cons.injEq] at h
      exact absurd (h.1 ▸ hP y) ht
  | cons x xs ih =>
    cases ys with
    | nil =>
      simp only [List.map_nil, List.nil_append, List.map_cons, List.cons_append,
        List.cons.injEq] at h
      exact absurd (h.1 ▸ hP x) hu
    | cons y ys =>
      simp only [List.map_cons, List.cons_append, List.cons.injEq] at h
      obtain ⟨rfl, rest⟩ := ih h.2
      exact ⟨by rw [hf h.1], rest⟩

/-- A comment. -/
def IsRemark (t : Token) : Prop := ∃ text, t.kind = .comment text

theorem remarks_inj {xs ys : List Remark} {t u : Token} {ts us : List Token}
    (ht : ∀ text, t.kind ≠ .comment text) (hu : ∀ text, u.kind ≠ .comment text)
    (h : xs.map Remark.token ++ t :: ts = ys.map Remark.token ++ u :: us) :
    xs = ys ∧ t = u ∧ ts = us :=
  map_append_cons_inj (P := IsRemark) Remark.token_injective (fun r => ⟨r.text, rfl⟩)
    (fun ⟨text, h⟩ => ht text h) (fun ⟨text, h⟩ => hu text h) h

/-- A line of a value. -/
def IsBodyLine (t : Token) : Prop := ∃ text, t.kind = .body text

theorem lines_inj {xs ys : List BodyLine} {t u : Token} {ts us : List Token}
    (ht : ∀ text, t.kind ≠ .body text) (hu : ∀ text, u.kind ≠ .body text)
    (h : xs.map BodyLine.token ++ t :: ts = ys.map BodyLine.token ++ u :: us) :
    xs = ys ∧ t = u ∧ ts = us :=
  map_append_cons_inj (P := IsBodyLine) BodyLine.token_injective (fun l => ⟨l.text, rfl⟩)
    (fun ⟨text, h⟩ => ht text h) (fun ⟨text, h⟩ => hu text h) h

/-- The comments in front of a value end where it starts. -/
theorem remarks_value_inj {xs ys : List Remark} (v w : ValueTree) {ts us : List Token}
    (h : xs.map Remark.token ++ (v.tokens ++ ts) = ys.map Remark.token ++ (w.tokens ++ us)) :
    xs = ys ∧ v.tokens ++ ts = w.tokens ++ us := by
  obtain ⟨t, ts', hv, ht, -⟩ := v.tokens_eq_cons
  obtain ⟨u, us', hw, hu, -⟩ := w.tokens_eq_cons
  simp only [hv, hw, List.cons_append] at h ⊢
  obtain ⟨hxs, htu, hts⟩ := remarks_inj ht hu h
  exact ⟨hxs, by rw [htu, hts]⟩

/-- The comments after a value end at the sign that comes next. -/
theorem remarks_mark_inj {xs ys : List Remark} {m n : Mark} {k l : TokenKind} {ts us : List Token}
    (hk : ∀ text, k ≠ .comment text) (hl : ∀ text, l ≠ .comment text)
    (h : xs.map Remark.token ++ m.token k :: ts = ys.map Remark.token ++ n.token l :: us) :
    xs = ys ∧ k = l ∧ m = n ∧ ts = us := by
  obtain ⟨hxs, ht, hts⟩ := remarks_inj (by simpa [Mark.token] using hk)
    (by simpa [Mark.token] using hl) h
  rw [Mark.token_inj] at ht
  exact ⟨hxs, ht.1, ht.2, hts⟩

/-- Comments and a closing bracket are no items. -/
theorem ItemsTree.tokens_ne_remarks (items : ItemsTree) (remarks : List Remark) (c : Mark)
    (ts us : List Token) :
    items.tokens ++ ts ≠ remarks.map Remark.token ++ c.token .rightBracket :: us := by
  intro h
  cases items with
  | last before v after | more before v after =>
    obtain ⟨t, ts', hv, hc, hb⟩ := v.tokens_eq_cons
    simp only [ItemsTree.tokens, hv, List.append_assoc, List.cons_append] at h
    obtain ⟨-, ht, -⟩ := remarks_inj hc (by simp [Mark.token]) h
    exact absurd (congrArg Token.kind ht) hb

/-- Comments and a closing brace are no entries. -/
theorem EntriesTree.tokens_ne_remarks (entries : EntriesTree) (remarks : List Remark) (c : Mark)
    (ts us : List Token) :
    entries.tokens ++ ts ≠ remarks.map Remark.token ++ c.token .rightBrace :: us := by
  intro h
  cases entries with
  | last before m key colon v after | more before m key colon v after =>
    simp only [EntriesTree.tokens, List.append_assoc, List.cons_append] at h
    cases (remarks_mark_inj (by simp) (by simp) h).2.1

mutual

/-- The tokens of a value in front of others determine it and them. -/
theorem ValueTree.eq_of_tokens : ∀ (v w : ValueTree) (ts us : List Token),
    v.tokens ++ ts = w.tokens ++ us → v = w ∧ ts = us
  | .literal m l, w, ts, us, h => by
    cases w with
    | literal m' l' =>
      simp only [ValueTree.tokens, List.cons_append, List.nil_append, List.cons.injEq,
        Mark.token_inj] at h
      obtain ⟨⟨hl, rfl⟩, rfl⟩ := h
      exact ⟨by rw [Literal.kind_injective hl], rfl⟩
    | _ => cases l <;> simp [ValueTree.tokens, Literal.kind] at h
  | .file m f pm path, w, ts, us, h => by
    cases w with
    | literal m' l' => cases l' <;> simp [ValueTree.tokens, Literal.kind] at h
    | file m' f' pm' path' =>
      simp only [ValueTree.tokens, List.cons_append, List.nil_append, List.cons.injEq,
        Mark.token_inj, TokenKind.directive.injEq, TokenKind.path.injEq] at h
      obtain ⟨⟨hf, rfl⟩, ⟨rfl, rfl⟩, rfl⟩ := h
      exact ⟨by rw [FileValue.directive_injective hf], rfl⟩
    | _ => simp [ValueTree.tokens] at h
  | .emptyArray o remarks c, w, ts, us, h => by
    cases w with
    | literal m' l' => cases l' <;> simp [ValueTree.tokens, Literal.kind] at h
    | emptyArray o' remarks' c' =>
      simp only [ValueTree.tokens, List.cons_append, List.append_assoc, List.nil_append,
        List.cons.injEq, Mark.token_inj, true_and] at h
      obtain ⟨rfl, h⟩ := h
      obtain ⟨rfl, -, rfl, rfl⟩ := remarks_mark_inj (by simp) (by simp) h
      exact ⟨rfl, rfl⟩
    | array o' items c' =>
      simp only [ValueTree.tokens, List.cons_append, List.append_assoc, List.nil_append,
        List.cons.injEq, Mark.token_inj, true_and] at h
      exact absurd h.2.symm (items.tokens_ne_remarks remarks c _ ts)
    | _ => simp [ValueTree.tokens] at h
  -- an array with items is told from an empty one by what follows the comments
  | .array o items c, w, ts, us, h => by
    cases w with
    | literal m' l' => cases l' <;> simp [ValueTree.tokens, Literal.kind] at h
    | emptyArray o' remarks' c' =>
      simp only [ValueTree.tokens, List.cons_append, List.append_assoc, List.nil_append,
        List.cons.injEq, Mark.token_inj, true_and] at h
      exact absurd h.2 (items.tokens_ne_remarks remarks' c' _ us)
    | array o' items' c' =>
      simp only [ValueTree.tokens, List.cons_append, List.append_assoc, List.nil_append,
        List.cons.injEq, Mark.token_inj, true_and] at h
      obtain ⟨rfl, h⟩ := h
      obtain ⟨rfl, rfl, rfl⟩ := items.eq_of_tokens items' c c' ts us h
      exact ⟨rfl, rfl⟩
    | _ => simp [ValueTree.tokens] at h
  | .emptyObject o remarks c, w, ts, us, h => by
    cases w with
    | literal m' l' => cases l' <;> simp [ValueTree.tokens, Literal.kind] at h
    | emptyObject o' remarks' c' =>
      simp only [ValueTree.tokens, List.cons_append, List.append_assoc, List.nil_append,
        List.cons.injEq, Mark.token_inj, true_and] at h
      obtain ⟨rfl, h⟩ := h
      obtain ⟨rfl, -, rfl, rfl⟩ := remarks_mark_inj (by simp) (by simp) h
      exact ⟨rfl, rfl⟩
    | object o' entries c' =>
      simp only [ValueTree.tokens, List.cons_append, List.append_assoc, List.nil_append,
        List.cons.injEq, Mark.token_inj, true_and] at h
      exact absurd h.2.symm (entries.tokens_ne_remarks remarks c _ ts)
    | _ => simp [ValueTree.tokens] at h
  | .object o entries c, w, ts, us, h => by
    cases w with
    | literal m' l' => cases l' <;> simp [ValueTree.tokens, Literal.kind] at h
    | emptyObject o' remarks' c' =>
      simp only [ValueTree.tokens, List.cons_append, List.append_assoc, List.nil_append,
        List.cons.injEq, Mark.token_inj, true_and] at h
      exact absurd h.2 (entries.tokens_ne_remarks remarks' c' _ us)
    | object o' entries' c' =>
      simp only [ValueTree.tokens, List.cons_append, List.append_assoc, List.nil_append,
        List.cons.injEq, Mark.token_inj, true_and] at h
      obtain ⟨rfl, h⟩ := h
      obtain ⟨rfl, rfl, rfl⟩ := entries.eq_of_tokens entries' c c' ts us h
      exact ⟨rfl, rfl⟩
    | _ => simp [ValueTree.tokens] at h

/-- The tokens of items in front of their closing bracket determine them. -/
theorem ItemsTree.eq_of_tokens : ∀ (items items' : ItemsTree) (c c' : Mark) (ts us : List Token),
    items.tokens ++ c.token .rightBracket :: ts = items'.tokens ++ c'.token .rightBracket :: us →
    items = items' ∧ c = c' ∧ ts = us
  | .last before v after, items', c, c', ts, us, h => by
    cases items' with
    | last before' v' after' =>
      simp only [ItemsTree.tokens, List.append_assoc] at h
      obtain ⟨rfl, h₁⟩ := remarks_value_inj v v' h
      obtain ⟨rfl, h₂⟩ := v.eq_of_tokens v' _ _ h₁
      obtain ⟨rfl, -, rfl, rfl⟩ := remarks_mark_inj (by simp) (by simp) h₂
      exact ⟨rfl, rfl, rfl⟩
    | more before' v' after' comma' rest' =>
      simp only [ItemsTree.tokens, List.append_assoc, List.cons_append] at h
      obtain ⟨-, h⟩ := v.eq_of_tokens v' _ _ (remarks_value_inj v v' h).2
      cases (remarks_mark_inj (by simp) (by simp) h).2.1
  | .more before v after comma rest, items', c, c', ts, us, h => by
    cases items' with
    | last before' v' after' =>
      simp only [ItemsTree.tokens, List.append_assoc, List.cons_append] at h
      obtain ⟨-, h⟩ := v.eq_of_tokens v' _ _ (remarks_value_inj v v' h).2
      cases (remarks_mark_inj (by simp) (by simp) h).2.1
    | more before' v' after' comma' rest' =>
      simp only [ItemsTree.tokens, List.append_assoc, List.cons_append] at h
      obtain ⟨rfl, h₁⟩ := remarks_value_inj v v' h
      obtain ⟨rfl, h₂⟩ := v.eq_of_tokens v' _ _ h₁
      obtain ⟨rfl, -, rfl, h₃⟩ := remarks_mark_inj (by simp) (by simp) h₂
      obtain ⟨rfl, hc⟩ := rest.eq_of_tokens rest' c c' ts us h₃
      exact ⟨rfl, hc⟩

/-- The tokens of entries in front of their closing brace determine them. -/
theorem EntriesTree.eq_of_tokens : ∀ (entries entries' : EntriesTree) (c c' : Mark)
    (ts us : List Token),
    entries.tokens ++ c.token .rightBrace :: ts = entries'.tokens ++ c'.token .rightBrace :: us →
    entries = entries' ∧ c = c' ∧ ts = us
  | .last before m key colon v after, entries', c, c', ts, us, h => by
    cases entries' with
    | last before' m' key' colon' v' after' =>
      simp only [EntriesTree.tokens, List.append_assoc, List.cons_append] at h
      obtain ⟨rfl, hk, rfl, h₁⟩ := remarks_mark_inj (by simp) (by simp) h
      simp only [List.cons.injEq, Mark.token_inj, true_and] at h₁
      cases hk
      obtain ⟨rfl, h₂⟩ := h₁
      obtain ⟨rfl, h₃⟩ := v.eq_of_tokens v' _ _ h₂
      obtain ⟨rfl, -, rfl, rfl⟩ := remarks_mark_inj (by simp) (by simp) h₃
      exact ⟨rfl, rfl, rfl⟩
    | more before' m' key' colon' v' after' comma' rest' =>
      simp only [EntriesTree.tokens, List.append_assoc, List.cons_append] at h
      obtain ⟨-, -, -, h₁⟩ := remarks_mark_inj (by simp) (by simp) h
      simp only [List.cons.injEq] at h₁
      obtain ⟨-, h⟩ := v.eq_of_tokens v' _ _ h₁.2
      cases (remarks_mark_inj (by simp) (by simp) h).2.1
  | .more before m key colon v after comma rest, entries', c, c', ts, us, h => by
    cases entries' with
    | last before' m' key' colon' v' after' =>
      simp only [EntriesTree.tokens, List.append_assoc, List.cons_append] at h
      obtain ⟨-, -, -, h₁⟩ := remarks_mark_inj (by simp) (by simp) h
      simp only [List.cons.injEq] at h₁
      obtain ⟨-, h⟩ := v.eq_of_tokens v' _ _ h₁.2
      cases (remarks_mark_inj (by simp) (by simp) h).2.1
    | more before' m' key' colon' v' after' comma' rest' =>
      simp only [EntriesTree.tokens, List.append_assoc, List.cons_append] at h
      obtain ⟨rfl, hk, rfl, h₁⟩ := remarks_mark_inj (by simp) (by simp) h
      simp only [List.cons.injEq, Mark.token_inj, true_and] at h₁
      cases hk
      obtain ⟨rfl, h₂⟩ := h₁
      obtain ⟨rfl, h₃⟩ := v.eq_of_tokens v' _ _ h₂
      obtain ⟨rfl, -, rfl, h₄⟩ := remarks_mark_inj (by simp) (by simp) h₃
      obtain ⟨rfl, hc⟩ := rest.eq_of_tokens rest' c c' ts us h₄
      exact ⟨rfl, hc⟩

end

/-- What leaves an `=` empty is decided by the first token of a value. -/
theorem leavesEmpty_append {line : Nat} {v : ValueTree} {ts : List Token} :
    LeavesEmpty line (v.tokens ++ ts) ↔ LeavesEmpty line v.tokens := by
  obtain ⟨t, us, hv, -, -⟩ := v.tokens_eq_cons
  rw [hv]
  rfl

/-- The tokens of a statement in front of others that may follow it determine it and them. -/
theorem StatementTree.eq_of_tokens {s s' : StatementTree} {ts us : List Token} (hs : s.Fits ts)
    (hs' : s'.Fits us) (h : s.tokens ++ ts = s'.tokens ++ us) : s = s' ∧ ts = us := by
  cases s with
  | comment r =>
    cases s' with
    | comment r' =>
      simp only [StatementTree.tokens, List.cons_append, List.nil_append, List.cons.injEq] at h
      exact ⟨by rw [Remark.token_injective h.1], h.2⟩
    | _ => simp [StatementTree.tokens, Remark.token] at h
  | empty m key equals =>
    cases s' with
    | comment r' => simp [StatementTree.tokens, Remark.token] at h
    | empty m' key' equals' =>
      simp only [StatementTree.tokens, List.cons_append, List.nil_append, List.cons.injEq,
        Mark.token_inj, TokenKind.name.injEq, true_and] at h
      obtain ⟨⟨rfl, rfl⟩, rfl, rfl⟩ := h
      exact ⟨rfl, rfl⟩
    | assigned m' key' equals' v =>
      simp only [StatementTree.tokens, List.cons_append, List.nil_append, List.cons.injEq,
        Mark.token_inj, TokenKind.name.injEq, true_and] at h
      obtain ⟨-, rfl, rfl⟩ := h
      exact absurd (leavesEmpty_append.mp hs) hs'
    | _ => simp [StatementTree.tokens] at h
  | assigned m key equals v =>
    cases s' with
    | comment r' => simp [StatementTree.tokens, Remark.token] at h
    | empty m' key' equals' =>
      simp only [StatementTree.tokens, List.cons_append, List.nil_append, List.cons.injEq,
        Mark.token_inj, TokenKind.name.injEq, true_and] at h
      obtain ⟨-, rfl, rfl⟩ := h
      exact absurd (leavesEmpty_append.mp hs') hs
    | assigned m' key' equals' v' =>
      simp only [StatementTree.tokens, List.cons_append, List.cons.injEq, Mark.token_inj,
        TokenKind.name.injEq, true_and] at h
      obtain ⟨⟨rfl, rfl⟩, rfl, h⟩ := h
      obtain ⟨rfl, rfl⟩ := v.eq_of_tokens v' _ _ h
      exact ⟨rfl, rfl⟩
    | _ => simp [StatementTree.tokens] at h
  | body m key o lines c =>
    cases s' with
    | comment r' => simp [StatementTree.tokens, Remark.token] at h
    | body m' key' o' lines' c' =>
      simp only [StatementTree.tokens, List.cons_append, List.append_assoc, List.nil_append,
        List.cons.injEq, Mark.token_inj, TokenKind.name.injEq, true_and] at h
      obtain ⟨⟨rfl, rfl⟩, rfl, h⟩ := h
      obtain ⟨rfl, hc, rfl⟩ := lines_inj (by simp [Mark.token]) (by simp [Mark.token]) h
      simp only [Mark.token_inj, true_and] at hc
      exact ⟨by rw [hc], rfl⟩
    | _ => simp [StatementTree.tokens] at h
  | inclusion m pm path =>
    cases s' with
    | inclusion m' pm' path' =>
      simp only [StatementTree.tokens, List.cons_append, List.nil_append, List.cons.injEq,
        Mark.token_inj, TokenKind.path.injEq, true_and] at h
      obtain ⟨rfl, ⟨rfl, rfl⟩, rfl⟩ := h
      exact ⟨rfl, rfl⟩
    | comment r' => simp [StatementTree.tokens, Remark.token] at h
    | _ => simp [StatementTree.tokens] at h
  | extension m pm path =>
    cases s' with
    | extension m' pm' path' =>
      simp only [StatementTree.tokens, List.cons_append, List.nil_append, List.cons.injEq,
        Mark.token_inj, TokenKind.path.injEq, true_and] at h
      obtain ⟨rfl, ⟨rfl, rfl⟩, rfl⟩ := h
      exact ⟨rfl, rfl⟩
    | comment r' => simp [StatementTree.tokens, Remark.token] at h
    | _ => simp [StatementTree.tokens] at h

/-- **The grammar is unambiguous**: statements with the same tokens are the same. -/
theorem eq_of_tokens {g g' : List StatementTree} (hg : Admissible g) (hg' : Admissible g')
    (h : tokens g = tokens g') : g = g' := by
  induction g generalizing g' with
  | nil =>
    cases g' with
    | nil => rfl
    | cons s' g' => cases s' <;> simp [tokens, StatementTree.tokens] at h
  | cons s g ih =>
    cases g' with
    | nil => cases s <;> simp [tokens, StatementTree.tokens] at h
    | cons s' g' =>
      obtain ⟨hs, hts⟩ := StatementTree.eq_of_tokens hg.1 hg'.1 h
      rw [hs, ih hg.2 hg'.2 hts]

/-! ## What the parser accepts -/

/-- A list of tokens up to the end of a document makes what `document?` makes of it. -/
theorem ofTokens_eq_ok_iff {stripHint : Bool} {ts : List Token} {finish : Token}
    (hf : finish.kind = .finish) (hts : ∀ t ∈ ts, t.kind ≠ .finish) (d : Document) :
    Document.ofTokens stripHint (ts ++ [finish]) = .ok d ↔
      Parser.start.document? stripHint ts = some d := by
  unfold Document.ofTokens Document.ofItems
  rw [List.map_append]
  exact Parser.run_eq_ok_iff hf hts Parser.start 1 [] d

/-- **The parser accepts exactly its grammar**: a list of tokens up to the end of a document makes
one if and only if it has a derivation, it has no two of them, and the document is the one that
its derivation denotes. -/
theorem ofTokens_ok_iff_derives (stripHint : Bool) (ts : List Token) (finish : Token)
    (hf : finish.kind = .finish) (hts : ∀ t ∈ ts, t.kind ≠ .finish) :
    ((∃ d, Document.ofTokens stripHint (ts ++ [finish]) = .ok d) ↔ ∃ g, Derives g ts) ∧
      (∀ g g', Derives g ts → Derives g' ts → g = g') ∧
      ∀ g, Derives g ts →
        Document.ofTokens stripHint (ts ++ [finish]) = .ok (document stripHint g) := by
  have denotes : ∀ g, Derives g ts →
      Document.ofTokens stripHint (ts ++ [finish]) = .ok (document stripHint g) := by
    rintro g ⟨hg, rfl⟩
    exact (ofTokens_eq_ok_iff hf hts _).mpr (document?_tokens hg Parser.start rfl)
  refine ⟨⟨?_, ?_⟩, ?_, denotes⟩
  · rintro ⟨d, hd⟩
    exact exists_derivation ts Parser.start d rfl ((ofTokens_eq_ok_iff hf hts d).mp hd)
  · rintro ⟨g, hg⟩
    exact ⟨_, denotes g hg⟩
  · rintro g g' ⟨hg, h⟩ ⟨hg', h'⟩
    exact eq_of_tokens hg hg' (h.trans h'.symm)

/-- The tokens of an object with a comment and a repeated key, and of an `=` that a comment leaves
empty. -/
def repeatedKeyTokens : List Token :=
  [⟨.name "a", "a", 1⟩, ⟨.equals, "=", 1⟩, ⟨.leftBrace, "\x7b", 1⟩, ⟨.name "k", "k", 1⟩,
    ⟨.colon, ":", 1⟩, ⟨.boolean true, "true", 1⟩, ⟨.comma, ",", 1⟩, ⟨.comment "# c", "# c", 1⟩,
    ⟨.name "k", "k", 2⟩, ⟨.colon, ":", 2⟩, ⟨.boolean false, "false", 2⟩, ⟨.rightBrace, "\x7d", 2⟩,
    ⟨.name "b", "b", 3⟩, ⟨.equals, "=", 3⟩, ⟨.comment "# d", "# d", 3⟩]

/-- The tokens above have one derivation, and it denotes the last value of the key. -/
theorem ofTokens_ok_iff_derives_repeated_key :
    (∀ t ∈ repeatedKeyTokens, t.kind ≠ .finish) ∧
      ∃ g, Derives g repeatedKeyTokens ∧ (∀ g', Derives g' repeatedKeyTokens → g' = g) ∧
        (document true g).nodes.map (·.statement) =
          [.assignment "a" (.object 1 [("k", .atom 2 (.boolean false))]),
            .assignment "b" (.atom 3 (.string "")), .comment "# d"] := by
  have hts : ∀ t ∈ repeatedKeyTokens, t.kind ≠ .finish := by simp [repeatedKeyTokens]
  obtain ⟨accepts, unique, denotes⟩ :=
    ofTokens_ok_iff_derives true repeatedKeyTokens ⟨.finish, "", 3⟩ rfl hts
  obtain ⟨g, hg⟩ := accepts.mp ⟨_, rfl⟩
  refine ⟨hts, g, hg, fun g' hg' => unique g' g hg' hg, ?_⟩
  have hd := denotes g hg
  injection hd with hd
  rw [← hd]
  rfl

end Courseware.Grammar
