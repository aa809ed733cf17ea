/-
Which documents a text makes.

`Scans` says that a scanner reads some tokens up to the end of the text. There
is no bound on their number in it: a token takes at least one character, so
the bound that `Item.ofText` sets is never met. A text makes a document if and
only if it scans and its tokens make one, and it makes the same one whether it
is parsed as it is scanned or scanned first (`ofText_eq_ok_iff`,
`ofScannedText_eq_ok_iff`).
-/
import Courseware.Proofs.Grammar.Uniqueness
import Courseware.Proofs.Token.Lexeme

namespace Courseware

namespace Scanner

variable {selectors : List Char} {s : Scanner} {ts : List Token} {last : Token}

/-- Whether a scanner reads tokens, and after them the end of the text. -/
inductive Scans (selectors : List Char) : Scanner → List Token → Token → Prop
  | finish {s s' : Scanner} {t : Token} (h : s.next selectors = (.ok t, s'))
      (hkind : t.kind = .finish) : Scans selectors s [] t
  | token {s s' : Scanner} {t : Token} {ts : List Token} {last : Token}
      (h : s.next selectors = (.ok t, s')) (hkind : t.kind ≠ .finish)
      (hrest : Scans selectors s' ts last) : Scans selectors s (t :: ts) last

theorem next_lt {s' : Scanner} {t : Token} (h : s.next selectors = (.ok t, s'))
    (hkind : t.kind ≠ .finish) : s'.rest.length < s.rest.length := by
  have := next_sound selectors s t (by rw [h]) hkind
  rw [h] at this
  exact this.2

theorem Scans.kind_last (h : Scans selectors s ts last) : last.kind = .finish := by
  induction h with
  | finish _ hkind => exact hkind
  | token _ _ _ ih => exact ih

theorem Scans.kind_ne_finish (h : Scans selectors s ts last) : ∀ t ∈ ts, t.kind ≠ .finish := by
  induction h with
  | finish => exact List.forall_mem_nil _
  | token _ hkind _ ih => exact List.forall_mem_cons.mpr ⟨hkind, ih⟩

/-- All tokens that are read are lexemes. -/
theorem Scans.isLexeme (h : Scans selectors s ts last) :
    ∀ t ∈ ts, Token.IsLexeme selectors t.kind := by
  induction h with
  | finish => exact List.forall_mem_nil _
  | @token s s' t ts last hnext hkind _ ih =>
    exact List.forall_mem_cons.mpr ⟨(next_sound selectors s t (by rw [hnext]) hkind).1, ih⟩

theorem Scans.itemsWithin (h : Scans selectors s ts last) :
    ∀ {fuel : Nat}, s.rest.length < fuel →
      s.itemsWithin selectors fuel = ts.map .ok ++ [.ok last] := by
  induction h with
  | finish hnext hkind =>
    intro fuel hfuel
    obtain ⟨n, rfl⟩ := Nat.exists_eq_succ_of_ne_zero (Nat.ne_zero_of_lt hfuel)
    simp [Scanner.itemsWithin, hnext, hkind]
  | token hnext hkind _ ih =>
    intro fuel hfuel
    obtain ⟨n, rfl⟩ := Nat.exists_eq_succ_of_ne_zero (Nat.ne_zero_of_lt hfuel)
    have hlt := next_lt hnext hkind
    simp [Scanner.itemsWithin, hnext, hkind, ih (Nat.lt_of_lt_of_le hlt (Nat.le_of_lt_succ hfuel))]

/-- A text that does not scan to its end has an error behind some tokens. -/
theorem scans_or_error {fuel : Nat} {s : Scanner} (hfuel : s.rest.length < fuel) :
    (∃ ts last, Scans selectors s ts last) ∨
      ∃ (ts : List Token) (e : Error), s.itemsWithin selectors fuel = ts.map .ok ++ [.error e] ∧
        ∀ t ∈ ts, t.kind ≠ .finish := by
  induction fuel generalizing s with
  | zero => cases hfuel
  | succ fuel ih =>
    rcases hnext : s.next selectors with ⟨e | t, s'⟩
    · exact .inr ⟨[], e, by simp [itemsWithin, hnext], List.forall_mem_nil _⟩
    · by_cases hkind : t.kind = .finish
      · exact .inl ⟨[], t, .finish hnext hkind⟩
      · have hlt := next_lt hnext hkind
        rcases ih (Nat.lt_of_lt_of_le hlt (Nat.le_of_lt_succ hfuel)) with
          ⟨ts, last, hts⟩ | ⟨ts, e, hitems, hts⟩
        · exact .inl ⟨t :: ts, last, .token hnext hkind hts⟩
        · exact .inr ⟨t :: ts, e, by simp [itemsWithin, hnext, hkind, hitems],
            List.forall_mem_cons.mpr ⟨hkind, hts⟩⟩

end Scanner

open Scanner (Scans)

/-- The items of a text are its tokens, or end in an error. -/
theorem Item.ofText_of_scans {selectors text : String} {ts : List Token} {last : Token}
    (h : Scans selectors.toList (.ofText text) ts last) :
    Item.ofText selectors text = ts.map .ok ++ [.ok last] :=
  h.itemsWithin (Nat.lt_succ_self _)

theorem Item.scans_or_error (selectors text : String) :
    (∃ ts last, Scans selectors.toList (.ofText text) ts last) ∨
      ∃ (ts : List Token) (e : Error), Item.ofText selectors text = ts.map .ok ++ [.error e] ∧
        ∀ t ∈ ts, t.kind ≠ .finish :=
  Scanner.scans_or_error (Nat.lt_succ_self _)

theorem Item.mapM_ok (ts : List Token) :
    (ts.map (.ok : Token → Item)).mapM id = (.ok ts : Except Error (List Token)) := by
  induction ts with
  | nil => rfl
  | cons t ts ih => simp [List.mapM_cons, ih]; rfl

theorem Item.mapM_error (ts : List Token) (e : Error) :
    (ts.map (.ok : Token → Item) ++ [Except.error e]).mapM id = Except.error e := by
  induction ts with
  | nil => rfl
  | cons t ts ih => rw [List.map_cons, List.cons_append, List.mapM_cons, ih]; rfl

theorem Token.ofText?_of_scans {selectors text : String} {ts : List Token} {last : Token}
    (h : Scans selectors.toList (.ofText text) ts last) :
    Token.ofText? selectors text = .ok (ts ++ [last]) := by
  rw [Token.ofText?, Item.ofText_of_scans h, ← Item.mapM_ok (ts ++ [last]), List.map_append]
  rfl

/-- Items that end in an error make no document. -/
theorem Parser.run_error {stripHint : Bool} {ts : List Token} (hts : ∀ t ∈ ts, t.kind ≠ .finish)
    (e : Error) (p : Parser) (line : Nat) (d : Document) :
    p.run stripHint line (ts.map .ok ++ [.error e]) ≠ .ok d := by
  induction ts generalizing p line with
  | nil => simp [run]
  | cons t ts ih =>
    have ht : t.kind ≠ .finish := hts t List.mem_cons_self
    simp only [List.map_cons, List.cons_append, run, if_neg ht]
    cases p.step stripHint t with
    | refuse e => simp
    | take judged =>
      cases judged with
      | error e => simp
      | ok q => exact ih (fun t h => hts t (List.mem_cons_of_mem _ h)) q t.line

namespace Document

variable {options : Options} {text : String} {d : Document}

/-- **A text makes a document if it scans and its tokens make it.** -/
theorem ofText_eq_ok_iff : ofText options text = .ok d ↔
    ∃ ts last, Scans options.componentStart.toList (.ofText text) ts last ∧
      Parser.start.document? options.stripHint ts = some d := by
  constructor
  · intro h
    rcases Item.scans_or_error options.componentStart text with
      ⟨ts, last, hts⟩ | ⟨ts, e, hitems, hts⟩
    · refine ⟨ts, last, hts, ?_⟩
      rw [ofText, ofItems, Item.ofText_of_scans hts] at h
      exact (Parser.run_eq_ok_iff hts.kind_last hts.kind_ne_finish _ _ [] d).mp h
    · rw [ofText, ofItems, hitems] at h
      exact absurd h (Parser.run_error hts e _ _ d)
  · rintro ⟨ts, last, hts, hd⟩
    rw [ofText, ofItems, Item.ofText_of_scans hts]
    exact (Parser.run_eq_ok_iff hts.kind_last hts.kind_ne_finish _ _ [] d).mpr hd

/-- The document of a text is what a derivation of its tokens denotes. -/
theorem ofText_eq_ok_iff_exists_derivation : ofText options text = .ok d ↔
    ∃ (g : List Grammar.StatementTree) (last : Token),
      Scans options.componentStart.toList (.ofText text) (Grammar.tokens g) last ∧
        Grammar.Admissible g ∧ Grammar.document options.stripHint g = d := by
  rw [ofText_eq_ok_iff]
  constructor
  · rintro ⟨ts, last, hts, hd⟩
    obtain ⟨g, hg, rfl⟩ := Grammar.exists_derivation ts Parser.start d rfl hd
    rw [Grammar.document?_tokens hg Parser.start rfl] at hd
    cases hd
    exact ⟨g, last, hts, hg, rfl⟩
  · rintro ⟨g, last, hts, hg, rfl⟩
    exact ⟨_, last, hts, Grammar.document?_tokens hg Parser.start rfl⟩

/-- **It makes the same one if it is scanned first.** -/
theorem ofScannedText_eq_ok_iff : ofScannedText options text = .ok d ↔
    ofText options text = .ok d := by
  rw [ofText_eq_ok_iff]
  constructor
  · intro h
    rcases Item.scans_or_error options.componentStart text with
      ⟨ts, last, hts⟩ | ⟨ts, e, hitems, hts⟩
    · refine ⟨ts, last, hts, ?_⟩
      rw [ofScannedText, Token.ofText?_of_scans hts] at h
      exact (Grammar.ofTokens_eq_ok_iff hts.kind_last hts.kind_ne_finish d).mp h
    · have htokens : Token.ofText? options.componentStart text = .error e := by
        rw [Token.ofText?, hitems, Item.mapM_error]
      rw [ofScannedText, htokens] at h
      cases h
  · rintro ⟨ts, last, hts, hd⟩
    rw [ofScannedText, Token.ofText?_of_scans hts]
    exact (Grammar.ofTokens_eq_ok_iff hts.kind_last hts.kind_ne_finish d).mpr hd

/-- A text that is scanned first is refused for an error of the scanner, or for the error that it
has when it is parsed as it is scanned. -/
theorem ofScannedText_eq_error {e : Error} (h : ofScannedText options text = .error e) :
    .error e ∈ Item.ofText options.componentStart text ∨ ofText options text = .error e := by
  rcases Item.scans_or_error options.componentStart text with ⟨ts, last, hts⟩ | ⟨ts, e', hitems, -⟩
  · rw [ofScannedText, Token.ofText?_of_scans hts] at h
    have hitems : Item.ofText options.componentStart text = (ts ++ [last]).map .ok := by
      rw [Item.ofText_of_scans hts, List.map_append]
      rfl
    rw [ofText, hitems]
    exact .inr h
  · have htokens : Token.ofText? options.componentStart text = .error e' := by
      rw [Token.ofText?, hitems, Item.mapM_error]
    rw [ofScannedText, htokens] at h
    cases h
    exact .inl (by simp [hitems])

end Document

end Courseware
