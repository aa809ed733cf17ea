/-
A scanner makes progress.

What a call can give is said once (`Scanner.gives_next`). Whether it is a token or
an error, the call takes some text from the front and counts the newlines in it
(`Scanner.exists_movesOn`). So wherever calls lead in a text, errors among them, the
line of the scanner is one more than the newlines behind it (`Scanner.Reached`). A
token that is not the last one takes something from the text, which bounds the items
that come from a place on by the characters that are left there
(`Scanner.length_itemsWithin_le`). So the bound that `Item.ofText` sets cuts off no
item of a text (`Scanner.itemsWithin_eq`).
-/
import Courseware.Proofs.Token.Tiling

namespace Courseware

open Text (newlines)

namespace Scanner

variable {selectors : List Char} {s s' s'' : Scanner}

/-! ## What a call gives -/

/-- What a call gives at the front of a text: a token, or an error at the line of the scanner, which
goes on some characters further. None but an opening `==` leads into a value, which opens on its
line. -/
inductive Gives (s : Scanner) : Item × Scanner → Prop
  | token (mode : ScanMode) (hmode : mode = .body → s.mode = .body) (t : Token) (count : Nat) :
    Gives s (.ok t, (s.inMode mode).advance count)
  | opening (t : Token) (count : Nat) :
    Gives s (.ok t, { s.advance count with mode := .body, openedAt := s.line })
  | error (mode : ScanMode) (hmode : mode = .body → s.mode = .body) (fault : LexicalFault)
      (count : Nat) : Gives s ((s.inMode mode).fail count fault)

theorem gives_take (s : Scanner) (count : Nat) (kind : TokenKind) : Gives s (s.take count kind) :=
  .token s.mode id _ count

theorem gives_fail (s : Scanner) (count : Nat) (fault : LexicalFault) :
    Gives s (s.fail count fault) :=
  .error s.mode id fault count

theorem gives_blockComment (s : Scanner) : Gives s s.blockComment := by
  unfold blockComment
  split
  · exact gives_take s _ _
  · exact gives_fail s _ _

theorem gives_opening (s : Scanner) : Gives s s.opening := by
  unfold opening
  dsimp only
  split
  · exact .opening _ _
  · exact gives_fail s _ _

theorem gives_directive (s : Scanner) : Gives s s.directive := by
  unfold directive
  dsimp only
  split
  · exact .token .path (by simp) _ _
  · exact gives_fail s _ _

theorem gives_string (s : Scanner) (quote : Char) : Gives s (s.string quote) := by
  unfold string
  split
  · exact gives_take s _ _
  · exact gives_fail s _ _

theorem gives_number (s : Scanner) : Gives s s.number := by
  unfold number
  dsimp only
  split
  · exact gives_take s _ _
  · exact gives_fail s _ _

theorem gives_name (s : Scanner) (c : Char) : Gives s (s.name c) := by
  unfold name
  split
  · exact gives_fail s _ _
  · exact gives_take s _ _

theorem gives_selector (s : Scanner) (start : List Char) (c : Char) :
    Gives s (s.selector start c) := by
  unfold selector
  split
  · exact gives_name s c
  · exact gives_take s _ _

theorem gives_token (selectors : List Char) (s : Scanner) : Gives s (s.token selectors) := by
  unfold token
  split
  case h_2 | h_3 => exact .token s.mode id _ _
  case h_4 => exact gives_blockComment s
  case h_5 => exact gives_opening s
  case h_13 => exact gives_directive s
  case h_14 | h_15 => exact gives_string s _
  case h_16 =>
    split
    · exact gives_number s
    · split
      · exact gives_selector s _ _
      · exact gives_name s _
  all_goals exact gives_take s _ _

theorem gives_path (s : Scanner) : Gives s s.path := by
  unfold path
  dsimp only
  split
  · exact .error .initial (by simp) _ _
  · exact .token .initial (by simp) _ _

/-- **A call skips something and gives what is behind it**, unless it reads a line of a value. -/
theorem gives_next (selectors : List Char) (s : Scanner) :
    (s.mode ≠ .body ∧ ∃ p, Gives (s.skip p) (s.next selectors)) ∨
      s.mode = .body ∧ s.next selectors = s.bodyLine := by
  unfold next
  split
  · next hmode => exact .inl ⟨by simp [hmode], _, gives_token selectors _⟩
  · next hmode => exact .inl ⟨by simp [hmode], _, gives_path _⟩
  · next hmode => exact .inr ⟨hmode, rfl⟩

/-! ## What a call takes -/

/-- Whether a scanner goes on behind some text: it is taken from the front, and its newlines are
counted. -/
structure MovesOn (taken : List Char) (s s' : Scanner) : Prop where
  rest : s.rest = taken ++ s'.rest
  line : s'.line = s.line + newlines taken

theorem movesOn_nil (s : Scanner) : MovesOn [] s s := ⟨rfl, rfl⟩

theorem MovesOn.trans {taken more : List Char} (h : MovesOn taken s s')
    (h' : MovesOn more s' s'') : MovesOn (taken ++ more) s s'' := by
  refine ⟨?_, ?_⟩
  · rw [h.rest, h'.rest, List.append_assoc]
  · rw [h'.line, h.line, Text.newlines_append, Nat.add_assoc]

theorem movesOn_advance (s : Scanner) (count : Nat) : MovesOn (s.front count) s (s.advance count) :=
  ⟨(List.take_append_drop count s.rest).symm, rfl⟩

/-- The mode does not matter to what is taken. -/
theorem movesOn_inMode_advance (s : Scanner) (mode : ScanMode) (count : Nat) :
    MovesOn (s.front count) s ((s.inMode mode).advance count) :=
  ⟨(movesOn_advance s count).rest, rfl⟩

theorem Gives.exists_movesOn {r : Item × Scanner} (h : Gives s r) :
    ∃ taken, MovesOn taken s r.2 := by
  cases h with
  | token mode _ _ count => exact ⟨_, movesOn_inMode_advance s mode count⟩
  | opening _ count => exact ⟨_, (movesOn_advance s count).rest, rfl⟩
  | error mode _ _ count => exact ⟨_, movesOn_inMode_advance s mode count⟩

theorem exists_movesOn_bodyLine (s : Scanner) : ∃ taken, MovesOn taken s s.bodyLine.2 := by
  unfold bodyLine
  dsimp only
  split
  · -- an error here is at the line of the `==` before the value, so it is none that `Gives` knows
    exact ⟨[], movesOn_nil s⟩
  · split
    · exact ⟨_, movesOn_inMode_advance s _ _⟩
    · exact ⟨_, movesOn_advance s _⟩

/-- **A call takes some text from the front and counts its newlines**, whether it gives a token or
an error. -/
theorem exists_movesOn (selectors : List Char) (s : Scanner) :
    ∃ taken, MovesOn taken s (s.next selectors).2 := by
  rcases gives_next selectors s with ⟨-, p, hgives⟩ | ⟨-, hbody⟩
  · obtain ⟨taken, htaken⟩ := hgives.exists_movesOn
    exact ⟨_, (movesOn_advance s _).trans htaken⟩
  · rw [hbody]
    exact exists_movesOn_bodyLine s

/-- A token that is not the last one takes something. -/
theorem exists_movesOn_token {t : Token} (h : s.next selectors = (.ok t, s'))
    (hkind : t.kind ≠ .finish) : ∃ taken, taken ≠ [] ∧ MovesOn taken s s' := by
  obtain ⟨taken, htaken⟩ := exists_movesOn selectors s
  rw [h] at htaken
  refine ⟨taken, fun hnil => ?_, htaken⟩
  have hlt := next_lt h hkind
  rw [htaken.rest, hnil, List.nil_append] at hlt
  exact Nat.lt_irrefl _ hlt

/-- The last token leaves nothing. -/
theorem rest_of_finish {t : Token} (h : s.next selectors = (.ok t, s')) (hkind : t.kind = .finish) :
    s'.rest = [] := by
  obtain ⟨_, _, htakes⟩ := exists_takes h
  exact (htakes.finish hkind).2.2

/-! ## What calls take one after another -/

/-- Whether calls from the start of a text on lead to a scanner: any number of them, whatever they
gave, and each for components of its own. -/
inductive Reached (text : String) : Scanner → Prop
  | start : Reached text (ofText text)
  | call {s : Scanner} (h : Reached text s) (selectors : List Char) :
    Reached text (s.next selectors).2

/-- All that calls took is the text in front of what is left. -/
theorem Reached.exists_movesOn {text : String} (h : Reached text s) :
    ∃ done, MovesOn done (ofText text) s := by
  induction h with
  | start => exact ⟨[], movesOn_nil _⟩
  | @call s _ selectors ih =>
    obtain ⟨done, hdone⟩ := ih
    obtain ⟨taken, htaken⟩ := Scanner.exists_movesOn selectors s
    exact ⟨_, hdone.trans htaken⟩

/-- A scanner after some calls. -/
def after (selectors : List Char) : (count : Nat) → Scanner → Scanner
  | 0, s => s
  | count + 1, s => ((after selectors count s).next selectors).2

theorem reached_after (text : String) (selectors : List Char) (count : Nat) :
    Reached text ((ofText text).after selectors count) := by
  induction count with
  | zero => exact .start
  | succ count ih => exact ih.call selectors

/-- There is at most one more item than characters that are left, however many are asked for. -/
theorem length_itemsWithin_le (selectors : List Char) (count : Nat) (s : Scanner) :
    (s.itemsWithin selectors count).length ≤ s.rest.length + 1 := by
  induction count generalizing s with
  | zero => exact Nat.zero_le _
  | succ count ih =>
    rw [itemsWithin]
    rcases hnext : s.next selectors with ⟨e | t, s'⟩
    · exact Nat.le_add_left 1 _
    · dsimp only
      split
      · exact Nat.le_add_left 1 _
      · next hkind =>
        have hlt := next_lt hnext hkind
        have hle := ih s'
        rw [List.length_cons]
        omega

/-- Asking for more items than characters are left gives all that there are. -/
theorem itemsWithin_eq {count count' : Nat} (h : s.rest.length < count)
    (h' : s.rest.length < count') :
    s.itemsWithin selectors count = s.itemsWithin selectors count' := by
  induction count generalizing s count' with
  | zero => exact absurd h (Nat.not_lt_zero _)
  | succ count ih =>
    obtain ⟨count', rfl⟩ := Nat.exists_eq_succ_of_ne_zero (Nat.ne_zero_of_lt h')
    rw [itemsWithin, itemsWithin]
    rcases hnext : s.next selectors with ⟨e | t, s'⟩
    · rfl
    · dsimp only
      split
      · rfl
      · next hkind =>
        have hlt := next_lt hnext hkind
        have hrest : s'.itemsWithin selectors count = s'.itemsWithin selectors count' :=
          ih (by omega) (by omega)
        rw [hrest]

/-- **A scanner makes progress.** Wherever calls have led it in a text, errors among them, its line
is one more than the newlines behind it. A token that is read there takes at least one character,
unless it is the last one, which leaves nothing. So however many items are asked for, no more come
than characters are left and one. From the start of the text that is one more than it has
characters, and asking for more items than it has characters gives all items of the text. -/
theorem reached_progresses {text : String} (h : Reached text s) :
    (∃ done, text.toList = done ++ s.rest ∧ s.line = 1 + newlines done) ∧
    ∀ selectors : String,
      (∀ t s', s.next selectors.toList = (.ok t, s') →
        if t.kind = .finish then s'.rest = []
        else ∃ taken, taken ≠ [] ∧ s.rest = taken ++ s'.rest) ∧
      (∀ count, (s.itemsWithin selectors.toList count).length ≤ s.rest.length + 1) ∧
      ∀ count, ((ofText text).itemsWithin selectors.toList count).length ≤ text.length + 1 ∧
        (text.length < count →
          (ofText text).itemsWithin selectors.toList count = Item.ofText selectors text) := by
  obtain ⟨done, hdone⟩ := h.exists_movesOn
  refine ⟨⟨done, hdone.rest, hdone.line⟩, fun selectors => ⟨fun t s' hnext => ?_, ?_, ?_⟩⟩
  · split
    · next hkind => exact rest_of_finish hnext hkind
    · next hkind =>
      obtain ⟨taken, hne, htaken⟩ := exists_movesOn_token hnext hkind
      exact ⟨taken, hne, htaken.rest⟩
  · exact fun count => length_itemsWithin_le selectors.toList count s
  · intro count
    have hall : text.length < count →
        (ofText text).itemsWithin selectors.toList count = Item.ofText selectors text :=
      fun hcount => itemsWithin_eq hcount (Nat.lt_succ_self _)
    exact ⟨length_itemsWithin_le selectors.toList count (ofText text), hall⟩

/-- A number and a character that are none, and the name of a component behind them. -/
def faultyText : String := "k = 1.2.3\n$ ui-w\n"

/-- Its scanner after four calls, of which the last two gave errors. -/
def behindFaults : Scanner := (ofText faultyText).after "ui-".toList 4

/-- Calls go on behind errors, and still there is an end. -/
theorem reached_progresses_behind_faults :
    Reached faultyText behindFaults ∧
      (∃ done, faultyText.toList = done ++ " ui-w\n".toList ∧ 2 = 1 + newlines done) ∧
      (∃ taken, taken ≠ [] ∧ " ui-w\n".toList = taken ++ ['\n']) ∧
      ∀ count, (behindFaults.itemsWithin "ui-".toList count).length ≤ 7 := by
  have hreached : Reached faultyText behindFaults := reached_after faultyText "ui-".toList 4
  have hrest : behindFaults.rest = " ui-w\n".toList := by decide +kernel
  have hnumber : behindFaults.line = 2 := by decide +kernel
  have hitem : (behindFaults.next "ui-".toList).1 = .ok ⟨.selector "ui-w", "ui-w", 2⟩ := by
    decide +kernel
  have hleft : (behindFaults.next "ui-".toList).2.rest = ['\n'] := by decide +kernel
  obtain ⟨hline, hcalls⟩ := reached_progresses hreached
  obtain ⟨htoken, hitems, -⟩ := hcalls "ui-"
  rcases hnext : behindFaults.next "ui-".toList with ⟨item, s'⟩
  rw [hnext] at hitem hleft
  cases hitem
  have htaken := htoken _ _ hnext
  rw [if_neg (by simp), hrest] at htaken
  rw [hrest, hnumber] at hline
  rw [hrest] at hitems
  have hleft : s'.rest = ['\n'] := hleft
  rw [hleft] at htaken
  exact ⟨hreached, hline, htaken, hitems⟩

end Scanner

end Courseware
