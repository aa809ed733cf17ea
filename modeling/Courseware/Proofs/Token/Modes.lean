/-
The items of a text keep to the modes of its scanner.

Which kinds of tokens are read in a mode, and the mode that each of them leaves,
is said once (`ScanMode.after?`). A scanner reads no others and leaves no other
mode (`Scanner.obeys_next`), so its items are in order from the mode that it
starts in (`Item.InOrder`). The items in front of a place tell the mode that the item
there is read in: a path is due behind a directive, and a value is open behind
an opening `==` and lines of it (`ScanMode.Tells`). So a path stands behind a
directive and nowhere else, lines of a value and the `==` after them stand
behind the `==` before them and nowhere else, and the end of the text stands
behind neither.
-/
import Courseware.Proofs.Document.Reading

namespace Courseware

namespace ScanMode

/-- The mode that a token of a kind leaves which is read in a mode, if such a token is read. -/
def after? : ScanMode → TokenKind → Option ScanMode
  | .initial, .directive _ => some .path
  | .initial, .opening => some .body
  | .initial, .path _ => none
  | .initial, .body _ => none
  | .initial, .closing => none
  | .initial, _ => some .initial
  | .path, .path _ => some .initial
  | .path, _ => none
  | .body, .body _ => some .body
  | .body, .closing => some .initial
  | .body, _ => none

/-- Whether a fault can be found in a mode: behind a directive only that there is no path, in a
value only that it is never closed. -/
def Finds : ScanMode → LexicalFault → Prop
  | .initial, _ => True
  | .path, fault => fault = .missingPath
  | .body, fault => fault = .unclosedBody

section

variable {mode mode' : ScanMode} {kind : TokenKind}

theorem eq_path_iff (h : mode.after? kind = some mode') :
    mode' = .path ↔ ∃ d, kind = .directive d := by
  cases mode <;> cases kind <;> cases h <;> simp

theorem eq_body_iff (h : mode.after? kind = some mode') :
    mode' = .body ↔ kind = .opening ∨ mode = .body ∧ ∃ text, kind = .body text := by
  cases mode <;> cases kind <;> cases h <;> simp

/-- Nothing but a path is read where one is due, and nowhere else. -/
theorem path_iff (h : mode.after? kind = some mode') :
    mode = .path ↔ ∃ text, kind = .path text := by
  cases mode <;> cases kind <;> cases h <;> simp

/-- Nothing but lines and the end of a value is read in a value, and nowhere else. -/
theorem body_iff (h : mode.after? kind = some mode') :
    mode = .body ↔ kind = .closing ∨ ∃ text, kind = .body text := by
  cases mode <;> cases kind <;> cases h <;> simp

theorem eq_initial_of_finish (h : mode.after? .finish = some mode') : mode = .initial := by
  cases mode <;> cases h
  rfl

end

end ScanMode

/-! ## What a scanner yields in a mode -/

namespace Scanner

variable {selectors : List Char} {s s' : Scanner}

/-- Whether an item may be read in a mode, and the scanner goes on in the mode that it leaves. -/
def Obeys (mode : ScanMode) (r : Item × Scanner) : Prop :=
  match r.1 with
  | .ok t => mode.after? t.kind = some r.2.mode
  | .error e => ∃ fault line, mode.Finds fault ∧ e = fault.error line

/-- A token that leaves the mode as it is. -/
theorem obeys_take {mode : ScanMode} (hs : s.mode = mode) {count : Nat} {kind : TokenKind}
    (hkind : mode.after? kind = some mode) : Obeys mode (s.take count kind) :=
  hkind.trans (congrArg some hs.symm)

theorem obeys_inMode_take {mode mode' : ScanMode} {count : Nat} {kind : TokenKind}
    (hkind : mode.after? kind = some mode') : Obeys mode ((s.inMode mode').take count kind) :=
  hkind

theorem obeys_fail {mode : ScanMode} {count : Nat} {fault : LexicalFault}
    (hfault : mode.Finds fault) : Obeys mode (s.fail count fault) :=
  ⟨fault, s.line, hfault, rfl⟩

theorem obeys_blockComment (hs : s.mode = .initial) : Obeys .initial s.blockComment := by
  unfold blockComment
  split
  · exact obeys_take hs rfl
  · exact obeys_fail trivial

theorem obeys_opening : Obeys .initial s.opening := by
  unfold opening
  dsimp only
  split
  · rfl
  · exact obeys_fail trivial

theorem obeys_directive : Obeys .initial s.directive := by
  unfold directive
  dsimp only
  split
  · exact obeys_inMode_take rfl
  · exact obeys_fail trivial

theorem obeys_string (hs : s.mode = .initial) (quote : Char) :
    Obeys .initial (s.string quote) := by
  unfold string
  split
  · exact obeys_take hs rfl
  · exact obeys_fail trivial

theorem obeys_number (hs : s.mode = .initial) : Obeys .initial s.number := by
  unfold number
  dsimp only
  split
  · exact obeys_take hs rfl
  · exact obeys_fail trivial

theorem after?_nameKind (cs : List Char) :
    ScanMode.after? .initial (Token.nameKind cs) = some .initial := by
  rcases Token.nameKind_cases cs with ⟨b, h⟩ | h
  · rw [h]
    rfl
  · rw [h]
    rfl

theorem obeys_name (hs : s.mode = .initial) (c : Char) : Obeys .initial (s.name c) := by
  unfold name
  split
  · exact obeys_fail trivial
  · exact obeys_take hs (after?_nameKind _)

theorem obeys_selector (hs : s.mode = .initial) (start : List Char) (c : Char) :
    Obeys .initial (s.selector start c) := by
  unfold selector
  split
  · exact obeys_name hs c
  · exact obeys_take hs rfl

theorem obeys_token (hs : s.mode = .initial) : Obeys .initial (s.token selectors) := by
  unfold token
  split
  case h_2 | h_3 => exact congrArg some hs.symm
  case h_4 => exact obeys_blockComment hs
  case h_5 => exact obeys_opening
  case h_13 => exact obeys_directive
  case h_14 | h_15 => exact obeys_string hs _
  case h_16 =>
    split
    · exact obeys_number hs
    · split
      · exact obeys_selector hs _ _
      · exact obeys_name hs _
  all_goals exact obeys_take hs rfl

theorem obeys_path : Obeys .path s.path := by
  unfold path
  dsimp only
  split
  · exact obeys_fail rfl
  · exact obeys_inMode_take rfl

theorem obeys_bodyLine (hs : s.mode = .body) : Obeys .body s.bodyLine := by
  unfold bodyLine
  dsimp only
  split
  · exact ⟨.unclosedBody, s.openedAt, rfl, rfl⟩
  · split
    · exact obeys_inMode_take rfl
    · exact obeys_take hs rfl

/-- **A scanner obeys its mode.** The next token is of a kind that is read in the mode, and leaves
the mode that goes with the kind. -/
theorem obeys_next (selectors : List Char) (s : Scanner) :
    Obeys s.mode (s.next selectors) := by
  unfold next
  split
  · next hs =>
    rw [hs]
    exact obeys_token hs
  · next hs =>
    rw [hs]
    exact obeys_path
  · next hs =>
    rw [hs]
    exact obeys_bodyLine hs

end Scanner

/-! ## The items of a text -/

namespace Item

/-- Whether items are such as a scanner yields that starts in a mode. They are never none: only an
error or the end of the text is the last one. -/
inductive InOrder : ScanMode → List Item → Prop
  | failed {mode : ScanMode} {fault : LexicalFault} (h : mode.Finds fault) (line : Nat) :
    InOrder mode [.error (fault.error line)]
  | finished {t : Token} (h : t.kind = .finish) : InOrder .initial [.ok t]
  | token {mode mode' : ScanMode} {t : Token} {items : List Item} (hkind : t.kind ≠ .finish)
    (h : mode.after? t.kind = some mode') (hrest : InOrder mode' items) :
    InOrder mode (.ok t :: items)

/-- Every error is one of the scanner. -/
theorem InOrder.error_of_mem {mode : ScanMode} {items : List Item} (h : InOrder mode items)
    {e : Error} (he : .error e ∈ items) :
    ∃ (fault : LexicalFault) (line : Nat), e = fault.error line := by
  induction h with
  | @failed mode fault hfault line =>
    cases List.mem_singleton.mp he
    exact ⟨fault, line, rfl⟩
  | finished => cases List.mem_singleton.mp he
  | token _ _ _ ih =>
    rcases List.mem_cons.mp he with he | he
    · cases he
    · exact ih he

theorem inOrder_itemsWithin {selectors : List Char} {fuel : Nat} {s : Scanner}
    (hfuel : s.rest.length < fuel) : InOrder s.mode (s.itemsWithin selectors fuel) := by
  induction fuel generalizing s with
  | zero => exact absurd hfuel (Nat.not_lt_zero _)
  | succ fuel ih =>
    have hobeys := Scanner.obeys_next selectors s
    rw [Scanner.itemsWithin]
    rcases hnext : s.next selectors with ⟨e | t, s'⟩
    · rw [hnext] at hobeys
      obtain ⟨fault, line, hfault, rfl⟩ := hobeys
      exact .failed hfault line
    · rw [hnext] at hobeys
      have hafter : s.mode.after? t.kind = some s'.mode := hobeys
      dsimp only
      by_cases hkind : t.kind = .finish
      · rw [hkind] at hafter
        rw [if_pos hkind, ScanMode.eq_initial_of_finish hafter]
        exact .finished hkind
      · have hlt := Scanner.next_lt hnext hkind
        rw [if_neg hkind]
        exact .token hkind hafter (ih (by omega))

/-- **The items of a text are in order.** -/
theorem inOrder_ofText (selectors text : String) : InOrder .initial (ofText selectors text) :=
  inOrder_itemsWithin (s := .ofText text) (Nat.lt_succ_self _)

/-! ## What is in front of a place and behind it -/

/-- Whether a path is due: a directive comes last. -/
def PathDue (before : List Item) : Prop :=
  ∃ front t d, before = front ++ [.ok t] ∧ t.kind = .directive d

/-- Whether a value is open: an opening `==` and lines of it, or none, come last. -/
def BodyOpen (before : List Item) : Prop :=
  ∃ (front : List Item) (t : Token) (lines : List Token),
    before = front ++ .ok t :: lines.map .ok ∧ t.kind = .opening ∧
      ∀ u ∈ lines, ∃ text, u.kind = .body text

/-- Whether a path comes first, or the error that there is none (code 107). -/
def PathComes (after : List Item) : Prop :=
  (∃ (u : Token) (text : String) (rest : List Item),
    after = .ok u :: rest ∧ u.kind = .path text) ∨
  ∃ line : Nat, after = [.error (LexicalFault.missingPath.error line)]

/-- Whether lines of a value come first, or none, and then the `==` behind them or the error that
there is none (code 108). -/
def BodyComes (after : List Item) : Prop :=
  ∃ lines : List Token, (∀ u ∈ lines, ∃ text, u.kind = .body text) ∧
    ((∃ (u : Token) (rest : List Item),
      after = lines.map .ok ++ .ok u :: rest ∧ u.kind = .closing) ∨
    ∃ line : Nat, after = lines.map .ok ++ [.error (LexicalFault.unclosedBody.error line)])

theorem pathDue_snoc {before : List Item} {t : Token} :
    PathDue (before ++ [.ok t]) ↔ ∃ d, t.kind = .directive d := by
  constructor
  · rintro ⟨front, u, d, heq, hd⟩
    obtain ⟨-, htu⟩ := List.append_inj' heq rfl
    cases htu
    exact ⟨d, hd⟩
  · rintro ⟨d, hd⟩
    exact ⟨before, t, d, rfl, hd⟩

theorem bodyOpen_snoc {before : List Item} {t : Token} :
    BodyOpen (before ++ [.ok t]) ↔
      t.kind = .opening ∨ BodyOpen before ∧ ∃ text, t.kind = .body text := by
  constructor
  · rintro ⟨front, u, lines, heq, hopening, hlines⟩
    rcases List.eq_nil_or_concat lines with rfl | ⟨lines, last, rfl⟩
    · obtain ⟨-, htu⟩ := List.append_inj' heq rfl
      cases htu
      exact .inl hopening
    · rw [List.concat_eq_append] at heq hlines
      rw [List.map_append, ← List.cons_append, ← List.append_assoc] at heq
      obtain ⟨rfl, htu⟩ := List.append_inj' heq rfl
      cases htu
      refine .inr ⟨⟨front, u, lines, rfl, hopening, fun v hv => ?_⟩, ?_⟩
      · exact hlines v (List.mem_append_left _ hv)
      · exact hlines t (List.mem_append_right _ List.mem_cons_self)
  · rintro (hopening | ⟨⟨front, u, lines, rfl, hopening, hlines⟩, hbody⟩)
    · exact ⟨before, t, [], rfl, hopening, List.forall_mem_nil _⟩
    · refine ⟨front, u, lines ++ [t], by simp, hopening, ?_⟩
      exact List.forall_mem_append.mpr ⟨hlines, List.forall_mem_singleton.mpr hbody⟩

end Item

/-- Whether a mode is the one that some items tell. -/
structure ScanMode.Tells (mode : ScanMode) (before : List Item) : Prop where
  path : mode = .path ↔ Item.PathDue before
  body : mode = .body ↔ Item.BodyOpen before

namespace ScanMode

theorem tells_nil : Tells .initial [] := by
  have hpath : ¬ Item.PathDue [] := fun ⟨_, _, _, heq, _⟩ => by simp at heq
  have hbody : ¬ Item.BodyOpen [] := fun ⟨_, _, _, heq, _⟩ => by simp at heq
  exact ⟨by simp [hpath], by simp [hbody]⟩

/-- One more token tells the mode that it leaves. -/
theorem Tells.snoc {mode mode' : ScanMode} {before : List Item} {t : Token}
    (h : mode.Tells before) (ht : mode.after? t.kind = some mode') :
    mode'.Tells (before ++ [.ok t]) := by
  refine ⟨?_, ?_⟩
  · rw [Item.pathDue_snoc]
    exact eq_path_iff ht
  · rw [Item.bodyOpen_snoc, ← h.body]
    exact eq_body_iff ht

end ScanMode

namespace Item

/-- The items from a place on are in order from the mode that those in front of it tell. -/
theorem InOrder.tells {mode : ScanMode} {done before after : List Item} {item : Item}
    (h : InOrder mode (before ++ item :: after)) (hdone : mode.Tells done) :
    ∃ mode' : ScanMode, mode'.Tells (done ++ before) ∧ InOrder mode' (item :: after) := by
  induction before generalizing mode done with
  | nil => exact ⟨mode, by rwa [List.append_nil], h⟩
  | cons first before ih =>
    rw [List.cons_append] at h
    generalize hrest : before ++ item :: after = rest at h
    cases h with
    | failed => simp at hrest
    | finished => simp at hrest
    | token hkind ht horder =>
      subst hrest
      obtain ⟨mode', htells, horder⟩ := ih horder (hdone.snoc ht)
      exact ⟨mode', by rwa [List.append_assoc] at htells, horder⟩

theorem InOrder.pathComes {items : List Item} (h : InOrder .path items) : PathComes items := by
  cases h with
  | failed hfault line =>
    cases hfault
    exact .inr ⟨line, rfl⟩
  | token hkind ht hrest =>
    obtain ⟨text, htext⟩ := (ScanMode.path_iff ht).mp rfl
    exact .inl ⟨_, text, _, rfl, htext⟩

theorem InOrder.bodyComes {items : List Item} (h : InOrder .body items) : BodyComes items := by
  generalize hmode : ScanMode.body = mode at h
  induction h with
  | failed hfault line =>
    subst hmode
    cases hfault
    exact ⟨[], List.forall_mem_nil _, .inr ⟨line, rfl⟩⟩
  | finished => cases hmode
  | @token _ mode' t items hkind ht hrest ih =>
    subst hmode
    rcases (ScanMode.body_iff ht).mp rfl with hclosing | hbody
    · exact ⟨[], List.forall_mem_nil _, .inl ⟨t, items, rfl, hclosing⟩⟩
    · obtain ⟨lines, hlines, hend⟩ := ih ((ScanMode.eq_body_iff ht).mpr (.inr ⟨rfl, hbody⟩)).symm
      refine ⟨t :: lines, List.forall_mem_cons.mpr ⟨hbody, hlines⟩, ?_⟩
      rcases hend with ⟨u, rest, rfl, hclosing⟩ | ⟨line, rfl⟩
      · exact .inl ⟨u, rest, rfl, hclosing⟩
      · exact .inr ⟨line, rfl⟩

/-- **Whether items keep to the modes of a scanner**, place by place. -/
structure KeepsModes (items : List Item) : Prop where
  directive (before : List Item) (t : Token) (d : Directive) (after : List Item) :
    items = before ++ .ok t :: after → t.kind = .directive d → PathComes after
  /-- A path comes nowhere else. -/
  path (before : List Item) (t : Token) (text : String) (after : List Item) :
    items = before ++ .ok t :: after → t.kind = .path text → PathDue before
  opening (before : List Item) (t : Token) (after : List Item) :
    items = before ++ .ok t :: after → t.kind = .opening → BodyComes after
  /-- Lines of a value and the `==` behind them come nowhere else. -/
  body (before : List Item) (t : Token) (after : List Item) :
    items = before ++ .ok t :: after →
      (t.kind = .closing ∨ ∃ text, t.kind = .body text) → BodyOpen before
  /-- The end of the text comes last, and where neither a path is due nor a value open. -/
  finish (before : List Item) (t : Token) (after : List Item) :
    items = before ++ .ok t :: after → t.kind = .finish →
      after = [] ∧ ¬ PathDue before ∧ ¬ BodyOpen before

/-- A token of the items is read in the mode that those in front of it tell, and the items behind it
are in order from the mode that it leaves, if it is not the end of the text. -/
theorem InOrder.at_token {items before after : List Item} {t : Token} (h : InOrder .initial items)
    (heq : items = before ++ .ok t :: after) :
    ∃ mode mode' : ScanMode, mode.Tells before ∧ mode.after? t.kind = some mode' ∧
      (t.kind = .finish ∧ after = [] ∨ t.kind ≠ .finish ∧ InOrder mode' after) := by
  subst heq
  obtain ⟨mode, htells, horder⟩ := h.tells ScanMode.tells_nil
  rw [List.nil_append] at htells
  cases horder with
  | finished hkind => exact ⟨_, _, htells, by rw [hkind]; rfl, .inl ⟨hkind, rfl⟩⟩
  | token hkind ht hrest => exact ⟨mode, _, htells, ht, .inr ⟨hkind, hrest⟩⟩

theorem InOrder.keepsModes {items : List Item} (h : InOrder .initial items) : KeepsModes items := by
  refine ⟨?_, ?_, ?_, ?_, ?_⟩
  · intro before t d after heq hd
    obtain ⟨mode, mode', htells, ht, ⟨hkind, -⟩ | ⟨-, hrest⟩⟩ := h.at_token heq
    · cases hkind.symm.trans hd
    · obtain rfl := (ScanMode.eq_path_iff ht).mpr ⟨d, hd⟩
      exact hrest.pathComes
  · intro before t text after heq htext
    obtain ⟨mode, mode', htells, ht, -⟩ := h.at_token heq
    exact htells.path.mp ((ScanMode.path_iff ht).mpr ⟨text, htext⟩)
  · intro before t after heq hopening
    obtain ⟨mode, mode', htells, ht, ⟨hkind, -⟩ | ⟨-, hrest⟩⟩ := h.at_token heq
    · cases hkind.symm.trans hopening
    · obtain rfl := (ScanMode.eq_body_iff ht).mpr (.inl hopening)
      exact hrest.bodyComes
  · intro before t after heq hkind
    obtain ⟨mode, mode', htells, ht, -⟩ := h.at_token heq
    exact htells.body.mp ((ScanMode.body_iff ht).mpr hkind)
  · intro before t after heq hkind
    obtain ⟨mode, mode', htells, ht, ⟨-, hafter⟩ | ⟨hne, -⟩⟩ := h.at_token heq
    · rw [hkind] at ht
      obtain rfl := ScanMode.eq_initial_of_finish ht
      refine ⟨hafter, fun hpath => ?_, fun hbody => ?_⟩
      · cases htells.path.mpr hpath
      · cases htells.body.mpr hbody
    · exact absurd hkind hne

end Item

end Courseware
