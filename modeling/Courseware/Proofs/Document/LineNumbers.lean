/-
The lines of a document are lines of its text.

A parser invents no line. What it knows of after a token, and the line of an
error, it knew of before or has from the token (`Parser.mentions_step`). So the
lines of a document are lines of tokens, and so is the line of an error that is
not one of scanning (`Parser.run_ok`, `Parser.run_eq_error`). A scanner counts
the newlines it passes (`Scanner.Within`), so a token and an error both stand on
a line that the text has; an opening `==` is remembered by its line, which is
where the error of a value that is never closed points.
-/
import Courseware.Proofs.Token.Progress

namespace Courseware

/-! ## The lines of what is read -/

namespace Value

mutual

/-- The lines that a value and the values in it start on. -/
def lines : Value → List Nat
  | .atom line _ => [line]
  | .array line items => line :: itemsLines items
  | .object line entries => line :: entriesLines entries

def itemsLines : List Value → List Nat
  | [] => []
  | item :: items => item.lines ++ itemsLines items

def entriesLines : List (String × Value) → List Nat
  | [] => []
  | (_, v) :: entries => v.lines ++ entriesLines entries

end

theorem line_mem_lines (v : Value) : v.line ∈ v.lines := by
  cases v <;> simp [line, lines]

theorem mem_itemsLines_append {l : Nat} {vs ws : List Value} :
    l ∈ itemsLines (vs ++ ws) ↔ l ∈ itemsLines vs ∨ l ∈ itemsLines ws := by
  induction vs with
  | nil => simp [itemsLines]
  | cons v vs ih => simp [itemsLines, ih, or_assoc]

theorem mem_itemsLines_reverse {l : Nat} {vs : List Value} :
    l ∈ itemsLines vs.reverse ↔ l ∈ itemsLines vs := by
  induction vs with
  | nil => rfl
  | cons v vs ih => simp [mem_itemsLines_append, itemsLines, ih, or_comm]

theorem mem_entriesLines_insert {l : Nat} {d : Dict Value} {key : String} {v : Value}
    (h : l ∈ entriesLines (Dict.insert d key v)) : l ∈ v.lines ∨ l ∈ entriesLines d := by
  induction d with
  | nil => simpa [Dict.insert, entriesLines] using h
  | cons entry d ih =>
    obtain ⟨key', w⟩ := entry
    rw [Dict.insert] at h
    split at h
    · simp only [entriesLines, List.mem_append] at h ⊢
      exact h.imp_right .inr
    · simp only [entriesLines, List.mem_append] at h ⊢
      rcases h with h | h
      · exact .inr (.inl h)
      · exact (ih h).imp_right .inr

end Value

/-- The lines of the values in a statement. -/
def Statement.lines : Statement → List Nat
  | .assignment _ v => v.lines
  | _ => []

/-- The line of a node and those of the values in it. -/
def Node.lines (n : Node) : List Nat := n.line :: n.statement.lines

/-- **Every line that a document mentions.** -/
def Document.lines (d : Document) : List Nat := d.nodes.flatMap Node.lines ++ d.notes.map (·.line)

def Hole.lines : Hole → List Nat
  | .assigned _ line => [line]
  | .item line before around => line :: (Value.itemsLines before ++ around.lines)
  | .entry line before _ keyLine around =>
    line :: keyLine :: (Value.entriesLines before ++ around.lines)

def Mode.lines : Mode → List Nat
  | .statement => []
  | .key _ line => [line]
  | .rightSide _ line _ => [line]
  | .body _ line _ _ => [line]
  | .file _ line => [line]
  | .value hole => hole.lines
  | .valueFile _ line hole => line :: hole.lines
  | .array _ line before hole => line :: (Value.itemsLines before ++ hole.lines)
  | .object _ line before hole => line :: (Value.entriesLines before ++ hole.lines)
  | .entry line before _ keyLine hole =>
    line :: keyLine :: (Value.entriesLines before ++ hole.lines)

namespace Parser

variable {stripHint : Bool} {p q : Parser} {t : Token} {l : Nat}

/-- The document that a parser has read so far. -/
def done (p : Parser) : Document := ⟨p.nodes, p.notes⟩

/-- Every line that a parser knows of. -/
def lines (p : Parser) : List Nat := p.done.lines ++ p.mode.lines

theorem mem_lines : l ∈ p.lines ↔ l ∈ p.done.lines ∨ l ∈ p.mode.lines := List.mem_append

theorem mem_lines_inMode {mode : Mode} :
    l ∈ (p.inMode mode).lines ↔ l ∈ p.done.lines ∨ l ∈ mode.lines := List.mem_append

theorem mem_lines_emit {st : Statement} {line : Nat} :
    l ∈ (p.emit st line).lines ↔ l ∈ p.done.lines ∨ l = line ∨ l ∈ st.lines := by
  simp only [lines, emit, done, Document.lines, Mode.lines, Node.lines, List.flatMap_append,
    List.flatMap_cons, List.flatMap_nil, List.mem_append, List.mem_cons, List.not_mem_nil]
  grind

/-- A value that fills a hole brings its lines. -/
theorem mem_lines_fill {v : Value} {hole : Hole} (h : l ∈ (p.fill v hole).lines) :
    l ∈ p.done.lines ∨ l ∈ v.lines ∨ l ∈ hole.lines := by
  cases hole with
  | assigned key line =>
    rw [fill, mem_lines_emit] at h
    simp only [Hole.lines, Statement.lines, List.mem_singleton] at h ⊢
    tauto
  | item line before around =>
    simp only [fill, mem_lines_inMode, Mode.lines, Value.itemsLines, List.mem_cons,
      List.mem_append] at h
    simp only [Hole.lines, List.mem_cons, List.mem_append]
    tauto
  | entry line before key keyLine around =>
    have hentries : l ∈ Value.entriesLines (Dict.insert before key v) →
        l ∈ v.lines ∨ l ∈ Value.entriesLines before := Value.mem_entriesLines_insert
    simp only [fill, lines, done, Document.lines, Mode.lines, List.mem_append, List.mem_cons] at h
    simp only [Hole.lines, done, Document.lines, List.mem_append, List.mem_cons]
    split at h
    · simp only [repeatedKey, List.map_append, List.map_cons, List.map_nil, List.mem_append,
        List.mem_singleton] at h
      tauto
    · tauto

/-- Whether the outcome of a token mentions no line but some: a parser that goes on knows of no
other, and an error is one of syntax at one of them. -/
def Mentions (ls : List Nat) : Except Error Parser → Prop
  | .error e => ∃ line ∈ ls, ∃ detail, e = .syntactic line detail
  | .ok q => q.lines ⊆ ls

theorem Mentions.mono {ls ls' : List Nat} {r : Except Error Parser} (h : Mentions ls r)
    (hls : ls ⊆ ls') : Mentions ls' r := by
  cases r with
  | error e =>
    obtain ⟨line, hline, hdetail⟩ := h
    exact ⟨line, hls hline, hdetail⟩
  | ok q => exact fun l hl => hls (h hl)

theorem mentions_instead (expected : Expected) (ls : List Nat) :
    Mentions (t.line :: ls) (.error (expected.instead t)) :=
  ⟨t.line, List.mem_cons_self, _, rfl⟩

theorem mentions_fill {v : Value} {hole : Hole} :
    Mentions (p.done.lines ++ (v.lines ++ hole.lines)) (.ok (p.fill v hole)) := by
  intro l hl
  simpa [List.mem_append] using mem_lines_fill hl

theorem mentions_inMode {mode : Mode} :
    Mentions (p.done.lines ++ mode.lines) (.ok (p.inMode mode)) := List.Subset.refl _

theorem mentions_emit {st : Statement} {line : Nat} :
    Mentions (p.done.lines ++ line :: st.lines) (.ok (p.emit st line)) := by
  intro l hl
  simpa [List.mem_append] using mem_lines_emit.mp hl

theorem mentions_startValue (p : Parser) (hole : Hole) (t : Token) :
    Mentions (t.line :: (p.done.lines ++ hole.lines)) (p.startValue hole t) := by
  have hatom : ∀ a, Mentions (t.line :: (p.done.lines ++ hole.lines))
      (.ok (p.fill (.atom t.line a) hole)) := by
    intro a
    refine mentions_fill.mono ?_
    simp [Value.lines]
  unfold startValue
  cases t.kind with
  | number | boolean | string | name | selector => exact hatom _
  | directive | leftBracket | leftBrace =>
    refine mentions_inMode.mono ?_
    simp [Mode.lines, Value.itemsLines, Value.entriesLines]
  | _ => exact mentions_instead _ _

/-- Whether what becomes of a token mentions no line but some. -/
def MoveMentions (ls : List Nat) : Move → Prop
  | .refuse e => Mentions ls (.error e)
  | .take judged => Mentions ls judged

theorem mentions_startStatement (p : Parser) (t : Token) :
    MoveMentions (t.line :: p.done.lines) (p.startStatement t) := by
  unfold startStatement
  split
  · refine mentions_emit.mono ?_
    simp [Statement.lines]
  · refine mentions_inMode.mono ?_
    simp [Mode.lines]
  · refine mentions_inMode.mono ?_
    simp [Mode.lines]
  · refine mentions_inMode.mono ?_
    simp [Mode.lines]
  · exact ⟨t.line, List.mem_cons_self, _, rfl⟩
  · exact mentions_instead _ _

theorem MoveMentions.mono {ls ls' : List Nat} {m : Move} (h : MoveMentions ls m) (hls : ls ⊆ ls') :
    MoveMentions ls' m := by
  cases m with
  | refuse e =>
    have h : Mentions ls (.error e) := h
    exact h.mono hls
  | take judged =>
    have h : Mentions ls judged := h
    exact h.mono hls

theorem done_lines_emitEmpty (p : Parser) (key : String) (line : Nat) :
    (p.emitEmpty key line).done.lines ⊆ p.done.lines ++ [line] := by
  intro l hl
  have hl : l ∈ (p.emitEmpty key line).lines := mem_lines.mpr (.inl hl)
  simpa [Statement.lines, Value.lines] using mem_lines_emit.mp hl

theorem mentions_startRightSide (p : Parser) (key : String) (line equalsLine : Nat) (t : Token) :
    MoveMentions (t.line :: (p.done.lines ++ [line])) (p.startRightSide key line equalsLine t) := by
  have hempty : MoveMentions (t.line :: (p.done.lines ++ [line]))
      ((p.emitEmpty key line).startStatement t) :=
    (mentions_startStatement _ t).mono (List.cons_subset_cons _ (done_lines_emitEmpty p key line))
  unfold startRightSide
  split
  · exact hempty
  · split
    · exact hempty
    · exact mentions_startValue p (.assigned key line) t

theorem mentions_fileValue (p : Parser) (directive : Directive) (line : Nat) (hole : Hole)
    (path : String) :
    Mentions (p.done.lines ++ line :: hole.lines) (p.fileValue directive line hole path) := by
  unfold fileValue
  cases directive with
  | inclusion => exact ⟨line, by simp, _, rfl⟩
  | extension | url | content => exact mentions_fill

theorem fileStatement_lines (directive : Directive) (path : String) :
    (fileStatement directive path).lines = [] := by
  cases directive <;> rfl

theorem mentions_advance (stripHint : Bool) (p : Parser) (t : Token) :
    Mentions (t.line :: p.lines) (p.advance stripHint t) := by
  obtain ⟨nodes, notes, mode⟩ := p
  unfold advance
  dsimp only
  split
  case h_1 | h_2 | h_3 | h_11 | h_17 =>
    refine mentions_inMode.mono ?_
    simp [lines, Mode.lines, done]
  case h_18 | h_19 | h_20 =>
    refine mentions_inMode.mono ?_
    intro l hl
    simp only [lines, Mode.lines, Hole.lines, done, List.mem_append, List.mem_cons] at hl ⊢
    tauto
  case h_4 =>
    refine mentions_emit.mono ?_
    simp [lines, Mode.lines, done, Statement.lines, Value.lines]
  case h_5 =>
    refine mentions_emit.mono ?_
    rw [fileStatement_lines]
    simp [lines, Mode.lines, done]
  case h_6 => exact mentions_startValue _ _ t
  case h_7 => exact (mentions_fileValue _ _ _ _ _).mono (List.subset_cons_self _ _)
  case h_8 | h_14 => exact List.subset_cons_self _ _
  case h_9 | h_10 =>
    refine mentions_fill.mono ?_
    intro l hl
    simp only [lines, Mode.lines, Value.lines, done, List.mem_append, List.mem_cons,
      Value.mem_itemsLines_reverse] at hl ⊢
    tauto
  case h_12 | h_13 => exact mentions_startValue _ _ t
  case h_15 | h_16 =>
    refine mentions_fill.mono ?_
    simp [lines, Mode.lines, Value.lines, done]
  case h_21 => exact mentions_instead _ _

/-- **A parser invents no line.** All lines that it knows of after a token, and the line of an
error, are lines that it knew of or that of the token. -/
theorem mentions_step (stripHint : Bool) (p : Parser) (t : Token) :
    MoveMentions (t.line :: p.lines) (p.step stripHint t) := by
  unfold step
  cases hmode : p.mode with
  | statement =>
    refine (mentions_startStatement p t).mono ?_
    simp [lines]
  | rightSide key line equalsLine =>
    refine (mentions_startRightSide p key line equalsLine t).mono ?_
    simp [lines, hmode, Mode.lines]
  | _ => exact mentions_advance stripHint p t

theorem finish_ok {line : Nat} {d : Document} (h : p.finish line = .ok d) : d.lines ⊆ p.lines := by
  unfold finish at h
  split at h
  · cases h
    exact List.subset_append_left _ _
  · next key keyLine _ hmode =>
    cases h
    refine List.Subset.trans (done_lines_emitEmpty p key keyLine) ?_
    simp [lines, hmode, Mode.lines]
  · cases h

theorem finish_error {line : Nat} {e : Error} (h : p.finish line = .error e) :
    ∃ detail, e = .syntactic line detail := by
  unfold finish at h
  split at h
  · cases h
  · cases h
  · cases h
    exact ⟨_, rfl⟩

/-- A document has no lines but those of its tokens. -/
theorem run_ok {P : Nat → Prop} {items : List Item} {line : Nat} {d : Document}
    (hitems : ∀ t, .ok t ∈ items → P t.line) (hp : ∀ l ∈ p.lines, P l)
    (h : p.run stripHint line items = .ok d) : ∀ l ∈ d.lines, P l := by
  induction items generalizing p line with
  | nil => exact fun l hl => hp l (finish_ok h hl)
  | cons item items ih =>
    cases item with
    | error e => cases h
    | ok t =>
      have ht := hitems t List.mem_cons_self
      simp only [run] at h
      split at h
      · exact fun l hl => hp l (finish_ok h hl)
      · have hstep := mentions_step stripHint p t
        split at h
        · cases h
        · cases h
        · next q hq =>
          rw [hq] at hstep
          refine ih (fun t ht => hitems t (List.mem_cons_of_mem _ ht)) (fun l hl => ?_) h
          rcases List.mem_cons.mp (hstep hl) with rfl | hl
          · exact ht
          · exact hp l hl

/-- An error is one of the items, or one of syntax at a line of a token. -/
theorem run_eq_error {P : Nat → Prop} {items : List Item} {line : Nat} {e : Error}
    (hitems : ∀ t, .ok t ∈ items → P t.line) (hp : ∀ l ∈ p.lines, P l) (hline : P line)
    (h : p.run stripHint line items = .error e) :
    .error e ∈ items ∨ ∃ l, P l ∧ ∃ detail, e = .syntactic l detail := by
  induction items generalizing p line with
  | nil => exact .inr ⟨line, hline, finish_error h⟩
  | cons item items ih =>
    cases item with
    | error e =>
      cases h
      exact .inl List.mem_cons_self
    | ok t =>
      have ht := hitems t List.mem_cons_self
      have hknown : ∀ l ∈ t.line :: p.lines, P l := List.forall_mem_cons.mpr ⟨ht, hp⟩
      have hstep := mentions_step stripHint p t
      simp only [run] at h
      split at h
      · exact .inr ⟨t.line, ht, finish_error h⟩
      · split at h
        · next e' he =>
          cases h
          rw [he] at hstep
          obtain ⟨l, hl, hdetail⟩ := hstep
          exact .inr ⟨l, hknown l hl, hdetail⟩
        · next e' he =>
          rw [he] at hstep
          obtain ⟨l, hl, hdetail⟩ := hstep
          unfold firstError at h
          split at h
          · next next items' =>
            cases h
            exact .inl (List.mem_cons_of_mem _ List.mem_cons_self)
          · cases h
            exact .inr ⟨l, hknown l hl, hdetail⟩
        · next q hq =>
          rw [hq] at hstep
          have hrest := ih (fun t ht => hitems t (List.mem_cons_of_mem _ ht))
            (fun l hl => hknown l (hstep hl)) ht h
          exact hrest.imp_left (List.mem_cons_of_mem _)

end Parser

/-! ## The lines of what is scanned -/

namespace Scanner

variable {selectors : List Char} {s s' : Scanner}

/-- Whether an item is found at the line of a scanner: an error there points at it, and a value over
several lines that opens there is known to. -/
structure FoundAt (s : Scanner) (r : Item × Scanner) : Prop where
  error : ∀ e, r.1 = .error e → ∃ detail, e = .lexical s.line detail
  opened : r.2.mode = .body → s.mode = .body ∨ r.2.openedAt = s.line

theorem Gives.foundAt {r : Item × Scanner} (h : Gives s r) : FoundAt s r := by
  cases h with
  | token _ hmode => exact ⟨fun _ h => (by cases h), fun h => .inl (hmode h)⟩
  | opening => exact ⟨fun _ h => (by cases h), fun _ => .inr rfl⟩
  | error _ hmode =>
    refine ⟨fun e h => ?_, fun h => .inl (hmode h)⟩
    cases h
    exact ⟨_, rfl⟩

/-- Whether a scanner stands on a line of a text whose last line is `last`. -/
structure Within (last : Nat) (s : Scanner) : Prop where
  pos : 1 ≤ s.line
  line : s.line + Text.newlines s.rest = last
  opened : s.mode = .body → 1 ≤ s.openedAt ∧ s.openedAt ≤ last

theorem within_ofText (text : String) : Within (1 + Text.newlines text.toList) (ofText text) :=
  ⟨Nat.le_refl 1, rfl, fun h => (by cases h)⟩

variable {last : Nat}

theorem Within.line_le (h : Within last s) : s.line ≤ last := by
  rw [← h.line]
  exact Nat.le_add_right _ _

/-- Reading on stays within the text. -/
theorem Within.movesOn {taken : List Char} (h : Within last s) (hmoves : MovesOn taken s s')
    (hopened : s'.mode = .body → 1 ≤ s'.openedAt ∧ s'.openedAt ≤ last) : Within last s' := by
  have hpos := h.pos
  have hlast := h.line
  have hline := hmoves.line
  rw [hmoves.rest, Text.newlines_append] at hlast
  exact ⟨by omega, by omega, hopened⟩

theorem Within.skip (h : Within last s) (p : Char → Bool) : Within last (s.skip p) :=
  h.movesOn (movesOn_advance s _) h.opened

/-- An error points at a line of the text. -/
theorem Within.next_error {e : Error} (h : Within last s)
    (hnext : s.next selectors = (.error e, s')) :
    ∃ line, (1 ≤ line ∧ line ≤ last) ∧ ∃ detail, e = .lexical line detail := by
  rcases gives_next selectors s with ⟨-, p, hgives⟩ | ⟨hmode, hbody⟩
  · rw [hnext] at hgives
    have hskip := h.skip p
    exact ⟨_, ⟨hskip.pos, hskip.line_le⟩, hgives.foundAt.error e rfl⟩
  · rw [hbody] at hnext
    unfold bodyLine at hnext
    dsimp only at hnext
    split at hnext
    · cases hnext
      exact ⟨s.openedAt, h.opened hmode, _, rfl⟩
    · split at hnext <;> cases hnext

/-- The line of a value that opens is known. -/
theorem Within.next_opened (h : Within last s) {t : Token} (hnext : s.next selectors = (.ok t, s'))
    (hmode : s'.mode = .body) : 1 ≤ s'.openedAt ∧ s'.openedAt ≤ last := by
  rcases gives_next selectors s with ⟨hne, p, hgives⟩ | ⟨hs, hbody⟩
  · rw [hnext] at hgives
    have hskip := h.skip p
    rcases hgives.foundAt.opened hmode with hopen | hline
    · exact absurd hopen hne
    · have hline : s'.openedAt = (s.skip p).line := hline
      rw [hline]
      exact ⟨hskip.pos, hskip.line_le⟩
  · rw [hbody] at hnext
    unfold bodyLine at hnext
    dsimp only at hnext
    split at hnext
    · cases hnext
    · split at hnext
      · cases hnext
        cases hmode
      · cases hnext
        exact h.opened hs

/-- A token stands on a line of the text, and the scanner after it too. -/
theorem Within.next_ok {t : Token} (h : Within last s) (hnext : s.next selectors = (.ok t, s')) :
    (1 ≤ t.line ∧ t.line ≤ last) ∧ Within last s' := by
  obtain ⟨gap, after, htakes⟩ := exists_takes hnext
  obtain ⟨taken, hmoves⟩ := exists_movesOn selectors s
  rw [hnext] at hmoves
  have hwithin : Within last s' := h.movesOn hmoves (h.next_opened hnext)
  have hpos := h.pos
  have hle := hwithin.line_le
  have htoken := htakes.line
  have hnextLine := htakes.next_line
  exact ⟨⟨by omega, by omega⟩, hwithin⟩

theorem Within.itemsWithin (fuel : Nat) (h : Within last s) : ∀ item ∈ s.itemsWithin selectors fuel,
    match item with
    | .ok t => 1 ≤ t.line ∧ t.line ≤ last
    | .error e => ∃ line, (1 ≤ line ∧ line ≤ last) ∧ ∃ detail, e = .lexical line detail := by
  induction fuel generalizing s with
  | zero => exact List.forall_mem_nil _
  | succ fuel ih =>
    unfold Scanner.itemsWithin
    split
    · next hnext => exact List.forall_mem_singleton.mpr (h.next_error hnext)
    · next hnext =>
      obtain ⟨htoken, hrest⟩ := h.next_ok hnext
      refine List.forall_mem_cons.mpr ⟨htoken, ?_⟩
      split
      · exact List.forall_mem_nil _
      · exact ih hrest

end Scanner

/-! ## The lines of a text -/

/-- Whether a text has a line of this number. -/
def Text.HasLine (text : String) (line : Nat) : Prop :=
  1 ≤ line ∧ line ≤ 1 + Text.newlines text.toList

instance (text : String) (line : Nat) : Decidable (Text.HasLine text line) :=
  inferInstanceAs (Decidable (_ ∧ _))

/-- Whether an error points at a line of a text. -/
def Error.PointsInto (text : String) (e : Error) : Prop :=
  ∃ line, e.line? = some line ∧ Text.HasLine text line

theorem Item.hasLine (selectors text : String) : ∀ item ∈ Item.ofText selectors text,
    match item with
    | .ok t => Text.HasLine text t.line
    | .error e => ∃ line, Text.HasLine text line ∧ ∃ detail, e = .lexical line detail :=
  (Scanner.within_ofText text).itemsWithin _

namespace Document

variable {options : Options} {text : String}

/-- **Every line that a document mentions is a line of its text.** -/
theorem hasLine_of_ofScannedText {d : Document} (h : ofScannedText options text = .ok d) :
    ∀ l ∈ d.lines, Text.HasLine text l := by
  rw [ofScannedText_eq_ok_iff, ofText, ofItems] at h
  exact Parser.run_ok (fun t ht => Item.hasLine _ _ _ ht) (List.forall_mem_nil _) h

/-- **The error of a text that makes no document points at one of its lines.** -/
theorem pointsInto_of_ofScannedText {e : Error} (h : ofScannedText options text = .error e) :
    e.PointsInto text := by
  have hlexical : .error e ∈ Item.ofText options.componentStart text → e.PointsInto text := by
    intro hmem
    obtain ⟨line, hline, _, rfl⟩ := Item.hasLine _ _ _ hmem
    exact ⟨line, rfl, hline⟩
  rcases ofScannedText_eq_error h with hmem | htext
  · exact hlexical hmem
  · have hstart : Text.HasLine text 1 := ⟨Nat.le_refl 1, Nat.le_add_right 1 _⟩
    rcases Parser.run_eq_error (P := Text.HasLine text) (fun t ht => Item.hasLine _ _ _ ht)
      (List.forall_mem_nil _) hstart htext with hmem | ⟨line, hline, _, rfl⟩
    · exact hlexical hmem
    · exact ⟨line, rfl, hline⟩

end Document

end Courseware
