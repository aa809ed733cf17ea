/-
A parser does the same further down.

`down k` adds `k` to every line of a value, a statement, a document, and of
what a parser has read so far. Every step of a parser is a step `k` lines
further down (`step_down`), so tokens that stand `k` lines further down make the
document that they would have made, `k` lines further down (`document?_down`).
A step looks at the kind and the line of a token, and never at its lexeme.
-/
import Courseware.Proofs.Grammar.Acceptance
import Courseware.Proofs.Token.Continued

namespace Courseware

/-! ## Further down -/

namespace Value

mutual

/-- A value `k` lines further down. -/
def down (k : Nat) : Value → Value
  | .atom line a => .atom (line + k) a
  | .array line items => .array (line + k) (itemsDown k items)
  | .object line entries => .object (line + k) (entriesDown k entries)

def itemsDown (k : Nat) : List Value → List Value
  | [] => []
  | item :: items => item.down k :: itemsDown k items

def entriesDown (k : Nat) : List (String × Value) → List (String × Value)
  | [] => []
  | (key, v) :: entries => (key, v.down k) :: entriesDown k entries

end

mutual

@[simp] theorem down_zero : ∀ v : Value, v.down 0 = v
  | .atom _ _ => rfl
  | .array _ items => by simp only [down, itemsDown_zero items, Nat.add_zero]
  | .object _ entries => by simp only [down, entriesDown_zero entries, Nat.add_zero]

theorem itemsDown_zero : ∀ items : List Value, itemsDown 0 items = items
  | [] => rfl
  | item :: items => by simp only [itemsDown, down_zero item, itemsDown_zero items]

theorem entriesDown_zero : ∀ entries : List (String × Value), entriesDown 0 entries = entries
  | [] => rfl
  | (key, v) :: entries => by simp only [entriesDown, down_zero v, entriesDown_zero entries]

end

theorem itemsDown_append (k : Nat) (vs ws : List Value) :
    itemsDown k (vs ++ ws) = itemsDown k vs ++ itemsDown k ws := by
  induction vs with
  | nil => rfl
  | cons v vs ih => simp only [List.cons_append, itemsDown, ih]

theorem itemsDown_reverse (k : Nat) (vs : List Value) :
    itemsDown k vs.reverse = (itemsDown k vs).reverse := by
  induction vs with
  | nil => rfl
  | cons v vs ih => simp only [List.reverse_cons, itemsDown_append, ih, itemsDown]

theorem entriesDown_insert (k : Nat) (d : Dict Value) (key : String) (v : Value) :
    entriesDown k (Dict.insert d key v) = Dict.insert (entriesDown k d) key (v.down k) := by
  induction d with
  | nil => rfl
  | cons entry d ih =>
    obtain ⟨key', w⟩ := entry
    by_cases hkey : key' = key <;> simp [Dict.insert, entriesDown, hkey, ih]

theorem hasKey_entriesDown (k : Nat) (d : Dict Value) (key : String) :
    Dict.hasKey (entriesDown k d) key = Dict.hasKey d key := by
  unfold Dict.hasKey
  induction d with
  | nil => rfl
  | cons entry d ih =>
    obtain ⟨key', w⟩ := entry
    by_cases hkey : key' = key <;> simp [Dict.get?, entriesDown, hkey, ih]

end Value

def Statement.down (k : Nat) : Statement → Statement
  | .assignment key v => .assignment key (v.down k)
  | .comment text => .comment text
  | .inclusion path => .inclusion path
  | .extension path => .extension path

def Node.down (k : Nat) (n : Node) : Node := ⟨n.statement.down k, n.line + k, n.origin⟩

def Note.down (k : Nat) (n : Note) : Note := ⟨n.line + k, n.message⟩

/-- **A document `k` lines further down.** -/
def Document.down (k : Nat) (d : Document) : Document :=
  ⟨d.nodes.map (Node.down k), d.notes.map (Note.down k)⟩

@[simp] theorem Document.down_zero (d : Document) : d.down 0 = d := by
  have hstatement : ∀ st : Statement, st.down 0 = st := by
    intro st
    cases st <;> simp [Statement.down]
  have hnode : Node.down 0 = id := funext fun n => by simp [Node.down, hstatement]
  have hnote : Note.down 0 = id := funext fun n => rfl
  simp [Document.down, hnode, hnote]

def Hole.down (k : Nat) : Hole → Hole
  | .assigned key line => .assigned key (line + k)
  | .item line before around => .item (line + k) (Value.itemsDown k before) (around.down k)
  | .entry line before key keyLine around =>
    .entry (line + k) (Value.entriesDown k before) key (keyLine + k) (around.down k)

def Mode.down (k : Nat) : Mode → Mode
  | .statement => .statement
  | .key name line => .key name (line + k)
  | .rightSide name line equalsLine => .rightSide name (line + k) (equalsLine + k)
  | .body name line text first => .body name (line + k) text first
  | .file d line => .file d (line + k)
  | .value hole => .value (hole.down k)
  | .valueFile d line hole => .valueFile d (line + k) (hole.down k)
  | .array place line before hole =>
    .array place (line + k) (Value.itemsDown k before) (hole.down k)
  | .object place line before hole =>
    .object place (line + k) (Value.entriesDown k before) (hole.down k)
  | .entry line before name nameLine hole =>
    .entry (line + k) (Value.entriesDown k before) name (nameLine + k) (hole.down k)

namespace Parser

variable {stripHint : Bool} {k : Nat} {p q : Parser} {t t' : Token}

/-- A parser `k` lines further down. -/
def down (k : Nat) (p : Parser) : Parser :=
  ⟨p.nodes.map (Node.down k), p.notes.map (Note.down k), p.mode.down k⟩

theorem inMode_down (p : Parser) (mode : Mode) :
    (p.inMode mode).down k = (p.down k).inMode (mode.down k) := rfl

theorem emit_down (p : Parser) (st : Statement) (line : Nat) :
    (p.emit st line).down k = (p.down k).emit (st.down k) (line + k) := by
  simp [emit, down, Node.down, Mode.down]

theorem emitEmpty_down (p : Parser) (key : String) (line : Nat) :
    (p.down k).emitEmpty key (line + k) = (p.emitEmpty key line).down k :=
  (emit_down p (.assignment key (.atom line (.string ""))) line).symm

/-- A value that fills a hole fills it further down. -/
theorem fill_down (p : Parser) (v : Value) (hole : Hole) :
    (p.fill v hole).down k = (p.down k).fill (v.down k) (hole.down k) := by
  cases hole with
  | assigned key line => exact emit_down p _ line
  | item line before around => rfl
  | entry line before key keyLine around =>
    by_cases hkey : Dict.hasKey before key = true
    · simp [fill, down, Hole.down, Mode.down, Value.hasKey_entriesDown, Value.entriesDown_insert,
        hkey, repeatedKey, Note.down]
    · simp [fill, down, Hole.down, Mode.down, Value.hasKey_entriesDown, Value.entriesDown_insert,
        hkey]

theorem startValue_down {hole : Hole} (ht : t.Below k t') (h : p.startValue hole t = .ok q) :
    (p.down k).startValue (hole.down k) t' = .ok (q.down k) := by
  unfold startValue at h ⊢
  rw [ht.kind, ht.line]
  split at h <;> cases h <;> simp only [fill_down, inMode_down] <;> rfl

theorem startStatement_down (ht : t.Below k t') (h : p.startStatement t = .take (.ok q)) :
    (p.down k).startStatement t' = .take (.ok (q.down k)) := by
  unfold startStatement at h ⊢
  rw [ht.kind, ht.line]
  split at h <;> cases h <;> simp only [emit_down, inMode_down] <;> rfl

theorem startRightSide_down {key : String} {line equalsLine : Nat} (ht : t.Below k t')
    (h : p.startRightSide key line equalsLine t = .take (.ok q)) :
    (p.down k).startRightSide key (line + k) (equalsLine + k) t' =
      .take (.ok (q.down k)) := by
  unfold startRightSide at h ⊢
  rw [ht.kind, ht.line, emitEmpty_down]
  split at h
  · exact startStatement_down ht h
  · split at h
    · next hlater =>
      rw [if_pos (Nat.add_lt_add_right hlater k)]
      exact startStatement_down ht h
    · next hlater =>
      have hvalue : p.startValue (.assigned key line) t = .ok q := Move.take.inj h
      rw [if_neg (fun hlt => hlater (Nat.lt_of_add_lt_add_right hlt))]
      exact congrArg Move.take (startValue_down ht hvalue)

theorem fileValue_down {directive : Directive} {line : Nat} {hole : Hole} {path : String}
    (h : p.fileValue directive line hole path = .ok q) :
    (p.down k).fileValue directive (line + k) (hole.down k) path = .ok (q.down k) := by
  cases directive with
  | inclusion => cases h
  | extension | url | content =>
    cases h
    rw [fill_down]
    rfl

theorem advance_down (ht : t.Below k t') (h : p.advance stripHint t = .ok q) :
    (p.down k).advance stripHint t' = .ok (q.down k) := by
  have hkind := ht.kind
  have hline := ht.line
  obtain ⟨nodes, notes, mode⟩ := p
  obtain ⟨kind, lexeme, line⟩ := t
  obtain ⟨kind', lexeme', line'⟩ := t'
  dsimp only at hkind hline
  subst hkind hline
  unfold advance at h
  dsimp only at h
  split at h
  case h_1 | h_2 | h_3 | h_8 | h_11 | h_14 | h_17 | h_18 | h_19 | h_20 =>
    cases h
    rfl
  case h_4 =>
    cases h
    rw [emit_down]
    rfl
  case h_5 directive line path =>
    cases h
    rw [emit_down]
    cases directive <;> rfl
  case h_6 => exact startValue_down ht h
  case h_7 => exact fileValue_down h
  case h_9 | h_10 =>
    cases h
    rw [fill_down, Value.down, Value.itemsDown_reverse]
    rfl
  case h_12 | h_13 =>
    -- what starts no value is no item
    cases kind' <;> first | exact startValue_down ht h | cases h
  case h_15 | h_16 =>
    cases h
    rw [fill_down]
    rfl
  case h_21 => cases h

/-- **A step is a step further down.** -/
theorem step_down (ht : t.Below k t') (h : p.step stripHint t = .take (.ok q)) :
    (p.down k).step stripHint t' = .take (.ok (q.down k)) := by
  unfold step at h ⊢
  have hmode : (p.down k).mode = p.mode.down k := rfl
  rw [hmode]
  cases hp : p.mode with
  | statement =>
    rw [hp] at h
    exact startStatement_down ht h
  | rightSide key line equalsLine =>
    rw [hp] at h
    exact startRightSide_down ht h
  | _ =>
    rw [hp] at h
    exact congrArg Move.take (advance_down ht (Move.take.inj h))

/-- **Tokens further down make the same document further down.** -/
theorem document?_down {ts ts' : List Token} {d : Document}
    (hts : List.Forall₂ (Token.Below k) ts ts') (h : p.document? stripHint ts = some d) :
    (p.down k).document? stripHint ts' = some (d.down k) := by
  induction hts generalizing p with
  | nil =>
    have hmode : (p.down k).mode = p.mode.down k := rfl
    simp only [document?, finish] at h ⊢
    rw [hmode]
    cases hp : p.mode with
    | statement =>
      rw [hp] at h
      cases h
      rfl
    | rightSide key line equalsLine =>
      rw [hp] at h
      cases h
      simp only [Mode.down, emitEmpty_down]
      rfl
    | _ =>
      rw [hp] at h
      cases h
  | @cons t t' ts ts' ht _ ih =>
    simp only [document?] at h
    split at h
    · next q hq =>
      rw [document?_cons ts' (step_down ht hq)]
      exact ih h
    · cases h

end Parser

end Courseware
