/-
The derivation of a value that is written.

A value that is made of lexemes is written on one line, so `valueTree` can say
which derivation its text has: there are no comments in it, and every token is
on that line. The derivation denotes the value again, but for its lines
(`value_valueTree`), it deserves no warning since the keys of an object are
distinct (`notes_valueTree`), and its tokens are what is read from the text
(`spells_value`). Each of the three is one induction over the value.
-/
import Courseware.Proofs.Document.Lexemes
import Courseware.Proofs.Token.Written

namespace Courseware

namespace Value

mutual

/-- A value with all its parts on one line. -/
def onLine (line : Nat) : Value → Value
  | .atom _ a => .atom line a
  | .array _ items => .array line (itemsOnLine line items)
  | .object _ entries => .object line (entriesOnLine line entries)

def itemsOnLine (line : Nat) : List Value → List Value
  | [] => []
  | item :: items => item.onLine line :: itemsOnLine line items

def entriesOnLine (line : Nat) : List (String × Value) → List (String × Value)
  | [] => []
  | (key, v) :: entries => (key, v.onLine line) :: entriesOnLine line entries

end

mutual

@[simp] theorem onLine_onLine (l l' : Nat) : ∀ v : Value, (v.onLine l).onLine l' = v.onLine l'
  | .atom _ _ => rfl
  | .array _ items => by simp only [onLine, itemsOnLine_itemsOnLine l l' items]
  | .object _ entries => by simp only [onLine, entriesOnLine_entriesOnLine l l' entries]

theorem itemsOnLine_itemsOnLine (l l' : Nat) : ∀ items : List Value,
    itemsOnLine l' (itemsOnLine l items) = itemsOnLine l' items
  | [] => rfl
  | item :: items => by
    simp only [itemsOnLine, onLine_onLine l l' item, itemsOnLine_itemsOnLine l l' items]

theorem entriesOnLine_entriesOnLine (l l' : Nat) : ∀ entries : List (String × Value),
    entriesOnLine l' (entriesOnLine l entries) = entriesOnLine l' entries
  | [] => rfl
  | (key, v) :: entries => by
    simp only [entriesOnLine, onLine_onLine l l' v, entriesOnLine_entriesOnLine l l' entries]

end

mutual

/-- The text of a value does not depend on its lines. -/
@[simp] theorem written_onLine (l : Nat) : ∀ v : Value, (v.onLine l).written = v.written
  | .atom _ _ => rfl
  | .array _ items => by simp only [onLine, written, writtenItems_itemsOnLine l items]
  | .object _ entries => by simp only [onLine, written, writtenEntries_entriesOnLine l entries]

theorem writtenItems_itemsOnLine (l : Nat) : ∀ items : List Value,
    writtenItems (itemsOnLine l items) = writtenItems items
  | [] => rfl
  | item :: items => by
    simp only [itemsOnLine, writtenItems, written_onLine l item, writtenItems_itemsOnLine l items]

theorem writtenEntries_entriesOnLine (l : Nat) : ∀ entries : List (String × Value),
    writtenEntries (entriesOnLine l entries) = writtenEntries entries
  | [] => rfl
  | (key, v) :: entries => by
    simp only [entriesOnLine, writtenEntries, written_onLine l v,
      writtenEntries_entriesOnLine l entries]

end

end Value

/-- Whether an atom that was read can be written: it is no infinite number, and no comment starts
its path. -/
def Atom.Rewritable : Atom → Prop
  | .number n => ∃ negative m, n = .finite negative m
  | .dictionary path | .url path | .content path => Token.startsComment path.toList = false
  | _ => True

/-- Whether an atom is a lexeme and can be written. -/
abbrev Atom.Writable (a : Atom) : Prop := a.IsLexeme Scanner.defaultSelectors ∧ a.Rewritable

/-- Whether a value is made of lexemes and can be written. -/
abbrev Value.Writable (v : Value) : Prop := v.Forall Atom.Writable KeysWritable

namespace Grammar

/-! ## The derivation of a value -/

/-- The derivation of an atom that is written on a line. -/
def atomTree (line : Nat) : Atom → ValueTree
  | .string s => .literal ⟨String.ofList (Atom.quote s), line⟩ (.string s)
  | .number n => .literal ⟨n.text, line⟩ (.number n)
  | .boolean b => .literal ⟨String.ofList (Atom.boolean b).written, line⟩ (.boolean b)
  | .component s => .literal ⟨s, line⟩ (.selector s)
  | .reference s => .literal ⟨s, line⟩ (.name s)
  | .dictionary path => .file ⟨"@extends", line⟩ .dictionary ⟨path, line⟩ path
  | .url path => .file ⟨"@copyurl", line⟩ .address ⟨path, line⟩ path
  | .content path => .file ⟨"@copycontent", line⟩ .content ⟨path, line⟩ path

mutual

/-- The derivation of a value that is written on a line. -/
def valueTree (line : Nat) : Value → ValueTree
  | .atom _ a => atomTree line a
  | .array _ [] => .emptyArray ⟨"[", line⟩ [] ⟨"]", line⟩
  | .array _ (v :: vs) => .array ⟨"[", line⟩ (itemsTree line (valueTree line v) vs) ⟨"]", line⟩
  | .object _ [] => .emptyObject ⟨"\x7b", line⟩ [] ⟨"\x7d", line⟩
  | .object _ ((key, v) :: es) =>
    .object ⟨"\x7b", line⟩ (entriesTree line key (valueTree line v) es) ⟨"\x7d", line⟩

def itemsTree (line : Nat) (first : ValueTree) : List Value → ItemsTree
  | [] => .last [] first []
  | v :: vs => .more [] first [] ⟨",", line⟩ (itemsTree line (valueTree line v) vs)

def entriesTree (line : Nat) (key : String) (first : ValueTree) :
    List (String × Value) → EntriesTree
  | [] => .last [] ⟨key, line⟩ key ⟨":", line⟩ first []
  | (next, v) :: es =>
    .more [] ⟨key, line⟩ key ⟨":", line⟩ first [] ⟨",", line⟩
      (entriesTree line next (valueTree line v) es)

end

/-! ## What it denotes -/

theorem value_atomTree (line : Nat) (a : Atom) : (atomTree line a).value = .atom line a := by
  cases a <;> rfl

theorem notes_atomTree (line : Nat) (a : Atom) : (atomTree line a).notes = [] := by
  cases a <;> rfl

/-- A value starts on its line. -/
theorem head_valueTree (line : Nat) (v : Value) :
    ∀ t ∈ (valueTree line v).tokens.head?, t.line = line := by
  cases v with
  | atom _ a => cases a <;> simp [valueTree, atomTree, ValueTree.tokens, Mark.token]
  | array _ items => cases items <;> simp [valueTree, ValueTree.tokens, Mark.token]
  | object _ entries => cases entries <;> simp [valueTree, ValueTree.tokens, Mark.token]

variable {atoms : Atom → Prop}

mutual

/-- **The derivation of a value denotes it**, but for its lines. -/
theorem value_valueTree (line : Nat) : ∀ v : Value, v.Forall atoms KeysWritable →
    (valueTree line v).value = v.onLine line
  | .atom _ a, _ => value_atomTree line a
  | .array _ [], _ => rfl
  | .array _ (v :: vs), h => by
    rw [valueTree, ValueTree.value, values_itemsTree line _ vs h.2, value_valueTree line v h.1]
    rfl
  | .object _ [], _ => rfl
  | .object _ ((key, v) :: es), h => by
    have hes := insertInto_entriesTree line key (valueTree line v) es [] h.2.2 h.1.nodup
    rw [valueTree, ValueTree.value, hes, value_valueTree line v h.2.1]
    rfl

theorem values_itemsTree (line : Nat) (first : ValueTree) : ∀ vs : List Value,
    Value.ForallItems atoms KeysWritable vs →
      (itemsTree line first vs).values = first.value :: Value.itemsOnLine line vs
  | [], _ => rfl
  | v :: vs, h => by
    rw [itemsTree, ItemsTree.values, values_itemsTree line _ vs h.2, value_valueTree line v h.1]
    rfl

theorem insertInto_entriesTree (line : Nat) (key : String) (first : ValueTree) :
    ∀ (es : List (String × Value)) (d : Dict Value), Value.ForallEntries atoms KeysWritable es →
      (Dict.keys d ++ key :: es.map Prod.fst).Nodup →
      (entriesTree line key first es).insertInto d =
        d ++ (key, first.value) :: Value.entriesOnLine line es
  | [], d, _, hkeys => by
    have hkey : key ∉ Dict.keys d := fun hmem =>
      (List.nodup_cons.mp (List.perm_middle.nodup_iff.mp hkeys)).1 (List.mem_append_left _ hmem)
    rw [entriesTree, EntriesTree.insertInto, Dict.insert_of_not_mem hkey]
    rfl
  | (next, v) :: es, d, h, hkeys => by
    have hkey : key ∉ Dict.keys d := fun hmem =>
      (List.nodup_cons.mp (List.perm_middle.nodup_iff.mp hkeys)).1 (List.mem_append_left _ hmem)
    have hrest : (Dict.keys (d ++ [(key, first.value)]) ++ next :: es.map Prod.fst).Nodup := by
      rw [Dict.keys, List.map_append, List.append_assoc]
      exact hkeys
    rw [entriesTree, EntriesTree.insertInto, Dict.insert_of_not_mem hkey,
      insertInto_entriesTree line next _ es _ h.2 hrest, value_valueTree line v h.1,
      List.append_assoc]
    rfl

end

mutual

/-- A value whose objects have distinct keys deserves no warning. -/
theorem notes_valueTree (line : Nat) : ∀ v : Value, v.Forall atoms KeysWritable →
    (valueTree line v).notes = []
  | .atom _ a, _ => notes_atomTree line a
  | .array _ [], _ => rfl
  | .array _ (v :: vs), h => by
    rw [valueTree, ValueTree.notes, notes_itemsTree line _ (notes_valueTree line v h.1) vs h.2]
  | .object _ [], _ => rfl
  | .object _ ((key, v) :: es), h => by
    rw [valueTree, ValueTree.notes]
    exact notes_entriesTree line key _ (notes_valueTree line v h.2.1) es [] h.2.2 h.1.nodup

theorem notes_itemsTree (line : Nat) (first : ValueTree) (hfirst : first.notes = []) :
    ∀ vs : List Value, Value.ForallItems atoms KeysWritable vs →
      (itemsTree line first vs).notes = []
  | [], _ => hfirst
  | v :: vs, h => by
    rw [itemsTree, ItemsTree.notes, hfirst,
      notes_itemsTree line _ (notes_valueTree line v h.1) vs h.2, List.nil_append]

theorem notes_entriesTree (line : Nat) (key : String) (first : ValueTree)
    (hfirst : first.notes = []) : ∀ (es : List (String × Value)) (seen : List String),
      Value.ForallEntries atoms KeysWritable es → (seen ++ key :: es.map Prod.fst).Nodup →
      (entriesTree line key first es).notes seen = []
  | [], seen, _, hkeys => by
    have hkey := List.nodup_cons.mp (List.perm_middle.nodup_iff.mp hkeys)
    rw [entriesTree, EntriesTree.notes, hfirst, if_neg fun hmem =>
      hkey.1 (List.mem_append_left _ hmem), List.nil_append]
  | (next, v) :: es, seen, h, hkeys => by
    have hkeys := List.perm_middle.nodup_iff.mp hkeys
    have hkey := List.nodup_cons.mp hkeys
    have hrest :=
      notes_entriesTree line next _ (notes_valueTree line v h.1) es (key :: seen) h.2 hkeys
    rw [entriesTree, EntriesTree.notes, hfirst, if_neg fun hmem =>
      hkey.1 (List.mem_append_left _ hmem), List.nil_append, List.nil_append, hrest]

end

/-! ## What is read from its text -/

open Scanner (Scans between defaultSelectors)
open Token (PathEnded)

/-- Whether a text on a line reads as some tokens, whatever follows that also ends a path. -/
def Spells (line : Nat) (w : List Char) (tokens : List Token) : Prop :=
  ∀ ⦃r : List Char⦄ ⦃openedAt : Nat⦄ ⦃ts : List Token⦄ ⦃last : Token⦄, PathEnded r →
    Scans defaultSelectors (between r line openedAt) ts last →
      Scans defaultSelectors (between (w ++ r) line openedAt) (tokens ++ ts) last

theorem pathEnded_cons {c : Char} (hc : c = '\n' ∨ Token.endsPath c = true) (cs : List Char) :
    PathEnded (c :: cs) := by
  rintro d ⟨⟩
  exact hc

theorem spells_atom (line : Nat) {a : Atom} (ha : a.Writable) :
    Spells line a.written (atomTree line a).tokens := by
  intro r openedAt ts last hr h
  cases a with
  | string s => exact h.string s
  | number n =>
    obtain ⟨negative, m, rfl⟩ := ha.2
    exact h.number negative m hr.delimited
  | boolean b => exact h.boolean b hr.delimited
  | component s => exact h.selector ha.1 hr.delimited
  | reference s => exact h.name ha.1 hr.delimited
  | dictionary path => exact h.directive .extension ha.1 ha.2 hr
  | url path => exact h.directive .url ha.1 ha.2 hr
  | content path => exact h.directive .content ha.1 ha.2 hr

theorem spells_nil (line : Nat) : Spells line [] [] := fun _ _ _ _ _ h => h

/-- A comma and a space between two texts. -/
theorem Spells.comma {line : Nat} {w w' : List Char} {tokens tokens' : List Token}
    (h : Spells line w tokens) (h' : Spells line w' tokens') :
    Spells line (w ++ [',', ' '] ++ w') (tokens ++ ⟨.comma, ",", line⟩ :: tokens') := by
  intro r openedAt ts last hr hs
  have hmem : (',', TokenKind.comma) ∈ Scanner.signs := by decide
  have hcomma := h (pathEnded_cons (.inr rfl) _) ((h' hr hs).space.sign hmem)
  simpa using hcomma

/-- A text between two brackets. -/
theorem Spells.bracketed {line : Nat} {w : List Char} {tokens : List Token}
    (h : Spells line w tokens) {o c : Char} {ko kc : TokenKind} (ho : (o, ko) ∈ Scanner.signs)
    (hc : (c, kc) ∈ Scanner.signs) (hends : Token.endsPath c = true) :
    Spells line (o :: w ++ [c])
      (⟨ko, String.ofList [o], line⟩ :: (tokens ++ [⟨kc, String.ofList [c], line⟩])) := by
  intro r openedAt ts last hr hs
  -- a path inside would not end at a character that is no bracket
  have hw := (h (pathEnded_cons (.inr hends) r) (hs.sign hc)).sign ho
  simpa using hw

/-- A key before a text. -/
theorem Spells.entry {line : Nat} {w : List Char} {tokens : List Token} (h : Spells line w tokens)
    {key : String} (hkey : Token.IsName key.toList) :
    Spells line (key.toList ++ ':' :: ' ' :: w)
      (⟨.name key, key, line⟩ :: ⟨.colon, ":", line⟩ :: tokens) := by
  intro r openedAt ts last hr hs
  have hmem : (':', TokenKind.colon) ∈ Scanner.signs := by decide
  have hcolon := (h hr hs).space.sign hmem
  have hname := hcolon.name hkey (fun _ hc => by cases hc; rfl)
  simpa using hname

mutual

/-- **The text of a value reads as the tokens of its derivation.** -/
theorem spells_value (line : Nat) : ∀ v : Value, v.Writable →
    Spells line v.written (valueTree line v).tokens
  | .atom _ a, h => spells_atom line h
  | .array _ [], _ => (spells_nil line).bracketed (by decide) (by decide) rfl
  | .array _ (v :: vs), h => by
    have hv := spells_value line v h.1
    have hitems := spells_items line hv vs h.2
    exact hitems.bracketed (by decide) (by decide) rfl
  | .object _ [], _ => (spells_nil line).bracketed (by decide) (by decide) rfl
  | .object _ ((key, v) :: es), h => by
    have hv := spells_value line v h.2.1
    have hentries := spells_entries line hv key es h.1.isName h.2.2
    exact hentries.bracketed (by decide) (by decide) rfl

theorem spells_items (line : Nat) {w : List Char} {first : ValueTree}
    (hfirst : Spells line w first.tokens) : ∀ vs : List Value,
      Value.ForallItems Atom.Writable KeysWritable vs →
      Spells line (Text.join [',', ' '] (w :: Value.writtenItems vs))
        (itemsTree line first vs).tokens
  | [], _ => by simpa [Text.join, itemsTree, ItemsTree.tokens, Value.writtenItems] using hfirst
  | v :: vs, h => by
    have hv := spells_value line v h.1
    exact hfirst.comma (spells_items line hv vs h.2)

theorem spells_entries (line : Nat) {w : List Char} {first : ValueTree}
    (hfirst : Spells line w first.tokens) : ∀ (key : String) (es : List (String × Value)),
      (∀ k ∈ key :: es.map Prod.fst, Token.IsName k.toList) →
      Value.ForallEntries Atom.Writable KeysWritable es →
      Spells line
        (Text.join [',', ' '] ((key.toList ++ ':' :: ' ' :: w) :: Value.writtenEntries es))
        (entriesTree line key first es).tokens
  | key, [], hkeys, _ => by
    have hentry := hfirst.entry (hkeys key List.mem_cons_self)
    simpa [Text.join, entriesTree, EntriesTree.tokens, Value.writtenEntries, Mark.token]
      using hentry
  | key, (next, v) :: es, hkeys, h => by
    have hentry := hfirst.entry (hkeys key List.mem_cons_self)
    have hv := spells_value line v h.1
    have hrest :=
      spells_entries line hv next es (fun k hk => hkeys k (List.mem_cons_of_mem _ hk)) h.2
    exact hentry.comma hrest

end

end Grammar

end Courseware
