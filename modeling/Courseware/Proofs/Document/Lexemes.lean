/-
What the documents that are read are made of.

The document of a text is made of lexemes (`Document.isLexeme_of_ofText`): its
keys, names, selectors, paths and comments are such as can be read, and the keys
of an object are distinct. The proof goes through the derivation of the tokens,
since that is where a value and the tokens it is made of are side by side.
-/
import Courseware.Proofs.Document.Forall
import Courseware.Proofs.Document.Reading
import Courseware.Proofs.Variables.Keys

namespace Courseware

/-- Whether the keys of an object can be written: they are names, and distinct. -/
structure KeysWritable (ks : List String) : Prop where
  nodup : ks.Nodup
  isName : ∀ k ∈ ks, Token.IsName k.toList

theorem keysWritable_nil : KeysWritable [] := ⟨List.nodup_nil, List.forall_mem_nil _⟩

theorem KeysWritable.insert {d : Dict Value} (h : KeysWritable (Dict.keys d)) {k : String}
    (hk : Token.IsName k.toList) (v : Value) : KeysWritable (Dict.keys (Dict.insert d k v)) := by
  refine ⟨Dict.keys_nodup_insert h.nodup k v, fun k' hk' => ?_⟩
  rw [Dict.keys_insert] at hk'
  split at hk'
  · exact h.isName k' hk'
  · rcases List.mem_append.mp hk' with hk' | hk'
    · exact h.isName k' hk'
    · rw [List.mem_singleton] at hk'
      rw [hk']
      exact hk

/-- Whether the text of an atom is a lexeme, where components start with `selectors`. -/
def Atom.IsLexeme (selectors : List Char) : Atom → Prop
  | .component selector => Token.IsSelector selectors selector.toList
  | .reference name => Token.IsName name.toList
  | .dictionary path | .url path | .content path => Token.IsPath path.toList
  | _ => True

/-- Whether a value is made of lexemes. -/
abbrev Value.IsLexeme (selectors : List Char) (v : Value) : Prop :=
  v.Forall (Atom.IsLexeme selectors) KeysWritable

/-- Whether a statement is made of lexemes. -/
def Statement.IsLexeme (selectors : List Char) : Statement → Prop
  | .assignment key v => Token.IsName key.toList ∧ v.IsLexeme selectors
  | .comment text => Token.IsComment text.toList
  | .inclusion path | .extension path => Token.IsPath path.toList

namespace Grammar

variable {selectors : List Char}

def AreLexemes (selectors : List Char) (ts : List Token) : Prop :=
  ∀ t ∈ ts, Token.IsLexeme selectors t.kind

theorem areLexemes_cons {t : Token} {ts : List Token} :
    AreLexemes selectors (t :: ts) ↔ Token.IsLexeme selectors t.kind ∧ AreLexemes selectors ts :=
  List.forall_mem_cons

theorem areLexemes_append {ts us : List Token} :
    AreLexemes selectors (ts ++ us) ↔ AreLexemes selectors ts ∧ AreLexemes selectors us :=
  List.forall_mem_append

mutual

/-- A value of lexemes is made of lexemes. -/
theorem ValueTree.isLexeme : ∀ (v : ValueTree), AreLexemes selectors v.tokens →
    v.value.IsLexeme selectors
  | .literal m l, h => by
    have hl := h _ List.mem_cons_self
    cases l <;> exact hl
  | .file m f pm path, h => by
    have hpath := (areLexemes_cons.mp (areLexemes_cons.mp h).2).1
    cases f <;> exact hpath
  | .emptyArray .., _ => trivial
  | .array _ items _, h =>
    items.forallItems (areLexemes_append.mp (areLexemes_cons.mp h).2).1
  | .emptyObject .., _ => ⟨keysWritable_nil, trivial⟩
  | .object _ entries _, h =>
    entries.forallEntries (areLexemes_append.mp (areLexemes_cons.mp h).2).1 keysWritable_nil trivial

theorem ItemsTree.forallItems : ∀ (items : ItemsTree), AreLexemes selectors items.tokens →
    Value.ForallItems (Atom.IsLexeme selectors) KeysWritable items.values
  | .last _ v _, h => by
    have hv := (areLexemes_append.mp (areLexemes_append.mp h).2).1
    exact ⟨v.isLexeme hv, trivial⟩
  | .more _ v _ _ rest, h => by
    obtain ⟨hv, hafter⟩ := areLexemes_append.mp (areLexemes_append.mp h).2
    have hrest := (areLexemes_cons.mp (areLexemes_append.mp hafter).2).2
    exact ⟨v.isLexeme hv, rest.forallItems hrest⟩

theorem EntriesTree.forallEntries : ∀ (entries : EntriesTree) {d : Dict Value},
    AreLexemes selectors entries.tokens → KeysWritable (Dict.keys d) →
      Value.ForallEntries (Atom.IsLexeme selectors) KeysWritable d →
      KeysWritable (Dict.keys (entries.insertInto d)) ∧
        Value.ForallEntries (Atom.IsLexeme selectors) KeysWritable (entries.insertInto d)
  | .last _ m key colon v _, d, h, hkeys, hd => by
    obtain ⟨hkey, hcolon⟩ := areLexemes_cons.mp (areLexemes_append.mp h).2
    have hv := v.isLexeme (areLexemes_append.mp (areLexemes_cons.mp hcolon).2).1
    exact ⟨hkeys.insert hkey _, Value.forallEntries_insert hd key hv⟩
  | .more _ m key colon v _ _ rest, d, h, hkeys, hd => by
    obtain ⟨hkey, hcolon⟩ := areLexemes_cons.mp (areLexemes_append.mp h).2
    obtain ⟨hv, hafter⟩ := areLexemes_append.mp (areLexemes_cons.mp hcolon).2
    have hrest := (areLexemes_cons.mp (areLexemes_append.mp hafter).2).2
    have hv := v.isLexeme hv
    exact rest.forallEntries hrest (hkeys.insert hkey _) (Value.forallEntries_insert hd key hv)

end

theorem StatementTree.isLexeme (stripHint : Bool) (s : StatementTree)
    (h : AreLexemes selectors s.tokens) : (s.statement stripHint).IsLexeme selectors := by
  cases s with
  | comment remark => exact h _ List.mem_cons_self
  | empty m key equals => exact ⟨h _ List.mem_cons_self, trivial⟩
  | assigned m key equals v =>
    exact ⟨h _ List.mem_cons_self, v.isLexeme (areLexemes_cons.mp (areLexemes_cons.mp h).2).2⟩
  | body m key opening lines closing => exact ⟨h _ List.mem_cons_self, trivial⟩
  | inclusion m pm path | extension m pm path =>
    exact (areLexemes_cons.mp (areLexemes_cons.mp h).2).1

theorem isLexeme_document (stripHint : Bool) (g : List StatementTree)
    (h : AreLexemes selectors (tokens g)) :
    ∀ n ∈ (document stripHint g).nodes, n.statement.IsLexeme selectors := by
  induction g with
  | nil => exact List.forall_mem_nil _
  | cons s g ih =>
    obtain ⟨hs, hg⟩ := areLexemes_append.mp h
    exact List.forall_mem_cons.mpr ⟨s.isLexeme stripHint hs, ih hg⟩

end Grammar

/-- **The document of a text is made of lexemes.** -/
theorem Document.isLexeme_of_ofText {options : Options} {text : String} {d : Document}
    (h : ofText options text = .ok d) :
    ∀ n ∈ d.nodes, n.statement.IsLexeme options.componentStart.toList := by
  obtain ⟨g, last, hts, -, rfl⟩ := ofText_eq_ok_iff_exists_derivation.mp h
  exact Grammar.isLexeme_document _ g hts.isLexeme

end Courseware
