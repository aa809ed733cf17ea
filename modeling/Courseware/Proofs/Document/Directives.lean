/-
The directives of a document.

A document names other files by directives, as statements and as values. They
have two orders. One is that of the text, which is the order of its tokens
(`Token.directives`). The other is the one in which a document holds them, whose
objects are dictionaries (`Document.directives`): an entry whose key was there
before takes the place of the earlier entry, and the directives of that one are
gone. So the two orders agree where no object repeats a key, which is where the
document deserves no warning (`Document.directives_of_notes`).
-/
import Courseware.Proofs.Document.Reading
import Courseware.Proofs.Variables.Keys

namespace Courseware

/-- The directives among tokens, each with the path after it. -/
def Token.directives : List Token → List (Directive × String)
  | ⟨.directive d, _, _⟩ :: ⟨.path path, _, _⟩ :: ts => (d, path) :: directives ts
  | _ :: ts => directives ts
  | [] => []

/-- The directive that an atom is, if it is one. -/
def Atom.directives : Atom → List (Directive × String)
  | .dictionary path => [(.extension, path)]
  | .url path => [(.url, path)]
  | .content path => [(.content, path)]
  | _ => []

namespace Value

mutual

/-- The directives of a value, in the order in which it holds them. -/
def directives : Value → List (Directive × String)
  | .atom _ a => a.directives
  | .array _ items => itemsDirectives items
  | .object _ entries => entriesDirectives entries

def itemsDirectives : List Value → List (Directive × String)
  | [] => []
  | v :: items => v.directives ++ itemsDirectives items

def entriesDirectives : List (String × Value) → List (Directive × String)
  | [] => []
  | (_, v) :: entries => v.directives ++ entriesDirectives entries

end

theorem entriesDirectives_append (es es' : List (String × Value)) :
    entriesDirectives (es ++ es') = entriesDirectives es ++ entriesDirectives es' := by
  induction es with
  | nil => rfl
  | cons entry es ih => simp only [List.cons_append, entriesDirectives, ih, List.append_assoc]

/-- A new entry comes last, and so do its directives. -/
theorem entriesDirectives_insert {d : Dict Value} {k : String} (h : k ∉ Dict.keys d) (v : Value) :
    entriesDirectives (Dict.insert d k v) = entriesDirectives d ++ v.directives := by
  rw [Dict.insert_of_not_mem h, entriesDirectives_append]
  simp only [entriesDirectives, List.append_nil]

end Value

/-- The directives of a statement. -/
def Statement.directives : Statement → List (Directive × String)
  | .comment _ => []
  | .assignment _ v => v.directives
  | .inclusion path => [(.inclusion, path)]
  | .extension path => [(.extension, path)]

/-- The directives of statements one after another. -/
def Node.directives (nodes : List Node) : List (Directive × String) :=
  nodes.flatMap fun node => node.statement.directives

@[simp] theorem Node.directives_cons (node : Node) (nodes : List Node) :
    Node.directives (node :: nodes) = node.statement.directives ++ Node.directives nodes := rfl

/-- **The directives of a document**, in the order in which it holds them. -/
def Document.directives (d : Document) : List (Directive × String) := Node.directives d.nodes

/-! ## Tokens -/

namespace Grammar

open Token (directives)

/-- A token that is no directive does not matter. -/
theorem directives_cons_of_ne {t : Token} (h : ∀ d, t.kind ≠ .directive d) (ts : List Token) :
    directives (t :: ts) = directives ts := by
  obtain ⟨kind, lexeme, line⟩ := t
  cases kind with
  | directive d => exact absurd rfl (h d)
  | _ => rfl

@[simp] theorem directives_mark_cons (m : Mark) {kind : TokenKind} (h : ∀ d, kind ≠ .directive d)
    (ts : List Token) : directives (m.token kind :: ts) = directives ts :=
  directives_cons_of_ne h ts

@[simp] theorem directives_remarks (remarks : List Remark) (ts : List Token) :
    directives (remarks.map Remark.token ++ ts) = directives ts := by
  induction remarks with
  | nil => rfl
  | cons r remarks ih => exact (directives_mark_cons r.mark (by simp) _).trans ih

@[simp] theorem directives_lines (lines : List BodyLine) (ts : List Token) :
    directives (lines.map BodyLine.token ++ ts) = directives ts := by
  induction lines with
  | nil => rfl
  | cons l lines ih => exact (directives_mark_cons l.mark (by simp) _).trans ih

/-- A directive and its path. -/
theorem directives_file (m pm : Mark) (d : Directive) (path : String) (ts : List Token) :
    directives (m.token (.directive d) :: pm.token (.path path) :: ts) =
      (d, path) :: directives ts := rfl

mutual

/-- A value in which no object repeats a key holds its directives in the order of its tokens. -/
theorem ValueTree.directives_tokens : ∀ (v : ValueTree) (ts : List Token), v.notes = [] →
    directives (v.tokens ++ ts) = v.value.directives ++ directives ts
  | .literal m l, ts, _ => by cases l <;> rfl
  | .file m f pm path, ts, _ => by cases f <;> rfl
  | .emptyArray o remarks c, ts, _ => by
    simp [ValueTree.tokens, ValueTree.value, Value.directives, Value.itemsDirectives]
  | .array o items c, ts, h => by
    simp [ValueTree.tokens, ValueTree.value, Value.directives, items.directives_tokens _ h]
  | .emptyObject o remarks c, ts, _ => by
    simp [ValueTree.tokens, ValueTree.value, Value.directives, Value.entriesDirectives]
  | .object o entries c, ts, h => by
    have hentries := entries.directives_tokens (d := []) (c.token .rightBrace :: ts) h
      (List.forall_mem_nil _)
    simpa [ValueTree.tokens, ValueTree.value, Value.directives, Value.entriesDirectives]
      using hentries

theorem ItemsTree.directives_tokens : ∀ (items : ItemsTree) (ts : List Token), items.notes = [] →
    directives (items.tokens ++ ts) = Value.itemsDirectives items.values ++ directives ts
  | .last before v after, ts, h => by
    simp [ItemsTree.tokens, ItemsTree.values, Value.itemsDirectives, v.directives_tokens _ h]
  | .more before v after comma rest, ts, h => by
    obtain ⟨hv, hrest⟩ := List.append_eq_nil_iff.mp h
    simp [ItemsTree.tokens, ItemsTree.values, Value.itemsDirectives, v.directives_tokens _ hv,
      rest.directives_tokens _ hrest]

theorem EntriesTree.directives_tokens : ∀ (entries : EntriesTree) {d : Dict Value}
    {seen : List String} (ts : List Token), entries.notes seen = [] →
      (∀ k ∈ Dict.keys d, k ∈ seen) →
        Value.entriesDirectives d ++ directives (entries.tokens ++ ts) =
          Value.entriesDirectives (entries.insertInto d) ++ directives ts
  | .last before m key colon v after, d, seen, ts, h, hseen => by
    obtain ⟨hv, hkey⟩ := List.append_eq_nil_iff.mp h
    have hnew : key ∉ Dict.keys d := fun hmem => by simp [hseen key hmem] at hkey
    simp [EntriesTree.tokens, EntriesTree.insertInto, Value.entriesDirectives_insert hnew,
      v.directives_tokens _ hv]
  | .more before m key colon v after comma rest, d, seen, ts, h, hseen => by
    obtain ⟨h, hrest⟩ := List.append_eq_nil_iff.mp h
    obtain ⟨hv, hkey⟩ := List.append_eq_nil_iff.mp h
    have hnew : key ∉ Dict.keys d := fun hmem => by simp [hseen key hmem] at hkey
    have hkeys : ∀ k ∈ Dict.keys (Dict.insert d key v.value), k ∈ key :: seen := by
      rw [Dict.keys_insert, if_neg hnew]
      intro k hk
      rcases List.mem_append.mp hk with hk | hk
      · exact List.mem_cons_of_mem _ (hseen k hk)
      · exact List.mem_singleton.mp hk ▸ List.mem_cons_self
    have hentries := rest.directives_tokens ts hrest hkeys
    rw [Value.entriesDirectives_insert hnew, List.append_assoc] at hentries
    simp [EntriesTree.tokens, EntriesTree.insertInto, v.directives_tokens _ hv, hentries]

end

theorem StatementTree.directives_tokens (stripHint : Bool) (s : StatementTree) (ts : List Token)
    (h : s.notes = []) : directives (s.tokens ++ ts) =
      (s.statement stripHint).directives ++ directives ts := by
  cases s with
  | comment r => exact directives_mark_cons r.mark (by simp) ts
  | assigned m key equals v =>
    simp [StatementTree.tokens, StatementTree.statement, Statement.directives,
      v.directives_tokens _ h]
  | empty | body | inclusion | extension =>
    simp [StatementTree.tokens, StatementTree.statement, Statement.directives, Value.directives,
      Atom.directives, directives_file]

theorem directives_tokens (stripHint : Bool) (g : List StatementTree) (ts : List Token)
    (h : (document stripHint g).notes = []) : directives (tokens g ++ ts) =
      (document stripHint g).directives ++ directives ts := by
  induction g with
  | nil => rfl
  | cons s g ih =>
    obtain ⟨hs, hg⟩ := List.append_eq_nil_iff.mp h
    rw [tokens, List.append_assoc, s.directives_tokens stripHint _ hs, ih hg]
    exact (List.append_assoc _ _ _).symm

end Grammar

/-- **A document that deserves no warning holds its directives in the order of its text.** -/
theorem Document.directives_of_notes {options : Options} {text : String} {d : Document}
    (h : ofScannedText options text = .ok d) (hnotes : d.notes = []) :
    ∃ ts, Token.ofText? options.componentStart text = .ok ts ∧
      d.directives = Token.directives ts := by
  obtain ⟨g, last, hts, -, rfl⟩ :=
    ofText_eq_ok_iff_exists_derivation.mp (ofScannedText_eq_ok_iff.mp h)
  refine ⟨_, Token.ofText?_of_scans hts, ?_⟩
  have hlast : Token.directives [last] = [] :=
    Grammar.directives_cons_of_ne (by simp [hts.kind_last]) []
  rw [Grammar.directives_tokens options.stripHint g [last] hnotes, hlast, List.append_nil]

end Courseware
