/-
Predicates on the parts of a value.

`Value.Forall` says of a value that its atoms satisfy one predicate and the keys
of each object in it another. The first of these predicates that others use is
that no atom opens a document (`Value.OpensNone`).
-/
import Courseware.Document.Basic

namespace Courseware.Value

variable {atoms : Atom → Prop} {keys : List String → Prop}

mutual

/-- Whether the atoms of a value satisfy a predicate, and the keys of each of its objects another
one. -/
def Forall (atoms : Atom → Prop) (keys : List String → Prop) : Value → Prop
  | .atom _ a => atoms a
  | .array _ items => ForallItems atoms keys items
  | .object _ entries => keys (entries.map Prod.fst) ∧ ForallEntries atoms keys entries

def ForallItems (atoms : Atom → Prop) (keys : List String → Prop) : List Value → Prop
  | [] => True
  | item :: items => item.Forall atoms keys ∧ ForallItems atoms keys items

def ForallEntries (atoms : Atom → Prop) (keys : List String → Prop) :
    List (String × Value) → Prop
  | [] => True
  | (_, v) :: entries => v.Forall atoms keys ∧ ForallEntries atoms keys entries

end

/-- Whether a value opens no document: none of its atoms is the variables of one. -/
def OpensNone (v : Value) : Prop :=
  v.Forall (fun a => ∀ path, a ≠ .dictionary path) fun _ => True

mutual

theorem forall_trivial : ∀ v : Value, v.Forall (fun _ => True) fun _ => True
  | .atom _ _ => trivial
  | .array _ items => forallItems_trivial items
  | .object _ entries => ⟨trivial, forallEntries_trivial entries⟩

theorem forallItems_trivial : ∀ items : List Value,
    ForallItems (fun _ => True) (fun _ => True) items
  | [] => trivial
  | v :: items => ⟨v.forall_trivial, forallItems_trivial items⟩

theorem forallEntries_trivial : ∀ entries : List (String × Value),
    ForallEntries (fun _ => True) (fun _ => True) entries
  | [] => trivial
  | (_, v) :: entries => ⟨v.forall_trivial, forallEntries_trivial entries⟩

end

mutual

/-- Two predicates on the atoms of a value at once. -/
theorem Forall.and {p q : Atom → Prop} {keys : List String → Prop} : ∀ {v : Value},
    v.Forall p keys → v.Forall q (fun _ => True) → v.Forall (fun a => p a ∧ q a) keys
  | .atom _ _, hp, hq => ⟨hp, hq⟩
  | .array _ _, hp, hq => ForallItems.and hp hq
  | .object _ _, hp, hq => ⟨hp.1, ForallEntries.and hp.2 hq.2⟩

theorem ForallItems.and {p q : Atom → Prop} {keys : List String → Prop} : ∀ {vs : List Value},
    ForallItems p keys vs → ForallItems q (fun _ => True) vs →
      ForallItems (fun a => p a ∧ q a) keys vs
  | [], _, _ => trivial
  | _ :: _, hp, hq => ⟨Forall.and hp.1 hq.1, ForallItems.and hp.2 hq.2⟩

theorem ForallEntries.and {p q : Atom → Prop} {keys : List String → Prop} :
    ∀ {es : List (String × Value)}, ForallEntries p keys es → ForallEntries q (fun _ => True) es →
      ForallEntries (fun a => p a ∧ q a) keys es
  | [], _, _ => trivial
  | (_, _) :: _, hp, hq => ⟨Forall.and hp.1 hq.1, ForallEntries.and hp.2 hq.2⟩

end

theorem forallEntries_insert {d : Dict Value} (hd : ForallEntries atoms keys d) (k : String)
    {v : Value} (hv : v.Forall atoms keys) : ForallEntries atoms keys (Dict.insert d k v) := by
  induction d with
  | nil => exact ⟨hv, trivial⟩
  | cons entry d ih =>
    obtain ⟨key, w⟩ := entry
    rw [Dict.insert]
    split
    · exact ⟨hv, hd.2⟩
    · exact ⟨hd.1, ih hd.2⟩

end Courseware.Value
