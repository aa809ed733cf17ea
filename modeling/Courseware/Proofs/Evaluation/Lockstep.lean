/-
Two evaluations in lockstep.

Resolving a value takes the steps of its atoms, one after another, and records
the errors of items and entries that have no value. So two evaluations of a
value whose states correspond before each atom and after it (`AtomsAgree`) end in
states that correspond, with values that are similar or with diagnostics that
correspond (`Lockstep.resolve_agree`). What corresponds to what is up to the two
evaluations: a `Lockstep` says so.

An evaluation may be in step with another one only as long as it asks for certain
files or opens certain ones. What holds of all events of a journal
(`Journal.Holds`) holds of those of any journal that it goes on from, so it is
enough to ask that of the journal at the end.
-/
import Courseware.Proofs.Evaluation.JournalGrowth
import Courseware.Proofs.Variables.Similar

namespace Courseware

namespace Journal

/-- Whether something holds of every event of a journal and of the files that were open then. -/
def Holds (p : List String → Event → Prop) (j : Journal) : Prop :=
  ∀ event ∈ j.events, p event.1 event.2

instance (p : List String → Event → Prop) [∀ stack event, Decidable (p stack event)]
    (j : Journal) : Decidable (j.Holds p) :=
  inferInstanceAs (Decidable (∀ event ∈ j.events, p event.1 event.2))

theorem Holds.of_continues {p : List String → Event → Prop} {j j' : Journal} (h : j'.Holds p)
    (hj : j.Continues j') : j.Holds p := by
  obtain ⟨events, hevents, -⟩ := hj
  intro event hmem
  refine h event ?_
  rw [hevents]
  exact List.mem_append_left _ hmem

/-- What holds of all events holds of the last one. -/
theorem Holds.last {p : List String → Event → Prop} {j : Journal} {stack : List String}
    {event : Event} (h : (j.record stack event).Holds p) : p stack event :=
  h (stack, event) (List.mem_append_right _ List.mem_cons_self)

end Journal

namespace Evaluation

/-- **What corresponds to what** in two evaluations of the same statements. -/
structure Lockstep where
  States : Evaluation → Evaluation → Prop
  /-- The texts in values that may stand for one another. -/
  Texts : String → String → Prop
  Diagnostics : Diagnostic → Diagnostic → Prop
  withError {s s' : Evaluation} {d d' : Diagnostic} (h : States s s') (hd : Diagnostics d d') :
    States (s.withError d) (s'.withError d')

namespace Lockstep

variable {l : Lockstep}

/-- Whether two values come out alike: with similar values, or with diagnostics that correspond. -/
inductive Outcomes (l : Lockstep) : Except Diagnostic Json → Except Diagnostic Json → Prop
  | ok {v v' : Json} (h : Json.Similar l.Texts v v') : Outcomes l (.ok v) (.ok v')
  | error {d d' : Diagnostic} (h : l.Diagnostics d d') : Outcomes l (.error d) (.error d')

/-- Whether two values come out alike and leave states that correspond. -/
structure Agree (l : Lockstep) (r r' : Except Diagnostic Json × Evaluation) : Prop where
  outcomes : l.Outcomes r.1 r'.1
  states : l.States r.2 r'.2

variable {ctx ctx' : Context} {p : List String → Event → Prop} {atoms : Atom → Prop}
variable {deeper deeper' : Option Visit}

/-- Whether atoms of some kind come out alike, as long as something holds of all that happens. -/
def AtomsAgree (l : Lockstep) (ctx ctx' : Context) (p : List String → Event → Prop)
    (atoms : Atom → Prop) (deeper deeper' : Option Visit) : Prop :=
  ∀ (line : Nat) (a : Atom), atoms a → ∀ s s' : Evaluation, l.States s s' →
    (s.resolveAtom ctx deeper line a).2.journal.Holds p →
      l.Agree (s.resolveAtom ctx deeper line a) (s'.resolveAtom ctx' deeper' line a)

mutual

/-- **A value comes out alike if its atoms do.** -/
theorem resolve_agree (hgrows : Continuing deeper)
    (hatoms : l.AtomsAgree ctx ctx' p atoms deeper deeper') :
    ∀ (v : Value) {s s' : Evaluation}, v.Forall atoms (fun _ => True) → l.States s s' →
      (Evaluation.resolve ctx deeper v s).2.journal.Holds p →
        l.Agree (Evaluation.resolve ctx deeper v s) (Evaluation.resolve ctx' deeper' v s')
  | .atom line a, _, _, hv, h, hp => hatoms line a hv _ _ h hp
  | .array _ items, _, _, hv, h, hp => by
    simp only [Evaluation.resolve] at hp ⊢
    obtain ⟨hitems, ht⟩ := resolveItems_agree hgrows hatoms items hv h hp
    exact ⟨.ok (.arr hitems), ht⟩
  | .object _ entries, _, _, hv, h, hp => by
    simp only [Evaluation.resolve] at hp ⊢
    obtain ⟨hentries, ht⟩ := resolveEntries_agree hgrows hatoms entries hv.2 h hp
    exact ⟨.ok (.obj hentries), ht⟩

theorem resolveItems_agree (hgrows : Continuing deeper)
    (hatoms : l.AtomsAgree ctx ctx' p atoms deeper deeper') :
    ∀ (items : List Value) {s s' : Evaluation}, Value.ForallItems atoms (fun _ => True) items →
      l.States s s' → (resolveItems ctx deeper items s).2.journal.Holds p →
        Json.ItemsSimilar l.Texts (resolveItems ctx deeper items s).1
          (resolveItems ctx' deeper' items s').1 ∧
        l.States (resolveItems ctx deeper items s).2 (resolveItems ctx' deeper' items s').2
  | [], _, _, _, h, _ => ⟨.nil, h⟩
  | item :: items, s, s', ⟨hv, hvs⟩, h, hp => by
    rw [resolveItems_cons] at hp
    have hearlier := hp.of_continues (resolveItems_continues hgrows items _)
    rw [settled_journal] at hearlier
    have hitem := resolve_agree hgrows hatoms item hv h hearlier
    simp only [resolveItems]
    rcases hresolve : Evaluation.resolve ctx deeper item s with ⟨r, t⟩
    rcases hresolve' : Evaluation.resolve ctx' deeper' item s' with ⟨r', t'⟩
    rw [hresolve, hresolve'] at hitem
    rw [hresolve] at hp
    obtain ⟨houtcomes, ht⟩ := hitem
    cases houtcomes with
    | ok hjson =>
      obtain ⟨hitems, hu⟩ := resolveItems_agree hgrows hatoms items hvs ht hp
      exact ⟨.cons hjson hitems, hu⟩
    | error hd =>
      obtain ⟨hitems, hu⟩ := resolveItems_agree hgrows hatoms items hvs (l.withError ht hd) hp
      exact ⟨.cons .null hitems, hu⟩

theorem resolveEntries_agree (hgrows : Continuing deeper)
    (hatoms : l.AtomsAgree ctx ctx' p atoms deeper deeper') :
    ∀ (entries : List (String × Value)) {s s' : Evaluation},
      Value.ForallEntries atoms (fun _ => True) entries → l.States s s' →
        (resolveEntries ctx deeper entries s).2.journal.Holds p →
          Json.EntriesSimilar l.Texts (resolveEntries ctx deeper entries s).1
            (resolveEntries ctx' deeper' entries s').1 ∧
          l.States (resolveEntries ctx deeper entries s).2
            (resolveEntries ctx' deeper' entries s').2
  | [], _, _, _, h, _ => ⟨.nil, h⟩
  | (key, v) :: entries, s, s', ⟨hv, hvs⟩, h, hp => by
    rw [resolveEntries_cons] at hp
    have hearlier := hp.of_continues (resolveEntries_continues hgrows entries _)
    rw [settled_journal] at hearlier
    have hentry := resolve_agree hgrows hatoms v hv h hearlier
    simp only [resolveEntries]
    rcases hresolve : Evaluation.resolve ctx deeper v s with ⟨r, t⟩
    rcases hresolve' : Evaluation.resolve ctx' deeper' v s' with ⟨r', t'⟩
    rw [hresolve, hresolve'] at hentry
    rw [hresolve] at hp
    obtain ⟨houtcomes, ht⟩ := hentry
    cases houtcomes with
    | ok hjson =>
      obtain ⟨hentries, hu⟩ := resolveEntries_agree hgrows hatoms entries hvs ht hp
      exact ⟨.cons hjson hentries, hu⟩
    | error hd => exact resolveEntries_agree hgrows hatoms entries hvs (l.withError ht hd) hp

end

end Lockstep

end Evaluation

end Courseware
