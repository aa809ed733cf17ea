/-
Journals go on.

An evaluation forgets nothing that it has recorded: whatever is evaluated in a
state, in it or inside it, the journal afterwards goes on from the one before
(`visit_continues`). So what is asked of all events of a whole compilation holds
at every step of it for those recorded so far.
-/
import Courseware.Proofs.Evaluation.Recorded

namespace Courseware

/-- Whether an event opens no file inside open ones but one that may be opened there. -/
def Event.Allowed (allowed : (stack : List String) → (target : String) → Prop)
    (stack : List String) : Event → Prop
  | .nest target => allowed stack target
  | .call _ => True

instance (allowed : List String → String → Prop) [∀ stack target, Decidable (allowed stack target)]
    (stack : List String) : (event : Event) → Decidable (event.Allowed allowed stack)
  | .nest target => inferInstanceAs (Decidable (allowed stack target))
  | .call _ => inferInstanceAs (Decidable True)

namespace Journal

/-- Whether a journal goes on from an earlier one. -/
abbrev Continues (j j' : Journal) : Prop := j.GoesOn (fun _ => True) j'

/-- Whether every file that was tried to be opened was one that may be, inside those that were open
then. -/
def Allows (allowed : (stack : List String) → (target : String) → Prop) (j : Journal) : Prop :=
  ∀ event ∈ j.events, event.2.Allowed allowed event.1

instance (allowed : List String → String → Prop) [∀ stack target, Decidable (allowed stack target)]
    (j : Journal) : Decidable (j.Allows allowed) :=
  inferInstanceAs (Decidable (∀ event ∈ j.events, event.2.Allowed allowed event.1))

theorem allows_true (j : Journal) : j.Allows fun _ _ => True := by
  rintro ⟨stack, call | target⟩ _ <;> trivial

theorem Allows.of_continues {allowed : List String → String → Prop} {j j' : Journal}
    (h : j'.Allows allowed) (hj : j.Continues j') : j.Allows allowed := by
  obtain ⟨events, hevents, -⟩ := hj
  intro event hmem
  refine h event ?_
  rw [hevents]
  exact List.mem_append_left _ hmem

end Journal

open Journal

namespace Evaluation

variable {ctx : Context} {deeper : Option Visit}

/-- Whether the journal goes on in what is made of statements. -/
def Visit.Continuing (visit : Visit) : Prop :=
  ∀ (s : Evaluation) (node : Node), s.journal.Continues (visit s node).journal

/-- Whether it does in the documents one level deeper, if there is one. -/
def Continuing (deeper : Option Visit) : Prop := ∀ visit, deeper = some visit → visit.Continuing

theorem keep_continues {visit : Visit} (h : visit.Continuing) : Visit.Continuing (keep visit) :=
  fun s node => h s { node with origin := s.current }

theorem accumulates_continues :
    Accumulates fun s t : Evaluation => s.journal.Continues t.journal where
  refl s := GoesOn.refl s.journal
  trans h h' := h.trans h'
  withError h _ := h

theorem foldl_continues {visit : Visit} (h : visit.Continuing) (nodes : List Node)
    (s : Evaluation) : s.journal.Continues (nodes.foldl visit s).journal :=
  accumulates_continues.foldl (fun node _ s => h s node) s

theorem run_continues {visit : Visit} (h : visit.Continuing) (document : Document)
    (s : Evaluation) : s.journal.Continues (s.run visit document).journal := by
  have hnodes := foldl_continues (keep_continues h) document.nodes
    (s.withNotes s.current document.notes)
  rw [withNotes_journal] at hnodes
  exact hnodes

theorem record_continues (s : Evaluation) (event : Event) :
    s.journal.Continues (s.record event).journal :=
  goesOn_record trivial _ _

theorem compileNested_continues (hvisit : Continuing deeper) (s : Evaluation) (target : String) :
    (s.record (.nest target)).journal.Continues
      (s.compileNested ctx deeper target).2.journal := by
  have hcases := s.compileNested_cases ctx deeper target
  generalize s.compileNested ctx deeper target = r at hcases
  cases hcases with
  | refused => exact GoesOn.refl _
  | unread hread | unparsed _ hread =>
    have hasked := readText_goesOn (p := fun _ => True) hread trivial
    exact hasked
  | @compiled visit file _ j document hdeeper _ hread =>
    have hasked := readText_goesOn (p := fun _ => True) hread trivial
    exact hasked.trans (run_continues (hvisit visit hdeeper) document (start file s.stack j))

/-- A document that may be opened is read first. -/
theorem compileNested_reads {visit : Visit} (hvisit : visit.Continuing) {s t : Evaluation}
    {target : String} (henter : s.enter ctx deeper target = (.ok visit, t)) :
    (t.readText ctx target).2.journal.Continues
      (s.compileNested ctx deeper target).2.journal := by
  unfold compileNested
  rw [henter]
  dsimp only
  rcases t.readText ctx target with ⟨e | ⟨file, text⟩, u⟩
  · exact GoesOn.refl _
  · dsimp only
    cases Document.ofScannedText ctx.options text with
    | error e => exact GoesOn.refl _
    | ok document => exact run_continues hvisit document (start file u.stack u.journal)

theorem bindVariables_journal (s : Evaluation) (raw : String) (line : Nat) :
    (s.bindVariables ctx deeper raw line).2.journal =
      (s.compileNested ctx deeper (Path.resolve s.current raw)).2.journal := by
  unfold bindVariables
  dsimp only
  split
  · next heq => rw [heq]
  · next heq => rw [heq]

theorem resolveAtom_continues (hdeeper : Continuing deeper) (s : Evaluation) (line : Nat)
    (a : Atom) : s.journal.Continues (s.resolveAtom ctx deeper line a).2.journal := by
  cases a with
  | string | number | boolean => exact GoesOn.refl _
  | component selector => exact ⟨[], (List.append_nil _).symm, List.forall_mem_nil _⟩
  | reference name =>
    unfold resolveAtom
    dsimp only
    split <;> exact GoesOn.refl _
  | url path => exact copyUrl_goesOn trivial path line
  | content path => exact copyContent_goesOn trivial path line
  | dictionary path =>
    simp only [resolveAtom, bindVariables_journal]
    exact (record_continues s _).trans (compileNested_continues hdeeper s _)

theorem resolve_continues (hdeeper : Continuing deeper) (v : Value) (s : Evaluation) :
    s.journal.Continues (resolve ctx deeper v s).2.journal :=
  accumulates_continues.resolve (fun line a s _ => resolveAtom_continues hdeeper s line a)
    v s v.forall_trivial

theorem resolveItems_continues (hdeeper : Continuing deeper) (items : List Value)
    (s : Evaluation) : s.journal.Continues (resolveItems ctx deeper items s).2.journal :=
  accumulates_continues.resolveItems
    (fun line a s _ => resolveAtom_continues hdeeper s line a) items s
    (Value.forallItems_trivial items)

theorem resolveEntries_continues (hdeeper : Continuing deeper)
    (entries : List (String × Value)) (s : Evaluation) :
    s.journal.Continues (resolveEntries ctx deeper entries s).2.journal :=
  accumulates_continues.resolveEntries
    (fun line a s _ => resolveAtom_continues hdeeper s line a) entries s
    (Value.forallEntries_trivial entries)

theorem openInclusion_continues {α : Type} (ctx : Context) (deeper : Option α) (s : Evaluation)
    (raw : String) (line : Nat) :
    match s.openInclusion ctx deeper raw line with
    | .error t => (s.record (.nest (Path.resolve s.current raw))).journal.Continues t.journal
    | .ok i =>
        (s.record (.nest (Path.resolve s.current raw))).journal.Continues i.before.journal := by
  have hcases := s.openInclusion_cases ctx deeper raw line
  generalize s.openInclusion ctx deeper raw line = r at hcases
  cases hcases with
  | refused e => exact GoesOn.refl _
  | unread hread =>
    have hasked := readText_goesOn (p := fun _ => True) hread trivial
    exact hasked
  | unparsed _ hread | included _ _ hread =>
    have hasked := readText_goesOn (p := fun _ => True) hread trivial
    dsimp only [withError]
    rw [withInclusion_journal]
    exact hasked

theorem visitInclusion_continues (hdeeper : Continuing deeper) (s : Evaluation) (raw : String)
    (line : Nat) : (s.record (.nest (Path.resolve s.current raw))).journal.Continues
      (s.visitInclusion ctx deeper raw line).journal := by
  have hasked := openInclusion_continues ctx deeper s raw line
  unfold visitInclusion
  cases hopen : s.openInclusion ctx deeper raw line with
  | error t =>
    rw [hopen] at hasked
    exact hasked
  | ok i =>
    rw [hopen] at hasked
    have hinside := foldl_continues (hdeeper _ (openInclusion_opens hopen).1) i.document.nodes
      i.inside
    have hjournal : i.inside.journal = i.before.journal := withNotes_journal _ _ _
    rw [hjournal] at hinside
    exact hasked.trans hinside

theorem visitInclusion_reads {visit : Visit} (hvisit : visit.Continuing) {s t : Evaluation}
    {raw : String} (line : Nat)
    (henter : s.enter ctx deeper (Path.resolve s.current raw) = (.ok visit, t)) :
    (t.readText ctx (Path.resolve s.current raw)).2.journal.Continues
      (s.visitInclusion ctx deeper raw line).journal := by
  unfold visitInclusion openInclusion
  dsimp only
  rw [henter]
  dsimp only
  rcases t.readText ctx (Path.resolve s.current raw) with ⟨e | ⟨file, text⟩, u⟩
  · exact GoesOn.refl u.journal
  · have hbefore := u.withInclusion_journal file text line
    dsimp only
    cases Document.ofScannedText ctx.options text with
    | error e =>
      dsimp only [withError]
      rw [hbefore]
      exact GoesOn.refl _
    | ok document =>
      have hinside := foldl_continues hvisit document.nodes (Inclusion.inside
        ⟨visit, file, document, u.withInclusion file text line⟩)
      have hjournal : (Inclusion.inside ⟨visit, file, document,
          u.withInclusion file text line⟩).journal = u.journal :=
        (withNotes_journal _ _ _).trans hbefore
      rw [hjournal] at hinside
      exact hinside

theorem visitExtension_journal (s : Evaluation) (raw : String) (line : Nat) :
    (s.visitExtension ctx deeper raw line).journal =
      (s.compileNested ctx deeper (Path.resolve s.current raw)).2.journal := by
  unfold visitExtension
  dsimp only
  split
  · next heq =>
    rw [heq]
    rfl
  · next heq => rw [heq]

theorem visitWith_continues (hdeeper : Continuing deeper) (s : Evaluation) (node : Node) :
    s.journal.Continues (s.visitWith ctx deeper node).journal := by
  unfold visitWith
  cases node.statement with
  | comment => exact GoesOn.refl s.journal
  | assignment key v =>
    dsimp only
    rw [visitAssignment_journal]
    exact resolve_continues hdeeper v { s with assigning := some key }
  | inclusion path =>
    exact (record_continues s _).trans (visitInclusion_continues hdeeper s path node.line)
  | extension path =>
    dsimp only
    rw [visitExtension_journal]
    exact (record_continues s _).trans (compileNested_continues hdeeper s _)

/-- **A statement only adds to the journal**, and so does all that it opens. -/
theorem visit_continues : ∀ levels, Visit.Continuing (visit ctx levels)
  | 0 => visitWith_continues fun _ h => by cases h
  | levels + 1 => visitWith_continues fun visit h => by
    cases h
    exact visit_continues levels

theorem continuing_below (levels : Nat) : Continuing (below ctx levels) := by
  cases levels with
  | zero => exact fun _ h => by cases h
  | succ levels =>
    intro visit h
    cases h
    exact visit_continues levels

end Evaluation

end Courseware
