/-
What a compilation records, it records at one of its points.

The journal of a compilation lists its questions to the library and the files it
tried to open, each with the files that were open then. All of these are the
open files of a point (`outcome_goesOn`): no statement, value or nested document
is evaluated anywhere else. So what holds of the open files at all points holds
of all that is in the journal.
-/
import Courseware.Proofs.Evaluation.Points

namespace Courseware

namespace Journal

/-- Whether a journal goes on from an earlier one, with open files of some kind at each event. -/
def GoesOn (p : List String → Prop) (j j' : Journal) : Prop :=
  ∃ events, j'.events = j.events ++ events ∧ ∀ event ∈ events, p event.1

variable {p : List String → Prop} {j j' j'' : Journal}

theorem GoesOn.refl (j : Journal) : GoesOn p j j :=
  ⟨[], (List.append_nil _).symm, List.forall_mem_nil _⟩

theorem GoesOn.trans (h : GoesOn p j j') (h' : GoesOn p j' j'') : GoesOn p j j'' := by
  obtain ⟨events, hevents, hp⟩ := h
  obtain ⟨events', hevents', hp'⟩ := h'
  refine ⟨events ++ events', ?_, List.forall_mem_append.mpr ⟨hp, hp'⟩⟩
  rw [hevents', hevents, List.append_assoc]

theorem GoesOn.mono {q : List String → Prop} (h : GoesOn p j j')
    (hpq : ∀ stack, p stack → q stack) : GoesOn q j j' := by
  obtain ⟨events, hevents, hp⟩ := h
  exact ⟨events, hevents, fun event hevent => hpq _ (hp event hevent)⟩

theorem goesOn_record {stack : List String} (h : p stack) (j : Journal) (event : Event) :
    GoesOn p j (j.record stack event) :=
  ⟨[(stack, event)], rfl, List.forall_mem_singleton.mpr h⟩

end Journal

open Journal

theorem Library.askText_goesOn (library : Library) {p : List String → Prop} {stack : List String}
    (h : p stack) (path version : String) (j : Journal) :
    GoesOn p j (library.askText stack path version j).2 := by
  have hlocate := goesOn_record h j (.call (.locate path version))
  simp only [askText, askLocate, askContent]
  cases library.locate path version with
  | error e => exact hlocate
  | ok file =>
    dsimp only
    cases library.content file with
    | error e => exact hlocate.trans (goesOn_record h _ _)
    | ok bytes => exact hlocate.trans (goesOn_record h _ _)

namespace Evaluation

variable {ctx : Context} {request : Request} {journal : Journal} {levels : Nat} {s : Evaluation}

/-- Whether files are open at a point of a compilation. -/
def OpenAtPoint (ctx : Context) (request : Request) (journal : Journal) (stack : List String) :
    Prop :=
  ∃ levels s task, Point ctx request journal levels s task ∧ s.stack = stack

theorem Point.openAtPoint {task : Task} (h : Point ctx request journal levels s task) :
    OpenAtPoint ctx request journal s.stack :=
  ⟨levels, s, task, h, rfl⟩

/-- Whether all statements with some levels below them record at points what they record. -/
def RecordsAtPoints (ctx : Context) (request : Request) (journal : Journal) (levels : Nat) : Prop :=
  ∀ {s : Evaluation} {own : Bool} {node : Node} {nodes : List Node},
    Point ctx request journal levels s (.statements own (node :: nodes)) →
      GoesOn (OpenAtPoint ctx request journal) s.journal (visit ctx levels s node).journal

/-- Whether all statements one level deeper record at points what they record. -/
def RecordsBelow (ctx : Context) (request : Request) (journal : Journal) (levels : Nat) : Prop :=
  ∀ l, levels = l + 1 → RecordsAtPoints ctx request journal l

/-! ## Documents -/

theorem settled_journal (r : Except Diagnostic Json × Evaluation) :
    (settled r).journal = r.2.journal := by
  rcases r with ⟨d | json, t⟩ <;> rfl

/-- Where a node comes from does not matter to its evaluation. -/
theorem visit_origin (levels : Nat) (s : Evaluation) (node : Node) (origin : String) :
    visit ctx levels s { node with origin } = visit ctx levels s node := by
  rw [visit_eq, visit_eq]
  rfl

theorem visitOrKeep_journal (own : Bool) (levels : Nat) (s : Evaluation) (node : Node) :
    (visitOrKeep own (visit ctx levels) s node).journal = (visit ctx levels s node).journal := by
  cases own with
  | false => rfl
  | true =>
    show (visit ctx levels s { node with origin := s.current }).journal = _
    rw [visit_origin]

theorem foldl_goesOn (hvisit : RecordsAtPoints ctx request journal levels) {own : Bool}
    {nodes : List Node} (h : Point ctx request journal levels s (.statements own nodes)) :
    GoesOn (OpenAtPoint ctx request journal) s.journal
      (nodes.foldl (visitOrKeep own (visit ctx levels)) s).journal := by
  induction nodes generalizing s with
  | nil => exact GoesOn.refl _
  | cons node nodes ih =>
    have hnode := hvisit h
    rw [← visitOrKeep_journal own] at hnode
    exact hnode.trans (ih h.next)

/-! ## Questions -/

section Questions

variable {p : List String → Prop} {t : Evaluation} {target : String}

theorem readText_goesOn {found : Except Error (Descriptor × String)}
    (h : s.readText ctx target = (found, t)) (hp : p s.stack) : GoesOn p s.journal t.journal := by
  have ht : (s.readText ctx target).2 = t := congrArg Prod.snd h
  rw [← ht]
  exact ctx.library.askText_goesOn hp _ _ _

theorem locate_goesOn {found : Except Error Descriptor}
    (h : s.locate ctx target = (found, t)) (hp : p s.stack) : GoesOn p s.journal t.journal := by
  have ht : (s.locate ctx target).2 = t := congrArg Prod.snd h
  rw [← ht]
  exact goesOn_record hp _ _

theorem content_goesOn {file : Descriptor} {bytes : Except Error ByteArray}
    (h : s.content ctx file = (bytes, t)) (hp : p s.stack) : GoesOn p s.journal t.journal := by
  have ht : (s.content ctx file).2 = t := congrArg Prod.snd h
  rw [← ht]
  exact goesOn_record hp _ _

theorem copyUrl_goesOn (hp : p s.stack) (raw : String) (line : Nat) :
    GoesOn p s.journal (s.copyUrl ctx raw line).2.journal := by
  unfold copyUrl
  split
  · next h => exact locate_goesOn h hp
  · next h =>
    have hlocate := locate_goesOn h hp
    obtain ⟨j, rfl⟩ := locate_onlyJournal h
    exact hlocate.trans (goesOn_record hp _ _)

theorem copyContent_goesOn (hp : p s.stack) (raw : String) (line : Nat) :
    GoesOn p s.journal (s.copyContent ctx raw line).2.journal := by
  unfold copyContent
  dsimp only
  split
  · next h => exact locate_goesOn h hp
  · next h =>
    have hlocate := locate_goesOn h hp
    obtain ⟨j, rfl⟩ := locate_onlyJournal h
    split
    · next h' => exact hlocate.trans (content_goesOn h' hp)
    · next h' => exact hlocate.trans (content_goesOn h' hp)

theorem openInclusion_goesOn {α : Type} (ctx : Context) (hp : p s.stack) (deeper : Option α)
    (raw : String) (line : Nat) :
    match s.openInclusion ctx deeper raw line with
    | .error t => GoesOn p s.journal t.journal
    | .ok i => GoesOn p s.journal i.before.journal := by
  have htry : GoesOn p s.journal (s.record (.nest (Path.resolve s.current raw))).journal :=
    goesOn_record hp _ _
  have hcases := s.openInclusion_cases ctx deeper raw line
  generalize s.openInclusion ctx deeper raw line = r at hcases
  cases hcases with
  | refused e => exact htry
  | unread hread =>
    have hasked := htry.trans (readText_goesOn hread hp)
    exact hasked
  | unparsed _ hread | included _ _ hread =>
    have hasked := htry.trans (readText_goesOn hread hp)
    dsimp only [withError]
    rw [withInclusion_journal]
    exact hasked

end Questions

/-- A nested document is evaluated at points, if its first state is one. -/
theorem compileNested_goesOn {target : String} (hvisit : RecordsBelow ctx request journal levels)
    (hs : OpenAtPoint ctx request journal s.stack)
    (hnested : ∀ l n, levels = l + 1 → Nests ctx s target n →
      Point ctx request journal l ((n.start s.stack).withNotes n.file.path n.document.notes)
        (.statements true n.document.nodes)) :
    GoesOn (OpenAtPoint ctx request journal) s.journal
      (s.compileNested ctx (below ctx levels) target).2.journal := by
  have htry : GoesOn (OpenAtPoint ctx request journal) s.journal
      (s.record (.nest target)).journal := goesOn_record hs _ _
  have hcases := s.compileNested_cases ctx (below ctx levels) target
  generalize s.compileNested ctx (below ctx levels) target = r at hcases
  cases hcases with
  | refused => exact htry
  | unread hread | unparsed _ hread =>
    have hasked := htry.trans (readText_goesOn hread hs)
    exact hasked
  | @compiled _ file text j document hdeeper hclosed hread hparsed =>
    have hasked := htry.trans (readText_goesOn hread hs)
    cases levels with
    | zero => cases hdeeper
    | succ l =>
      cases hdeeper
      have hpoint := hnested l ⟨file, text, document, j⟩ rfl ⟨hclosed, hread, hparsed⟩
      have hrun := foldl_goesOn (hvisit l rfl) hpoint
      rw [withNotes_journal] at hrun
      exact hasked.trans hrun

/-! ## Values -/

theorem resolveAtom_goesOn (hvisit : RecordsBelow ctx request journal levels) {line : Nat}
    {a : Atom} (h : Point ctx request journal levels s (.value (.atom line a))) :
    GoesOn (OpenAtPoint ctx request journal) s.journal
      (s.resolveAtom ctx (below ctx levels) line a).2.journal := by
  cases a with
  | string | number | boolean => exact GoesOn.refl _
  | component selector => exact ⟨[], (List.append_nil _).symm, List.forall_mem_nil _⟩
  | reference name =>
    unfold resolveAtom
    dsimp only
    split <;> exact GoesOn.refl _
  | url path => exact copyUrl_goesOn h.openAtPoint path line
  | content path => exact copyContent_goesOn h.openAtPoint path line
  | dictionary path =>
    have hnested := compileNested_goesOn hvisit h.openAtPoint fun l n hl hopen =>
      (hl ▸ h : Point ctx request journal (l + 1) s _).dictionary hopen
    unfold resolveAtom bindVariables
    dsimp only
    split
    · next heq =>
      rw [heq] at hnested
      exact hnested
    · next heq =>
      rw [heq] at hnested
      exact hnested

mutual

theorem resolve_goesOn (hvisit : RecordsBelow ctx request journal levels) :
    ∀ (v : Value) {s : Evaluation}, Point ctx request journal levels s (.value v) →
      GoesOn (OpenAtPoint ctx request journal) s.journal
        (resolve ctx (below ctx levels) v s).2.journal
  | .atom _ _, _, h => resolveAtom_goesOn hvisit h
  | .array _ items, _, h => by
    simp only [resolve]
    exact resolveItems_goesOn hvisit items h.array
  | .object _ entries, _, h => by
    simp only [resolve]
    exact resolveEntries_goesOn hvisit entries h.object

theorem resolveItems_goesOn (hvisit : RecordsBelow ctx request journal levels) :
    ∀ (items : List Value) {s : Evaluation}, Point ctx request journal levels s (.items items) →
      GoesOn (OpenAtPoint ctx request journal) s.journal
        (resolveItems ctx (below ctx levels) items s).2.journal
  | [], _, _ => GoesOn.refl _
  | item :: items, _, h => by
    have hitem := resolve_goesOn hvisit item h.item
    have hitems := resolveItems_goesOn hvisit items h.nextItem
    rw [settled_journal] at hitems
    rw [resolveItems_cons]
    exact hitem.trans hitems

theorem resolveEntries_goesOn (hvisit : RecordsBelow ctx request journal levels) :
    ∀ (entries : List (String × Value)) {s : Evaluation},
      Point ctx request journal levels s (.entries entries) →
        GoesOn (OpenAtPoint ctx request journal) s.journal
          (resolveEntries ctx (below ctx levels) entries s).2.journal
  | [], _, _ => GoesOn.refl _
  | (_, v) :: entries, _, h => by
    have hentry := resolve_goesOn hvisit v h.entry
    have hentries := resolveEntries_goesOn hvisit entries h.nextEntry
    rw [settled_journal] at hentries
    rw [resolveEntries_cons]
    exact hentry.trans hentries

end

/-! ## Statements -/

theorem visitAssignment_goesOn (hvisit : RecordsBelow ctx request journal levels) {key : String}
    {v : Value} (h : Point ctx request journal levels { s with assigning := some key } (.value v)) :
    GoesOn (OpenAtPoint ctx request journal) s.journal
      (s.visitAssignment ctx (below ctx levels) key v).journal := by
  have hvalue := resolve_goesOn hvisit v h
  rw [visitAssignment_journal]
  exact hvalue

/-- A statement records at points what it records, if those one level deeper do. -/
theorem visitWith_goesOn (hvisit : RecordsBelow ctx request journal levels) :
    RecordsAtPoints ctx request journal levels := by
  intro s own node nodes h
  rw [visit_eq]
  unfold visitWith
  cases hnode : node.statement with
  | comment => exact GoesOn.refl _
  | assignment key v => exact visitAssignment_goesOn hvisit (h.assigned hnode)
  | inclusion raw =>
    have hasked := openInclusion_goesOn ctx h.openAtPoint (below ctx levels) raw node.line
    simp only [visitInclusion]
    cases hopen : s.openInclusion ctx (below ctx levels) raw node.line with
    | error t =>
      rw [hopen] at hasked
      exact hasked
    | ok i =>
      rw [hopen] at hasked
      obtain ⟨hbelow, -, -⟩ := openInclusion_opens hopen
      cases levels with
      | zero => cases hbelow
      | succ l =>
        have hdeeper : i.deeper = visit ctx l := (Option.some.inj hbelow).symm
        have hinside := foldl_goesOn (hvisit l rfl) (h.inclusion hnode hopen)
        have hjournal : i.inside.journal = i.before.journal := withNotes_journal _ _ _
        rw [hjournal, ← hdeeper] at hinside
        exact hasked.trans hinside
  | extension raw =>
    have hnested := compileNested_goesOn hvisit h.openAtPoint fun l n hl hopen =>
      (hl ▸ h : Point ctx request journal (l + 1) s _).extension hnode hopen
    simp only [visitExtension]
    rcases hcompiled : s.compileNested ctx (below ctx levels) (Path.resolve s.current raw) with
      ⟨e | ⟨parent, text⟩, t⟩
    · rw [hcompiled] at hnested
      exact hnested
    · rw [hcompiled] at hnested
      exact hnested

theorem recordsAtPoints : ∀ levels, RecordsAtPoints ctx request journal levels
  | 0 => visitWith_goesOn fun _ h => by cases h
  | levels + 1 => visitWith_goesOn fun l h => by
    cases h
    exact recordsAtPoints levels

/-- No file is open as long as the first one is not read. -/
theorem firstDocument_goesOn (ctx : Context) {p : List String → Prop} (hp : p [])
    (request : Request) (journal : Journal) :
    GoesOn p journal (ctx.firstDocument request journal).2 := by
  cases request with
  | text file text => exact GoesOn.refl _
  | path path version =>
    have hask := ctx.library.askText_goesOn hp path version journal
    simp only [Context.firstDocument]
    split
    · next heq =>
      rw [heq] at hask
      exact hask
    · next heq =>
      rw [heq] at hask
      exact hask

/-- **Each event of a compilation is at one of its points**, or comes before the first one, when no
file is open. -/
theorem outcome_goesOn (ctx : Context) (request : Request) (journal : Journal) :
    GoesOn (fun stack => stack = [] ∨ OpenAtPoint ctx request journal stack) journal
      (ctx.outcome request journal).2 := by
  have hfirst : GoesOn (fun stack => stack = [] ∨ OpenAtPoint ctx request journal stack) journal
      (ctx.firstDocument request journal).2 := firstDocument_goesOn ctx (.inl rfl) request journal
  rw [Context.outcome_eq]
  unfold Context.outcomeWithin
  rcases hdocument : ctx.firstDocument request journal with ⟨e | ⟨file, document⟩, j⟩
  · rw [hdocument] at hfirst
    exact hfirst
  · rw [hdocument] at hfirst
    have hrun := foldl_goesOn (recordsAtPoints _) (Point.start hdocument)
    rw [withNotes_journal] at hrun
    exact hfirst.trans (hrun.mono fun _ => .inr)

end Evaluation

end Courseware
