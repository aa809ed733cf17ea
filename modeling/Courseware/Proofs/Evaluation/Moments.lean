/-
What an evaluation reports, moment by moment.

A resource reports errors, warnings and dependencies, and takes over all that a
nested document reports (`Report`). An evaluation passes through moments, in
each of which it reports something or nothing (`Moment`); `moments` lists those
of a statement in the order in which they come, from the states that the
evaluation itself goes through. The list is complete (`visit_passes`): between
one moment and the next nothing is reported, and nothing that was reported
before is lost or changed.
-/
import Courseware.Proofs.Evaluation.JournalGrowth

namespace Courseware

/-! ## Reports -/

/-- What a resource reports. -/
structure Reported where
  errors : List Diagnostic
  warnings : List Diagnostic
  dependencies : List Dependency

/-- One after the other, list by list. -/
instance : Append Reported where
  append a b := ⟨a.errors ++ b.errors, a.warnings ++ b.warnings, a.dependencies ++ b.dependencies⟩

theorem Reported.append_eq (a b : Reported) : a ++ b =
    ⟨a.errors ++ b.errors, a.warnings ++ b.warnings, a.dependencies ++ b.dependencies⟩ := rfl

theorem Reported.append_assoc (a b c : Reported) : a ++ b ++ c = a ++ (b ++ c) := by
  simp [append_eq]

def Resource.reported (r : Resource) : Reported := ⟨r.errors, r.warnings, r.dependencies⟩

/-- What is reported at once. -/
inductive Report where
  | error (d : Diagnostic)
  | warning (d : Diagnostic)
  | dependency (d : Dependency)
  /-- All that a nested document reports. -/
  | nested (r : Resource)

def Report.reported : Report → Reported
  | .error d => ⟨[d], [], []⟩
  | .warning d => ⟨[], [d], []⟩
  | .dependency d => ⟨[], [], [d]⟩
  | .nested r => r.reported

/-- What reports come to. -/
def Reported.of : List Report → Reported
  | [] => ⟨[], [], []⟩
  | report :: reports => report.reported ++ of reports

namespace Reported

@[simp] theorem append_of_nil (a : Reported) : a ++ of [] = a := by
  simp [of, append_eq]

@[simp] theorem of_nil_append (a : Reported) : of [] ++ a = a := by
  simp [of, append_eq]

theorem of_singleton (report : Report) : of [report] = report.reported := append_of_nil _

theorem of_append (reports reports' : List Report) :
    of (reports ++ reports') = of reports ++ of reports' := by
  induction reports with
  | nil => rw [List.nil_append, of_nil_append]
  | cons report reports ih => rw [List.cons_append, of, of, ih, append_assoc]

theorem of_warnings (ds : List Diagnostic) : of (ds.map .warning) = ⟨[], ds, []⟩ := by
  induction ds with
  | nil => rfl
  | cons d ds ih =>
    rw [List.map_cons, of, ih]
    rfl

end Reported

namespace Resource

variable (r : Resource)

@[simp] theorem withError_reported (d : Diagnostic) :
    (r.withError d).reported = r.reported ++ .of [.error d] := by
  simp [reported, withError, Reported.of, Report.reported, Reported.append_eq]

@[simp] theorem withDependency_reported (d : Dependency) :
    (r.withDependency d).reported = r.reported ++ .of [.dependency d] := by
  simp [reported, withDependency, Reported.of, Report.reported, Reported.append_eq]

@[simp] theorem absorb_reported (nested : Resource) :
    (r.absorb nested).reported = r.reported ++ .of [.nested nested] := by
  simp [reported, absorb, Reported.of, Report.reported, Reported.append_eq]

@[simp] theorem inherit_reported (parent : Variables) :
    (r.inherit parent).reported = r.reported := rfl

@[simp] theorem assign_reported (name : String) (value : Json) :
    (r.assign name value).1.reported = r.reported := by
  obtain ⟨vars, own, heq⟩ := r.assign_eq name value
  rw [heq]
  rfl

end Resource

namespace Evaluation

variable {ctx : Context} {deeper : Option Visit} {s t u : Evaluation}

/-! ## Moments -/

/-- A moment of an evaluation: a state, and what is reported there before the next moment. -/
structure Moment where
  state : Evaluation
  reports : List Report

/-- **Whether a state comes after another one with reports in between**, and with nothing else that
is reported, lost or changed. The journal goes on, and nested documents show in it. -/
structure Adds (s : Evaluation) (reports : List Report) (t : Evaluation) : Prop where
  reported : t.resource.reported = s.resource.reported ++ .of reports
  continues : s.journal.Continues t.journal
  nested {r : Resource} (h : .nested r ∈ reports) :
    s.journal.events.length < t.journal.events.length

namespace Adds

variable {reports reports' : List Report}

/-- States that differ in nothing that is reported. -/
theorem silent (h : t.resource.reported = s.resource.reported)
    (hjournal : s.journal.Continues t.journal) : Adds s [] t :=
  ⟨by rw [h, Reported.append_of_nil], hjournal, fun hr => by cases hr⟩

theorem of_eq (h : t.resource.reported = s.resource.reported) (hjournal : t.journal = s.journal) :
    Adds s [] t :=
  silent h (hjournal ▸ Journal.GoesOn.refl _)

theorem refl (s : Evaluation) : Adds s [] s := of_eq rfl rfl

/-- What only the journal sees is not reported. -/
theorem journal {j : Journal} (h : s.journal.Continues j) : Adds s [] { s with journal := j } :=
  silent rfl h

theorem length_le (h : Adds s reports t) : s.journal.events.length ≤ t.journal.events.length := by
  obtain ⟨events, hevents, -⟩ := h.continues
  rw [hevents, List.length_append]
  exact Nat.le_add_right _ _

theorem trans (h : Adds s reports t) (h' : Adds t reports' u) : Adds s (reports ++ reports') u where
  reported := by rw [h'.reported, h.reported, Reported.append_assoc, Reported.of_append]
  continues := h.continues.trans h'.continues
  nested hr := by
    rcases List.mem_append.mp hr with hr | hr
    · exact Nat.lt_of_lt_of_le (h.nested hr) h'.length_le
    · exact Nat.lt_of_le_of_lt h.length_le (h'.nested hr)

theorem withError (h : Adds s reports t) (d : Diagnostic) :
    Adds s (reports ++ [.error d]) (t.withError d) :=
  h.trans ⟨t.resource.withError_reported d, Journal.GoesOn.refl _, fun hr => by simp at hr⟩

theorem then_silent (h : Adds s reports t) (h' : Adds t [] u) : Adds s reports u := by
  rw [← List.append_nil reports]
  exact h.trans h'

end Adds

/-- **Whether an evaluation gets from a state to another one through moments**, and reports nothing
in between. -/
inductive Passes : Evaluation → List Moment → Evaluation → Prop
  | done {s t : Evaluation} (h : Adds s [] t) : Passes s [] t
  | next {s t u : Evaluation} {m : Moment} {ms : List Moment} (hm : Adds s [] m.state)
      (h : Adds m.state m.reports t) (hms : Passes t ms u) : Passes s (m :: ms) u

theorem Adds.passes {reports : List Report} (h : Adds s reports t) : Passes s [⟨s, reports⟩] t :=
  .next (.refl s) h (.done (.refl t))

namespace Passes

variable {ms ms' : List Moment}

theorem after (h : Passes t ms u) (hst : Adds s [] t) : Passes s ms u := by
  cases h with
  | done h => exact .done (hst.trans h)
  | next hm h hms => exact .next (hst.trans hm) h hms

theorem trans (h : Passes s ms t) (h' : Passes t ms' u) : Passes s (ms ++ ms') u := by
  induction h with
  | done hst => exact h'.after hst
  | next hm h _ ih => exact .next hm h (ih h')

theorem before (h : Passes s ms t) (htu : Adds t [] u) : Passes s ms u := by
  rw [← List.append_nil ms]
  exact h.trans (.done htu)

/-- All that is reported on the way is what the moments report. -/
theorem adds (h : Passes s ms t) : Adds s (ms.flatMap Moment.reports) t := by
  induction h with
  | done h => exact h
  | next hm h _ ih => exact hm.trans (h.trans ih)

/-- A moment has reported what the ones before it report. -/
theorem adds_of_append {m : Moment} (h : Passes s (ms ++ m :: ms') t) :
    Adds s (ms.flatMap Moment.reports) m.state := by
  induction ms generalizing s with
  | nil =>
    cases h with
    | next hm => exact hm
  | cons m' ms ih =>
    cases h with
    | next hm h hms => exact hm.trans (h.trans (ih hms))

theorem adds_of_mem {m : Moment} (h : Passes s ms t) (hm : m ∈ ms) :
    ∃ reports, Adds s reports m.state := by
  obtain ⟨past, rest, rfl⟩ := List.append_of_mem hm
  exact ⟨_, h.adds_of_append⟩

end Passes

/-- Whether a moment comes before another one, which has reported all that the first one had, then
what the first one reports, and then more or nothing. -/
def Moment.Before (m m' : Moment) : Prop := ∃ reports, Adds m.state (m.reports ++ reports) m'.state

/-- The moments come one after another. -/
theorem Passes.pairwise {ms : List Moment} (h : Passes s ms t) : ms.Pairwise Moment.Before := by
  induction h with
  | done => exact .nil
  | next _ h hms ih =>
    refine .cons (fun m' hm' => ?_) ih
    obtain ⟨reports, hadds⟩ := hms.adds_of_mem hm'
    exact ⟨reports, h.trans hadds⟩

/-! ## Values -/

/-- What an atom reports: all that the document reports whose variables it binds, and that it
depends on this document. -/
def atomReports (ctx : Context) (deeper : Option Visit) (s : Evaluation) (line : Nat) :
    Atom → List Report
  | .dictionary raw =>
    match s.compileNested ctx deeper (Path.resolve s.current raw) with
    | (.error _, _) => []
    | (.ok (nested, text), _) =>
      [.nested nested, .dependency ⟨s.assigning, line, text, nested.file.path⟩]
  | _ => []

/-- The moment at which it is known what becomes of an item or an entry, which reports the error of
one that has no value. -/
def settling : Except Diagnostic Json × Evaluation → Moment
  | (.ok _, s) => ⟨s, []⟩
  | (.error d, s) => ⟨s, [.error d]⟩

mutual

/-- The moments of a value. -/
def valueMoments (ctx : Context) (deeper : Option Visit) : Value → Evaluation → List Moment
  | .atom line a, s => [⟨s, s.atomReports ctx deeper line a⟩]
  | .array _ items, s => ⟨s, []⟩ :: itemsMoments ctx deeper items s
  | .object _ entries, s => ⟨s, []⟩ :: entriesMoments ctx deeper entries s

def itemsMoments (ctx : Context) (deeper : Option Visit) : List Value → Evaluation → List Moment
  | [], s => [⟨s, []⟩]
  | item :: items, s =>
    valueMoments ctx deeper item s ++ settling (resolve ctx deeper item s) ::
      itemsMoments ctx deeper items (settled (resolve ctx deeper item s))

def entriesMoments (ctx : Context) (deeper : Option Visit) :
    List (String × Value) → Evaluation → List Moment
  | [], s => [⟨s, []⟩]
  | (_, entry) :: entries, s =>
    valueMoments ctx deeper entry s ++ settling (resolve ctx deeper entry s) ::
      entriesMoments ctx deeper entries (settled (resolve ctx deeper entry s))

end

/-! ## Statements -/

/-- The last moment of an assignment, which reports that the value has none or that something blocks
the assignment. -/
def concluding (key : String) (value : Value) : Except Diagnostic Json × Evaluation → Moment
  | (.error d, s) => ⟨s, [.error d]⟩
  | (.ok json, s) =>
    ⟨s, (s.resource.assign key json).2.toList.map fun blocked =>
      .error (s.here value.line blocked.message)⟩

/-- The moments of an assignment. -/
def assignmentMoments (ctx : Context) (deeper : Option Visit) (s : Evaluation) (key : String)
    (value : Value) : List Moment :=
  ⟨s, []⟩ :: (valueMoments ctx deeper value { s with assigning := some key } ++
    [concluding key value (resolve ctx deeper value { s with assigning := some key })])

/-- What a directive to include a document reports, up to the first statement of the document. -/
def inclusionReports {α : Type} (ctx : Context) (deeper : Option α) (s : Evaluation) (raw : String)
    (line : Nat) : List Report :=
  match s.enter ctx deeper (Path.resolve s.current raw) with
  | (.error e, _) => [.error (s.here line e.display)]
  | (.ok _, t) =>
    match t.readText ctx (Path.resolve s.current raw) with
    | (.error e, _) =>
      [.error (s.here line ("Cannot include '" ++ raw ++ "': " ++ e.display))]
    | (.ok (file, text), _) =>
      (s.repeatedInclusion file line).map .warning ++ .dependency ⟨none, line, text, file.path⟩ ::
        match Document.ofScannedText ctx.options text with
        | .error e => [.error (.ofNested e file.path line s.current)]
        | .ok document => (noteWarnings file.path document.notes).map .warning

/-- What a directive to inherit from a document reports. -/
def extensionReports (ctx : Context) (deeper : Option Visit) (s : Evaluation) (raw : String)
    (line : Nat) : List Report :=
  match s.compileNested ctx deeper (Path.resolve s.current raw) with
  | (.error e, _) => [.error (.ofNested e (Path.resolve s.current raw) line s.current)]
  | (.ok (parent, _), _) => [.nested parent]

/-- The moments of statements one after another, and the one after the last. -/
def listMoments (visit : Visit) (moments : Evaluation → Node → List Moment) :
    Evaluation → List Node → List Moment
  | s, [] => [⟨s, []⟩]
  | s, node :: nodes => moments s node ++ listMoments visit moments (visit s node) nodes

/-- The moments of a statement, with those of the documents that it includes. -/
def momentsWith (ctx : Context) (deeper : Option Visit)
    (moments : Evaluation → Node → List Moment) (s : Evaluation) (node : Node) : List Moment :=
  match node.statement with
  | .comment _ => [⟨s, []⟩]
  | .assignment key value => s.assignmentMoments ctx deeper key value
  | .inclusion path =>
    ⟨s, s.inclusionReports ctx deeper path node.line⟩ ::
      match s.openInclusion ctx deeper path node.line with
      | .error _ => []
      | .ok i => listMoments i.deeper moments i.inside i.document.nodes
  | .extension path => [⟨s, s.extensionReports ctx deeper path node.line⟩]

/-- **The moments of a statement**, with `levels` levels of documents below it. -/
def moments (ctx : Context) : (levels : Nat) → Evaluation → Node → List Moment
  | 0 => momentsWith ctx none fun _ _ => []
  | levels + 1 => momentsWith ctx (some (visit ctx levels)) (moments ctx levels)

/-! ## Values report what their moments say -/

/-- A document that is compiled on its own, or not, shows in the journal and nowhere else. -/
theorem compileNested_later (ctx : Context) (hdeeper : Continuing deeper) (s : Evaluation)
    (target : String) :
    ∃ journal, (s.compileNested ctx deeper target).2 = { s with journal } ∧
      s.journal.Continues journal ∧ s.journal.events.length < journal.events.length := by
  have hnested : (s.record (.nest target)).journal.Continues
      (s.compileNested ctx deeper target).2.journal := compileNested_continues hdeeper s target
  obtain ⟨journal, heq⟩ : OnlyJournal s (s.compileNested ctx deeper target).2 :=
    compileNested_onlyJournal s target
  rw [heq] at hnested
  refine ⟨journal, heq, (record_continues s _).trans hnested, ?_⟩
  obtain ⟨events, hevents, -⟩ := hnested
  rw [hevents, List.length_append]
  simp only [record, Journal.record, List.length_append, List.length_singleton]
  omega

theorem bindVariables_adds (hdeeper : Continuing deeper) (s : Evaluation) (raw : String)
    (line : Nat) : Adds s (s.atomReports ctx deeper line (.dictionary raw))
      (s.bindVariables ctx deeper raw line).2 := by
  have hlater := compileNested_later ctx hdeeper s (Path.resolve s.current raw)
  unfold bindVariables atomReports
  dsimp only
  generalize s.compileNested ctx deeper (Path.resolve s.current raw) = r at hlater ⊢
  obtain ⟨j, heq, hcontinues, hlonger⟩ := hlater
  rcases r with ⟨e | ⟨nested, text⟩, t⟩
  · obtain rfl : t = { s with journal := j } := heq
    exact .journal hcontinues
  · obtain rfl : t = { s with journal := j } := heq
    refine ⟨?_, hcontinues, fun _ => hlonger⟩
    simp only [Resource.withDependency_reported, Resource.absorb_reported, Reported.append_assoc,
      ← Reported.of_append, List.singleton_append]

/-- **An atom reports what its moment says.** -/
theorem resolveAtom_adds (hdeeper : Continuing deeper) (s : Evaluation) (line : Nat) (a : Atom) :
    Adds s (s.atomReports ctx deeper line a) (s.resolveAtom ctx deeper line a).2 := by
  have hsilent (a : Atom) (ha : ∀ path, a ≠ .dictionary path) :
      Adds s [] (s.resolveAtom ctx deeper line a).2 := by
    obtain ⟨j, heq⟩ : OnlyJournal s (s.resolveAtom ctx deeper line a).2 :=
      resolveAtom_onlyJournal s line ha
    exact .silent (congrArg (·.resource.reported) heq) (resolveAtom_continues hdeeper s line a)
  cases a with
  | dictionary raw => exact bindVariables_adds hdeeper s raw line
  | _ => exact hsilent _ nofun

/-- The error of an item or an entry is reported as soon as it is known. -/
theorem settling_passes (r : Except Diagnostic Json × Evaluation) :
    Passes r.2 [settling r] (settled r) := by
  rcases r with ⟨d | json, s⟩
  · exact ((Adds.refl s).withError d).passes
  · exact (Adds.refl s).passes

mutual

/-- **A value passes through its moments.** -/
theorem resolve_passes (hdeeper : Continuing deeper) : ∀ (v : Value) (s : Evaluation),
    Passes s (valueMoments ctx deeper v s) (resolve ctx deeper v s).2
  | .atom line a, s => (resolveAtom_adds hdeeper s line a).passes
  | .array _ items, s => (Adds.refl s).passes.trans (resolveItems_passes hdeeper items s)
  | .object _ entries, s => (Adds.refl s).passes.trans (resolveEntries_passes hdeeper entries s)

theorem resolveItems_passes (hdeeper : Continuing deeper) :
    ∀ (items : List Value) (s : Evaluation),
      Passes s (itemsMoments ctx deeper items s) (resolveItems ctx deeper items s).2
  | [], s => (Adds.refl s).passes
  | item :: items, s => by
    rw [resolveItems_cons, itemsMoments]
    exact (resolve_passes hdeeper item s).trans
      ((settling_passes _).trans (resolveItems_passes hdeeper items _))

theorem resolveEntries_passes (hdeeper : Continuing deeper) :
    ∀ (entries : List (String × Value)) (s : Evaluation),
      Passes s (entriesMoments ctx deeper entries s) (resolveEntries ctx deeper entries s).2
  | [], s => (Adds.refl s).passes
  | (key, entry) :: entries, s => by
    rw [resolveEntries_cons, entriesMoments]
    exact (resolve_passes hdeeper entry s).trans
      ((settling_passes _).trans (resolveEntries_passes hdeeper entries _))

end

/-! ## Statements report what their moments say -/

theorem visitAssignment_passes (hdeeper : Continuing deeper) (s : Evaluation) (key : String)
    (value : Value) : Passes s (s.assignmentMoments ctx deeper key value)
      (s.visitAssignment ctx deeper key value) := by
  have hvalue : Passes s (valueMoments ctx deeper value { s with assigning := some key })
      (resolve ctx deeper value { s with assigning := some key }).2 :=
    (resolve_passes hdeeper value _).after (.of_eq rfl rfl)
  refine (Adds.refl s).passes.trans (hvalue.trans ?_)
  unfold visitAssignment
  generalize resolve ctx deeper value { s with assigning := some key } = r
  rcases r with ⟨d | json, t⟩
  · have hend : Adds t [] { t with assigning := none } := .of_eq rfl rfl
    exact (hend.withError d).passes
  · dsimp only [concluding]
    have hassign := t.resource.assign_reported key json
    generalize t.resource.assign key json = assigned at hassign ⊢
    obtain ⟨r, blocked⟩ := assigned
    have hset : Adds t [] { t with assigning := none, resource := r } :=
      .of_eq hassign rfl
    cases blocked with
    | none => exact hset.passes
    | some blocked => exact (hset.withError _).passes

theorem withNotes_adds (s : Evaluation) (path : String) (notes : List Note) :
    Adds s ((noteWarnings path notes).map .warning) (s.withNotes path notes) := by
  refine ⟨?_, ?_, fun hr => by simp at hr⟩
  · rw [withNotes_eq, Reported.of_warnings]
    simp [Resource.reported, Reported.append_eq]
  · rw [withNotes_journal]
    exact Journal.GoesOn.refl _

theorem withInclusion_adds (s : Evaluation) (file : Descriptor) (text : String) (line : Nat) :
    Adds s ((s.repeatedInclusion file line).map .warning ++
      [.dependency ⟨none, line, text, file.path⟩]) (s.withInclusion file text line) := by
  refine ⟨?_, ?_, fun hr => by simp at hr⟩
  · obtain ⟨included, heq⟩ := s.withInclusion_eq file text line
    rw [heq, Reported.of_append, Reported.of_warnings, Reported.of_singleton]
    simp [Resource.reported, Report.reported, Reported.append_eq]
  · rw [withInclusion_journal]
    exact Journal.GoesOn.refl _

/-- **A directive to include a document reports what its moment says**, up to the first statement of
the document if there is one. -/
theorem openInclusion_adds {α : Type} (ctx : Context) (deeper : Option α) (s : Evaluation)
    (raw : String) (line : Nat) :
    match s.openInclusion ctx deeper raw line with
    | .error t => Adds s (s.inclusionReports ctx deeper raw line) t
    | .ok i => Adds s (s.inclusionReports ctx deeper raw line) i.inside := by
  unfold openInclusion inclusionReports
  dsimp only
  rcases henter : s.enter ctx deeper (Path.resolve s.current raw) with ⟨e | a, t⟩
  · obtain rfl := enter_record henter
    exact (Adds.journal (record_continues s _)).withError _
  · obtain ⟨-, -, rfl⟩ := enter_ok henter
    dsimp only
    rcases hread : (s.record (.nest (Path.resolve s.current raw))).readText ctx
      (Path.resolve s.current raw) with ⟨e | ⟨file, text⟩, u⟩
    · obtain ⟨j, rfl⟩ := readText_onlyJournal hread
      have hasked := readText_goesOn (p := fun _ => True) hread trivial
      exact (Adds.journal ((record_continues s _).trans hasked)).withError _
    · obtain ⟨j, rfl⟩ := readText_onlyJournal hread
      have hasked := readText_goesOn (p := fun _ => True) hread trivial
      have hread : Adds s [] { s with journal := j } :=
        .journal ((record_continues s _).trans hasked)
      have hfound := hread.trans (withInclusion_adds { s with journal := j } file text line)
      have hcurrent : ({ s with journal := j }.withInclusion file text line).current = s.current :=
        (withInclusion_stays _ _ _ _).current
      dsimp only [record]
      cases hparsed : Document.ofScannedText ctx.options text with
      | error e =>
        dsimp only
        rw [List.append_cons, hcurrent]
        exact hfound.withError _
      | ok document =>
        dsimp only
        rw [List.append_cons]
        exact (hfound.trans (withNotes_adds _ _ _)).then_silent
          (.of_eq rfl rfl)

theorem visitExtension_adds (hdeeper : Continuing deeper) (s : Evaluation) (raw : String)
    (line : Nat) : Adds s (s.extensionReports ctx deeper raw line)
      (s.visitExtension ctx deeper raw line) := by
  have hlater := compileNested_later ctx hdeeper s (Path.resolve s.current raw)
  unfold visitExtension extensionReports
  dsimp only
  generalize s.compileNested ctx deeper (Path.resolve s.current raw) = r at hlater ⊢
  obtain ⟨j, heq, hcontinues, hlonger⟩ := hlater
  rcases r with ⟨e | ⟨parent, text⟩, t⟩
  · obtain rfl : t = { s with journal := j } := heq
    exact (Adds.journal hcontinues).withError _
  · obtain rfl : t = { s with journal := j } := heq
    refine ⟨?_, hcontinues, fun _ => hlonger⟩
    simp only [Resource.inherit_reported, Resource.absorb_reported]

/-- Statements one after another pass through their moments if each of them does. -/
theorem foldl_passes {visit : Visit} {moments : Evaluation → Node → List Moment}
    (h : ∀ s node, Passes s (moments s node) (visit s node)) (nodes : List Node) :
    ∀ s, Passes s (listMoments visit moments s nodes) (nodes.foldl visit s) := by
  induction nodes with
  | nil => exact fun s => (Adds.refl s).passes
  | cons node nodes ih => exact fun s => (h s node).trans (ih _)

theorem visitWith_passes {moments : Evaluation → Node → List Moment}
    (hdeeper : Continuing deeper)
    (h : ∀ visit, deeper = some visit → ∀ s node, Passes s (moments s node) (visit s node))
    (s : Evaluation) (node : Node) :
    Passes s (momentsWith ctx deeper moments s node) (s.visitWith ctx deeper node) := by
  unfold visitWith momentsWith
  cases node.statement with
  | comment => exact (Adds.refl s).passes
  | assignment key value => exact visitAssignment_passes hdeeper s key value
  | inclusion path =>
    have hasked := openInclusion_adds ctx deeper s path node.line
    simp only [visitInclusion]
    cases hopen : s.openInclusion ctx deeper path node.line with
    | error t =>
      rw [hopen] at hasked
      exact hasked.passes
    | ok i =>
      rw [hopen] at hasked
      have hnodes := foldl_passes (h _ (openInclusion_opens hopen).1) i.document.nodes i.inside
      exact (hasked.passes.trans hnodes).before (.of_eq rfl rfl)
  | extension path => exact (visitExtension_adds hdeeper s path node.line).passes

/-- **A statement passes through its moments**, and reports nothing in between. -/
theorem visit_passes : ∀ (levels : Nat) (s : Evaluation) (node : Node),
    Passes s (moments ctx levels s node) (visit ctx levels s node)
  | 0, s, node => visitWith_passes (fun _ h => by cases h) (fun _ h => by cases h) s node
  | levels + 1, s, node => by
    refine visitWith_passes (continuing_below (levels + 1)) (fun visit h => ?_) s node
    cases h
    exact visit_passes levels

/-- So it does if the resource keeps it. -/
theorem visitOrKeep_passes (own : Bool) (levels : Nat) (s : Evaluation) (node : Node) :
    Passes s (moments ctx levels s node) (visitOrKeep own (visit ctx levels) s node) := by
  have hvisit : Passes s (moments ctx levels s node) (visit ctx levels s node) :=
    visit_passes levels s node
  cases own with
  | false => exact hvisit
  | true =>
    rw [← visit_origin levels s node s.current] at hvisit
    exact hvisit.before (.of_eq rfl rfl)

end Evaluation

end Courseware
