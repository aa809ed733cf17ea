/-
What becomes of the reports of nested documents.

Each document that a compilation evaluates on its own, the first one or one that
is nested in another, has an `Evaluator` of its own, and its resource tells in
full what the moments of this evaluator report, in the order in which they come
(`Evaluator.ledger`). Each point of the compilation is a moment of one of them
(`Point.exists_evaluator`). A nested document that compiles is reported at one
moment of the evaluator that it is nested in, all at once, and no other document
is (`Evaluator.Runs.sourced`). So its reports stand together and in order among
those of the enclosing document (`Context.outcome_ledger`).
-/
import Courseware.Library.Memory
import Courseware.Proofs.Evaluation.Moments

namespace Courseware

namespace Evaluation

variable {ctx : Context} {request : Request} {journal : Journal} {levels : Nat} {s : Evaluation}
  {task : Task}

/-! ## Nested documents -/

/-- Whether a task starts with a directive to compile a document on its own. -/
inductive Compiles : Task → (raw : String) → Prop
  | extension {own : Bool} {node : Node} {nodes : List Node} {raw : String}
      (h : node.statement = .extension raw) : Compiles (.statements own (node :: nodes)) raw
  | dictionary {line : Nat} {raw : String} : Compiles (.value (.atom line (.dictionary raw))) raw

/-- Whether it compiles to a resource. -/
def Completes (ctx : Context) (levels : Nat) (s : Evaluation) (task : Task) (nested : Resource) :
    Prop :=
  ∃ raw text t, Compiles task raw ∧
    s.compileNested ctx (below ctx levels) (Path.resolve s.current raw) = (.ok (nested, text), t)

/-- A document that compiles is evaluated one level deeper. -/
theorem Completes.exists_nests {nested : Resource} (h : Completes ctx levels s task nested) :
    ∃ l raw n, levels = l + 1 ∧ Compiles task raw ∧ Nests ctx s (Path.resolve s.current raw) n ∧
      ((n.start s.stack).run (visit ctx l) n.document).resource = nested := by
  obtain ⟨raw, text, t, hraw, hnested⟩ := h
  have hcases := s.compileNested_cases ctx (below ctx levels) (Path.resolve s.current raw)
  rw [hnested] at hcases
  cases hcases with
  | @compiled visit file _ j document hdeeper hclosed hread hparsed =>
    cases levels with
    | zero => cases hdeeper
    | succ l =>
      cases hdeeper
      exact ⟨l, raw, ⟨file, text, document, j⟩, rfl, hraw, ⟨hclosed, hread, hparsed⟩, rfl⟩

/-- The evaluation of a document of its own, with some levels of documents below it. -/
structure Evaluator where
  levels : Nat
  file : Descriptor
  /-- The files that are open around it. -/
  stack : List String
  journal : Journal
  document : Document

namespace Evaluator

/-- Its first state. -/
def first (e : Evaluator) : Evaluation := start e.file e.stack e.journal

/-- Its last state. -/
def last (ctx : Context) (e : Evaluator) : Evaluation := e.first.run (visit ctx e.levels) e.document

/-- The state in which its first statement is evaluated. -/
def opening (e : Evaluator) : Evaluation := e.first.withNotes e.file.path e.document.notes

/-- The evaluators of a compilation. -/
inductive Runs (ctx : Context) (request : Request) (journal : Journal) : Evaluator → Prop
  | first {file : Descriptor} {document : Document} {j : Journal}
      (h : ctx.firstDocument request journal = (.ok (file, document), j)) :
      Runs ctx request journal ⟨ctx.options.maxDepth - 1, file, [], j, document⟩
  | nested {levels : Nat} {s : Evaluation} {task : Task} {raw : String} {n : Nested}
      (h : Point ctx request journal (levels + 1) s task) (htask : Compiles task raw)
      (hopen : Nests ctx s (Path.resolve s.current raw) n) :
      Runs ctx request journal ⟨levels, n.file, s.stack, n.journal, n.document⟩

/-- An evaluator starts at a point. -/
theorem Runs.point {e : Evaluator} (h : e.Runs ctx request journal) :
    Point ctx request journal e.levels e.opening (.statements true e.document.nodes) := by
  cases h with
  | first h => exact .start h
  | nested h htask hopen =>
    cases htask with
    | extension hnode => exact .extension h hnode hopen
    | dictionary => exact .dictionary h hopen

end Evaluator

/-! ## Moments of tasks -/

/-- The moments of a task. -/
def taskMoments (ctx : Context) (levels : Nat) (s : Evaluation) : Task → List Moment
  | .statements own nodes =>
    listMoments (visitOrKeep own (visit ctx levels)) (moments ctx levels) s nodes
  | .value v => valueMoments ctx (below ctx levels) v s
  | .items items => itemsMoments ctx (below ctx levels) items s
  | .entries entries => entriesMoments ctx (below ctx levels) entries s

/-- The moments of the statements one level deeper, if there are any. -/
def momentsBelow (ctx : Context) : (levels : Nat) → Evaluation → Node → List Moment
  | 0 => fun _ _ => []
  | levels + 1 => moments ctx levels

theorem moments_eq (levels : Nat) (s : Evaluation) (node : Node) : moments ctx levels s node =
    momentsWith ctx (below ctx levels) (momentsBelow ctx levels) s node := by
  cases levels <;> rfl

/-- A task starts with a moment of its state. -/
theorem exists_taskMoments_eq_cons (ctx : Context) (levels : Nat) (s : Evaluation) (task : Task) :
    ∃ reports rest, taskMoments ctx levels s task = ⟨s, reports⟩ :: rest := by
  have hvalue (v : Value) : ∃ reports rest,
      valueMoments ctx (below ctx levels) v s = ⟨s, reports⟩ :: rest := by
    cases v <;> exact ⟨_, _, rfl⟩
  cases task with
  | value v => exact hvalue v
  | items items =>
    cases items with
    | nil => exact ⟨_, _, rfl⟩
    | cons v items =>
      obtain ⟨reports, rest, heq⟩ := hvalue v
      rw [taskMoments, itemsMoments, heq]
      exact ⟨_, _, rfl⟩
  | entries entries =>
    cases entries with
    | nil => exact ⟨_, _, rfl⟩
    | cons entry entries =>
      obtain ⟨reports, rest, heq⟩ := hvalue entry.2
      rw [taskMoments, entriesMoments, heq]
      exact ⟨_, _, rfl⟩
  | statements own nodes =>
    cases nodes with
    | nil => exact ⟨_, _, rfl⟩
    | cons node nodes =>
      rw [taskMoments, listMoments, moments_eq, momentsWith]
      cases node.statement <;> exact ⟨_, _, rfl⟩

/-- The first moment of a task that compiles a document reports all that the document does. -/
theorem Completes.taskMoments {nested : Resource} (h : Completes ctx levels s task nested) :
    ∃ (ds : List Dependency) (rest : List Moment), taskMoments ctx levels s task =
      ⟨s, .nested nested :: ds.map .dependency⟩ :: rest := by
  obtain ⟨raw, text, t, hraw, hnested⟩ := h
  cases hraw with
  | @extension own node nodes _ hnode =>
    refine ⟨[], listMoments (visitOrKeep own (visit ctx levels)) (moments ctx levels)
      (visitOrKeep own (visit ctx levels) s node) nodes, ?_⟩
    rw [Evaluation.taskMoments, listMoments, moments_eq, momentsWith, hnode]
    simp only [extensionReports, hnested, List.map_nil, List.singleton_append]
  | @dictionary line =>
    refine ⟨[⟨s.assigning, line, text, nested.file.path⟩], [], ?_⟩
    simp only [Evaluation.taskMoments, valueMoments, atomReports, hnested, List.map_cons,
      List.map_nil]

/-! ## Points are moments -/

theorem taskMoments_assigned {own : Bool} {node : Node} {nodes : List Node} {key : String}
    {v : Value} (hnode : node.statement = .assignment key v) :
    taskMoments ctx levels { s with assigning := some key } (.value v) <:+:
      taskMoments ctx levels s (.statements own (node :: nodes)) := by
  have hstatement : moments ctx levels s node =
      s.assignmentMoments ctx (below ctx levels) key v := by
    rw [moments_eq, momentsWith, hnode]
  rw [taskMoments, taskMoments, listMoments, hstatement, assignmentMoments, List.cons_append,
    List.append_assoc]
  exact List.infix_cons (List.prefix_append _ _).isInfix

theorem taskMoments_inclusion {own : Bool} {node : Node} {nodes : List Node} {raw : String}
    {i : Inclusion Visit} (hnode : node.statement = .inclusion raw)
    (hopen : s.openInclusion ctx (some (visit ctx levels)) raw node.line = .ok i) :
    taskMoments ctx levels i.inside (.statements false i.document.nodes) <:+:
      taskMoments ctx (levels + 1) s (.statements own (node :: nodes)) := by
  have hdeeper : i.deeper = visit ctx levels := (Option.some.inj (openInclusion_opens hopen).1).symm
  have hstatement : moments ctx (levels + 1) s node =
      ⟨s, s.inclusionReports ctx (some (visit ctx levels)) raw node.line⟩ ::
        listMoments (visit ctx levels) (moments ctx levels) i.inside i.document.nodes := by
    rw [moments, momentsWith, hnode]
    simp only [hopen, hdeeper]
  rw [taskMoments, taskMoments, listMoments, hstatement]
  exact List.infix_cons (List.prefix_append _ _).isInfix

/-- **Each point of a compilation is a moment of one of its evaluators**, together with the whole
task that comes there. -/
theorem Point.exists_evaluator (h : Point ctx request journal levels s task) :
    ∃ e : Evaluator, e.Runs ctx request journal ∧
      taskMoments ctx levels s task <:+: taskMoments ctx e.levels e.opening
        (.statements true e.document.nodes) := by
  have hinside {levels levels' : Nat} {s s' : Evaluation} {task task' : Task}
      (hpart : taskMoments ctx levels' s' task' <:+: taskMoments ctx levels s task)
      (h : ∃ e : Evaluator, e.Runs ctx request journal ∧
        taskMoments ctx levels s task <:+: taskMoments ctx e.levels e.opening
          (.statements true e.document.nodes)) :
      ∃ e : Evaluator, e.Runs ctx request journal ∧
        taskMoments ctx levels' s' task' <:+: taskMoments ctx e.levels e.opening
          (.statements true e.document.nodes) := by
    obtain ⟨e, hruns, hwhole⟩ := h
    exact ⟨e, hruns, hpart.trans hwhole⟩
  induction h with
  | start h => exact ⟨_, .first h, List.infix_rfl⟩
  | next _ ih => exact hinside (List.suffix_append _ _).isInfix ih
  | assigned _ hnode ih => exact hinside (taskMoments_assigned hnode) ih
  | inclusion _ hnode hopen ih => exact hinside (taskMoments_inclusion hnode hopen) ih
  | extension h hnode hopen => exact ⟨_, .nested h (.extension hnode) hopen, List.infix_rfl⟩
  | dictionary h hopen => exact ⟨_, .nested h .dictionary hopen, List.infix_rfl⟩
  | array _ ih | object _ ih => exact hinside (List.suffix_cons _ _).isInfix ih
  | item _ ih | entry _ ih => exact hinside (List.prefix_append _ _).isInfix ih
  | nextItem _ ih | nextEntry _ ih =>
    exact hinside ((List.suffix_cons _ _).trans (List.suffix_append _ _)).isInfix ih

/-! ## Nested documents are reported where they complete -/

/-- Whether a moment reports no nested document but one that completes there. -/
def Sourced (ctx : Context) (request : Request) (journal : Journal) (m : Moment) : Prop :=
  ∀ nested, .nested nested ∈ m.reports → ∃ levels task,
    Point ctx request journal levels m.state task ∧ Completes ctx levels m.state task nested

theorem Sourced.of_not_mem {m : Moment} (h : ∀ nested, .nested nested ∉ m.reports) :
    Sourced ctx request journal m :=
  fun nested hmem => absurd hmem (h nested)

theorem settling_sourced (r : Except Diagnostic Json × Evaluation) :
    Sourced ctx request journal (settling r) := by
  refine .of_not_mem fun nested => ?_
  rcases r with ⟨d | json, s⟩ <;> simp [settling]

theorem concluding_sourced (key : String) (v : Value) (r : Except Diagnostic Json × Evaluation) :
    Sourced ctx request journal (concluding key v r) := by
  refine .of_not_mem fun nested => ?_
  rcases r with ⟨d | json, s⟩ <;> simp [concluding]

theorem inclusionReports_not_nested {α : Type} (deeper : Option α) (s : Evaluation) (raw : String)
    (line : Nat) (nested : Resource) :
    .nested nested ∉ s.inclusionReports ctx deeper raw line := by
  unfold inclusionReports
  split
  · simp
  · split
    · simp
    · split <;> simp

theorem atomMoment_sourced {line : Nat} {a : Atom}
    (h : Point ctx request journal levels s (.value (.atom line a))) :
    Sourced ctx request journal ⟨s, s.atomReports ctx (below ctx levels) line a⟩ := by
  intro nested hmem
  cases a with
  | dictionary raw =>
    unfold atomReports at hmem
    rcases hnested : s.compileNested ctx (below ctx levels) (Path.resolve s.current raw) with
      ⟨e | ⟨found, text⟩, t⟩
    · simp [hnested] at hmem
    · obtain rfl : nested = found := by simpa [hnested] using hmem
      exact ⟨levels, _, h, raw, text, t, .dictionary, hnested⟩
  | _ => cases hmem

mutual

theorem valueMoments_sourced : ∀ (v : Value) {s : Evaluation},
    Point ctx request journal levels s (.value v) →
      ∀ m ∈ valueMoments ctx (below ctx levels) v s, Sourced ctx request journal m
  | .atom _ _, _ => fun h => List.forall_mem_singleton.mpr (atomMoment_sourced h)
  | .array _ items, _ => fun h =>
    List.forall_mem_cons.mpr ⟨.of_not_mem fun _ => List.not_mem_nil,
      itemsMoments_sourced items h.array⟩
  | .object _ entries, _ => fun h =>
    List.forall_mem_cons.mpr ⟨.of_not_mem fun _ => List.not_mem_nil,
      entriesMoments_sourced entries h.object⟩

theorem itemsMoments_sourced : ∀ (items : List Value) {s : Evaluation},
    Point ctx request journal levels s (.items items) →
      ∀ m ∈ itemsMoments ctx (below ctx levels) items s, Sourced ctx request journal m
  | [], _ => fun _ => List.forall_mem_singleton.mpr (.of_not_mem fun _ => List.not_mem_nil)
  | item :: items, _ => fun h =>
    List.forall_mem_append.mpr ⟨valueMoments_sourced item h.item,
      List.forall_mem_cons.mpr ⟨settling_sourced _, itemsMoments_sourced items h.nextItem⟩⟩

theorem entriesMoments_sourced : ∀ (entries : List (String × Value)) {s : Evaluation},
    Point ctx request journal levels s (.entries entries) →
      ∀ m ∈ entriesMoments ctx (below ctx levels) entries s, Sourced ctx request journal m
  | [], _ => fun _ => List.forall_mem_singleton.mpr (.of_not_mem fun _ => List.not_mem_nil)
  | (_, entry) :: entries, _ => fun h =>
    List.forall_mem_append.mpr ⟨valueMoments_sourced entry h.entry,
      List.forall_mem_cons.mpr ⟨settling_sourced _, entriesMoments_sourced entries h.nextEntry⟩⟩

end

/-- Whether the moments of all statements with some levels below them are sourced. -/
def StatementsSourced (ctx : Context) (request : Request) (journal : Journal) (levels : Nat) :
    Prop :=
  ∀ {s : Evaluation} {own : Bool} {node : Node} {nodes : List Node},
    Point ctx request journal levels s (.statements own (node :: nodes)) →
      ∀ m ∈ moments ctx levels s node, Sourced ctx request journal m

theorem listMoments_sourced (hstatements : StatementsSourced ctx request journal levels)
    {own : Bool} {nodes : List Node}
    (h : Point ctx request journal levels s (.statements own nodes)) :
    ∀ m ∈ listMoments (visitOrKeep own (visit ctx levels)) (moments ctx levels) s nodes,
      Sourced ctx request journal m := by
  induction nodes generalizing s with
  | nil => exact List.forall_mem_singleton.mpr (.of_not_mem fun _ => List.not_mem_nil)
  | cons node nodes ih => exact List.forall_mem_append.mpr ⟨hstatements h, ih h.next⟩

theorem statementsSourced_of_below
    (hbelow : ∀ l, levels = l + 1 → StatementsSourced ctx request journal l) :
    StatementsSourced ctx request journal levels := by
  intro s own node nodes h
  rw [moments_eq, momentsWith]
  cases hnode : node.statement with
  | comment => exact List.forall_mem_singleton.mpr (.of_not_mem fun _ => List.not_mem_nil)
  | assignment key v =>
    refine List.forall_mem_cons.mpr ⟨.of_not_mem fun _ => List.not_mem_nil, ?_⟩
    exact List.forall_mem_append.mpr ⟨valueMoments_sourced v (h.assigned hnode),
      List.forall_mem_singleton.mpr (concluding_sourced _ _ _)⟩
  | inclusion raw =>
    refine List.forall_mem_cons.mpr ⟨.of_not_mem (inclusionReports_not_nested _ _ _ _), ?_⟩
    cases hopen : s.openInclusion ctx (below ctx levels) raw node.line with
    | error t => exact List.forall_mem_nil _
    | ok i =>
      have hdeeper := (openInclusion_opens hopen).1
      cases levels with
      | zero => cases hdeeper
      | succ l =>
        have hinside := listMoments_sourced (hbelow l rfl) (h.inclusion hnode hopen)
        rw [below, Option.some.injEq] at hdeeper
        dsimp only
        rw [← hdeeper]
        exact hinside
  | extension raw =>
    refine List.forall_mem_singleton.mpr fun nested hmem => ?_
    unfold extensionReports at hmem
    rcases hnested : s.compileNested ctx (below ctx levels) (Path.resolve s.current raw) with
      ⟨e | ⟨found, text⟩, t⟩
    · simp [hnested] at hmem
    · obtain rfl : nested = found := by simpa [hnested] using hmem
      exact ⟨levels, _, h, raw, text, t, .extension hnode, hnested⟩

theorem statementsSourced : ∀ levels, StatementsSourced ctx request journal levels
  | 0 => statementsSourced_of_below fun _ h => by cases h
  | levels + 1 => statementsSourced_of_below fun l h => by
    cases h
    exact statementsSourced levels

/-! ## Ledgers -/

namespace Evaluator

/-- The moments of an evaluator. In the first one it reports what the notes of the document
deserve. -/
def moments (ctx : Context) (e : Evaluator) : List Moment :=
  ⟨e.first, (noteWarnings e.file.path e.document.notes).map .warning⟩ ::
    taskMoments ctx e.levels e.opening (.statements true e.document.nodes)

/-- **Whether an evaluator keeps a ledger**: at each moment it has reported just what the moments
before it report, and in the end what all of them do. -/
structure Ledger (ctx : Context) (e : Evaluator) : Prop where
  soFar {past rest : List Moment} {m : Moment} (h : e.moments ctx = past ++ m :: rest) :
    m.state.resource.reported = .of (past.flatMap Moment.reports)
  last : (e.last ctx).resource.reported = .of ((e.moments ctx).flatMap Moment.reports)
  /-- Nothing is lost or changed from one moment to a later one. -/
  pairwise : (e.moments ctx).Pairwise Moment.Before

variable {e : Evaluator}

theorem passes (ctx : Context) (e : Evaluator) : Passes e.first (e.moments ctx) (e.last ctx) :=
  (withNotes_adds _ _ _).passes.trans
    (foldl_passes (visitOrKeep_passes true e.levels) e.document.nodes e.opening)

/-- **Every evaluator keeps a ledger.** -/
theorem ledger (ctx : Context) (e : Evaluator) : e.Ledger ctx := by
  have hfirst : e.first.resource.reported = .of [] := rfl
  have hpasses := e.passes ctx
  refine ⟨fun h => ?_, ?_, hpasses.pairwise⟩
  · rw [h] at hpasses
    rw [hpasses.adds_of_append.reported, hfirst, Reported.of_nil_append]
  · rw [hpasses.adds.reported, hfirst, Reported.of_nil_append]

/-- What is reported at a moment stands together in the end, after what was reported before. -/
theorem Ledger.split (h : e.Ledger ctx) {past rest : List Moment} {m : Moment}
    (hm : e.moments ctx = past ++ m :: rest) : (e.last ctx).resource.reported =
      m.state.resource.reported ++ .of m.reports ++ .of (rest.flatMap Moment.reports) := by
  rw [h.last, h.soFar hm, hm, List.flatMap_append, List.flatMap_cons, Reported.of_append,
    Reported.of_append, Reported.append_assoc]

/-- **No nested document is reported but those that complete**, where they complete. -/
theorem Runs.sourced (h : e.Runs ctx request journal) :
    ∀ m ∈ e.moments ctx, Sourced ctx request journal m :=
  List.forall_mem_cons.mpr ⟨.of_not_mem fun nested => by simp,
    listMoments_sourced (statementsSourced e.levels) h.point⟩

end Evaluator

/-- A document that completes has an evaluator of its own. -/
theorem Completes.exists_evaluator {nested : Resource} (h : Completes ctx levels s task nested)
    (hpoint : Point ctx request journal levels s task) :
    ∃ e : Evaluator, e.Runs ctx request journal ∧ (e.last ctx).resource = nested := by
  obtain ⟨l, raw, n, rfl, hraw, hopen, rfl⟩ := h.exists_nests
  exact ⟨_, .nested hpoint hraw hopen, rfl⟩

end Evaluation

namespace Statement

/-- The path of the document that a statement inherits from. -/
def parent? : Statement → Option String
  | .extension path => some path
  | .assignment _ _ | .comment _ | .inclusion _ => none

theorem eq_extension_of_parent? {statement : Statement} {path : String}
    (h : statement.parent? = some path) : statement = .extension path := by
  cases statement with
  | extension path' => rw [Option.some.inj h]
  | assignment | comment | inclusion => cases h

end Statement

namespace Context

open Evaluation

/-- **What a nested document reports is neither lost nor repeated nor moved.** A compilation that
comes to a resource has it from an evaluator. Each of its evaluators, for whatever document, reports
moment by moment all that its resource does, and never loses or changes it. Each point of the
compilation is a moment of one of them. If a nested document completes there, all that it reports,
and perhaps that the document depends on it, is what is reported at this moment, and stands together
in the end, right after what was reported before. No other moment reports a nested document. -/
theorem outcome_ledger (ctx : Context) (request : Request) (journal : Journal) :
    (∀ r, (ctx.outcome request journal).1 = .ok r →
      ∃ e : Evaluator, e.Runs ctx request journal ∧ (e.last ctx).resource = r) ∧
    (∀ e : Evaluator, e.Runs ctx request journal → e.Ledger ctx) ∧
    (∀ levels s task, Point ctx request journal levels s task →
      ∃ (e : Evaluator) (past rest : List Moment) (reports : List Report),
        e.Runs ctx request journal ∧ e.moments ctx = past ++ ⟨s, reports⟩ :: rest ∧
        ∀ nested, Completes ctx levels s task nested →
          (∃ ds : List Dependency, reports = .nested nested :: ds.map .dependency) ∧
          ∃ after, (e.last ctx).resource.reported =
            s.resource.reported ++ nested.reported ++ after) ∧
    (∀ e : Evaluator, e.Runs ctx request journal → ∀ m ∈ e.moments ctx,
      ∀ nested, .nested nested ∈ m.reports →
        (∃ levels task, Point ctx request journal levels m.state task ∧
          Completes ctx levels m.state task nested) ∧
        ∃ e' : Evaluator, e'.Runs ctx request journal ∧ (e'.last ctx).resource = nested) := by
  refine ⟨fun r hr => ?_, fun e _ => e.ledger ctx, fun levels s task hpoint => ?_,
    fun e hruns m hm nested hmem => ?_⟩
  · rw [outcome_eq, outcomeWithin] at hr
    rcases hfirst : ctx.firstDocument request journal with ⟨e | ⟨file, document⟩, j⟩
    · rw [hfirst] at hr
      cases hr
    · rw [hfirst] at hr
      cases hr
      exact ⟨_, .first hfirst, rfl⟩
  · obtain ⟨e, hruns, before, after, hwhole⟩ := hpoint.exists_evaluator
    obtain ⟨reports, rest, htask⟩ := exists_taskMoments_eq_cons ctx levels s task
    have hmoments : e.moments ctx = (⟨e.first, (noteWarnings e.file.path e.document.notes).map
        .warning⟩ :: before) ++ ⟨s, reports⟩ :: (rest ++ after) := by
      rw [Evaluator.moments, ← hwhole, htask]
      simp
    refine ⟨e, _, _, reports, hruns, hmoments, fun nested hcompletes => ?_⟩
    obtain ⟨ds, rest', hnested⟩ := hcompletes.taskMoments
    rw [htask] at hnested
    obtain rfl : reports = .nested nested :: ds.map .dependency := by
      cases hnested
      rfl
    have hsplit := (e.ledger ctx).split hmoments
    rw [Reported.of, Report.reported, ← Reported.append_assoc, Reported.append_assoc] at hsplit
    exact ⟨⟨ds, rfl⟩, _, hsplit⟩
  · obtain ⟨levels, task, hpoint, hcompletes⟩ := hruns.sourced m hm nested hmem
    exact ⟨⟨levels, task, hpoint, hcompletes⟩, hcompletes.exists_evaluator hpoint⟩

/-- A text that inherits from a file, binds the variables of another one and names a third one,
which is missing. -/
def chainText : String := "@extends a\nx = [@extends b, @copyurl q]"

/-- The two files name the missing one, too. -/
def chain : Context :=
  ⟨Memory.library ⟨"r", [⟨"/a", Memory.latest, "u = @copyurl q".toUTF8⟩,
    ⟨"/b", Memory.latest, "v = @copyurl q".toUTF8⟩]⟩, {}⟩

/-- The text as it is compiled. -/
def chainRequest : Request := .text ⟨"r", "v", "/m"⟩ chainText

/-- The first file compiles at the first point, where nothing has been reported yet. -/
theorem chain_completes : ∃ (task : Evaluation.Task) (nested : Resource),
    Point chain chainRequest (.empty 0) 31 (start ⟨"r", "v", "/m"⟩ [] (.empty 0)) task ∧
    Completes chain 31 (start ⟨"r", "v", "/m"⟩ [] (.empty 0)) task nested ∧
    nested.errors.map Diagnostic.path = ["/a"] := by
  have hdocument : (Document.ofScannedText chain.options chainText).toOption.map
      (fun d => (d.notes, d.nodes.head?.bind fun node => node.statement.parent?)) =
        some ([], some "a") := by decide +kernel
  have hcompiled : ((start ⟨"r", "v", "/m"⟩ [] (.empty 0)).compileNested chain (below chain 31)
      (Path.resolve "/m" "a")).1.toOption.map (fun found => found.1.errors.map Diagnostic.path) =
        some ["/a"] := by decide +kernel
  cases hparsed : Document.ofScannedText chain.options chainText with
  | error e =>
    rw [hparsed] at hdocument
    cases hdocument
  | ok document =>
    rw [hparsed] at hdocument
    obtain ⟨hnotes, hnodes⟩ := Prod.mk.inj (Option.some.inj hdocument)
    have hfirst : chain.firstDocument chainRequest (.empty 0) =
        (.ok (⟨"r", "v", "/m"⟩, document), .empty 0) := by
      rw [chainRequest, firstDocument, parseAt, hparsed]
      rfl
    obtain ⟨node, hhead, hparent⟩ := Option.bind_eq_some_iff.mp hnodes
    obtain ⟨nodes, hcons⟩ := List.head?_eq_some_iff.mp hhead
    have hpoint := Point.start hfirst
    rw [hnotes, hcons] at hpoint
    rcases hnested : (start ⟨"r", "v", "/m"⟩ [] (.empty 0)).compileNested chain (below chain 31)
      (Path.resolve "/m" "a") with ⟨e | ⟨nested, text⟩, t⟩
    · rw [hnested] at hcompiled
      cases hcompiled
    · rw [hnested] at hcompiled
      exact ⟨_, nested, hpoint,
        ⟨"a", text, t, .extension (Statement.eq_extension_of_parent? hparent), hnested⟩,
        Option.some.inj hcompiled⟩

/-- The errors of both files are reported before that of the text. -/
theorem outcome_ledger_chain : ∃ (r nested : Resource) (e e' : Evaluator) (after : Reported),
    (chain.outcome chainRequest (.empty 0)).1 = .ok r ∧
    r.errors.map Diagnostic.path = ["/a", "/b", "/m"] ∧
    (e.last chain).resource = r ∧ e.Ledger chain ∧
    nested.errors.map Diagnostic.path = ["/a"] ∧
    (e'.last chain).resource.reported = nested.reported ++ after := by
  obtain ⟨hresource, hledger, hpoints, -⟩ := outcome_ledger chain chainRequest (.empty 0)
  have houtcome : (chain.outcome chainRequest (.empty 0)).1.toOption.map
      (fun r => r.errors.map Diagnostic.path) = some ["/a", "/b", "/m"] := by decide +kernel
  obtain ⟨task, nested, hpoint, hcompletes, herrors⟩ := chain_completes
  obtain ⟨e', _, _, _, _, _, hreported⟩ := hpoints 31 _ task hpoint
  obtain ⟨-, after, hafter⟩ := hreported nested hcompletes
  cases hr : (chain.outcome chainRequest (.empty 0)).1 with
  | error err =>
    rw [hr] at houtcome
    cases houtcome
  | ok r =>
    rw [hr] at houtcome
    obtain ⟨e, hruns, hlast⟩ := hresource r hr
    exact ⟨r, nested, e, e', after, rfl, Option.some.inj houtcome, hlast, hledger e hruns, herrors,
      hafter⟩

end Context

end Courseware
