/-
Including a document is writing its statements in place.

A document that lies beside the current file, and whose statements are comments
and assignments that open no other document, can be included or have its
statements evaluated where the directive stands (`visit_inclusion_inlines`). The
two evaluations are twins: paths resolve alike in the two files, and the variables
are shared. What is left are the traces of the directive itself: the document is
asked for and becomes a dependency, its notes are taken, and there is a warning
if it was included before.
-/
import Courseware.Proofs.Evaluation.Pairing
import Courseware.Proofs.Path.Composition

namespace Courseware

namespace Path

/-- Whether two paths start at the root and lead to files in the same directory. -/
structure Siblings (current path : String) : Prop where
  current_head : current.toList.head? = some '/'
  path_head : path.toList.head? = some '/'
  directory : directory path = directory current

/-- **Paths written in files of one directory lead to the same files.** -/
theorem Siblings.resolve {current path : String} (h : Siblings current path) (raw : String) :
    Path.resolve path raw = Path.resolve current raw :=
  resolve_of_directory h.current_head h.path_head (congrArg normalize h.directory) raw

end Path

/-- Whether a statement is a comment, or an assignment that opens no document. -/
def Statement.OpensNone : Statement → Prop
  | .comment _ => True
  | .assignment _ v => v.OpensNone
  | .inclusion _ | .extension _ => False

namespace Evaluation

variable {ctx : Context} {s t u : Evaluation} {deeper : Option Visit}

/-! ## What stays behind -/

/-- Whether a state has the warnings, the dependencies and the nodes of an earlier one. -/
structure Quiet (s t : Evaluation) : Prop where
  warnings : t.resource.warnings = s.resource.warnings
  dependencies : t.resource.dependencies = s.resource.dependencies
  nodes : t.resource.nodes = s.resource.nodes

namespace Quiet

theorem refl (s : Evaluation) : Quiet s s := ⟨rfl, rfl, rfl⟩

theorem trans (h : Quiet s t) (h' : Quiet t u) : Quiet s u :=
  ⟨h'.warnings.trans h.warnings, h'.dependencies.trans h.dependencies, h'.nodes.trans h.nodes⟩

theorem withError (h : Quiet s t) (d : Diagnostic) : Quiet s (t.withError d) := { h with }

theorem accumulates : Accumulates Quiet := ⟨refl, trans, withError⟩

end Quiet

theorem OnlyJournal.quiet (h : OnlyJournal s t) : Quiet s t := by
  obtain ⟨j, rfl⟩ := h
  exact ⟨rfl, rfl, rfl⟩

theorem resolve_quiet {v : Value} (hv : v.OpensNone) (s : Evaluation) :
    Quiet s (resolve ctx deeper v s).2 :=
  Quiet.accumulates.resolve (fun line _ s ha => (resolveAtom_onlyJournal s line ha).quiet) v s hv

theorem visitAssignment_quiet (s : Evaluation) (key : String) {v : Value} (h : v.OpensNone) :
    Quiet s (s.visitAssignment ctx deeper key v) := by
  have hvalue : Quiet { s with assigning := some key }
      (resolve ctx deeper v { s with assigning := some key }).2 := resolve_quiet h _
  obtain ⟨vars, own, errors, heq⟩ := s.visitAssignment_eq ctx deeper key v
  rw [heq]
  exact ⟨hvalue.warnings, hvalue.dependencies, hvalue.nodes⟩

theorem visit_quiet {levels : Nat} {node : Node} (h : node.statement.OpensNone) (s : Evaluation) :
    Quiet s (visit ctx levels s node) := by
  rw [visit_eq]
  unfold visitWith
  cases hstatement : node.statement with
  | comment => exact Quiet.refl s
  | assignment key v =>
    rw [hstatement] at h
    exact visitAssignment_quiet s key h
  | inclusion path | extension path =>
    rw [hstatement] at h
    exact h.elim

theorem foldl_quiet {levels : Nat} {nodes : List Node} (h : ∀ n ∈ nodes, n.statement.OpensNone)
    (s : Evaluation) : Quiet s (nodes.foldl (visit ctx levels) s) :=
  Quiet.accumulates.foldl (fun n hn s => visit_quiet (h n hn) s) s

/-! ## Side by side -/

/-- A statement that opens no document keeps twins. -/
theorem Pairing.Twins.visit {p : Pairing} {levels levels' : Nat} {s s' : Evaluation}
    (hs : p.Twins s s') {node : Node} (h : node.statement.OpensNone) :
    p.Twins (visit ctx levels s node) (visit ctx levels' s' node) := by
  rw [visit_eq, visit_eq]
  unfold visitWith
  cases hstatement : node.statement with
  | comment => exact hs
  | assignment key v =>
    rw [hstatement] at h
    have hatoms : p.AtomsAgree ctx (fun _ _ => True) (fun a => ∀ path, a ≠ .dictionary path)
        (below ctx levels) (below ctx levels') :=
      fun line _ ha _ _ hs _ => hs.resolveAtom _ _ line ha
    exact hs.visitAssignment (continuing_below levels) hatoms key h (Journal.allows_true _)
  | inclusion path | extension path =>
    rw [hstatement] at h
    exact h.elim

theorem Pairing.Twins.foldl {p : Pairing} {levels levels' : Nat} {nodes : List Node}
    {s s' : Evaluation} (hs : p.Twins s s') (h : ∀ n ∈ nodes, n.statement.OpensNone) :
    p.Twins (nodes.foldl (Evaluation.visit ctx levels) s)
      (nodes.foldl (Evaluation.visit ctx levels') s') :=
  List.foldl_rel hs fun n hn _ _ ht => ht.visit (h n hn)

/-! ## Opening a document -/

section

variable {raw target text : String} {file : Descriptor} {document : Document} {line : Nat}

theorem openInclusion_eq {α : Type} (deeper : α) (line : Nat)
    (hclosed : Path.resolve s.current raw ∉ s.stack)
    (hread : ctx.library.readText (Path.resolve s.current raw) s.resource.file.version =
      .ok (file, text)) (hparsed : Document.ofScannedText ctx.options text = .ok document) :
    s.openInclusion ctx (some deeper) raw line = .ok ⟨deeper, file, document,
      { s with journal := s.askedFor (Path.resolve s.current raw) file }.withInclusion file text
        line⟩ := by
  simp only [openInclusion, enter_closed deeper hclosed, record_readText hread, hparsed]

/-- Whether a state is the one at the first statement of a document that is included from an
earlier one. -/
structure Entered (s inside : Evaluation) (target : String) (line : Nat) (file : Descriptor)
    (text : String) (notes : List Note) : Prop where
  resource : inside.resource = { s.resource with
    warnings := s.resource.warnings ++ s.repeatedInclusion file line ++ noteWarnings file.path notes
    dependencies := s.resource.dependencies ++ [⟨none, line, text, file.path⟩] }
  current : inside.current = file.path
  stack : inside.stack = s.stack ++ [file.path]
  assigning : inside.assigning = s.assigning
  journal : inside.journal = s.askedFor target file

/-- A document that can be included is entered, and left when its statements are done. -/
theorem visitInclusion_eq (visit : Visit) (line : Nat)
    (hclosed : Path.resolve s.current raw ∉ s.stack)
    (hread : ctx.library.readText (Path.resolve s.current raw) s.resource.file.version =
      .ok (file, text)) (hparsed : Document.ofScannedText ctx.options text = .ok document) :
    ∃ inside, Entered s inside (Path.resolve s.current raw) line file text document.notes ∧
      s.visitInclusion ctx (some visit) raw line =
        { document.nodes.foldl visit inside with
          current := s.current, stack := (document.nodes.foldl visit inside).stack.dropLast } := by
  have hopen := openInclusion_eq visit line hclosed hread hparsed
  obtain ⟨included, hbefore⟩ := withInclusion_eq
    { s with journal := s.askedFor (Path.resolve s.current raw) file } file text line
  generalize Evaluation.withInclusion _ file text line = before at hopen hbefore
  refine ⟨Inclusion.inside ⟨visit, file, document, before⟩, ⟨?_, rfl, ?_, ?_, ?_⟩, ?_⟩
  · simp only [Inclusion.inside, withNotes_eq, hbefore]
    rfl
  · simp only [Inclusion.inside, hbefore]
  · simp only [Inclusion.inside, withNotes_eq, hbefore]
  · simp only [Inclusion.inside, withNotes_eq, hbefore]
  · simp only [visitInclusion, hopen, hbefore]

/-! ## Inlining -/

/-- **What an included document leaves behind, beside its statements in place.** From `s`, the
inclusion at a line leads to `t` and the statements to `u`. -/
structure Inlined (s t u : Evaluation) (target : String) (line : Nat) (file : Descriptor)
    (text : String) (notes : List Note) : Prop where
  sameFile : t.resource.file = u.resource.file
  vars : t.resource.vars = u.resource.vars
  own : t.resource.own = u.resource.own
  nodes : t.resource.nodes = u.resource.nodes
  /-- As many identifiers were drawn. -/
  nextId : t.journal.nextId = u.journal.nextId
  current : t.current = u.current
  stack : t.stack = u.stack
  /-- The document itself is asked for first. -/
  calls : ∃ calls, u.journal.calls = s.journal.calls ++ calls ∧
    t.journal.calls = s.journal.calls ++
      [.locate target s.resource.file.version, .content file] ++ calls
  /-- Errors are for the file that the statements come from. -/
  errors : ∃ errors, u.resource.errors = s.resource.errors ++ errors ∧
    t.resource.errors = s.resource.errors ++ errors.map fun d => { d with path := file.path }
  dependencies :
    t.resource.dependencies = u.resource.dependencies ++ [⟨none, line, text, file.path⟩]
  warnings : t.resource.warnings =
    u.resource.warnings ++ s.repeatedInclusion file line ++ noteWarnings file.path notes

/-- The statements in place, and those of the document beside the current file. -/
def inlining (s inside : Evaluation) (file : Descriptor)
    (hsiblings : Path.Siblings s.current file.path) : Pairing where
  version := s.resource.file.version
  one := ⟨s.current, s.stack, s.journal.nextId, s.resource.errors, s.resource.warnings,
    s.resource.dependencies, s.journal.calls⟩
  other := ⟨file.path, s.stack ++ [file.path], s.journal.nextId, inside.resource.errors,
    inside.resource.warnings, inside.resource.dependencies, inside.journal.calls⟩
  moved d := { d with path := file.path }
  resolve := hsiblings.resolve
  here _ _ := rfl

theorem Entered.twins {inside : Evaluation} {notes : List Note}
    (h : Entered s inside target line file text notes)
    (hsiblings : Path.Siblings s.current file.path) :
    (inlining s inside file hsiblings).Twins s inside := by
  have hversion : inside.resource.file.version = s.resource.file.version := by rw [h.resource]
  have hvars : inside.resource.vars = s.resource.vars := by rw [h.resource]
  have hown : inside.resource.own = s.resource.own := by rw [h.resource]
  have hnextId : inside.journal.nextId = s.journal.nextId := by
    rw [h.journal]
    rfl
  refine ⟨rfl, h.current, rfl, h.stack, h.assigning, ⟨rfl, hversion, ?_, ?_, .refl _ _ _,
    .refl _ _ _, .refl _ _ _⟩, ⟨⟨0, rfl, hnextId⟩, .refl _ _ _⟩⟩
  · rw [hvars]
    exact Json.entriesAlike_refl _
  · rw [hown]
    exact Json.entriesAlike_refl _

/-- **Including a document is writing its statements in place.** -/
theorem visit_inclusion_inlines {levels : Nat} {node : Node}
    (hnode : node.statement = .inclusion raw) (hclosed : Path.resolve s.current raw ∉ s.stack)
    (hread : ctx.library.readText (Path.resolve s.current raw) s.resource.file.version =
      .ok (file, text)) (hparsed : Document.ofScannedText ctx.options text = .ok document)
    (hsiblings : Path.Siblings s.current file.path)
    (hopensNone : ∀ n ∈ document.nodes, n.statement.OpensNone) :
    Inlined s (visit ctx (levels + 1) s node) (document.nodes.foldl (visit ctx (levels + 1)) s)
      (Path.resolve s.current raw) node.line file text document.notes := by
  obtain ⟨inside, hentered, hinclusion⟩ :=
    visitInclusion_eq (visit ctx levels) node.line hclosed hread hparsed
  have hvisit : visit ctx (levels + 1) s node =
      { document.nodes.foldl (visit ctx levels) inside with
        current := s.current
        stack := (document.nodes.foldl (visit ctx levels) inside).stack.dropLast } := by
    simp only [visit, visitWith, hnode, hinclusion]
  have htwins : (inlining s inside file hsiblings).Twins
      (document.nodes.foldl (visit ctx (levels + 1)) s)
      (document.nodes.foldl (visit ctx levels) inside) :=
    (hentered.twins hsiblings).foldl hopensNone
  have hstays : Stays s (document.nodes.foldl (visit ctx (levels + 1)) s) :=
    foldl_stays (visit_stays _) _ s
  have hstays' : Stays inside (document.nodes.foldl (visit ctx levels) inside) :=
    foldl_stays (visit_stays _) _ inside
  have hquiet : Quiet s (document.nodes.foldl (visit ctx (levels + 1)) s) :=
    foldl_quiet hopensNone s
  have hquiet' : Quiet inside (document.nodes.foldl (visit ctx levels) inside) :=
    foldl_quiet hopensNone inside
  rw [hvisit]
  generalize document.nodes.foldl (visit ctx (levels + 1)) s = u at *
  generalize document.nodes.foldl (visit ctx levels) inside = t at *
  obtain ⟨drawn, hids, hids'⟩ := htwins.journals.ids
  obtain ⟨calls, hcalls, hcalls'⟩ := htwins.journals.calls
  obtain ⟨errors, herrors, herrors'⟩ := htwins.resources.errors
  refine
    { sameFile := ?_
      vars := htwins.resources.vars.eq.symm
      own := htwins.resources.own.eq.symm
      nodes := ?_
      nextId := hids'.trans hids.symm
      current := hstays.current.symm
      stack := ?_
      calls := ⟨calls, hcalls, ?_⟩
      errors := ⟨errors, herrors, ?_⟩
      dependencies := ?_
      warnings := ?_ }
  · dsimp only
    rw [hstays'.file, hstays.file, hentered.resource]
  · dsimp only
    rw [hquiet'.nodes, hquiet.nodes, hentered.resource]
  · dsimp only
    rw [hstays'.stack, hentered.stack, List.dropLast_concat, hstays.stack]
  · have hinside : inside.journal.calls = s.journal.calls ++
        [.locate (Path.resolve s.current raw) s.resource.file.version, .content file] := by
      rw [hentered.journal, askedFor_calls]
    rw [List.map_id, inlining, hinside] at hcalls'
    exact hcalls'
  · have hinside : inside.resource.errors = s.resource.errors := by rw [hentered.resource]
    rw [inlining, hinside] at herrors'
    exact herrors'
  · dsimp only
    rw [hquiet'.dependencies, hquiet.dependencies, hentered.resource]
  · dsimp only
    rw [hquiet'.warnings, hquiet.warnings, hentered.resource]

end

/-- A text that reads a variable which it does not have, and names a file. -/
def includedText : String := "y = z\nu = @copyurl g"

/-- A file with this text, and the one that it names, beside each other. -/
def besideEachOther : Memory :=
  ⟨"r", [⟨"/d/f", Memory.latest, includedText.toUTF8⟩, ⟨"/d/g", Memory.latest, "".toUTF8⟩]⟩

/-- What the text says. -/
def includedNodes : List Node :=
  [⟨.assignment "y" (.atom 1 (.reference "z")), 1, ""⟩,
    ⟨.assignment "u" (.atom 2 (.url "g")), 2, ""⟩]

/-- An error in the file that is included is for its own line there, and a file that it names lies
beside the one that includes it as well. -/
theorem visit_inclusion_inlines_siblings :
    let ctx : Context := ⟨besideEachOther.library, {}⟩
    let s := start ⟨"r", "v", "/d/e"⟩ [] (.empty 0)
    let t := visit ctx 1 s ⟨.inclusion "f", 7, ""⟩
    Inlined s t (includedNodes.foldl (visit ctx 1) s) "/d/f" 7 ⟨"r", "v", "/d/f"⟩ includedText [] ∧
    t.resource.errors = [⟨1, "/d/f", "Unresolved reference 'z'"⟩] ∧
    t.journal.calls.getLast? =
      some (.url ⟨"r", "v", "/d/g"⟩ "/api/v1/files") := by
  have htarget : Path.resolve "/d/e" "f" = "/d/f" := by decide +kernel
  have hclosed : Path.resolve "/d/e" "f" ∉ ["/d/e"] := by
    rw [htarget]
    decide
  have hread : besideEachOther.library.readText (Path.resolve "/d/e" "f") "v" =
      .ok (⟨"r", "v", "/d/f"⟩, includedText) := by
    rw [htarget]
    rfl
  have htokens : Token.ofText? "wc-" includedText = .ok [⟨.name "y", "y", 1⟩, ⟨.equals, "=", 1⟩,
      ⟨.name "z", "z", 1⟩, ⟨.name "u", "u", 2⟩, ⟨.equals, "=", 2⟩, ⟨.directive .url, "@copyurl", 2⟩,
      ⟨.path "g", "g", 2⟩, ⟨.finish, "", 2⟩] := by
    decide +kernel
  have hparsed : Document.ofScannedText {} includedText = .ok ⟨includedNodes, []⟩ := by
    rw [Document.ofScannedText, htokens]
    rfl
  have hsiblings : Path.Siblings "/d/e" "/d/f" := ⟨by decide, by decide, by decide +kernel⟩
  have hopensNone : ∀ n ∈ includedNodes, n.statement.OpensNone := by
    simp [includedNodes, Statement.OpensNone, Value.OpensNone, Value.Forall]
  intro ctx s t
  have hinlined : Inlined s t (includedNodes.foldl (visit ctx 1) s) (Path.resolve s.current "f") 7
      ⟨"r", "v", "/d/f"⟩ includedText [] := by
    exact @visit_inclusion_inlines ctx s "f" includedText ⟨"r", "v", "/d/f"⟩ ⟨includedNodes, []⟩ 0
      ⟨.inclusion "f", 7, ""⟩ rfl hclosed hread hparsed hsiblings hopensNone
  have hcurrent : Path.resolve s.current "f" = "/d/f" := htarget
  rw [hcurrent] at hinlined
  exact ⟨hinlined, by decide +kernel, by decide +kernel⟩

end Evaluation

end Courseware
