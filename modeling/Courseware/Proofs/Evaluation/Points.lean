/-
The points of a compilation.

A compilation is at some point in a state, with something that it does next (a
`Task`) and some levels of documents left below it. `Point` has one rule for
each step to the next task, and one for each way into a document that is
opened. So whatever is preserved by these rules holds throughout a compilation,
its nested documents included; the state that it ends in is one of the points
(`point_run`).

Which files are open changes in one way only: a directive opens one more
(`Directs`). So there is a shorter induction for what depends on them alone
(`Point.open_induction`).
-/
import Courseware.Proofs.Evaluation.Place

namespace Courseware

/-- What a compilation starts from. -/
inductive Request where
  /-- The document at a path and a version. -/
  | path (path version : String)
  /-- A text, as if it stood at a file. -/
  | text (file : Descriptor) (text : String)

namespace Context

/-- The outcome of the compilation that answers a request. -/
def outcome (ctx : Context) : Request → Journal → Except Error Resource × Journal
  | .path path version, journal => ctx.compile path version journal
  | .text file text, journal => ctx.compileText file text journal

/-- The document of a text that stands at a file. -/
def parseAt (ctx : Context) (file : Descriptor) (text : String) :
    Except Error (Descriptor × Document) :=
  (Document.ofScannedText ctx.options text).map fun document => (file, document)

/-- The document that a compilation starts with, and the file it stands in. -/
def firstDocument (ctx : Context) (request : Request) (journal : Journal) :
    Except Error (Descriptor × Document) × Journal :=
  match request with
  | .text file text => (ctx.parseAt file text, journal)
  | .path path version =>
    match ctx.library.askText [] path version journal with
    | (.error e, journal) => (.error e, journal)
    | (.ok (file, text), journal) => (ctx.parseAt file text, journal)

/-- The outcome of a compilation with some levels of documents below the first one. -/
def outcomeWithin (ctx : Context) (levels : Nat) (request : Request) (journal : Journal) :
    Except Error Resource × Journal :=
  match ctx.firstDocument request journal with
  | (.error e, journal) => (.error e, journal)
  | (.ok (file, document), journal) =>
    let s := (Evaluation.start file [] journal).run (Evaluation.visit ctx levels) document
    (.ok s.resource, s.journal)

theorem compileText_eq (ctx : Context) (file : Descriptor) (text : String) (journal : Journal) :
    ctx.compileText file text journal =
      ctx.outcomeWithin (ctx.options.maxDepth - 1) (.text file text) journal := by
  simp only [compileText, outcomeWithin, firstDocument, parseAt]
  cases Document.ofScannedText ctx.options text with
  | error e => rfl
  | ok document => rfl

/-- A compilation has one level less below it than files may be open. -/
theorem outcome_eq (ctx : Context) (request : Request) (journal : Journal) :
    ctx.outcome request journal = ctx.outcomeWithin (ctx.options.maxDepth - 1) request journal := by
  cases request with
  | text file text => exact compileText_eq ctx file text journal
  | path path version =>
    simp only [outcome, compile, outcomeWithin, firstDocument]
    rcases ctx.library.askText [] path version journal with ⟨e | ⟨file, text⟩, journal⟩
    · rfl
    · exact compileText_eq ctx file text journal

end Context

namespace Evaluation

/-- What an evaluation does next. -/
inductive Task where
  /-- Statements, which the resource keeps if they are its `own`. -/
  | statements (own : Bool) (nodes : List Node)
  /-- A value is resolved. -/
  | value (v : Value)
  | items (items : List Value)
  | entries (entries : List (String × Value))

/-- How a statement is evaluated, where the resource keeps it or not. -/
def visitOrKeep (own : Bool) (visit : Visit) : Visit := if own then keep visit else visit

/-- The state after an item or an entry, whose error is recorded if it has no value. -/
def settled : Except Diagnostic Json × Evaluation → Evaluation
  | (.ok _, s) => s
  | (.error d, s) => s.withError d

/-- **The points of a compilation**: a state, what comes next, and how many levels are left. -/
inductive Point (ctx : Context) (request : Request) (journal : Journal) :
    (levels : Nat) → Evaluation → Task → Prop
  | start {file : Descriptor} {document : Document} {j : Journal}
      (h : ctx.firstDocument request journal = (.ok (file, document), j)) :
      Point ctx request journal (ctx.options.maxDepth - 1)
        ((start file [] j).withNotes file.path document.notes) (.statements true document.nodes)
  | next {levels : Nat} {s : Evaluation} {own : Bool} {node : Node} {nodes : List Node}
      (h : Point ctx request journal levels s (.statements own (node :: nodes))) :
      Point ctx request journal levels (visitOrKeep own (visit ctx levels) s node)
        (.statements own nodes)
  /-- The value of an assignment. -/
  | assigned {levels : Nat} {s : Evaluation} {own : Bool} {node : Node} {nodes : List Node}
      {key : String} {v : Value}
      (h : Point ctx request journal levels s (.statements own (node :: nodes)))
      (hnode : node.statement = .assignment key v) :
      Point ctx request journal levels { s with assigning := some key } (.value v)
  /-- A document that is included. -/
  | inclusion {levels : Nat} {s : Evaluation} {own : Bool} {node : Node} {nodes : List Node}
      {raw : String} {i : Inclusion Visit}
      (h : Point ctx request journal (levels + 1) s (.statements own (node :: nodes)))
      (hnode : node.statement = .inclusion raw)
      (hopen : s.openInclusion ctx (some (visit ctx levels)) raw node.line = .ok i) :
      Point ctx request journal levels i.inside (.statements false i.document.nodes)
  /-- A document that is inherited from. -/
  | extension {levels : Nat} {s : Evaluation} {own : Bool} {node : Node} {nodes : List Node}
      {raw : String} {n : Nested}
      (h : Point ctx request journal (levels + 1) s (.statements own (node :: nodes)))
      (hnode : node.statement = .extension raw)
      (hopen : Nests ctx s (Path.resolve s.current raw) n) :
      Point ctx request journal levels ((n.start s.stack).withNotes n.file.path n.document.notes)
        (.statements true n.document.nodes)
  /-- A document whose variables are bound to a key. -/
  | dictionary {levels : Nat} {s : Evaluation} {line : Nat} {raw : String} {n : Nested}
      (h : Point ctx request journal (levels + 1) s (.value (.atom line (.dictionary raw))))
      (hopen : Nests ctx s (Path.resolve s.current raw) n) :
      Point ctx request journal levels ((n.start s.stack).withNotes n.file.path n.document.notes)
        (.statements true n.document.nodes)
  | array {levels : Nat} {s : Evaluation} {line : Nat} {items : List Value}
      (h : Point ctx request journal levels s (.value (.array line items))) :
      Point ctx request journal levels s (.items items)
  | item {levels : Nat} {s : Evaluation} {v : Value} {items : List Value}
      (h : Point ctx request journal levels s (.items (v :: items))) :
      Point ctx request journal levels s (.value v)
  | nextItem {levels : Nat} {s : Evaluation} {v : Value} {items : List Value}
      (h : Point ctx request journal levels s (.items (v :: items))) :
      Point ctx request journal levels (settled (resolve ctx (below ctx levels) v s)) (.items items)
  | object {levels : Nat} {s : Evaluation} {line : Nat} {entries : List (String × Value)}
      (h : Point ctx request journal levels s (.value (.object line entries))) :
      Point ctx request journal levels s (.entries entries)
  | entry {levels : Nat} {s : Evaluation} {key : String} {v : Value}
      {entries : List (String × Value)}
      (h : Point ctx request journal levels s (.entries ((key, v) :: entries))) :
      Point ctx request journal levels s (.value v)
  | nextEntry {levels : Nat} {s : Evaluation} {key : String} {v : Value}
      {entries : List (String × Value)}
      (h : Point ctx request journal levels s (.entries ((key, v) :: entries))) :
      Point ctx request journal levels (settled (resolve ctx (below ctx levels) v s))
        (.entries entries)

variable {ctx : Context} {request : Request} {journal : Journal} {levels : Nat} {s : Evaluation}

theorem resolveItems_cons (deeper : Option Visit) (v : Value) (items : List Value)
    (s : Evaluation) : (resolveItems ctx deeper (v :: items) s).2 =
      (resolveItems ctx deeper items (settled (resolve ctx deeper v s))).2 := by
  rw [resolveItems]
  rcases resolve ctx deeper v s with ⟨d | json, t⟩ <;> rfl

theorem resolveEntries_cons (deeper : Option Visit) (key : String) (v : Value)
    (entries : List (String × Value)) (s : Evaluation) :
    (resolveEntries ctx deeper ((key, v) :: entries) s).2 =
      (resolveEntries ctx deeper entries (settled (resolve ctx deeper v s))).2 := by
  rw [resolveEntries]
  rcases resolve ctx deeper v s with ⟨d | json, t⟩ <;> rfl

/-- Statements that come next are followed by a point at which none is left. -/
theorem Point.foldl {own : Bool} {nodes : List Node}
    (h : Point ctx request journal levels s (.statements own nodes)) :
    Point ctx request journal levels (nodes.foldl (visitOrKeep own (visit ctx levels)) s)
      (.statements own []) := by
  induction nodes generalizing s with
  | nil => exact h
  | cons node nodes ih => exact ih h.next

/-- **A compilation ends at one of its points.** -/
theorem point_run {file : Descriptor} {document : Document} {j : Journal}
    (h : ctx.firstDocument request journal = (.ok (file, document), j)) :
    Point ctx request journal (ctx.options.maxDepth - 1)
      ((start file [] j).run (visit ctx (ctx.options.maxDepth - 1)) document)
      (.statements true []) :=
  (Point.start h).foldl

theorem settled_stays {deeper : Option Visit} (v : Value) (s : Evaluation) :
    Stays s (settled (resolve ctx deeper v s)) := by
  have hframe : Frame s (resolve ctx deeper v s).2 := resolve_frame v s
  rcases hresolve : resolve ctx deeper v s with ⟨d | json, t⟩
  · rw [hresolve] at hframe
    exact hframe.stays.withError d
  · rw [hresolve] at hframe
    exact hframe.stays

theorem visitOrKeep_stays (own : Bool) (levels : Nat) (s : Evaluation) (node : Node) :
    Stays s (visitOrKeep own (visit ctx levels) s node) := by
  cases own with
  | true => exact keep_stays (visit_stays levels) s node
  | false => exact visit_stays levels s node

/-! ## Open files -/

/-- Whether a task starts with a directive that opens a document: the path it names, the line it
stands at, and the state after it. -/
inductive Directs (ctx : Context) (levels : Nat) (s : Evaluation) :
    Task → (raw : String) → (line : Nat) → Evaluation → Prop
  | inclusion {own : Bool} {node : Node} {nodes : List Node} {raw : String}
      (h : node.statement = .inclusion raw) :
      Directs ctx levels s (.statements own (node :: nodes)) raw node.line (visit ctx levels s node)
  | extension {own : Bool} {node : Node} {nodes : List Node} {raw : String}
      (h : node.statement = .extension raw) :
      Directs ctx levels s (.statements own (node :: nodes)) raw node.line (visit ctx levels s node)
  | assigned {own : Bool} {node : Node} {nodes : List Node} {key raw : String} {line : Nat}
      (h : node.statement = .assignment key (.atom line (.dictionary raw))) :
      Directs ctx levels s (.statements own (node :: nodes)) raw line (visit ctx levels s node)
  /-- A value in a literal. -/
  | value {line : Nat} {raw : String} :
      Directs ctx levels s (.value (.atom line (.dictionary raw))) raw line
        (settled (resolve ctx (below ctx levels) (.atom line (.dictionary raw)) s))

/-- **Induction on the files that are open.** What holds of the first file by itself, and goes on to
hold when a directive opens one more, holds at every point: of the levels that are left, of the file
that the statements come from and of the open files. -/
theorem Point.open_induction {P : (levels : Nat) → (current : String) → List String → Prop}
    (first : ∀ {file : Descriptor} {document : Document} {j : Journal},
      ctx.firstDocument request journal = (.ok (file, document), j) →
        P (ctx.options.maxDepth - 1) file.path [file.path])
    (opened : ∀ {levels : Nat} {s t : Evaluation} {task : Task} {raw : String} {line : Nat}
      {file : Descriptor}, Point ctx request journal (levels + 1) s task →
        Directs ctx (levels + 1) s task raw line t →
          Opens ctx s (Path.resolve s.current raw) file → P (levels + 1) s.current s.stack →
            P levels file.path (s.stack ++ [file.path])) {task : Task}
    (h : Point ctx request journal levels s task) : P levels s.current s.stack := by
  have hstays : ∀ {levels : Nat} {s t : Evaluation}, Stays s t → P levels s.current s.stack →
      P levels t.current t.stack := by
    intro levels s t hst hs
    rw [hst.current, hst.stack]
    exact hs
  induction h with
  | start h => exact hstays (withNotes_stays _ _ _) (first h)
  | next _ ih => exact hstays (visitOrKeep_stays _ _ _ _) ih
  | assigned _ _ ih => exact ih
  | inclusion h hnode hopen ih =>
    obtain ⟨-, hopens, hbefore⟩ := openInclusion_opens hopen
    obtain ⟨-, hcurrent, hstack⟩ := inside_place _
    rw [hcurrent, hstack, hbefore.stack]
    exact opened h (.inclusion hnode) hopens ih
  | extension h hnode hopen ih =>
    exact hstays (withNotes_stays _ _ _) (opened h (.extension hnode) hopen.opens ih)
  | dictionary h hopen ih => exact hstays (withNotes_stays _ _ _) (opened h .value hopen.opens ih)
  | array _ ih => exact ih
  | item _ ih => exact ih
  | nextItem _ ih => exact hstays (settled_stays _ _) ih
  | object _ ih => exact ih
  | entry _ ih => exact ih
  | nextEntry _ ih => exact hstays (settled_stays _ _) ih

/-- A file takes a level, and the levels that are left are those that are free. -/
theorem Point.levels_add {task : Task} (h : Point ctx request journal levels s task) :
    levels + s.stack.length = max 1 ctx.options.maxDepth := by
  refine h.open_induction (P := fun levels _ stack =>
    levels + stack.length = max 1 ctx.options.maxDepth) ?_ ?_
  · intro file _ _ _
    rw [List.length_singleton]
    omega
  · intro levels s _ _ _ _ _ _ _ _ ih
    rw [List.length_append, List.length_singleton]
    omega

end Evaluation

end Courseware
