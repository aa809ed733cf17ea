/-
Evaluating the statements of a document.

Statements are evaluated one after another, so an assignment sees those before
it. What goes wrong in one of them is recorded and the next one follows: a
value that cannot be resolved leaves its assignment out, an item of an array
becomes `null`, an entry of an object is dropped.

A directive that opens another document evaluates it one level deeper. How
many levels there are is what the recursion is on: `visit levels` gives to
each statement the evaluation of `levels - 1` for the documents that it opens,
and none of them when there is no level left.
-/
import Courseware.Document.Parser
import Courseware.Evaluation.State
import Courseware.Text.Base64

namespace Courseware

namespace Evaluation

/-- How the statements of a document one level deeper are evaluated. -/
abbrev Visit := Evaluation → Node → Evaluation

/-- The evaluation of a node of the document itself, which the resource keeps. -/
def keep (visit : Visit) (s : Evaluation) (node : Node) : Evaluation :=
  let node := { node with origin := s.current }
  let s := visit s node
  { s with resource := { s.resource with nodes := s.resource.nodes ++ [node] } }

/-- The evaluation of a whole document: its notes, then each node. -/
def run (visit : Visit) (document : Document) (s : Evaluation) : Evaluation :=
  document.nodes.foldl (keep visit) (s.withNotes s.current document.notes)

/-- The resource of the document at a path, compiled on its own inside the files that are open, and
its text. -/
def compileNested (ctx : Context) (deeper : Option Visit) (s : Evaluation) (target : String) :
    Except Error (Resource × String) × Evaluation :=
  match s.enter ctx deeper target with
  | (.error e, s) => (.error e, s)
  | (.ok visit, s) =>
    match s.readText ctx target with
    | (.error e, s) => (.error e, s)
    | (.ok (file, text), s) =>
      match Document.ofScannedText ctx.options text with
      | .error e => (.error e, s)
      | .ok document =>
        let nested := (start file s.stack s.journal).run visit document
        (.ok (nested.resource, text), { s with journal := nested.journal })

/-- The address of the file at a path. -/
def copyUrl (ctx : Context) (s : Evaluation) (raw : String) (line : Nat) :
    Except Diagnostic Json × Evaluation :=
  match s.locate ctx (Path.resolve s.current raw) with
  | (.error e, s) => (.error (s.here line ("Cannot copy url of '" ++ raw ++ "': " ++ e.display)), s)
  | (.ok file, s) =>
    (.ok (.str (file.url ctx.options.urlStart)), s.record (.call (.url file ctx.options.urlStart)))

/-- The text of a file, or a data address of its bytes if they are no text. -/
def contentText (bytes : ByteArray) : String :=
  match String.fromUTF8? bytes with
  | some text => text
  | none => "data:application/octet-stream;base64," ++ Text.Base64.encode bytes

/-- The content of the file at a path. -/
def copyContent (ctx : Context) (s : Evaluation) (raw : String) (line : Nat) :
    Except Diagnostic Json × Evaluation :=
  let fail (s : Evaluation) (e : Error) : Except Diagnostic Json × Evaluation :=
    (.error (s.here line ("Cannot copy content of '" ++ raw ++ "': " ++ e.display)), s)
  match s.locate ctx (Path.resolve s.current raw) with
  | (.error e, s) => fail s e
  | (.ok file, s) =>
    match s.content ctx file with
    | (.error e, s) => fail s e
    | (.ok bytes, s) => (.ok (.str (contentText bytes)), s)

/-- The variables of the document at a path as an object; nothing is inherited from it. -/
def bindVariables (ctx : Context) (deeper : Option Visit) (s : Evaluation) (raw : String)
    (line : Nat) : Except Diagnostic Json × Evaluation :=
  let target := Path.resolve s.current raw
  match s.compileNested ctx deeper target with
  | (.error e, s) => (.error (.ofNested e target line s.current), s)
  | (.ok (nested, text), s) =>
    let resource :=
      (s.resource.absorb nested).withDependency ⟨s.assigning, line, text, nested.file.path⟩
    (.ok (.obj nested.vars), { s with resource })

/-- A component with an identifier of its own. -/
def component (s : Evaluation) (selector : String) : Json × Evaluation :=
  let id := Identifier.ofNat s.journal.nextId
  (.obj [("cid", .str id), ("selector", .str selector)],
    { s with journal := { s.journal with nextId := s.journal.nextId + 1 } })

/-- The value of an atom; strings lose the blanks at their ends. -/
def resolveAtom (ctx : Context) (deeper : Option Visit) (s : Evaluation) (line : Nat) :
    Atom → Except Diagnostic Json × Evaluation
  | .string text => (.ok (.str (Text.trimmed text)), s)
  | .number n => (.ok n.toJson, s)
  | .boolean b => (.ok (.bool b), s)
  | .component selector =>
    let (value, s) := s.component selector
    (.ok value, s)
  | .reference name =>
    match s.resource.get? name with
    | some value => (.ok value, s)
    | none => (.error (s.here line ("Unresolved reference '" ++ name ++ "'")), s)
  | .url path => s.copyUrl ctx path line
  | .content path => s.copyContent ctx path line
  | .dictionary path => s.bindVariables ctx deeper path line

mutual

/-- **The value of a value as it is written**, or why it has none. -/
def resolve (ctx : Context) (deeper : Option Visit) :
    Value → Evaluation → Except Diagnostic Json × Evaluation
  | .atom line a, s => s.resolveAtom ctx deeper line a
  | .array _ items, s =>
    let (values, s) := resolveItems ctx deeper items s
    (.ok (.arr values), s)
  | .object _ entries, s =>
    let (values, s) := resolveEntries ctx deeper entries s
    (.ok (.obj values), s)

/-- The values of items, `null` for each that has none. -/
def resolveItems (ctx : Context) (deeper : Option Visit) :
    List Value → Evaluation → List Json × Evaluation
  | [], s => ([], s)
  | item :: items, s =>
    match resolve ctx deeper item s with
    | (.ok value, s) =>
      let (values, s) := resolveItems ctx deeper items s
      (value :: values, s)
    | (.error d, s) =>
      let (values, s) := resolveItems ctx deeper items (s.withError d)
      (.null :: values, s)

/-- The entries whose values have one. -/
def resolveEntries (ctx : Context) (deeper : Option Visit) :
    List (String × Value) → Evaluation → Dict Json × Evaluation
  | [], s => ([], s)
  | (key, entry) :: entries, s =>
    match resolve ctx deeper entry s with
    | (.ok value, s) =>
      let (values, s) := resolveEntries ctx deeper entries s
      ((key, value) :: values, s)
    | (.error d, s) => resolveEntries ctx deeper entries (s.withError d)

end

/-- An assignment: nothing is assigned if the value has none. -/
def visitAssignment (ctx : Context) (deeper : Option Visit) (s : Evaluation) (key : String)
    (value : Value) : Evaluation :=
  let (resolved, s) := resolve ctx deeper value { s with assigning := some key }
  let s := { s with assigning := none }
  match resolved with
  | .error d => s.withError d
  | .ok json =>
    match s.resource.assign key json with
    | (resource, none) => { s with resource }
    | (resource, some blocked) => { s with resource }.withError (s.here value.line blocked.message)

/-- The state after a document was read that is to be included. -/
def withInclusion (s : Evaluation) (file : Descriptor) (text : String) (line : Nat) : Evaluation :=
  let s :=
    if file.path ∈ s.included then
      s.withWarning (s.here line ("'" ++ file.path ++ "' is included more than once"))
    else { s with included := s.included ++ [file.path] }
  { s with resource := s.resource.withDependency ⟨none, line, text, file.path⟩ }

/-- What is known of a document that is about to be included: how its statements are evaluated, the
file, what it says, and the state before its statements. -/
structure Inclusion (α : Type) where
  deeper : α
  file : Descriptor
  document : Document
  before : Evaluation

/-- The document at a path, read and parsed, or the state after the error if there is none. -/
def openInclusion {α : Type} (ctx : Context) (deeper : Option α) (s : Evaluation) (raw : String)
    (line : Nat) : Except Evaluation (Inclusion α) :=
  let target := Path.resolve s.current raw
  match s.enter ctx deeper target with
  | (.error e, s) => .error (s.withError (s.here line e.display))
  | (.ok deeper, s) =>
    match s.readText ctx target with
    | (.error e, s) =>
      .error (s.withError (s.here line ("Cannot include '" ++ raw ++ "': " ++ e.display)))
    | (.ok (file, text), s) =>
      let s := s.withInclusion file text line
      match Document.ofScannedText ctx.options text with
      | .error e => .error (s.withError (.ofNested e file.path line s.current))
      | .ok document => .ok ⟨deeper, file, document, s⟩

/-- The state at the first statement of a document that is included, whose file is open as long as
they last. -/
def Inclusion.inside {α : Type} (i : Inclusion α) : Evaluation :=
  { i.before.withNotes i.file.path i.document.notes with
    current := i.file.path, stack := i.before.stack ++ [i.file.path] }

/-- The statements of the document at a path, in place. Behind them the last file that is open is
closed, and the statements of the file before go on. -/
def visitInclusion (ctx : Context) (deeper : Option Visit) (s : Evaluation) (raw : String)
    (line : Nat) : Evaluation :=
  match s.openInclusion ctx deeper raw line with
  | .error s => s
  | .ok i =>
    let s := i.document.nodes.foldl i.deeper i.inside
    { s with current := i.before.current, stack := s.stack.dropLast }

/-- The variables of the document at a path, inherited. -/
def visitExtension (ctx : Context) (deeper : Option Visit) (s : Evaluation) (raw : String)
    (line : Nat) : Evaluation :=
  let target := Path.resolve s.current raw
  match s.compileNested ctx deeper target with
  | (.error e, s) => s.withError (.ofNested e target line s.current)
  | (.ok (parent, _), s) =>
    { s with resource := (s.resource.absorb parent).inherit parent.vars }

/-- A statement, with what evaluates the documents that it opens. -/
def visitWith (ctx : Context) (deeper : Option Visit) (s : Evaluation) (node : Node) : Evaluation :=
  match node.statement with
  | .comment _ => s
  | .assignment key value => s.visitAssignment ctx deeper key value
  | .inclusion path => s.visitInclusion ctx deeper path node.line
  | .extension path => s.visitExtension ctx deeper path node.line

/-- **A statement, with `levels` levels of documents below it.** -/
def visit (ctx : Context) : (levels : Nat) → Evaluation → Node → Evaluation
  | 0, s, node => s.visitWith ctx none node
  | levels + 1, s, node => s.visitWith ctx (some fun s node => visit ctx levels s node) node

end Evaluation

end Courseware
