/-
What a statement leaves as it was, and what it only adds to.

Evaluating a statement never takes anything back. The keys of the variables keep
their order and new ones come after them, diagnostics and dependencies are
appended, and the nodes are left alone (`Resource.Grows`). An assignment is in
progress only inside the visit of its statement: a state without one comes out
without one, whether the statement succeeds or fails (`Grows`).

With the place that a statement returns to (`visit_stays`) this is all that the
statements after it can see of the way it went (`visit_undisturbed`).
-/
import Courseware.Library.Memory
import Courseware.Proofs.Evaluation.Place
import Courseware.Proofs.Variables.Keys

namespace Courseware

/-- The keys that are there stay where they are. -/
theorem Dict.keys_prefix_insert {α : Type} (d : Dict α) (k : String) (v : α) :
    d.keys <+: (insert d k v).keys := by
  rw [keys_insert]
  split
  · exact List.prefix_rfl
  · exact List.prefix_append _ _

theorem Variables.keys_prefix_assign {vars vars' : Variables} {name : String} {value : Json}
    (h : vars.assign name value = .ok vars') : Dict.keys vars <+: Dict.keys vars' := by
  obtain ⟨key, v, -, rfl⟩ := assign_eq_ok h
  exact Dict.keys_prefix_insert _ _ _

/-- Whether a resource is an earlier one with more in it, the nodes apart, which are the same. -/
structure Resource.Grows (r r' : Resource) : Prop where
  nodes : r'.nodes = r.nodes
  vars : r.vars.keys <+: r'.vars.keys
  own : r.own.keys <+: r'.own.keys
  errors : r.errors <+: r'.errors
  warnings : r.warnings <+: r'.warnings
  dependencies : r.dependencies <+: r'.dependencies

namespace Resource

variable {r r' r'' : Resource}

theorem Grows.refl (r : Resource) : Grows r r :=
  ⟨rfl, List.prefix_rfl, List.prefix_rfl, List.prefix_rfl, List.prefix_rfl, List.prefix_rfl⟩

theorem Grows.trans (h : Grows r r') (h' : Grows r' r'') : Grows r r'' :=
  ⟨h'.nodes.trans h.nodes, h.vars.trans h'.vars, h.own.trans h'.own, h.errors.trans h'.errors,
    h.warnings.trans h'.warnings, h.dependencies.trans h'.dependencies⟩

theorem withError_grows (r : Resource) (d : Diagnostic) : Grows r (r.withError d) :=
  { Grows.refl r with errors := List.prefix_append _ _ }

theorem absorb_grows (r nested : Resource) : Grows r (r.absorb nested) :=
  { Grows.refl r with
    errors := List.prefix_append _ _
    warnings := List.prefix_append _ _
    dependencies := List.prefix_append _ _ }

/-- Inherited variables replace values, and come after those that are there. -/
theorem inherit_grows (r : Resource) (parent : Variables) : Grows r (r.inherit parent) := by
  refine { Grows.refl r with vars := ?_ }
  refine List.foldlRecOn parent _ (motive := fun vars => r.vars.keys <+: Dict.keys vars)
    List.prefix_rfl fun vars h entry _ => ?_
  dsimp only
  split
  · exact h
  · exact h.trans (Dict.keys_prefix_insert _ _ _)

/-- An assignment removes no key, also where it is blocked. -/
theorem assign_grows (r : Resource) (name : String) (value : Json) :
    Grows r (r.assign name value).1 := by
  unfold assign
  cases hvars : r.vars.assign name value with
  | error blocked => exact .refl r
  | ok vars =>
    have hkeys := Variables.keys_prefix_assign hvars
    cases hown : r.own.assign name value with
    | error blocked => exact { Grows.refl r with vars := hkeys }
    | ok own => exact { Grows.refl r with vars := hkeys, own := Variables.keys_prefix_assign hown }

end Resource

namespace Evaluation

variable {ctx : Context} {s t u : Evaluation}

/-- Whether the resource of a state is that of an earlier one with more in it, and no assignment is
in progress if none was. -/
structure Grows (s t : Evaluation) : Prop where
  resource : s.resource.Grows t.resource
  assigning (h : s.assigning = none) : t.assigning = none

namespace Grows

theorem refl (s : Evaluation) : Grows s s := ⟨.refl _, fun h => h⟩

theorem trans (h : Grows s t) (h' : Grows t u) : Grows s u :=
  ⟨h.resource.trans h'.resource, fun hs => h'.assigning (h.assigning hs)⟩

theorem withError (h : Grows s t) (d : Diagnostic) : Grows s (t.withError d) :=
  ⟨h.resource.trans (t.resource.withError_grows d), h.assigning⟩

theorem accumulates : Accumulates Grows := ⟨refl, trans, withError⟩

end Grows

theorem Frame.resource_grows (h : Frame s t) : s.resource.Grows t.resource :=
  ⟨h.nodes, h.vars ▸ List.prefix_rfl, h.own ▸ List.prefix_rfl, h.errors, h.warnings,
    h.dependencies⟩

theorem Frame.grows (h : Frame s t) : Grows s t := ⟨h.resource_grows, h.assigning.trans⟩

theorem withNotes_grows (s : Evaluation) (path : String) (notes : List Note) :
    Grows s (s.withNotes path notes) := by
  rw [withNotes_eq]
  exact ⟨{ Resource.Grows.refl _ with warnings := List.prefix_append _ _ }, fun h => h⟩

theorem withInclusion_grows (s : Evaluation) (file : Descriptor) (text : String) (line : Nat) :
    Grows s (s.withInclusion file text line) := by
  obtain ⟨included, heq⟩ := s.withInclusion_eq file text line
  rw [heq]
  exact ⟨{ Resource.Grows.refl _ with
    warnings := List.prefix_append _ _
    dependencies := List.prefix_append _ _ }, fun h => h⟩

/-! ## Statements -/

/-- An assignment is over when its statement is, whatever its value has come to. -/
theorem visitAssignment_grows (deeper : Option Visit) (s : Evaluation) (key : String)
    (value : Value) : Grows s (s.visitAssignment ctx deeper key value) := by
  have hframe : Frame { s with assigning := some key }
      (resolve ctx deeper value { s with assigning := some key }).2 := resolve_frame value _
  have hvalue := hframe.resource_grows
  unfold visitAssignment
  rcases hresolve : resolve ctx deeper value { s with assigning := some key } with ⟨d | json, t⟩
  · rw [hresolve] at hvalue
    exact ⟨hvalue.trans (t.resource.withError_grows d), fun _ => rfl⟩
  · rw [hresolve] at hvalue
    have hassign := t.resource.assign_grows key json
    dsimp only at hvalue ⊢
    generalize t.resource.assign key json = assigned at hassign
    obtain ⟨r, none | blocked⟩ := assigned
    · exact ⟨hvalue.trans hassign, fun _ => rfl⟩
    · exact ⟨hvalue.trans (hassign.trans (r.withError_grows _)), fun _ => rfl⟩

/-- Reading a document that is to be included only adds to the resource, whether its statements
come next or not. -/
theorem openInclusion_grows {α : Type} (ctx : Context) (deeper : Option α) (s : Evaluation)
    (raw : String) (line : Nat) :
    match s.openInclusion ctx deeper raw line with
    | .error t => Grows s t
    | .ok i => Grows s i.inside := by
  have hcases := s.openInclusion_cases ctx deeper raw line
  generalize s.openInclusion ctx deeper raw line = opened at hcases
  cases hcases with
  | refused => exact ⟨s.resource.withError_grows _, fun h => h⟩
  | unread => exact ⟨s.resource.withError_grows _, fun h => h⟩
  | @unparsed file text j =>
    have hjournal : Grows s { s with journal := j } := ⟨.refl _, fun h => h⟩
    exact (hjournal.trans (withInclusion_grows _ file text line)).withError _
  | @included _ file text j document =>
    have hjournal : Grows s { s with journal := j } := ⟨.refl _, fun h => h⟩
    have hread := hjournal.trans (withInclusion_grows _ file text line)
    have hnotes := hread.trans (withNotes_grows _ file.path document.notes)
    exact ⟨hnotes.resource, hnotes.assigning⟩

theorem visitWith_grows {deeper : Option Visit}
    (h : ∀ visit, deeper = some visit → ∀ s node, Grows s (visit s node)) (s : Evaluation)
    (node : Node) : Grows s (s.visitWith ctx deeper node) := by
  unfold visitWith
  cases node.statement with
  | comment => exact .refl s
  | assignment key value => exact visitAssignment_grows deeper s key value
  | inclusion path =>
    have hopened := openInclusion_grows ctx deeper s path node.line
    simp only [visitInclusion]
    cases hopen : s.openInclusion ctx deeper path node.line with
    | error t =>
      rw [hopen] at hopened
      exact hopened
    | ok i =>
      rw [hopen] at hopened
      obtain ⟨hdeeper, -⟩ := openInclusion_opens hopen
      have hnodes : Grows i.inside (i.document.nodes.foldl i.deeper i.inside) :=
        Grows.accumulates.foldl (fun node _ s => h _ hdeeper s node) i.inside
      have hall := hopened.trans hnodes
      exact ⟨hall.resource, hall.assigning⟩
  | extension path =>
    have hnested : Grows s (s.compileNested ctx deeper (Path.resolve s.current path)).2 :=
      (compileNested_onlyJournal s _).frame.grows
    simp only [visitExtension]
    generalize s.compileNested ctx deeper (Path.resolve s.current path) = outcome at hnested
    obtain ⟨e | ⟨parent, text⟩, t⟩ := outcome
    · exact hnested.withError _
    · refine hnested.trans ⟨?_, fun h => h⟩
      exact (t.resource.absorb_grows parent).trans (Resource.inherit_grows _ parent.vars)

theorem visit_grows : ∀ (levels : Nat) (s : Evaluation) (node : Node),
    Grows s (visit ctx levels s node)
  | 0, s, node => visitWith_grows (fun _ h => by cases h) s node
  | levels + 1, s, node => by
    refine visitWith_grows (fun visit h => ?_) s node
    cases h
    exact visit_grows levels

/-- **A statement leaves the context as it found it**: wherever it fails and whatever documents it
opens, the evaluation stands where it stood, no assignment is in progress, the nodes are the same,
no variable is gone, and what was reported before is still reported first. -/
theorem visit_undisturbed (ctx : Context) (levels : Nat) (s : Evaluation) (node : Node)
    (h : s.assigning = none) :
    let t := visit ctx levels s node
    t.current = s.current ∧ t.stack = s.stack ∧ t.assigning = none ∧
      t.resource.nodes = s.resource.nodes ∧
      s.resource.vars.keys <+: t.resource.vars.keys ∧
      s.resource.own.keys <+: t.resource.own.keys ∧
      s.resource.errors <+: t.resource.errors ∧
      s.resource.warnings <+: t.resource.warnings ∧
      s.resource.dependencies <+: t.resource.dependencies := by
  intro t
  have hstays : Stays s t := visit_stays levels s node
  have hgrows : Grows s t := visit_grows levels s node
  have hresource := hgrows.resource
  exact ⟨hstays.current, hstays.stack, hgrows.assigning h, hresource.nodes, hresource.vars,
    hresource.own, hresource.errors, hresource.warnings, hresource.dependencies⟩

/-- A file with an assignment that fails, a directive that fails, and an assignment. -/
def failingInclusion : Memory :=
  ⟨"r", [⟨"/a", Memory.latest, "x = gone\n@include lost\ny = 1".toUTF8⟩]⟩

/-- The file is included up to its last line, past both failures, and left again. -/
theorem visit_undisturbed_failingInclusion :
    let s := start ⟨"r", "v", "/main"⟩ [] (.empty 0)
    let t := visit ⟨failingInclusion.library, {}⟩ 1 s ⟨.inclusion "a", 1, ""⟩
    s.assigning = none ∧ t.resource.errors.map (·.path) = ["/a", "/a"] ∧
      t.resource.own.keys = ["y"] ∧ t.current = "/main" ∧ t.stack = ["/main"] ∧
      t.assigning = none := by
  intro s t
  obtain ⟨hcurrent, hstack, hassigning, -⟩ :=
    visit_undisturbed ⟨failingInclusion.library, {}⟩ 1 s ⟨.inclusion "a", 1, ""⟩ rfl
  exact ⟨rfl, by decide +kernel, by decide +kernel, hcurrent, hstack, hassigning⟩

end Evaluation

end Courseware
