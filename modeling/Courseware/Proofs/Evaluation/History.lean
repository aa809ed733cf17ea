/-
What statements do to the variables, as a list of changes.

A statement changes the variables of a resource in two ways only: it assigns
a value to a name, or it inherits the variables of a parent. `changes` lists
the changes that a statement makes, those of included documents counting; a
value that has none, an assignment that is blocked and a parent that does not
compile make none. The list is exact (`visit_scopes`): replayed on the resource
it gives the variables that the statement leaves. So whatever holds after every
list of changes holds in every state that an evaluation reaches
(`Reached.scopes`).
-/
import Courseware.Compilation
import Courseware.Proofs.Evaluation.Frame

namespace Courseware

/-- A change to the variables of a resource. -/
inductive Change where
  /-- An assignment that was not blocked. -/
  | assigned (name : String) (value : Json)
  /-- The variables of a parent that compiled. -/
  | inherited (parent : Variables)

namespace Resource

def change (r : Resource) : Change → Resource
  | .assigned name value => (r.assign name value).1
  | .inherited parent => r.inherit parent

@[simp] theorem change_assigned (r : Resource) (name : String) (value : Json) :
    r.change (.assigned name value) = (r.assign name value).1 := rfl

@[simp] theorem change_inherited (r : Resource) (parent : Variables) :
    r.change (.inherited parent) = r.inherit parent := rfl

/-- All variables, and those that the document assigns itself. -/
def scopes (r : Resource) : Variables × Variables := (r.vars, r.own)

theorem scopes_eq_iff {r r' : Resource} :
    r.scopes = r'.scopes ↔ r.vars = r'.vars ∧ r.own = r'.own := by
  simp [scopes]

/-- An assignment depends on the variables alone. -/
theorem assign_scopes {r r' : Resource} (h : r.scopes = r'.scopes) (name : String) (value : Json) :
    (r.assign name value).1.scopes = (r'.assign name value).1.scopes := by
  obtain ⟨hvars, hown⟩ := scopes_eq_iff.mp h
  unfold assign
  rw [hvars, hown]
  cases r'.vars.assign name value with
  | error => exact h
  | ok vars =>
    cases r'.own.assign name value with
    | error => simp [scopes]
    | ok own => rfl

theorem inherit_scopes {r r' : Resource} (h : r.scopes = r'.scopes) (parent : Variables) :
    (r.inherit parent).scopes = (r'.inherit parent).scopes := by
  obtain ⟨hvars, hown⟩ := scopes_eq_iff.mp h
  simp only [scopes, inherit, hvars, hown]

/-- A change depends on the variables alone. -/
theorem change_scopes {r r' : Resource} (h : r.scopes = r'.scopes) (c : Change) :
    (r.change c).scopes = (r'.change c).scopes := by
  cases c with
  | assigned name value => exact assign_scopes h name value
  | inherited parent => exact inherit_scopes h parent

theorem foldl_change_scopes (cs : List Change) : ∀ {r r' : Resource}, r.scopes = r'.scopes →
    (cs.foldl change r).scopes = (cs.foldl change r').scopes := by
  induction cs with
  | nil => exact fun h => h
  | cons c cs ih => exact fun h => ih (change_scopes h c)

end Resource

namespace Evaluation

variable {ctx : Context}

/-- The changes that a statement makes in a state. -/
abbrev Account := Evaluation → Node → List Change

/-- The changes that statements make one after another. -/
def listChanges (visit : Visit) (account : Account) : Evaluation → List Node → List Change
  | _, [] => []
  | s, node :: nodes => account s node ++ listChanges visit account (visit s node) nodes

/-- The change that an assignment makes, if its value has one and nothing blocks it. -/
def assignmentChanges (ctx : Context) (deeper : Option Visit) (s : Evaluation) (key : String)
    (value : Value) : List Change :=
  match resolve ctx deeper value { s with assigning := some key } with
  | (.error _, _) => []
  | (.ok json, t) =>
    match t.resource.vars.assign key json with
    | .error _ => []
    | .ok _ => [.assigned key json]

/-- The changes that a statement makes, with what the documents that it includes make. -/
def changesWith (ctx : Context) (deeper : Option Visit) (account : Account) (s : Evaluation)
    (node : Node) : List Change :=
  match node.statement with
  | .comment _ => []
  | .assignment key value => s.assignmentChanges ctx deeper key value
  | .inclusion path =>
    match s.openInclusion ctx deeper path node.line with
    | .error _ => []
    | .ok i => listChanges i.deeper account i.inside i.document.nodes
  | .extension path =>
    match s.compileNested ctx deeper (Path.resolve s.current path) with
    | (.error _, _) => []
    | (.ok (parent, _), _) => [.inherited parent.vars]

/-- What evaluates the documents below a statement with `levels` levels below it. -/
def below (ctx : Context) : (levels : Nat) → Option Visit
  | 0 => none
  | levels + 1 => some (visit ctx levels)

/-- **The changes that a statement makes**, in the order they are made. -/
def changes (ctx : Context) : (levels : Nat) → Account
  | 0 => changesWith ctx none fun _ _ => []
  | levels + 1 => changesWith ctx (some (visit ctx levels)) (changes ctx levels)

theorem visit_eq (levels : Nat) (s : Evaluation) (node : Node) :
    visit ctx levels s node = s.visitWith ctx (below ctx levels) node := by
  cases levels <;> rfl

/-! ## Each kind of statement -/

@[simp] theorem withNotes_scopes (s : Evaluation) (path : String) (notes : List Note) :
    (s.withNotes path notes).resource.scopes = s.resource.scopes := by
  rw [withNotes_eq]
  rfl

theorem Frame.scopes {s t : Evaluation} (h : Frame s t) : t.resource.scopes = s.resource.scopes :=
  Resource.scopes_eq_iff.mpr ⟨h.vars, h.own⟩

theorem withInclusion_scopes (s : Evaluation) (file : Descriptor) (text : String) (line : Nat) :
    (s.withInclusion file text line).resource.scopes = s.resource.scopes := by
  obtain ⟨included, heq⟩ := s.withInclusion_eq file text line
  rw [heq]
  rfl

/-- A document that is opened to be included is evaluated by what goes deeper, and the variables
are those of the state before. -/
theorem openInclusion_ok {deeper : Option Visit} {s : Evaluation} {raw : String} {line : Nat}
    {i : Inclusion Visit} (h : s.openInclusion ctx deeper raw line = .ok i) :
    deeper = some i.deeper ∧ i.before.resource.scopes = s.resource.scopes := by
  have hcases := s.openInclusion_cases ctx deeper raw line
  rw [h] at hcases
  cases hcases with
  | included hdeeper => exact ⟨hdeeper, withInclusion_scopes _ _ _ _⟩

/-- A document that cannot be opened leaves the variables. -/
theorem openInclusion_error {deeper : Option Visit} {s t : Evaluation} {raw : String} {line : Nat}
    (h : s.openInclusion ctx deeper raw line = .error t) :
    t.resource.scopes = s.resource.scopes := by
  have hcases := s.openInclusion_cases ctx deeper raw line
  rw [h] at hcases
  cases hcases with
  | refused | unread => rfl
  | @unparsed file text j => exact withInclusion_scopes { s with journal := j } file text line

@[simp] theorem inside_scopes (i : Inclusion Visit) :
    i.inside.resource.scopes = i.before.resource.scopes :=
  withNotes_scopes _ _ _

/-- **An assignment makes the change that it accounts for.** -/
theorem visitAssignment_scopes (deeper : Option Visit) (s : Evaluation) (key : String)
    (value : Value) : (s.visitAssignment ctx deeper key value).resource.scopes =
      ((s.assignmentChanges ctx deeper key value).foldl Resource.change s.resource).scopes := by
  have h : (resolve ctx deeper value { s with assigning := some key }).2.resource.scopes =
      s.resource.scopes :=
    (resolve_frame value { s with assigning := some key }).scopes
  unfold visitAssignment assignmentChanges
  rcases hres : resolve ctx deeper value { s with assigning := some key } with ⟨d | json, t⟩
  · rw [hres] at h
    exact h
  · rw [hres] at h
    dsimp only at h ⊢
    have hassign := Resource.assign_scopes h key json
    cases hvars : t.resource.vars.assign key json with
    | error blocked =>
      simp only [Resource.assign, hvars]
      exact h
    | ok vars =>
      simp only [List.foldl_cons, List.foldl_nil, Resource.change]
      rw [← hassign]
      cases hr : t.resource.assign key json with
      | mk r blocked => cases blocked <;> rfl

/-- Statements one after another make the changes they account for if each of them does. -/
theorem foldl_scopes {visit : Visit} {account : Account}
    (h : ∀ s node, (visit s node).resource.scopes =
      ((account s node).foldl Resource.change s.resource).scopes) (nodes : List Node) :
    ∀ s, (nodes.foldl visit s).resource.scopes =
      ((listChanges visit account s nodes).foldl Resource.change s.resource).scopes := by
  induction nodes with
  | nil => exact fun _ => rfl
  | cons node nodes ih =>
    intro s
    rw [listChanges, List.foldl_append, List.foldl_cons, ih]
    exact Resource.foldl_change_scopes _ (h s node)

theorem visitWith_scopes {deeper : Option Visit} {account : Account}
    (h : ∀ visit, deeper = some visit → ∀ s node, (visit s node).resource.scopes =
      ((account s node).foldl Resource.change s.resource).scopes) (s : Evaluation) (node : Node) :
    (s.visitWith ctx deeper node).resource.scopes =
      ((changesWith ctx deeper account s node).foldl Resource.change s.resource).scopes := by
  unfold visitWith changesWith
  cases node.statement with
  | comment => rfl
  | assignment key value => exact visitAssignment_scopes deeper s key value
  | inclusion path =>
    simp only [visitInclusion]
    cases hopen : s.openInclusion ctx deeper path node.line with
    | error t => exact openInclusion_error hopen
    | ok i =>
      obtain ⟨hdeeper, hbefore⟩ := openInclusion_ok hopen
      refine (foldl_scopes (h _ hdeeper) i.document.nodes i.inside).trans ?_
      exact Resource.foldl_change_scopes _ ((inside_scopes i).trans hbefore)
  | extension path =>
    have hframe : (s.compileNested ctx deeper (Path.resolve s.current path)).2.resource.scopes =
        s.resource.scopes :=
      (compileNested_onlyJournal s _).frame.scopes
    simp only [visitExtension]
    rcases hnested : s.compileNested ctx deeper (Path.resolve s.current path) with
      ⟨e | ⟨parent, text⟩, t⟩
    · rw [hnested] at hframe
      exact hframe
    · rw [hnested] at hframe
      exact Resource.inherit_scopes hframe parent.vars

/-- **A statement makes the changes that it accounts for**, and no other. -/
theorem visit_scopes : ∀ (levels : Nat) (s : Evaluation) (node : Node),
    (visit ctx levels s node).resource.scopes =
      ((changes ctx levels s node).foldl Resource.change s.resource).scopes
  | 0, s, node => visitWith_scopes (fun _ h => by cases h) s node
  | levels + 1, s, node => by
    refine visitWith_scopes (fun visit h => ?_) s node
    cases h
    exact visit_scopes levels

/-! ## What an evaluation reaches -/

/-- The states that evaluations reach at a number of levels, with the changes since the file was
started. Statements may be any; a document that is included is reached inside the state that opens
it. -/
inductive Reached (ctx : Context) : (levels : Nat) → List Change → Evaluation → Prop
  /-- A file was opened, on its own or inside others, and the notes of its document are taken. -/
  | start (levels : Nat) (file : Descriptor) (stack : List String) (journal : Journal)
      (notes : List Note) :
      Reached ctx levels [] ((start file stack journal).withNotes file.path notes)
  /-- A statement of the file was evaluated and kept. -/
  | kept {levels : Nat} {past : List Change} {s : Evaluation} (h : Reached ctx levels past s)
      (node : Node) :
      Reached ctx levels (past ++ changes ctx levels s { node with origin := s.current })
        (keep (visit ctx levels) s node)
  /-- A statement of an included document was evaluated. -/
  | visited {levels : Nat} {past : List Change} {s : Evaluation} (h : Reached ctx levels past s)
      (node : Node) :
      Reached ctx levels (past ++ changes ctx levels s node) (visit ctx levels s node)
  /-- A document is included, and its statements come next. -/
  | inside {levels : Nat} {past : List Change} {s : Evaluation}
      (h : Reached ctx (levels + 1) past s) {raw : String} {line : Nat} {i : Inclusion Visit}
      (hopen : s.openInclusion ctx (some (visit ctx levels)) raw line = .ok i) :
      Reached ctx levels past i.inside

/-- **The variables of a reached state are what its changes make of none.** -/
theorem Reached.scopes {levels : Nat} {past : List Change} {s : Evaluation}
    (h : Reached ctx levels past s) (file : Descriptor) :
    s.resource.scopes = (past.foldl Resource.change (.empty file)).scopes := by
  induction h with
  | start => exact withNotes_scopes _ _ _
  | @kept levels _ s _ node ih | @visited levels _ s _ node ih =>
    rw [List.foldl_append]
    exact (visit_scopes levels s _).trans (Resource.foldl_change_scopes _ ih)
  | inside _ hopen ih => exact (inside_scopes _).trans ((openInclusion_ok hopen).2.trans ih)

/-- The changes of a whole document in order. -/
def history (ctx : Context) (levels : Nat) (document : Document) (s : Evaluation) : List Change :=
  listChanges (keep (visit ctx levels))
    (fun s node => changes ctx levels s { node with origin := s.current })
    (s.withNotes s.current document.notes) document.nodes

theorem Reached.foldl_keep {levels : Nat} (nodes : List Node) :
    ∀ {past : List Change} {s : Evaluation}, Reached ctx levels past s →
      Reached ctx levels (past ++ listChanges (keep (visit ctx levels))
        (fun s node => changes ctx levels s { node with origin := s.current }) s nodes)
        (nodes.foldl (keep (visit ctx levels)) s) := by
  induction nodes with
  | nil =>
    intro past s h
    rw [listChanges, List.append_nil]
    exact h
  | cons node nodes ih =>
    intro past s h
    rw [listChanges, ← List.append_assoc]
    exact ih (h.kept node)

/-- **Evaluating a document reaches its last state**, with its history behind it. -/
theorem reached_run (levels : Nat) (file : Descriptor) (stack : List String) (journal : Journal)
    (document : Document) :
    Reached ctx levels (history ctx levels document (start file stack journal))
      ((start file stack journal).run (visit ctx levels) document) :=
  (Reached.start levels file stack journal document.notes).foldl_keep document.nodes

end Evaluation

end Courseware
