/-
A document inside others is what it is on its own.

A document that is compiled inside open files starts with a resource of its own,
so nothing of the files around it gets in. They matter in two ways: a document
that is open around it cannot be opened in it, and it takes up levels. Where
neither happens (`Journal.Allows`), the compilation inside other files goes step
by step with the one of the document alone (`Nesting.visit_mirrored`), and its
resource is the same but for the identifiers of components
(`compileNested_compile`).
-/
import Courseware.Proofs.Evaluation.Pairing

namespace Courseware

/-- Whether two resources are the same but for the identifiers in their variables. -/
structure Resource.Alike (first first' : Nat) (r r' : Resource) : Prop where
  file : r'.file = r.file
  vars : Json.EntriesAlike first first' r.vars r'.vars
  own : Json.EntriesAlike first first' r.own r'.own
  dependencies : r'.dependencies = r.dependencies
  nodes : r'.nodes = r.nodes
  errors : r'.errors = r.errors
  warnings : r'.warnings = r.warnings

namespace Evaluation

/-- An assignment leaves the nodes alone, and which files were included. -/
theorem visitAssignment_rest (ctx : Context) (deeper : Option Visit) (s : Evaluation) (key : String)
    (v : Value) : (s.visitAssignment ctx deeper key v).resource.nodes = s.resource.nodes ∧
      (s.visitAssignment ctx deeper key v).included = s.included := by
  have hframe : Frame { s with assigning := some key }
      (resolve ctx deeper v { s with assigning := some key }).2 := resolve_frame v _
  obtain ⟨vars, own, errors, heq⟩ := s.visitAssignment_eq ctx deeper key v
  rw [heq]
  exact ⟨hframe.nodes, hframe.included⟩

/-- A file that is evaluated alone, and inside the files `outer`. -/
structure Nesting where
  outer : List String
  version : String
  current : String
  /-- The files that are open in the evaluation of the file alone. -/
  stack : List String
  firstId : Nat
  firstId' : Nat
  calls : List Call
  calls' : List Call

namespace Nesting

/-- The two evaluations, from the start of the file. -/
def pairing (g : Nesting) : Pairing where
  version := g.version
  one := ⟨g.current, g.stack, g.firstId, [], [], [], g.calls⟩
  other := ⟨g.current, g.outer ++ g.stack, g.firstId', [], [], [], g.calls'⟩
  moved := id
  resolve _ := rfl
  here _ _ := rfl

/-- **Whether two states are the same** but for identifiers, journals and the files that are open
around them. -/
structure Mirrored (g : Nesting) (s s' : Evaluation) : Prop where
  twins : g.pairing.Twins s s'
  file : s'.resource.file = s.resource.file
  nodes : s'.resource.nodes = s.resource.nodes
  included : s'.included = s.included

/-- Whether a file may be opened in another one, so that it makes no difference which files are open
around the two. -/
def Free (ctx : Context) (outer : List String) (stack : List String) (target : String) : Prop :=
  target ∉ stack ∧ target ∉ outer ∧ stack.length < ctx.options.maxDepth - outer.length

instance (ctx : Context) (outer stack : List String) (target : String) :
    Decidable (Free ctx outer stack target) :=
  inferInstanceAs (Decidable (_ ∧ _))

variable {ctx : Context} {g : Nesting} {s s' : Evaluation} {levels levels' : Nat}

/-- Whether levels are those of the two evaluations: what is open takes up the others. -/
structure Leveled (ctx : Context) (outer stack : List String) (levels levels' : Nat) : Prop where
  one : levels + stack.length = ctx.options.maxDepth
  other : levels' + outer.length = levels

theorem Leveled.opened {outer stack : List String} {l l' : Nat}
    (h : Leveled ctx outer stack (l + 1) (l' + 1)) (path : String) :
    Leveled ctx outer (stack ++ [path]) l l' := by
  obtain ⟨hone, hother⟩ := h
  constructor
  · rw [List.length_append, List.length_singleton]
    omega
  · omega

/-- A file that may be opened is opened in both evaluations. -/
theorem enter_free (hlevels : Leveled ctx g.outer g.stack levels levels') (h : g.pairing.Twins s s')
    {target : String}
    (hfree : (s.record (.nest target)).journal.Allows (Free ctx g.outer)) :
    ∃ l l', levels = l + 1 ∧ levels' = l' + 1 ∧
      s.enter ctx (below ctx levels) target = (.ok (visit ctx l), s.record (.nest target)) ∧
      s'.enter ctx (below ctx levels') target = (.ok (visit ctx l'), s'.record (.nest target)) := by
  have htarget : Free ctx g.outer s.stack target :=
    hfree (s.stack, .nest target) (List.mem_append_right _ List.mem_cons_self)
  obtain ⟨hclosed, houter, hdepth⟩ := htarget
  have hone := hlevels.one
  have hother := hlevels.other
  have hstack : s.stack.length = g.stack.length := congrArg List.length h.stack
  obtain ⟨l, rfl⟩ : ∃ l, levels = l + 1 := ⟨levels - 1, by omega⟩
  obtain ⟨l', rfl⟩ : ∃ l', levels' = l' + 1 := ⟨levels' - 1, by omega⟩
  have hclosed' : target ∉ s'.stack := by
    rw [h.stack', pairing, List.mem_append, not_or]
    rw [h.stack] at hclosed
    exact ⟨houter, hclosed⟩
  exact ⟨l, l', rfl, rfl, enter_closed _ hclosed, enter_closed _ hclosed'⟩

/-! ## Documents -/

namespace Mirrored

theorem withError (h : g.Mirrored s s') (d : Diagnostic) :
    g.Mirrored (s.withError d) (s'.withError d) :=
  { h with twins := h.twins.withError d }

theorem withWarning (h : g.Mirrored s s') (d : Diagnostic) :
    g.Mirrored (s.withWarning d) (s'.withWarning d) :=
  { h with twins := { h.twins with resources := h.twins.resources.withWarning d } }

theorem withNotes (h : g.Mirrored s s') (path : String) (notes : List Note) :
    g.Mirrored (s.withNotes path notes) (s'.withNotes path notes) := by
  induction notes generalizing s s' with
  | nil => exact h
  | cons note notes ih => exact ih (h.withWarning ⟨note.line, path, note.message⟩)

theorem current (h : g.Mirrored s s') : s'.current = s.current :=
  h.twins.current'.trans h.twins.current.symm

end Mirrored

/-- Whether a statement keeps states mirrored, as long as what is opened in it is free to be. -/
def Keeps (ctx : Context) (outer : List String) (levels levels' : Nat) : Prop :=
  ∀ (g : Nesting) (s s' : Evaluation) (node : Node), g.outer = outer →
    Leveled ctx g.outer g.stack levels levels' → g.Mirrored s s' →
      (visit ctx levels s node).journal.Allows (Free ctx outer) →
        g.Mirrored (visit ctx levels s node) (visit ctx levels' s' node)

theorem Keeps.foldl (hkeeps : Keeps ctx g.outer levels levels')
    (hlevels : Leveled ctx g.outer g.stack levels levels') (own : Bool) {nodes : List Node} :
    ∀ {s s' : Evaluation}, g.Mirrored s s' →
      (nodes.foldl (visitOrKeep own (visit ctx levels)) s).journal.Allows (Free ctx g.outer) →
        g.Mirrored (nodes.foldl (visitOrKeep own (visit ctx levels)) s)
          (nodes.foldl (visitOrKeep own (visit ctx levels')) s') := by
  have hgrows : Visit.Continuing (visitOrKeep own (visit ctx levels)) := by
    intro s node
    rw [visitOrKeep_journal]
    exact visit_continues levels s node
  induction nodes with
  | nil => exact fun h _ => h
  | cons node nodes ih =>
    intro s s' h hfree
    have hearlier := hfree.of_continues (foldl_continues hgrows nodes _)
    rw [visitOrKeep_journal] at hearlier
    have hnode : g.Mirrored (visitOrKeep own (visit ctx levels) s node)
        (visitOrKeep own (visit ctx levels') s' node) := by
      cases own with
      | false => exact hkeeps g s s' node rfl hlevels h hearlier
      | true =>
        rw [← visit_origin levels s node s.current] at hearlier
        have hvisit := hkeeps g s s' { node with origin := s.current } rfl hlevels h hearlier
        simp only [visitOrKeep, if_true, keep, h.current]
        exact ⟨⟨hvisit.twins.current, hvisit.twins.current', hvisit.twins.stack,
          hvisit.twins.stack', hvisit.twins.assigning, { hvisit.twins.resources with },
          hvisit.twins.journals⟩, hvisit.file, congrArg (· ++ _) hvisit.nodes, hvisit.included⟩
    exact ih hnode hfree

/-- The two evaluations of a file that is compiled on its own by the first. -/
def within (g : Nesting) (file : Descriptor) (j j' : Journal) : Nesting :=
  { g with
    version := file.version, current := file.path, stack := g.stack ++ [file.path]
    calls := j.calls, calls' := j'.calls }

/-- The two start alike. -/
theorem start_mirrored (h : g.pairing.Twins s s') (file : Descriptor) :
    (g.within file s.journal s'.journal).Mirrored (start file s.stack s.journal)
      (start file s'.stack s'.journal) := by
  have hstack : s.stack ++ [file.path] = g.stack ++ [file.path] := by
    rw [h.stack]
    rfl
  have hstack' : s'.stack ++ [file.path] = g.outer ++ (g.stack ++ [file.path]) := by
    rw [h.stack', ← List.append_assoc]
    rfl
  exact ⟨⟨rfl, rfl, hstack, hstack', rfl, ⟨rfl, rfl, .nil, .nil, .refl _ _ _, .refl _ _ _,
    .refl _ _ _⟩, ⟨h.journals.ids, .refl _ _ _⟩⟩, rfl, rfl, rfl⟩

/-- What has been appended to nothing is the same on both sides. -/
theorem eq_of_appended {α : Type} {after after' : List α} (h : Appended id [] [] after after') :
    after' = after := by
  obtain ⟨new, rfl, rfl⟩ := h
  simp

theorem Mirrored.alike (h : g.Mirrored s s') :
    s.resource.Alike g.firstId g.firstId' s'.resource :=
  have hresources := h.twins.resources
  { file := h.file
    vars := hresources.vars
    own := hresources.own
    dependencies := eq_of_appended hresources.dependencies
    nodes := h.nodes
    errors := eq_of_appended hresources.errors
    warnings := eq_of_appended hresources.warnings }

/-- Whether two documents come out alike that were compiled inside others. -/
inductive CompiledAlike (first first' : Nat) :
    Except Error (Resource × String) → Except Error (Resource × String) → Prop
  | ok {r r' : Resource} (h : r.Alike first first' r') (text : String) :
      CompiledAlike first first' (.ok (r, text)) (.ok (r', text))
  | error (e : Error) : CompiledAlike first first' (.error e) (.error e)

/-- Whether statements keep states mirrored one level deeper, if there is one. -/
def KeepsBelow (ctx : Context) (outer : List String) (levels levels' : Nat) : Prop :=
  ∀ l l', levels = l + 1 → levels' = l' + 1 → Keeps ctx outer l l'

theorem compileNested_twins (hkeeps : KeepsBelow ctx g.outer levels levels')
    (hlevels : Leveled ctx g.outer g.stack levels levels') (h : g.pairing.Twins s s')
    (target : String)
    (hfree : (s.compileNested ctx (below ctx levels) target).2.journal.Allows
      (Free ctx g.outer)) :
    CompiledAlike g.firstId g.firstId' (s.compileNested ctx (below ctx levels) target).1
        (s'.compileNested ctx (below ctx levels') target).1 ∧
      g.pairing.Twins (s.compileNested ctx (below ctx levels) target).2
        (s'.compileNested ctx (below ctx levels') target).2 := by
  have htry : (s.record (.nest target)).journal.Allows (Free ctx g.outer) :=
    hfree.of_continues (compileNested_continues (continuing_below levels) s target)
  obtain ⟨l, l', rfl, rfl, henter, henter'⟩ := enter_free hlevels h htry
  obtain ⟨hread, ht⟩ := (h.recordNest target).readText ctx target
  unfold compileNested at hfree ⊢
  rw [henter] at hfree ⊢
  rw [henter']
  dsimp only at hfree ⊢
  generalize (s.record (.nest target)).readText ctx target = r,
    (s'.record (.nest target)).readText ctx target = r' at hread ht hfree ⊢
  obtain ⟨found, t⟩ := r
  obtain ⟨found', t'⟩ := r'
  cases hread
  cases found with
  | error e => exact ⟨.error e, ht⟩
  | ok found =>
    obtain ⟨file, text⟩ := found
    dsimp only at hfree ⊢
    cases hparsed : Document.ofScannedText ctx.options text with
    | error e => exact ⟨.error e, ht⟩
    | ok document =>
      rw [hparsed] at hfree
      have hstart := (start_mirrored ht file).withNotes file.path document.notes
      have hbelow : Keeps ctx (g.within file t.journal t'.journal).outer l l' := hkeeps l l' rfl rfl
      have hrun : (g.within file t.journal t'.journal).Mirrored
          ((start file t.stack t.journal).run (visit ctx l) document)
          ((start file t'.stack t'.journal).run (visit ctx l') document) :=
        hbelow.foldl (hlevels.opened file.path) true hstart hfree
      obtain ⟨drawn, hids, hids'⟩ := hrun.twins.journals.ids
      have hjournals : g.pairing.Journals
          ((start file t.stack t.journal).run (visit ctx l) document).journal
          ((start file t'.stack t'.journal).run (visit ctx l') document).journal :=
        ⟨⟨drawn, hids, hids'⟩, ht.journals.calls.trans hrun.twins.journals.calls⟩
      exact ⟨.ok hrun.alike text, { ht with journals := hjournals }⟩

/-! ## Values -/

/-- Everything that was recorded for alike documents is the same. -/
theorem absorb_alike {r r' nested nested' : Resource} (h : g.pairing.Resources r r')
    (hnested : nested.Alike g.firstId g.firstId' nested') :
    g.pairing.Resources (r.absorb nested) (r'.absorb nested') := by
  have hid : ∀ ds : List Diagnostic, ds.map g.pairing.moved = ds := List.map_id
  have herrors := h.errors.append nested.errors
  have hwarnings := h.warnings.append nested.warnings
  have hdependencies := h.dependencies.append nested.dependencies
  rw [hid] at herrors hwarnings
  rw [List.map_id] at hdependencies
  unfold Resource.absorb
  rw [hnested.errors, hnested.warnings, hnested.dependencies]
  exact { h with errors := herrors, warnings := hwarnings, dependencies := hdependencies }

theorem bindVariables_agree (hkeeps : KeepsBelow ctx g.outer levels levels')
    (hlevels : Leveled ctx g.outer g.stack levels levels') (h : g.pairing.Twins s s')
    (raw : String) (line : Nat)
    (hfree : (s.bindVariables ctx (below ctx levels) raw line).2.journal.Allows
      (Free ctx g.outer)) :
    g.pairing.Agree (s.bindVariables ctx (below ctx levels) raw line)
      (s'.bindVariables ctx (below ctx levels') raw line) := by
  rw [bindVariables_journal] at hfree
  obtain ⟨hcompiled, ht⟩ := compileNested_twins hkeeps hlevels h _ hfree
  unfold bindVariables
  dsimp only
  rw [h.resolve]
  generalize s.compileNested ctx (below ctx levels) (Path.resolve s.current raw) = r,
    s'.compileNested ctx (below ctx levels') (Path.resolve s.current raw) = r' at hcompiled ht ⊢
  obtain ⟨compiled, t⟩ := r
  obtain ⟨compiled', t'⟩ := r'
  cases hcompiled with
  | error e =>
    dsimp only
    rw [ht.current, ht.current']
    exact ⟨.error _, ht⟩
  | @ok nested nested' hnested text =>
    have ht : g.pairing.Twins t t' := ht
    have hbound : g.pairing.Resources
        ((t.resource.absorb nested).withDependency ⟨t.assigning, line, text, nested.file.path⟩)
        ((t'.resource.absorb nested').withDependency
          ⟨t'.assigning, line, text, nested'.file.path⟩) := by
      rw [ht.assigning, hnested.file]
      exact (absorb_alike ht.resources hnested).withDependency _
    exact ⟨.ok (.obj hnested.vars), { ht with resources := hbound }⟩

/-- An atom comes out alike in the two evaluations, whatever it opens. -/
theorem atomsAgree (hkeeps : KeepsBelow ctx g.outer levels levels')
    (hlevels : Leveled ctx g.outer g.stack levels levels') :
    g.pairing.AtomsAgree ctx (Free ctx g.outer) (fun _ => True) (below ctx levels)
      (below ctx levels') := by
  intro line a _ s s' h hfree
  cases a with
  | dictionary path => exact bindVariables_agree hkeeps hlevels h path line hfree
  | _ => exact h.resolveAtom _ _ line (by simp)

theorem visitAssignment_mirrored (hkeeps : KeepsBelow ctx g.outer levels levels')
    (hlevels : Leveled ctx g.outer g.stack levels levels') (h : g.Mirrored s s') (key : String)
    (v : Value) (hfree : (s.visitAssignment ctx (below ctx levels) key v).journal.Allows
      (Free ctx g.outer)) :
    g.Mirrored (s.visitAssignment ctx (below ctx levels) key v)
      (s'.visitAssignment ctx (below ctx levels') key v) := by
  obtain ⟨hnodes, hincluded⟩ := s.visitAssignment_rest ctx (below ctx levels) key v
  obtain ⟨hnodes', hincluded'⟩ := s'.visitAssignment_rest ctx (below ctx levels') key v
  have hplace : Stays s (s.visitAssignment ctx (below ctx levels) key v) :=
    visitAssignment_stays _ s key v
  have hplace' : Stays s' (s'.visitAssignment ctx (below ctx levels') key v) :=
    visitAssignment_stays _ s' key v
  refine
    { twins := h.twins.visitAssignment (continuing_below levels) (atomsAgree hkeeps hlevels) key
        v.forall_trivial hfree
      file := ?_
      nodes := ?_
      included := ?_ }
  · rw [hplace'.file, hplace.file, h.file]
  · rw [hnodes', hnodes, h.nodes]
  · rw [hincluded', hincluded, h.included]

/-! ## Statements -/

/-- The two evaluations in a document that the first includes. -/
def inside (g : Nesting) (path : String) : Nesting :=
  { g with current := path, stack := g.stack ++ [path] }

theorem Mirrored.withInclusion (h : g.Mirrored s s') (file : Descriptor) (text : String)
    (line : Nat) :
    g.Mirrored (s.withInclusion file text line) (s'.withInclusion file text line) := by
  have hdependency : ∀ {t t' : Evaluation}, g.Mirrored t t' → ∀ d : Dependency,
      g.Mirrored { t with resource := t.resource.withDependency d }
        { t' with resource := t'.resource.withDependency d } := fun ht d =>
    { ht with twins := { ht.twins with resources := ht.twins.resources.withDependency d } }
  unfold Evaluation.withInclusion
  dsimp only
  rw [h.included]
  split
  · have hwarned := h.withWarning
      (s.here line ("'" ++ file.path ++ "' is included more than once"))
    have hhere : s'.here line ("'" ++ file.path ++ "' is included more than once") =
        s.here line ("'" ++ file.path ++ "' is included more than once") := h.twins.here _ _
    rw [hhere]
    exact hdependency hwarned _
  · have hadded : g.Mirrored { s with included := s.included ++ [file.path] }
        { s' with included := s.included ++ [file.path] } :=
      { h with twins := { h.twins with }, included := rfl }
    exact hdependency hadded _

/-- Inside a document that is included, states are mirrored as they were before. -/
theorem Mirrored.inside (h : g.Mirrored s s') (visit visit' : Visit) (file : Descriptor)
    (document : Document) :
    (g.inside file.path).Mirrored (Inclusion.inside ⟨visit, file, document, s⟩)
      (Inclusion.inside ⟨visit', file, document, s'⟩) := by
  have hnoted := h.withNotes file.path document.notes
  have hstack : s.stack ++ [file.path] = g.stack ++ [file.path] := by
    rw [h.twins.stack]
    rfl
  have hstack' : s'.stack ++ [file.path] = g.outer ++ (g.stack ++ [file.path]) := by
    rw [h.twins.stack', ← List.append_assoc]
    rfl
  exact ⟨⟨rfl, rfl, hstack, hstack', hnoted.twins.assigning, { hnoted.twins.resources with },
    { hnoted.twins.journals with }⟩, hnoted.file, hnoted.nodes, hnoted.included⟩

/-- So they are again once the document is closed. -/
theorem Mirrored.outside {t t' : Evaluation} {path : String} (h : (g.inside path).Mirrored t t') :
    g.Mirrored { t with current := g.current, stack := t.stack.dropLast }
      { t' with current := g.current, stack := t'.stack.dropLast } := by
  have hstack : t.stack.dropLast = g.stack := by
    rw [h.twins.stack]
    exact List.dropLast_concat
  have hstack' : t'.stack.dropLast = g.outer ++ g.stack := by
    rw [h.twins.stack', show (g.inside path).pairing.other.stack = (g.outer ++ g.stack) ++ [path]
      from (List.append_assoc _ _ _).symm]
    exact List.dropLast_concat
  exact ⟨⟨rfl, rfl, hstack, hstack', h.twins.assigning, { h.twins.resources with },
    { h.twins.journals with }⟩, h.file, h.nodes, h.included⟩

theorem Mirrored.readText (h : g.Mirrored s s') (ctx : Context) (path : String) :
    (s'.readText ctx path).1 = (s.readText ctx path).1 ∧
      g.Mirrored (s.readText ctx path).2 (s'.readText ctx path).2 := by
  obtain ⟨hread, ht⟩ := h.twins.readText ctx path
  exact ⟨hread, ht, h.file, h.nodes, h.included⟩

/-- **A document is included in both evaluations or in none.** -/
theorem openInclusion_mirrored {visit visit' : Visit} (h : g.Mirrored s s') (raw : String)
    (line : Nat) {deeper deeper' : Option Visit}
    (henter : s.enter ctx deeper (Path.resolve s.current raw) =
      (.ok visit, s.record (.nest (Path.resolve s.current raw))))
    (henter' : s'.enter ctx deeper' (Path.resolve s.current raw) =
      (.ok visit', s'.record (.nest (Path.resolve s.current raw)))) :
    (∃ t t', s.openInclusion ctx deeper raw line = .error t ∧
      s'.openInclusion ctx deeper' raw line = .error t' ∧ g.Mirrored t t') ∨
    ∃ file document before before',
      s.openInclusion ctx deeper raw line = .ok ⟨visit, file, document, before⟩ ∧
      s'.openInclusion ctx deeper' raw line = .ok ⟨visit', file, document, before'⟩ ∧
      g.Mirrored before before' := by
  have htried : g.Mirrored (s.record (.nest (Path.resolve s.current raw)))
      (s'.record (.nest (Path.resolve s.current raw))) :=
    { h with twins := h.twins.recordNest _ }
  obtain ⟨hread, ht⟩ := htried.readText ctx (Path.resolve s.current raw)
  unfold openInclusion
  dsimp only
  rw [h.twins.resolve, henter, henter']
  dsimp only
  generalize (s.record (.nest (Path.resolve s.current raw))).readText ctx
      (Path.resolve s.current raw) = r,
    (s'.record (.nest (Path.resolve s.current raw))).readText ctx
      (Path.resolve s.current raw) = r' at hread ht ⊢
  obtain ⟨found, t⟩ := r
  obtain ⟨found', t'⟩ := r'
  cases hread
  cases found with
  | error e =>
    have hhere := ht.twins.here line ("Cannot include '" ++ raw ++ "': " ++ e.display)
    refine .inl ⟨_, _, rfl, rfl, ?_⟩
    rw [hhere]
    exact ht.withError _
  | ok found =>
    obtain ⟨file, text⟩ := found
    have hbefore := ht.withInclusion file text line
    dsimp only
    cases hparsed : Document.ofScannedText ctx.options text with
    | error e =>
      refine .inl ⟨_, _, rfl, rfl, ?_⟩
      rw [hbefore.current]
      exact hbefore.withError _
    | ok document => exact .inr ⟨file, document, _, _, rfl, rfl, hbefore⟩

theorem visitInclusion_mirrored (hkeeps : KeepsBelow ctx g.outer levels levels')
    (hlevels : Leveled ctx g.outer g.stack levels levels') (h : g.Mirrored s s') (raw : String)
    (line : Nat) (hfree : (s.visitInclusion ctx (below ctx levels) raw line).journal.Allows
      (Free ctx g.outer)) :
    g.Mirrored (s.visitInclusion ctx (below ctx levels) raw line)
      (s'.visitInclusion ctx (below ctx levels') raw line) := by
  have htry : (s.record (.nest (Path.resolve s.current raw))).journal.Allows (Free ctx g.outer) :=
    hfree.of_continues (visitInclusion_continues (continuing_below levels) s raw line)
  obtain ⟨l, l', rfl, rfl, henter, henter'⟩ := enter_free hlevels h.twins htry
  unfold visitInclusion at hfree ⊢
  rcases openInclusion_mirrored h raw line henter henter' with
    ⟨t, t', hopen, hopen', ht⟩ | ⟨file, document, before, before', hopen, hopen', hbefore⟩
  · rw [hopen, hopen']
    exact ht
  · rw [hopen] at hfree ⊢
    rw [hopen']
    have hbelow : Keeps ctx (g.inside file.path).outer l l' := hkeeps l l' rfl rfl
    have hinside := hbefore.inside (visit ctx l) (visit ctx l') file document
    have hdone := (hbelow.foldl (hlevels.opened file.path) false hinside hfree).outside
    dsimp only
    rw [hbefore.twins.current, hbefore.twins.current']
    exact hdone

theorem visitExtension_mirrored (hkeeps : KeepsBelow ctx g.outer levels levels')
    (hlevels : Leveled ctx g.outer g.stack levels levels') (h : g.Mirrored s s') (raw : String)
    (line : Nat) (hfree : (s.visitExtension ctx (below ctx levels) raw line).journal.Allows
      (Free ctx g.outer)) :
    g.Mirrored (s.visitExtension ctx (below ctx levels) raw line)
      (s'.visitExtension ctx (below ctx levels') raw line) := by
  rw [visitExtension_journal] at hfree
  have hrest : Frame s (s.compileNested ctx (below ctx levels) (Path.resolve s.current raw)).2 :=
    (compileNested_onlyJournal s _).frame
  have hrest' : Frame s'
      (s'.compileNested ctx (below ctx levels') (Path.resolve s.current raw)).2 :=
    (compileNested_onlyJournal s' _).frame
  obtain ⟨hcompiled, ht⟩ := compileNested_twins hkeeps hlevels h.twins _ hfree
  have hafter : g.Mirrored (s.compileNested ctx (below ctx levels) (Path.resolve s.current raw)).2
      (s'.compileNested ctx (below ctx levels') (Path.resolve s.current raw)).2 := by
    refine ⟨ht, ?_, ?_, ?_⟩
    · rw [hrest.file, hrest'.file, h.file]
    · rw [hrest.nodes, hrest'.nodes, h.nodes]
    · rw [hrest.included, hrest'.included, h.included]
  unfold visitExtension
  dsimp only
  rw [h.twins.resolve]
  generalize s.compileNested ctx (below ctx levels) (Path.resolve s.current raw) = r,
    s'.compileNested ctx (below ctx levels') (Path.resolve s.current raw) = r'
    at hcompiled hafter ⊢
  obtain ⟨compiled, t⟩ := r
  obtain ⟨compiled', t'⟩ := r'
  cases hcompiled with
  | error e =>
    have hafter : g.Mirrored t t' := hafter
    dsimp only
    rw [hafter.current]
    exact hafter.withError _
  | @ok nested nested' hnested text =>
    have hafter : g.Mirrored t t' := hafter
    have hinherited := (absorb_alike hafter.twins.resources hnested).inherit hnested.vars
    exact { hafter with twins := { hafter.twins with resources := hinherited } }

/-- A statement keeps states mirrored if those one level deeper do. -/
theorem visitWith_keeps (hkeeps : ∀ outer, KeepsBelow ctx outer levels levels')
    (outer : List String) : Keeps ctx outer levels levels' := by
  intro g s s' node houter hlevels h hfree
  subst houter
  rw [visit_eq] at hfree ⊢
  rw [visit_eq]
  unfold visitWith at hfree ⊢
  cases hnode : node.statement with
  | comment => exact h
  | assignment key v =>
    rw [hnode] at hfree
    exact visitAssignment_mirrored (hkeeps _) hlevels h key v hfree
  | inclusion path =>
    rw [hnode] at hfree
    exact visitInclusion_mirrored (hkeeps _) hlevels h path node.line hfree
  | extension path =>
    rw [hnode] at hfree
    exact visitExtension_mirrored (hkeeps _) hlevels h path node.line hfree

/-- **A statement goes step by step with itself inside other files**, as long as what is opened in
it is free to be. -/
theorem visit_mirrored (outer : List String) : ∀ levels levels', Keeps ctx outer levels levels'
  | 0, _ => visitWith_keeps (fun _ _ _ h => by cases h) outer
  | levels + 1, _ => visitWith_keeps (fun outer l l' h _ => by
    cases h
    exact visit_mirrored outer levels l') outer

/-- A file that is read alone and inside other files starts alike. -/
def alone (outer : List String) (file : Descriptor) (j j' : Journal) : Nesting :=
  ⟨outer, file.version, file.path, [file.path], j.nextId, j'.nextId, j.calls, j'.calls⟩

theorem alone_mirrored (outer : List String) (file : Descriptor) (j j' : Journal) :
    (alone outer file j j').Mirrored (start file [] j) (start file outer j') :=
  ⟨⟨rfl, rfl, rfl, rfl, rfl, ⟨rfl, rfl, .nil, .nil, .refl _ _ _, .refl _ _ _, .refl _ _ _⟩,
    ⟨⟨0, rfl, rfl⟩, .refl _ _ _⟩⟩, rfl, rfl, rfl⟩

end Nesting

/-- A document that is read and parsed is evaluated from the start of its file. -/
theorem compileNested_eq {ctx : Context} {s : Evaluation} {target text : String} {file : Descriptor}
    {document : Document} (visit : Visit) (hclosed : target ∉ s.stack)
    (hread : ctx.library.readText target s.resource.file.version = .ok (file, text))
    (hparsed : Document.ofScannedText ctx.options text = .ok document) :
    s.compileNested ctx (some visit) target =
      (.ok (((start file s.stack (s.askedFor target file)).run visit document).resource, text),
        { s with
          journal := ((start file s.stack (s.askedFor target file)).run visit document).journal })
    := by
  simp only [compileNested, enter_closed visit hclosed, record_readText hread, hparsed]

/-- A document that compiles was read and parsed, and evaluated from the start of its file. -/
theorem compile_eq_ok {ctx : Context} {path version : String} {journal j : Journal} {r : Resource}
    (h : ctx.compile path version journal = (.ok r, j)) : ∃ file text document,
      ctx.library.readText path version = .ok (file, text) ∧
      Document.ofScannedText ctx.options text = .ok document ∧
      ∃ j₁ : Journal, j₁.nextId = journal.nextId ∧
        r = ((start file [] j₁).run (visit ctx (ctx.options.maxDepth - 1)) document).resource ∧
        j = ((start file [] j₁).run (visit ctx (ctx.options.maxDepth - 1)) document).journal := by
  have hread := ctx.library.askText_fst [] path version journal
  unfold Context.compile at h
  cases hfound : ctx.library.readText path version with
  | error e =>
    rw [hfound] at hread
    generalize ctx.library.askText [] path version journal = asked at hread h
    obtain ⟨found, j₁⟩ := asked
    cases hread
    cases h
  | ok found =>
    obtain ⟨file, text⟩ := found
    rw [Library.askText_of_readText hfound] at h
    dsimp only [Context.compileText] at h
    cases hparsed : Document.ofScannedText ctx.options text with
    | error e =>
      rw [hparsed] at h
      cases h
    | ok document =>
      rw [hparsed] at h
      cases h
      exact ⟨file, text, document, rfl, hparsed, (journal.record [] (.call (.locate path version))
        |>.record [] (.call (.content file))), rfl, rfl, rfl⟩

/-- **A document that is compiled inside other files comes out as it does alone.** -/
theorem compileNested_compile {ctx : Context} {s : Evaluation} {path : String} {first : Nat}
    {r : Resource} {j : Journal} (hdepth : s.stack.length < ctx.options.maxDepth)
    (hclosed : path ∉ s.stack)
    (hcompile : ctx.compile path s.resource.file.version (.empty first) = (.ok r, j))
    (hfree : j.Allows (Nesting.Free ctx s.stack)) :
    ∃ r' text t,
      s.compileNested ctx (below ctx (ctx.options.maxDepth - s.stack.length)) path =
        (.ok (r', text), t) ∧
      r.Alike first s.journal.nextId r' ∧
      ∀ raw, Path.resolve s.current raw = path → ∀ line,
        (resolve ctx (below ctx (ctx.options.maxDepth - s.stack.length))
          (.atom line (.dictionary raw)) s).1 = .ok (.obj r'.vars) ∧
        (s.visitExtension ctx (below ctx (ctx.options.maxDepth - s.stack.length)) raw
          line).resource = (s.resource.absorb r').inherit r'.vars := by
  obtain ⟨levels, hlevels⟩ : ∃ levels, ctx.options.maxDepth - s.stack.length = levels + 1 :=
    ⟨ctx.options.maxDepth - s.stack.length - 1, by omega⟩
  rw [hlevels]
  obtain ⟨file, text, document, hread, hparsed, j₁, hfirst, rfl, rfl⟩ := compile_eq_ok hcompile
  have hnested := compileNested_eq (visit ctx levels) hclosed hread hparsed
  have hleveled : Nesting.Leveled ctx s.stack [file.path] (ctx.options.maxDepth - 1) levels := by
    constructor
    · rw [List.length_singleton]
      omega
    · omega
  have hstart := (Nesting.alone_mirrored s.stack file j₁ (s.askedFor path file)).withNotes
    file.path document.notes
  have hrun : (Nesting.alone s.stack file j₁ (s.askedFor path file)).Mirrored
      ((start file [] j₁).run (visit ctx (ctx.options.maxDepth - 1)) document)
      ((start file s.stack (s.askedFor path file)).run (visit ctx levels) document) :=
    (Nesting.visit_mirrored s.stack _ levels).foldl hleveled true hstart hfree
  have halike := hrun.alike
  rw [Nesting.alone, hfirst] at halike
  refine ⟨_, text, _, hnested, halike, fun raw hraw line => ⟨?_, ?_⟩⟩
  · simp only [resolve, resolveAtom, bindVariables, hraw, below, hnested]
  · simp only [visitExtension, hraw, below, hnested]

/-- A file that inherits from one with a component, and binds its variables too. -/
def inheritingComponent : Memory :=
  ⟨"r", [⟨"/g", Memory.latest, "x = wc-a".toUTF8⟩,
    ⟨"/f", Memory.latest, "@extends g\ny = @extends g".toUTF8⟩]⟩

/-- Inside another file it has the same variables, with the components that come next there. -/
theorem compileNested_compile_component :
    let ctx : Context := ⟨inheritingComponent.library, {}⟩
    let s := start ⟨"r", "v", "/m"⟩ [] (.empty 5)
    ∃ r r' j text t, ctx.compile "/f" "v" (.empty 0) = (.ok r, j) ∧
      s.compileNested ctx (below ctx 31) "/f" = (.ok (r', text), t) ∧ r.Alike 0 5 r' ∧
      (r.vars.lookup "x.cid").isSome = true ∧ (r.vars.lookup "y.x.cid").isSome = true := by
  intro ctx s
  have hfree : (ctx.compile "/f" "v" (.empty 0)).2.Allows (Nesting.Free ctx ["/m"]) := by
    decide +kernel
  have hvars : ((ctx.compile "/f" "v" (.empty 0)).1.toOption.any fun r =>
      (r.vars.lookup "x.cid").isSome && (r.vars.lookup "y.x.cid").isSome) = true := by
    decide +kernel
  rcases hcompile : ctx.compile "/f" "v" (.empty 0) with ⟨e | r, j⟩
  · rw [hcompile] at hvars
    cases hvars
  · rw [hcompile] at hfree hvars
    rw [Except.toOption, Option.any_some, Bool.and_eq_true] at hvars
    have hdepth : s.stack.length < ctx.options.maxDepth := by decide
    have hclosed : "/f" ∉ s.stack := by decide
    obtain ⟨r', text, t, hnested, halike, -⟩ := compileNested_compile hdepth hclosed hcompile hfree
    exact ⟨r, r', j, text, t, rfl, hnested, halike, hvars⟩

end Evaluation

end Courseware
