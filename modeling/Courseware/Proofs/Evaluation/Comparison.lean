/-
Two compilations compared.

Two compilations of the same documents, over libraries and with limits of their
own, can be followed side by side (`Comparison`). As long as what happens in the
first one is allowed, what the libraries answer corresponds and a file may be
opened in both or in none (`Comparison.Lawful`). Then every state of the first
corresponds to one of the other (`Comparison.Matched`): the same files are open,
the same was recorded, and variables and errors are the same up to texts and
faults that may stand for one another. What is asked of the libraries keeps that,
and so does a value that opens no document.
-/
import Courseware.Proofs.Evaluation.Lockstep
import Mathlib.Data.List.Forall2

namespace Courseware

open Evaluation Journal

/-- What a text says does not depend on how deep files may be nested. -/
theorem Document.ofScannedText_maxDepth (options : Options) (maxDepth : Nat) (text : String) :
    ofScannedText { options with maxDepth } text = ofScannedText options text := rfl

/-- Whether two diagnostics are the same but for the errors that their descriptions end in. -/
inductive Diagnostic.SameBut (faults : Error → Error → Prop) : Diagnostic → Diagnostic → Prop
  | same (d : Diagnostic) : SameBut faults d d
  | shown {e e' : Error} (h : faults e e') (line : Nat) (path start : String) :
      SameBut faults ⟨line, path, start ++ e.display⟩ ⟨line, path, start ++ e'.display⟩

/-- **Two compilations that are compared**, and what of them may differ. -/
structure Comparison where
  one : Context
  other : Context
  /-- The version that the other one asks at, where the first asks at one. -/
  version : String → String
  /-- The number of the first identifier of each. -/
  firstId : Nat
  firstId' : Nat
  /-- The texts in values that may stand for one another. -/
  Texts : String → String → Prop
  /-- The errors of the libraries that may. -/
  Faults : Error → Error → Prop
  /-- What may happen in the first one while some files are open. -/
  Allowed : (stack : List String) → Event → Prop

namespace Comparison

variable {c : Comparison}

/-- The file of the other compilation, for a file of the first. -/
def file (c : Comparison) (file : Descriptor) : Descriptor :=
  { file with version := c.version file.version }

/-- The question that it asks, for one of the first. -/
def call (c : Comparison) : Call → Call
  | .locate path version => .locate path (c.version version)
  | .content file => .content (c.file file)
  | .url file start => .url (c.file file) start

/-- What happens in it, for what happens in the first. -/
def event (c : Comparison) : List String × Event → List String × Event
  | (stack, .call call) => (stack, .call (c.call call))
  | (stack, .nest target) => (stack, .nest target)

/-- The request that it answers, for one that the first answers. -/
def request (c : Comparison) : Request → Request
  | .path path version => .path path (c.version version)
  | .text file text => .text (c.file file) text

/-- Whether two errors are the same, or may stand for one another. -/
def SameFault (c : Comparison) (e e' : Error) : Prop := e' = e ∨ c.Faults e e'

/-- Whether two outcomes correspond: values that do, or errors that may stand for one another. -/
inductive Results {α : Type} (c : Comparison) (values : α → α → Prop) :
    Except Error α → Except Error α → Prop
  | ok {a a' : α} (h : values a a') : Results c values (.ok a) (.ok a')
  | error {e e' : Error} (h : c.SameFault e e') : Results c values (.error e) (.error e')

theorem Results.refl {α : Type} {values : α → α → Prop} (h : ∀ a, values a a) :
    ∀ r : Except Error α, c.Results values r r
  | .ok a => .ok (h a)
  | .error _ => .error (.inl rfl)

/-- Whether a file of one library is the other's of a file: it has the same content. -/
structure SameFile (c : Comparison) (file file' : Descriptor) : Prop where
  eq : file' = c.file file
  content : c.other.library.content file' = c.one.library.content file

/-- **Whether two compilations can be followed side by side**, as long as what happens is
allowed. -/
structure Lawful (c : Comparison) : Prop where
  options : c.other.options = { c.one.options with maxDepth := c.other.options.maxDepth }
  texts_refl (text : String) : c.Texts text text
  texts_id (drawn : Nat) :
    c.Texts (Identifier.ofNat (c.firstId + drawn)) (Identifier.ofNat (c.firstId' + drawn))
  faults_line? {e e' : Error} (h : c.Faults e e') : e'.line? = e.line?
  located {stack : List String} {path version : String}
    (h : c.Allowed stack (.call (.locate path version))) :
    c.Results c.SameFile (c.one.library.locate path version)
      (c.other.library.locate path (c.version version))
  url {stack : List String} {file : Descriptor} {start : String}
    (h : c.Allowed stack (.call (.url file start))) :
    c.Texts (file.url start) ((c.file file).url start)
  depth {stack : List String} {target : String} (h : c.Allowed stack (.nest target)) :
    target ∈ stack ∨ c.other.options.maxDepth = c.one.options.maxDepth ∨
      stack.length < c.one.options.maxDepth ∧ stack.length < c.other.options.maxDepth

/-! ## Resources, journals and states -/

/-- Whether two resources are the same up to texts and faults. -/
structure Resources (c : Comparison) (r r' : Resource) : Prop where
  file : r'.file = c.file r.file
  vars : Json.EntriesSimilar c.Texts r.vars r'.vars
  own : Json.EntriesSimilar c.Texts r.own r'.own
  dependencies : r'.dependencies = r.dependencies
  nodes : r'.nodes = r.nodes
  errors : List.Forall₂ (Diagnostic.SameBut c.Faults) r.errors r'.errors
  warnings : r'.warnings = r.warnings

/-- Whether two journals tell of the same: as many identifiers were drawn, and the same happened. -/
structure Journals (c : Comparison) (j j' : Journal) : Prop where
  ids : ∃ drawn, j.nextId = c.firstId + drawn ∧ j'.nextId = c.firstId' + drawn
  events : j'.events = j.events.map c.event

/-- **Whether two states correspond**, in both of which the same files are open. -/
structure Matched (c : Comparison) (files : List String) (s s' : Evaluation) : Prop where
  current : s'.current = s.current
  stack : s.stack = files
  stack' : s'.stack = files
  included : s'.included = s.included
  assigning : s'.assigning = s.assigning
  resources : c.Resources s.resource s'.resource
  journals : c.Journals s.journal s'.journal

variable {r r' : Resource} {j j' : Journal} {s s' : Evaluation} {e e' : Error}
variable {stack : List String} {levels levels' : Nat}

theorem SameFault.shown (h : c.SameFault e e') (line : Nat) (path start : String) :
    Diagnostic.SameBut c.Faults ⟨line, path, start ++ e.display⟩
      ⟨line, path, start ++ e'.display⟩ := by
  rcases h with rfl | h
  · exact .same _
  · exact .shown h line path start

/-- The diagnostic for an error of a nested file is where the one for the other error is. -/
theorem SameFault.ofNested (hc : c.Lawful) (h : c.SameFault e e') (nested : String) (line : Nat)
    (current : String) : Diagnostic.SameBut c.Faults (.ofNested e nested line current)
      (.ofNested e' nested line current) := by
  rcases h with rfl | h
  · exact .same _
  · have hshown (line : Nat) (path : String) := Diagnostic.SameBut.shown h line path ""
    simp only [String.empty_append] at hshown
    unfold Diagnostic.ofNested
    rw [hc.faults_line? h]
    cases e.line? with
    | none => exact hshown line current
    | some nestedLine => exact hshown nestedLine nested

namespace Resources

theorem empty (c : Comparison) (file : Descriptor) :
    c.Resources (.empty file) (.empty (c.file file)) :=
  ⟨rfl, .nil, .nil, rfl, rfl, .nil, rfl⟩

theorem withError (h : c.Resources r r') {d d' : Diagnostic}
    (hd : Diagnostic.SameBut c.Faults d d') : c.Resources (r.withError d) (r'.withError d') :=
  { h with errors := List.rel_append h.errors (.cons hd .nil) }

theorem withWarning (h : c.Resources r r') (d : Diagnostic) :
    c.Resources (r.withWarning d) (r'.withWarning d) :=
  { h with warnings := congrArg (· ++ [d]) h.warnings }

theorem withDependency (h : c.Resources r r') (d : Dependency) :
    c.Resources (r.withDependency d) (r'.withDependency d) :=
  { h with dependencies := congrArg (· ++ [d]) h.dependencies }

theorem absorb (h : c.Resources r r') {nested nested' : Resource}
    (hnested : c.Resources nested nested') :
    c.Resources (r.absorb nested) (r'.absorb nested') :=
  { h with
    errors := List.rel_append h.errors hnested.errors
    warnings := congrArg₂ (· ++ ·) h.warnings hnested.warnings
    dependencies := congrArg₂ (· ++ ·) h.dependencies hnested.dependencies }

/-- Similar values can be assigned to the same names, and are blocked in the same way. -/
theorem assign (h : c.Resources r r') (name : String) {v v' : Json}
    (hv : Json.Similar c.Texts v v') : c.Resources (r.assign name v).1 (r'.assign name v').1 ∧
      (r'.assign name v').2 = (r.assign name v).2 := by
  obtain ⟨hvars, hown, hblocked⟩ := Resource.assign_similar h.vars h.own name hv
  obtain ⟨vars, own, heq⟩ := r.assign_eq name v
  obtain ⟨vars', own', heq'⟩ := r'.assign_eq name v'
  rw [heq, heq'] at hvars hown ⊢
  exact ⟨{ h with vars := hvars, own := hown }, hblocked⟩

theorem inherit (h : c.Resources r r') {parent parent' : Variables}
    (hparent : Json.EntriesSimilar c.Texts parent parent') :
    c.Resources (r.inherit parent) (r'.inherit parent') :=
  { h with vars := Resource.inherit_similar h.vars h.own hparent }

end Resources

theorem Journals.record (h : c.Journals j j') (stack : List String) (event : Event) :
    c.Journals (j.record stack event) (j'.record stack (c.event (stack, event)).2) := by
  refine ⟨h.ids, ?_⟩
  cases event <;> simp [Journal.record, h.events, Comparison.event]

/-- Both asked for the same, each at its version. -/
theorem Journals.calls (h : c.Journals j j') : j'.calls = j.calls.map c.call := by
  unfold Journal.calls
  rw [h.events, List.filterMap_map, List.map_filterMap]
  congr 1
  funext ⟨stack, event⟩
  cases event <;> rfl

/-- Journals that only begin tell of nothing. -/
theorem Journals.empty (c : Comparison) : c.Journals (.empty c.firstId) (.empty c.firstId') :=
  ⟨⟨0, rfl, rfl⟩, rfl⟩

namespace Matched

theorem withError (h : c.Matched stack s s') {d d' : Diagnostic}
    (hd : Diagnostic.SameBut c.Faults d d') : c.Matched stack (s.withError d) (s'.withError d') :=
  { h with resources := h.resources.withError hd }

theorem withWarning (h : c.Matched stack s s') (d : Diagnostic) :
    c.Matched stack (s.withWarning d) (s'.withWarning d) :=
  { h with resources := h.resources.withWarning d }

theorem withNotes (h : c.Matched stack s s') (path : String) (notes : List Note) :
    c.Matched stack (s.withNotes path notes) (s'.withNotes path notes) := by
  induction notes generalizing s s' with
  | nil => exact h
  | cons note notes ih => exact ih (h.withWarning ⟨note.line, path, note.message⟩)

theorem here (h : c.Matched stack s s') (line : Nat) (description : String) :
    s'.here line description = s.here line description := by
  rw [Evaluation.here, Evaluation.here, h.current]

theorem version (h : c.Matched stack s s') :
    s'.resource.file.version = c.version s.resource.file.version :=
  congrArg Descriptor.version h.resources.file

theorem record (h : c.Matched stack s s') (event : Event) :
    c.Matched stack (s.record event) (s'.record (c.event (stack, event)).2) := by
  refine { h with journals := ?_ }
  rw [Evaluation.record, Evaluation.record, h.stack, h.stack']
  exact h.journals.record stack event

end Matched

/-! ## What is asked of the libraries -/

section Questions

variable {version path : String}

theorem askLocate_matched (hc : c.Lawful) (h : c.Journals j j')
    (hallowed : (c.one.library.askLocate stack path version j).2.Holds c.Allowed) :
    c.Results c.SameFile (c.one.library.askLocate stack path version j).1
        (c.other.library.askLocate stack path (c.version version) j').1 ∧
      c.Journals (c.one.library.askLocate stack path version j).2
        (c.other.library.askLocate stack path (c.version version) j').2 :=
  ⟨hc.located hallowed.last, h.record stack (.call (.locate path version))⟩

theorem askContent_matched (h : c.Journals j j') (stack : List String) {file file' : Descriptor}
    (hfile : c.SameFile file file') :
    (c.other.library.askContent stack file' j').1 = (c.one.library.askContent stack file j).1 ∧
      c.Journals (c.one.library.askContent stack file j).2
        (c.other.library.askContent stack file' j').2 := by
  obtain ⟨rfl, hcontent⟩ := hfile
  exact ⟨hcontent, h.record stack (.call (.content file))⟩

theorem askText_continues (library : Library) (stack : List String) (path version : String)
    (j : Journal) : (library.askLocate stack path version j).2.Continues
      (library.askText stack path version j).2 := by
  unfold Library.askText
  rcases library.askLocate stack path version j with ⟨e | file, j⟩
  · exact GoesOn.refl _
  · have hcontent : j.Continues (library.askContent stack file j).2 := goesOn_record trivial j _
    dsimp only
    rcases hread : library.askContent stack file j with ⟨e | bytes, k⟩
    · rw [hread] at hcontent
      exact hcontent
    · rw [hread] at hcontent
      exact hcontent

/-- A document is read alike, up to the version of its file. -/
theorem askText_matched (hc : c.Lawful) (h : c.Journals j j')
    (hallowed : (c.one.library.askText stack path version j).2.Holds c.Allowed) :
    c.Results (fun found found' => found' = (c.file found.1, found.2))
        (c.one.library.askText stack path version j).1
        (c.other.library.askText stack path (c.version version) j').1 ∧
      c.Journals (c.one.library.askText stack path version j).2
        (c.other.library.askText stack path (c.version version) j').2 := by
  have hearlier := hallowed.of_continues (askText_continues c.one.library stack path version j)
  obtain ⟨hfound, hlocated⟩ := askLocate_matched hc h hearlier
  unfold Library.askText
  generalize c.one.library.askLocate stack path version j = a,
    c.other.library.askLocate stack path (c.version version) j' = a' at hfound hlocated ⊢
  obtain ⟨found, k⟩ := a
  obtain ⟨found', k'⟩ := a'
  cases hfound with
  | error he => exact ⟨.error he, hlocated⟩
  | @ok file file' hfile =>
    obtain ⟨hread, hasked⟩ := askContent_matched hlocated stack hfile
    obtain ⟨rfl, -⟩ := hfile
    dsimp only
    generalize c.one.library.askContent stack file k = b,
      c.other.library.askContent stack (c.file file) k' = b' at hread hasked ⊢
    obtain ⟨bytes, l⟩ := b
    obtain ⟨bytes', l'⟩ := b'
    cases hread
    cases bytes with
    | error e => exact ⟨.error (.inl rfl), hasked⟩
    | ok bytes =>
      refine ⟨?_, hasked⟩
      unfold Library.decode
      dsimp only
      cases String.fromUTF8? bytes with
      | none => exact .error (.inl rfl)
      | some text => exact .ok rfl

theorem locate_matched (hc : c.Lawful) (h : c.Matched stack s s') (path : String)
    (hallowed : (s.locate c.one path).2.journal.Holds c.Allowed) :
    c.Results c.SameFile (s.locate c.one path).1 (s'.locate c.other path).1 ∧
      c.Matched stack (s.locate c.one path).2 (s'.locate c.other path).2 := by
  obtain rfl := h.stack
  obtain ⟨hfound, hasked⟩ := askLocate_matched hc h.journals hallowed
  unfold Evaluation.locate
  rw [h.version, h.stack']
  exact ⟨hfound, { h with stack' := rfl, journals := hasked }⟩

theorem content_matched (h : c.Matched stack s s') {file file' : Descriptor}
    (hfile : c.SameFile file file') :
    (s'.content c.other file').1 = (s.content c.one file).1 ∧
      c.Matched stack (s.content c.one file).2 (s'.content c.other file').2 := by
  obtain rfl := h.stack
  obtain ⟨hread, hasked⟩ := askContent_matched h.journals s.stack hfile
  unfold Evaluation.content
  rw [h.stack']
  exact ⟨hread, { h with stack' := rfl, journals := hasked }⟩

theorem readText_matched (hc : c.Lawful) (h : c.Matched stack s s') (path : String)
    (hallowed : (s.readText c.one path).2.journal.Holds c.Allowed) :
    c.Results (fun found found' => found' = (c.file found.1, found.2)) (s.readText c.one path).1
        (s'.readText c.other path).1 ∧
      c.Matched stack (s.readText c.one path).2 (s'.readText c.other path).2 := by
  obtain rfl := h.stack
  obtain ⟨hfound, hasked⟩ := askText_matched hc h.journals hallowed
  unfold Evaluation.readText
  rw [h.version, h.stack']
  exact ⟨hfound, { h with stack' := rfl, journals := hasked }⟩

end Questions

/-! ## Values -/

/-- What corresponds to what in two compilations, while the same files are open. -/
def lockstep (c : Comparison) (stack : List String) : Lockstep where
  States := c.Matched stack
  Texts := c.Texts
  Diagnostics := Diagnostic.SameBut c.Faults
  withError h hd := h.withError hd

namespace Matched

theorem agree_ok (h : c.Matched stack s s') {v v' : Json} (hv : Json.Similar c.Texts v v') :
    (c.lockstep stack).Agree (.ok v, s) (.ok v', s') :=
  ⟨.ok hv, h⟩

theorem agree_here (h : c.Matched stack s s') (line : Nat) (description : String) :
    (c.lockstep stack).Agree (.error (s.here line description), s)
      (.error (s'.here line description), s') := by
  rw [h.here]
  exact ⟨.error (.same _), h⟩

theorem agree_shown (h : c.Matched stack s s') (he : c.SameFault e e') (line : Nat)
    (start : String) : (c.lockstep stack).Agree (.error (s.here line (start ++ e.display)), s)
      (.error (s'.here line (start ++ e'.display)), s') := by
  rw [h.here]
  exact ⟨.error (he.shown line s.current start), h⟩

end Matched

theorem component_matched (hc : c.Lawful) (h : c.Matched stack s s') (selector : String) :
    Json.Similar c.Texts (s.component selector).1 (s'.component selector).1 ∧
      c.Matched stack (s.component selector).2 (s'.component selector).2 := by
  obtain ⟨drawn, hid, hid'⟩ := h.journals.ids
  unfold Evaluation.component
  refine ⟨?_, { h with journals := ⟨⟨drawn + 1, ?_, ?_⟩, h.journals.events⟩ }⟩
  · dsimp only
    rw [hid, hid']
    exact .obj (.cons (.str (hc.texts_id drawn)) (.cons (.str (hc.texts_refl selector)) .nil))
  · exact congrArg (· + 1) hid
  · exact congrArg (· + 1) hid'

theorem reference_agree (h : c.Matched stack s s') (deeper deeper' : Option Visit) (line : Nat)
    (name : String) : (c.lockstep stack).Agree (s.resolveAtom c.one deeper line (.reference name))
      (s'.resolveAtom c.other deeper' line (.reference name)) := by
  have hvalue := Variables.lookup_similar h.resources.vars name
  simp only [resolveAtom, Resource.get?]
  generalize s.resource.vars.lookup name = found, s'.resource.vars.lookup name = found' at hvalue ⊢
  cases hvalue with
  | some hv => exact h.agree_ok hv
  | none => exact h.agree_here line _

theorem copyUrl_agree (hc : c.Lawful) (h : c.Matched stack s s') (raw : String) (line : Nat)
    (hallowed : (s.copyUrl c.one raw line).2.journal.Holds c.Allowed) :
    (c.lockstep stack).Agree (s.copyUrl c.one raw line) (s'.copyUrl c.other raw line) := by
  have hurl : c.other.options.urlStart = c.one.options.urlStart := by rw [hc.options]
  have hlocated := locate_matched hc h (Path.resolve s.current raw)
  unfold copyUrl at hallowed ⊢
  rw [h.current]
  generalize s.locate c.one (Path.resolve s.current raw) = a,
    s'.locate c.other (Path.resolve s.current raw) = a' at hlocated hallowed ⊢
  obtain ⟨found, t⟩ := a
  obtain ⟨found', t'⟩ := a'
  cases found with
  | error e =>
    obtain ⟨hfound, ht⟩ := hlocated hallowed
    have ht : c.Matched stack t t' := ht
    cases hfound with
    | error he => exact ht.agree_shown he line _
  | ok file =>
    obtain ⟨hfound, ht⟩ := hlocated (hallowed.of_continues (record_continues t _))
    have hrecord := Matched.record ht (.call (.url file c.one.options.urlStart))
    cases hfound with
    | ok hfile =>
      obtain ⟨rfl, -⟩ := hfile
      dsimp only
      rw [hurl]
      exact hrecord.agree_ok (.str (hc.url hallowed.last))

theorem copyContent_agree (hc : c.Lawful) (h : c.Matched stack s s') (raw : String) (line : Nat)
    (hallowed : (s.copyContent c.one raw line).2.journal.Holds c.Allowed) :
    (c.lockstep stack).Agree (s.copyContent c.one raw line) (s'.copyContent c.other raw line) := by
  have hlocated := locate_matched hc h (Path.resolve s.current raw)
  unfold copyContent at hallowed ⊢
  dsimp only at hallowed ⊢
  rw [h.current]
  generalize s.locate c.one (Path.resolve s.current raw) = a,
    s'.locate c.other (Path.resolve s.current raw) = a' at hlocated hallowed ⊢
  obtain ⟨found, t⟩ := a
  obtain ⟨found', t'⟩ := a'
  cases found with
  | error e =>
    obtain ⟨hfound, ht⟩ := hlocated hallowed
    have ht : c.Matched stack t t' := ht
    cases hfound with
    | error he => exact ht.agree_shown he line _
  | ok file =>
    have hasked : (t.content c.one file).2.journal.Holds c.Allowed := by
      dsimp only at hallowed
      rcases hread : t.content c.one file with ⟨e | bytes, u⟩ <;> rw [hread] at hallowed <;>
        exact hallowed
    obtain ⟨hfound, ht⟩ := hlocated (hasked.of_continues (record_continues t _))
    have ht : c.Matched stack t t' := ht
    cases hfound with
    | ok hfile =>
      obtain ⟨hread, hu⟩ := content_matched ht hfile
      dsimp only
      generalize t.content c.one file = b, t'.content c.other _ = b' at hread hu ⊢
      obtain ⟨bytes, u⟩ := b
      obtain ⟨bytes', u'⟩ := b'
      cases hread
      have hu : c.Matched stack u u' := hu
      cases bytes with
      | error e => exact hu.agree_here line _
      | ok bytes => exact hu.agree_ok (.str (hc.texts_refl _))

end Comparison

end Courseware
