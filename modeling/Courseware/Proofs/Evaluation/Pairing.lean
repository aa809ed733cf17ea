/-
Two evaluations side by side.

Two evaluations of the same statements, each in a place of its own and with a
past of its own, do the same as long as paths resolve alike in both places
(`Pairing`). Twins (`Pairing.Twins`) are states of the two after the same
statements: their variables are alike, and what was recorded since the two
began is the same, up to identifiers and up to the files that diagnostics are
for. The two go in lockstep, so resolving a value keeps twins, whatever it is that
keeps them in the documents that it opens (`Pairing.resolve_agree`), and so does an
assignment.
-/
import Courseware.Proofs.Document.Lexemes
import Courseware.Proofs.Evaluation.Lockstep
import Courseware.Proofs.Library.Steady
import Courseware.Proofs.Variables.Alike

namespace Courseware

/-- Whether the same was appended to two lists, up to a change of what is appended to the second. -/
def Appended {α : Type} (change : α → α) (before before' after after' : List α) : Prop :=
  ∃ new, after = before ++ new ∧ after' = before' ++ new.map change

namespace Appended

variable {α : Type} {change : α → α} {before before' after after' : List α}

theorem refl (change : α → α) (before before' : List α) :
    Appended change before before' before before' :=
  ⟨[], (List.append_nil _).symm, (List.append_nil _).symm⟩

theorem append (h : Appended change before before' after after') (more : List α) :
    Appended change before before' (after ++ more) (after' ++ more.map change) := by
  obtain ⟨new, rfl, rfl⟩ := h
  exact ⟨new ++ more, by simp, by simp⟩

theorem trans {last last' : List α} (h : Appended change before before' after after')
    (h' : Appended change after after' last last') : Appended change before before' last last' := by
  obtain ⟨more, rfl, rfl⟩ := h'
  exact h.append more

end Appended

namespace Evaluation

/-! ## A document that is read -/

/-- The journal after the document at a path was asked for. -/
def askedFor (s : Evaluation) (target : String) (file : Descriptor) : Journal :=
  ((s.journal.record s.stack (.nest target)).record s.stack
    (.call (.locate target s.resource.file.version))).record s.stack (.call (.content file))

theorem askedFor_calls (s : Evaluation) (target : String) (file : Descriptor) :
    (s.askedFor target file).calls =
      s.journal.calls ++ [.locate target s.resource.file.version, .content file] := by
  simp [askedFor, Journal.calls, Journal.record]

/-- A directive that opens what can be read does no more than to ask for it. -/
theorem record_readText {ctx : Context} {s : Evaluation} {target text : String} {file : Descriptor}
    (hread : ctx.library.readText target s.resource.file.version = .ok (file, text)) :
    (s.record (.nest target)).readText ctx target =
      (.ok (file, text), { s with journal := s.askedFor target file }) := by
  simp only [readText, record, Library.askText_of_readText hread]
  rfl

/-! ## Pairs of evaluations -/

/-- One of two evaluations: where it stands, and what was recorded when it began. -/
structure Side where
  current : String
  stack : List String
  /-- The number of its first identifier. -/
  firstId : Nat
  errors : List Diagnostic
  warnings : List Diagnostic
  dependencies : List Dependency
  calls : List Call

/-- **Two evaluations at one version**, in files from which paths lead to the same files. -/
structure Pairing where
  version : String
  one : Side
  other : Side
  /-- The diagnostic of the other one, for a diagnostic of the first. -/
  moved : Diagnostic → Diagnostic
  resolve (raw : String) : Path.resolve other.current raw = Path.resolve one.current raw
  here (line : Nat) (description : String) :
    moved ⟨line, one.current, description⟩ = ⟨line, other.current, description⟩

namespace Pairing

variable {p : Pairing}

/-- Whether two values are the same up to their identifiers. -/
def Alike (p : Pairing) : Json → Json → Prop := Json.Alike p.one.firstId p.other.firstId

/-- Whether two lists of variables are. -/
def VarsAlike (p : Pairing) : Variables → Variables → Prop :=
  Json.EntriesAlike p.one.firstId p.other.firstId

/-- Whether two resources have come about in the same way. -/
structure Resources (p : Pairing) (r r' : Resource) : Prop where
  version : r.file.version = p.version
  version' : r'.file.version = p.version
  vars : p.VarsAlike r.vars r'.vars
  own : p.VarsAlike r.own r'.own
  errors : Appended p.moved p.one.errors p.other.errors r.errors r'.errors
  warnings : Appended p.moved p.one.warnings p.other.warnings r.warnings r'.warnings
  dependencies : Appended id p.one.dependencies p.other.dependencies r.dependencies r'.dependencies

/-- Whether two journals have: as many identifiers were drawn, and the same was asked. -/
structure Journals (p : Pairing) (j j' : Journal) : Prop where
  ids : ∃ drawn, j.nextId = p.one.firstId + drawn ∧ j'.nextId = p.other.firstId + drawn
  calls : Appended id p.one.calls p.other.calls j.calls j'.calls

/-- **Whether two states have come about in the same way.** -/
structure Twins (p : Pairing) (s s' : Evaluation) : Prop where
  current : s.current = p.one.current
  current' : s'.current = p.other.current
  stack : s.stack = p.one.stack
  stack' : s'.stack = p.other.stack
  assigning : s'.assigning = s.assigning
  resources : p.Resources s.resource s'.resource
  journals : p.Journals s.journal s'.journal

variable {r r' : Resource} {j j' : Journal} {s s' : Evaluation}

/-! ## Resources -/

theorem Resources.withError (h : p.Resources r r') (d : Diagnostic) :
    p.Resources (r.withError d) (r'.withError (p.moved d)) :=
  { h with errors := h.errors.append [d] }

theorem Resources.withWarning (h : p.Resources r r') (d : Diagnostic) :
    p.Resources (r.withWarning d) (r'.withWarning (p.moved d)) :=
  { h with warnings := h.warnings.append [d] }

theorem Resources.withDependency (h : p.Resources r r') (d : Dependency) :
    p.Resources (r.withDependency d) (r'.withDependency d) :=
  { h with dependencies := h.dependencies.append [d] }

/-- Alike values can be assigned to the same names, and are blocked in the same way. -/
theorem Resources.assign (h : p.Resources r r') (name : String) {v v' : Json}
    (hv : p.Alike v v') : p.Resources (r.assign name v).1 (r'.assign name v').1 ∧
      (r'.assign name v').2 = (r.assign name v).2 := by
  obtain ⟨hvars, hown, hblocked⟩ :=
    Resource.assign_similar h.vars.similar h.own.similar name hv.similar
  obtain ⟨vars, own, heq⟩ := r.assign_eq name v
  obtain ⟨vars', own', heq'⟩ := r'.assign_eq name v'
  rw [heq, heq'] at hvars hown ⊢
  exact ⟨{ h with vars := hvars.alike, own := hown.alike }, hblocked⟩

/-- Alike variables can be inherited by two resources with alike keys of their own. -/
theorem Resources.inherit (h : p.Resources r r') {parent parent' : Variables}
    (hparent : p.VarsAlike parent parent') :
    p.Resources (r.inherit parent) (r'.inherit parent') :=
  have hvars := Resource.inherit_similar h.vars.similar h.own.similar hparent.similar
  { h with vars := hvars.alike }

/-! ## Journals -/

theorem Journals.record_call (h : p.Journals j j') (stack stack' : List String) (call : Call) :
    p.Journals (j.record stack (.call call)) (j'.record stack' (.call call)) := by
  refine ⟨h.ids, ?_⟩
  have hcalls := h.calls.append [call]
  simpa [Journal.calls, Journal.record] using hcalls

theorem Journals.record_nest (h : p.Journals j j') (stack stack' : List String) (target : String) :
    p.Journals (j.record stack (.nest target)) (j'.record stack' (.nest target)) := by
  refine ⟨h.ids, ?_⟩
  have hcalls := h.calls
  simpa [Journal.calls, Journal.record] using hcalls

/-! ## What is asked of the library -/

theorem Twins.withError (h : p.Twins s s') (d : Diagnostic) :
    p.Twins (s.withError d) (s'.withError (p.moved d)) :=
  { h with resources := h.resources.withError d }

theorem Twins.resolve (h : p.Twins s s') (raw : String) :
    Path.resolve s'.current raw = Path.resolve s.current raw := by
  rw [h.current', h.current]
  exact p.resolve raw

theorem Twins.here (h : p.Twins s s') (line : Nat) (description : String) :
    s'.here line description = p.moved (s.here line description) := by
  unfold Evaluation.here
  rw [h.current', h.current]
  exact (p.here line description).symm

theorem Twins.sameVersion (h : p.Twins s s') :
    s'.resource.file.version = s.resource.file.version :=
  h.resources.version'.trans h.resources.version.symm

theorem Twins.locate (h : p.Twins s s') (ctx : Context) (path : String) :
    (s'.locate ctx path).1 = (s.locate ctx path).1 ∧
      p.Twins (s.locate ctx path).2 (s'.locate ctx path).2 := by
  unfold Evaluation.locate Library.askLocate
  rw [h.sameVersion]
  exact ⟨rfl, { h with journals := h.journals.record_call _ _ _ }⟩

theorem Twins.content (h : p.Twins s s') (ctx : Context) (file : Descriptor) :
    (s'.content ctx file).1 = (s.content ctx file).1 ∧
      p.Twins (s.content ctx file).2 (s'.content ctx file).2 :=
  ⟨rfl, { h with journals := h.journals.record_call _ _ _ }⟩

theorem Twins.recordNest (h : p.Twins s s') (target : String) :
    p.Twins (s.record (.nest target)) (s'.record (.nest target)) :=
  { h with journals := h.journals.record_nest _ _ _ }

theorem Twins.readText (h : p.Twins s s') (ctx : Context) (path : String) :
    (s'.readText ctx path).1 = (s.readText ctx path).1 ∧
      p.Twins (s.readText ctx path).2 (s'.readText ctx path).2 := by
  have hlocated := h.journals.record_call s.stack s'.stack (.locate path s.resource.file.version)
  simp only [Evaluation.readText, Library.askText, Library.askLocate, Library.askContent,
    h.sameVersion]
  cases ctx.library.locate path s.resource.file.version with
  | error e => exact ⟨rfl, { h with journals := hlocated }⟩
  | ok file =>
    have hasked := hlocated.record_call s.stack s'.stack (.content file)
    dsimp only
    cases ctx.library.content file with
    | error e => exact ⟨rfl, { h with journals := hasked }⟩
    | ok bytes => exact ⟨rfl, { h with journals := hasked }⟩

/-! ## Values -/

/-- Whether two values come out alike: with alike values, or with an error and its counterpart. -/
inductive Outcomes (p : Pairing) : Except Diagnostic Json → Except Diagnostic Json → Prop
  | ok {v v' : Json} (h : p.Alike v v') : Outcomes p (.ok v) (.ok v')
  | error (d : Diagnostic) : Outcomes p (.error d) (.error (p.moved d))

/-- Whether two values come out alike and leave twins. -/
structure Agree (p : Pairing) (r r' : Except Diagnostic Json × Evaluation) : Prop where
  outcomes : p.Outcomes r.1 r'.1
  twins : p.Twins r.2 r'.2

theorem Twins.agree_ok (h : p.Twins s s') {v v' : Json} (hv : p.Alike v v') :
    p.Agree (.ok v, s) (.ok v', s') :=
  ⟨.ok hv, h⟩

theorem Twins.agree_here (h : p.Twins s s') (line : Nat) (description : String) :
    p.Agree (.error (s.here line description), s) (.error (s'.here line description), s') := by
  rw [h.here]
  exact ⟨.error _, h⟩

variable {ctx : Context}

theorem Twins.component (h : p.Twins s s') (selector : String) :
    p.Alike (s.component selector).1 (s'.component selector).1 ∧
      p.Twins (s.component selector).2 (s'.component selector).2 := by
  obtain ⟨drawn, hid, hid'⟩ := h.journals.ids
  unfold Evaluation.component
  refine ⟨?_, { h with journals := ⟨⟨drawn + 1, ?_, ?_⟩, h.journals.calls⟩ }⟩
  · dsimp only
    rw [hid, hid']
    exact .obj (.cons (.identifier drawn) (.cons (.str selector) .nil))
  · exact congrArg (· + 1) hid
  · exact congrArg (· + 1) hid'

theorem Twins.reference (h : p.Twins s s') (deeper deeper' : Option Visit) (line : Nat)
    (name : String) : p.Agree (s.resolveAtom ctx deeper line (.reference name))
      (s'.resolveAtom ctx deeper' line (.reference name)) := by
  have hvalue := Variables.lookup_alike h.resources.vars name
  simp only [resolveAtom, Resource.get?]
  generalize s.resource.vars.lookup name = found, s'.resource.vars.lookup name = found' at hvalue ⊢
  cases hvalue with
  | some hv => exact h.agree_ok hv
  | none => exact h.agree_here line _

theorem Twins.copyUrl (h : p.Twins s s') (raw : String) (line : Nat) :
    p.Agree (s.copyUrl ctx raw line) (s'.copyUrl ctx raw line) := by
  obtain ⟨hfound, ht⟩ := h.locate ctx (Path.resolve s.current raw)
  unfold Evaluation.copyUrl
  rw [h.resolve]
  generalize s.locate ctx (Path.resolve s.current raw) = r,
    s'.locate ctx (Path.resolve s.current raw) = r' at hfound ht ⊢
  obtain ⟨found, t⟩ := r
  obtain ⟨found', t'⟩ := r'
  cases hfound
  cases found with
  | error e => exact ht.agree_here line _
  | ok file =>
    have hcalled : p.Twins (t.record (.call (.url file ctx.options.urlStart)))
        (t'.record (.call (.url file ctx.options.urlStart))) :=
      { ht with journals := ht.journals.record_call _ _ _ }
    exact hcalled.agree_ok (.str _)

theorem Twins.copyContent (h : p.Twins s s') (raw : String) (line : Nat) :
    p.Agree (s.copyContent ctx raw line) (s'.copyContent ctx raw line) := by
  obtain ⟨hfound, ht⟩ := h.locate ctx (Path.resolve s.current raw)
  unfold Evaluation.copyContent
  dsimp only
  rw [h.resolve]
  generalize s.locate ctx (Path.resolve s.current raw) = r,
    s'.locate ctx (Path.resolve s.current raw) = r' at hfound ht ⊢
  obtain ⟨found, t⟩ := r
  obtain ⟨found', t'⟩ := r'
  cases hfound
  cases found with
  | error e => exact ht.agree_here line _
  | ok file =>
    obtain ⟨hread, hu⟩ := ht.content ctx file
    dsimp only
    generalize t.content ctx file = r, t'.content ctx file = r' at hread hu ⊢
    obtain ⟨bytes, u⟩ := r
    obtain ⟨bytes', u'⟩ := r'
    cases hread
    cases bytes with
    | error e => exact hu.agree_here line _
    | ok bytes => exact hu.agree_ok (.str _)

/-- **An atom that opens no document comes out alike.** -/
theorem Twins.resolveAtom (h : p.Twins s s') (deeper deeper' : Option Visit) (line : Nat) {a : Atom}
    (ha : ∀ path, a ≠ .dictionary path) :
    p.Agree (s.resolveAtom ctx deeper line a) (s'.resolveAtom ctx deeper' line a) := by
  cases a with
  | string text => exact h.agree_ok (.str _)
  | number n => exact h.agree_ok (Json.alike_refl _)
  | boolean b => exact h.agree_ok (.bool b)
  | component selector =>
    obtain ⟨hv, ht⟩ := h.component selector
    exact ht.agree_ok hv
  | reference name => exact h.reference deeper deeper' line name
  | url path => exact h.copyUrl path line
  | content path => exact h.copyContent path line
  | dictionary path => exact absurd rfl (ha path)

section Values

variable {allowed : List String → String → Prop} {atoms : Atom → Prop}
variable {deeper deeper' : Option Visit}

/-- Whether atoms of some kind come out alike, as long as the documents that they open are allowed
to be opened. -/
def AtomsAgree (p : Pairing) (ctx : Context) (allowed : List String → String → Prop)
    (atoms : Atom → Prop) (deeper deeper' : Option Visit) : Prop :=
  ∀ (line : Nat) (a : Atom), atoms a → ∀ s s' : Evaluation, p.Twins s s' →
    (s.resolveAtom ctx deeper line a).2.journal.Allows allowed →
      p.Agree (s.resolveAtom ctx deeper line a) (s'.resolveAtom ctx deeper' line a)

/-- What corresponds to what in a pair of evaluations. -/
def lockstep (p : Pairing) : Lockstep where
  States := p.Twins
  Texts := Json.SameText p.one.firstId p.other.firstId
  Diagnostics d d' := d' = p.moved d
  withError h hd := by
    subst hd
    exact h.withError _

theorem agree_iff {r r' : Except Diagnostic Json × Evaluation} :
    p.lockstep.Agree r r' ↔ p.Agree r r' := by
  obtain ⟨outcome, t⟩ := r
  obtain ⟨outcome', t'⟩ := r'
  constructor
  · rintro ⟨houtcomes, h⟩
    refine ⟨?_, h⟩
    cases houtcomes with
    | ok hv => exact .ok hv.alike
    | error hd =>
      cases hd
      exact .error _
  · rintro ⟨houtcomes, h⟩
    refine ⟨?_, h⟩
    cases houtcomes with
    | ok hv => exact .ok (Json.Alike.similar hv)
    | error d => exact .error rfl

/-- **A value comes out alike if its atoms do.** -/
theorem resolve_agree (hgrows : Continuing deeper)
    (hatoms : p.AtomsAgree ctx allowed atoms deeper deeper') (v : Value) {s s' : Evaluation}
    (hv : v.Forall atoms fun _ => True) (h : p.Twins s s')
    (hallowed : (Evaluation.resolve ctx deeper v s).2.journal.Allows allowed) :
    p.Agree (Evaluation.resolve ctx deeper v s) (Evaluation.resolve ctx deeper' v s') := by
  have hlockstep : p.lockstep.AtomsAgree ctx ctx (fun stack event => event.Allowed allowed stack)
      atoms deeper deeper' :=
    fun line a ha s s' h hp => agree_iff.mpr (hatoms line a ha s s' h hp)
  exact agree_iff.mp (Lockstep.resolve_agree hgrows hlockstep v hv h hallowed)

/-- **An assignment keeps twins if the atoms of its value do.** -/
theorem Twins.visitAssignment (hgrows : Continuing deeper)
    (hatoms : p.AtomsAgree ctx allowed atoms deeper deeper') (h : p.Twins s s') (key : String)
    {v : Value} (hv : v.Forall atoms fun _ => True)
    (hallowed : (s.visitAssignment ctx deeper key v).journal.Allows allowed) :
    p.Twins (s.visitAssignment ctx deeper key v) (s'.visitAssignment ctx deeper' key v) := by
  have hassigning : p.Twins { s with assigning := some key } { s' with assigning := some key } :=
    { h with assigning := rfl }
  rw [visitAssignment_journal] at hallowed
  have hvalue := resolve_agree hgrows hatoms v hv hassigning hallowed
  unfold Evaluation.visitAssignment
  generalize Evaluation.resolve ctx deeper v { s with assigning := some key } = r,
    Evaluation.resolve ctx deeper' v { s' with assigning := some key } = r' at hvalue ⊢
  obtain ⟨outcome, t⟩ := r
  obtain ⟨outcome', t'⟩ := r'
  obtain ⟨houtcomes, ht⟩ := hvalue
  have hdone : p.Twins { t with assigning := none } { t' with assigning := none } :=
    { ht with assigning := rfl }
  cases houtcomes with
  | error d => exact hdone.withError d
  | ok hjson =>
    obtain ⟨hresources, hblocked⟩ := ht.resources.assign key hjson
    dsimp only
    generalize t.resource.assign key _ = assigned, t'.resource.assign key _ = assigned'
      at hresources hblocked ⊢
    obtain ⟨r, blocked⟩ := assigned
    obtain ⟨r', blocked'⟩ := assigned'
    cases hblocked
    have hset : p.Twins { t with assigning := none, resource := r }
        { t' with assigning := none, resource := r' } := { hdone with resources := hresources }
    cases blocked with
    | none => exact hset
    | some blocked =>
      have herror := hset.withError (t.here v.line blocked.message)
      rw [← ht.here] at herror
      exact herror

end Values

end Pairing

end Evaluation

end Courseware
