/-
What the steps of an evaluation change.

For each step there is one lemma that says all that the step may change: questions
and attempts change the journal (`OnlyJournal`), notes and an inclusion append to
what is reported (`withNotes_eq`, `withInclusion_eq`), and an assignment sets
variables and appends errors to what its value has left behind
(`visitAssignment_eq`). A directive that opens a document ends in one of four ways,
whether it includes the document or compiles it on its own (`InclusionCases`,
`NestingCases`).
-/
import Courseware.Evaluation.Basic

namespace Courseware

/-- An assignment sets variables and nothing else. -/
theorem Resource.assign_eq (r : Resource) (name : String) (value : Json) :
    ∃ vars own, (r.assign name value).1 = { r with vars, own } := by
  unfold assign
  split
  · exact ⟨_, _, rfl⟩
  · split <;> exact ⟨_, _, rfl⟩

namespace Evaluation

variable {ctx : Context} {deeper : Option Visit} {s t u : Evaluation} {target : String}

/-! ## What only the journal sees -/

/-- Whether a state differs from an earlier one at most in its journal. -/
def OnlyJournal (s t : Evaluation) : Prop := ∃ journal, t = { s with journal }

theorem OnlyJournal.refl (s : Evaluation) : OnlyJournal s s := ⟨s.journal, rfl⟩

theorem OnlyJournal.trans (h : OnlyJournal s t) (h' : OnlyJournal t u) : OnlyJournal s u := by
  obtain ⟨j, rfl⟩ := h
  obtain ⟨j', rfl⟩ := h'
  exact ⟨j', rfl⟩

theorem locate_onlyJournal {path : String} {r : Except Error Descriptor}
    (h : s.locate ctx path = (r, t)) : OnlyJournal s t :=
  ⟨_, (congrArg Prod.snd h).symm⟩

theorem content_onlyJournal {file : Descriptor} {r : Except Error ByteArray}
    (h : s.content ctx file = (r, t)) : OnlyJournal s t :=
  ⟨_, (congrArg Prod.snd h).symm⟩

theorem readText_onlyJournal {path : String} {r : Except Error (Descriptor × String)}
    (h : s.readText ctx path = (r, t)) : OnlyJournal s t :=
  ⟨_, (congrArg Prod.snd h).symm⟩

section Enter

variable {α : Type} {deeper : Option α}

/-- The attempt to open a document comes first, and is all that is left of it. -/
theorem enter_record {r : Except Error α} (h : s.enter ctx deeper target = (r, t)) :
    t = s.record (.nest target) :=
  (congrArg Prod.snd h).symm

/-- A file that is open is refused, whatever goes deeper. -/
theorem enter_open (deeper : Option α) (h : target ∈ s.stack) : s.enter ctx deeper target =
      (.error (.nesting target (NestingFault.circular (s.stack ++ [target])).message),
        s.record (.nest target)) := by
  simp [enter, h]

theorem enter_closed (deeper : α) (h : target ∉ s.stack) :
    s.enter ctx (some deeper) target = (.ok deeper, s.record (.nest target)) := by
  simp [enter, h]

theorem enter_ok {a : α} (h : s.enter ctx deeper target = (.ok a, t)) :
    target ∉ s.stack ∧ deeper = some a ∧ t = s.record (.nest target) := by
  have hclosed : target ∉ s.stack := by
    intro hmem
    rw [enter_open deeper hmem] at h
    cases h
  cases deeper with
  | none =>
    simp only [enter, if_neg hclosed] at h
    cases h
  | some a' =>
    rw [enter_closed a' hclosed] at h
    cases h
    exact ⟨hclosed, rfl, rfl⟩

/-- A file that is refused is the one that a directive leads to. -/
theorem enter_error {e : Error} (h : s.enter ctx deeper target = (.error e, t)) :
    ∃ message, e = .nesting target message := by
  have he : (s.enter ctx deeper target).1 = .error e := by rw [h]
  simp only [enter] at he
  split at he
  · cases he
    exact ⟨_, rfl⟩
  · cases deeper with
    | none =>
      cases he
      exact ⟨_, rfl⟩
    | some a => cases he

end Enter

theorem copyUrl_onlyJournal (s : Evaluation) (raw : String) (line : Nat) :
    OnlyJournal s (s.copyUrl ctx raw line).2 := by
  unfold copyUrl
  split
  · next h => exact locate_onlyJournal h
  · next h => exact (locate_onlyJournal h).trans ⟨_, rfl⟩

theorem copyContent_onlyJournal (s : Evaluation) (raw : String) (line : Nat) :
    OnlyJournal s (s.copyContent ctx raw line).2 := by
  unfold copyContent
  dsimp only
  split
  · next h => exact locate_onlyJournal h
  · next h =>
    have h := locate_onlyJournal h
    split
    · next h' => exact h.trans (content_onlyJournal h')
    · next h' => exact h.trans (content_onlyJournal h')

/-- An atom that opens no document leaves everything but the journal. -/
theorem resolveAtom_onlyJournal (s : Evaluation) (line : Nat) {a : Atom}
    (ha : ∀ path, a ≠ .dictionary path) : OnlyJournal s (s.resolveAtom ctx deeper line a).2 := by
  cases a with
  | string | number | boolean => exact OnlyJournal.refl s
  | component selector => exact ⟨_, rfl⟩
  | reference name =>
    unfold resolveAtom
    dsimp only
    split <;> exact OnlyJournal.refl s
  | url path => exact copyUrl_onlyJournal s path line
  | content path => exact copyContent_onlyJournal s path line
  | dictionary path => exact absurd rfl (ha path)

/-! ## What is reported -/

/-- The warnings for the notes of a document, at the lines of a file. -/
def noteWarnings (path : String) (notes : List Note) : List Diagnostic :=
  notes.map fun note => ⟨note.line, path, note.message⟩

theorem withNotes_eq (s : Evaluation) (path : String) (notes : List Note) :
    s.withNotes path notes = { s with
      resource := { s.resource with
        warnings := s.resource.warnings ++ noteWarnings path notes } } := by
  induction notes generalizing s with
  | nil => simp [withNotes, noteWarnings]
  | cons note notes ih =>
    have hcons : s.withNotes path (note :: notes) =
        (s.withWarning ⟨note.line, path, note.message⟩).withNotes path notes := rfl
    rw [hcons, ih]
    simp [noteWarnings, withWarning, Resource.withWarning]

@[simp] theorem withNotes_journal (s : Evaluation) (path : String) (notes : List Note) :
    (s.withNotes path notes).journal = s.journal := by
  rw [withNotes_eq]

/-- The warning for a file that is included at a line, if it was included before. -/
def repeatedInclusion (s : Evaluation) (file : Descriptor) (line : Nat) : List Diagnostic :=
  if file.path ∈ s.included then
    [s.here line ("'" ++ file.path ++ "' is included more than once")]
  else []

theorem withInclusion_eq (s : Evaluation) (file : Descriptor) (text : String) (line : Nat) :
    ∃ included, s.withInclusion file text line = { s with
      included
      resource := { s.resource with
        warnings := s.resource.warnings ++ s.repeatedInclusion file line
        dependencies := s.resource.dependencies ++ [⟨none, line, text, file.path⟩] } } := by
  unfold withInclusion repeatedInclusion
  dsimp only
  split
  · exact ⟨s.included, rfl⟩
  · exact ⟨s.included ++ [file.path], by simp [Resource.withDependency]⟩

theorem withInclusion_journal (s : Evaluation) (file : Descriptor) (text : String) (line : Nat) :
    (s.withInclusion file text line).journal = s.journal := by
  obtain ⟨included, heq⟩ := s.withInclusion_eq file text line
  rw [heq]

/-! ## Assignments -/

/-- An assignment sets variables after its value, and may append an error. -/
theorem visitAssignment_eq (ctx : Context) (deeper : Option Visit) (s : Evaluation) (key : String)
    (v : Value) : ∃ vars own errors, s.visitAssignment ctx deeper key v =
      { (resolve ctx deeper v { s with assigning := some key }).2 with
        assigning := none
        resource := { (resolve ctx deeper v { s with assigning := some key }).2.resource with
          vars, own, errors } } := by
  unfold visitAssignment
  generalize resolve ctx deeper v { s with assigning := some key } = r
  obtain ⟨outcome, t⟩ := r
  cases outcome with
  | error d => exact ⟨_, _, _, rfl⟩
  | ok json =>
    obtain ⟨vars, own, hassign⟩ := t.resource.assign_eq key json
    dsimp only
    generalize t.resource.assign key json = assigned at hassign ⊢
    obtain ⟨r, blocked⟩ := assigned
    cases hassign
    cases blocked <;> exact ⟨_, _, _, rfl⟩

theorem visitAssignment_journal (ctx : Context) (deeper : Option Visit) (s : Evaluation)
    (key : String) (v : Value) : (s.visitAssignment ctx deeper key v).journal =
      (resolve ctx deeper v { s with assigning := some key }).2.journal := by
  obtain ⟨vars, own, errors, heq⟩ := s.visitAssignment_eq ctx deeper key v
  rw [heq]

/-! ## Documents that are opened -/

/-- **How a directive to include a document ends**: the document may not be opened, is not read or
not parsed, or it is included. -/
inductive InclusionCases {α : Type} (ctx : Context) (deeper : Option α) (s : Evaluation)
    (raw : String) (line : Nat) : Except Evaluation (Inclusion α) → Prop
  | refused (e : Error) :
      InclusionCases ctx deeper s raw line
        (.error ((s.record (.nest (Path.resolve s.current raw))).withError (s.here line e.display)))
  | unread {e : Error} {j : Journal}
      (hread : (s.record (.nest (Path.resolve s.current raw))).readText ctx
        (Path.resolve s.current raw) = (.error e, { s with journal := j })) :
      InclusionCases ctx deeper s raw line
        (.error ({ s with journal := j }.withError
          (s.here line ("Cannot include '" ++ raw ++ "': " ++ e.display))))
  | unparsed {file : Descriptor} {text : String} {j : Journal} {e : Error}
      (hclosed : Path.resolve s.current raw ∉ s.stack)
      (hread : (s.record (.nest (Path.resolve s.current raw))).readText ctx
        (Path.resolve s.current raw) = (.ok (file, text), { s with journal := j }))
      (hparsed : Document.ofScannedText ctx.options text = .error e) :
      InclusionCases ctx deeper s raw line
        (.error (({ s with journal := j }.withInclusion file text line).withError
          (.ofNested e file.path line s.current)))
  | included {a : α} {file : Descriptor} {text : String} {j : Journal} {document : Document}
      (hdeeper : deeper = some a) (hclosed : Path.resolve s.current raw ∉ s.stack)
      (hread : (s.record (.nest (Path.resolve s.current raw))).readText ctx
        (Path.resolve s.current raw) = (.ok (file, text), { s with journal := j }))
      (hparsed : Document.ofScannedText ctx.options text = .ok document) :
      InclusionCases ctx deeper s raw line
        (.ok ⟨a, file, document, { s with journal := j }.withInclusion file text line⟩)

theorem openInclusion_cases {α : Type} (ctx : Context) (deeper : Option α) (s : Evaluation)
    (raw : String) (line : Nat) :
    InclusionCases ctx deeper s raw line (s.openInclusion ctx deeper raw line) := by
  unfold openInclusion
  dsimp only
  rcases henter : s.enter ctx deeper (Path.resolve s.current raw) with ⟨e | a, t⟩
  · obtain rfl := enter_record henter
    exact .refused e
  · obtain ⟨hclosed, hdeeper, rfl⟩ := enter_ok henter
    dsimp only
    rcases hread : (s.record (.nest (Path.resolve s.current raw))).readText ctx
      (Path.resolve s.current raw) with ⟨e | ⟨file, text⟩, u⟩
    · obtain ⟨j, rfl⟩ := readText_onlyJournal hread
      exact .unread hread
    · obtain ⟨j, rfl⟩ := readText_onlyJournal hread
      have hcurrent : ({ s.record (.nest (Path.resolve s.current raw)) with journal := j
          }.withInclusion file text line).current = s.current := by
        obtain ⟨included, heq⟩ := withInclusion_eq
          { s.record (.nest (Path.resolve s.current raw)) with journal := j } file text line
        rw [heq]
        rfl
      dsimp only
      cases hparsed : Document.ofScannedText ctx.options text with
      | error e =>
        dsimp only
        rw [hcurrent]
        exact .unparsed hclosed hread hparsed
      | ok document => exact .included hdeeper hclosed hread hparsed

/-- **How a directive to compile a document on its own ends**: the document may not be opened, is
not read or not parsed, or it is evaluated from the start of its file. -/
inductive NestingCases (ctx : Context) (deeper : Option Visit) (s : Evaluation) (target : String) :
    Except Error (Resource × String) × Evaluation → Prop
  | refused (message : String) :
      NestingCases ctx deeper s target (.error (.nesting target message), s.record (.nest target))
  | unread {e : Error} {j : Journal}
      (hread : (s.record (.nest target)).readText ctx target =
        (.error e, { s with journal := j })) :
      NestingCases ctx deeper s target (.error e, { s with journal := j })
  | unparsed {file : Descriptor} {text : String} {j : Journal} {e : Error}
      (hclosed : target ∉ s.stack)
      (hread : (s.record (.nest target)).readText ctx target =
        (.ok (file, text), { s with journal := j }))
      (hparsed : Document.ofScannedText ctx.options text = .error e) :
      NestingCases ctx deeper s target (.error e, { s with journal := j })
  | compiled {visit : Visit} {file : Descriptor} {text : String} {j : Journal}
      {document : Document} (hdeeper : deeper = some visit) (hclosed : target ∉ s.stack)
      (hread : (s.record (.nest target)).readText ctx target =
        (.ok (file, text), { s with journal := j }))
      (hparsed : Document.ofScannedText ctx.options text = .ok document) :
      NestingCases ctx deeper s target
        (.ok (((start file s.stack j).run visit document).resource, text),
          { s with journal := ((start file s.stack j).run visit document).journal })

theorem compileNested_cases (ctx : Context) (deeper : Option Visit) (s : Evaluation)
    (target : String) : NestingCases ctx deeper s target (s.compileNested ctx deeper target) := by
  unfold compileNested
  rcases henter : s.enter ctx deeper target with ⟨e | visit, t⟩
  · obtain rfl := enter_record henter
    obtain ⟨message, rfl⟩ := enter_error henter
    exact .refused message
  · obtain ⟨hclosed, hdeeper, rfl⟩ := enter_ok henter
    dsimp only
    rcases hread : (s.record (.nest target)).readText ctx target with ⟨e | ⟨file, text⟩, u⟩
    · obtain ⟨j, rfl⟩ := readText_onlyJournal hread
      exact .unread hread
    · obtain ⟨j, rfl⟩ := readText_onlyJournal hread
      dsimp only
      cases hparsed : Document.ofScannedText ctx.options text with
      | error e => exact .unparsed hclosed hread hparsed
      | ok document => exact .compiled hdeeper hclosed hread hparsed

/-- **Compiling another document on its own** leaves everything but the journal. -/
theorem compileNested_onlyJournal (s : Evaluation) (target : String) :
    OnlyJournal s (s.compileNested ctx deeper target).2 := by
  have hcases := s.compileNested_cases ctx deeper target
  generalize s.compileNested ctx deeper target = r at hcases
  cases hcases with
  | refused | unread | unparsed | compiled => exact ⟨_, rfl⟩

end Evaluation

end Courseware
