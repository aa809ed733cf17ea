/-
Where an evaluation stands, and which documents it opens from there.

An evaluation stands in a file, inside the files that are open, and compiles
for one resource (`Stays` compares the three). A statement leaves all of this
as it was, whatever it does in between (`visit_stays`): an included document is
opened and, being the last one that is open behind its statements too
(`dropLast_stack`), closed again; a nested one is evaluated in a state of its own.

A directive opens the file at its target only if none of the open files has
this path, and the library locates it (`Opens`). That holds for the three
directives alike. The first one goes on in place (`openInclusion_opens`), the
other two compile what they open (`Nests`).
-/
import Courseware.Proofs.Evaluation.History

namespace Courseware

namespace Evaluation

variable {ctx : Context}

/-- Whether a state stands where an earlier one did. -/
structure Stays (s t : Evaluation) : Prop where
  file : t.resource.file = s.resource.file
  current : t.current = s.current
  stack : t.stack = s.stack

namespace Stays

variable {s t u : Evaluation}

theorem refl (s : Evaluation) : Stays s s := ⟨rfl, rfl, rfl⟩

theorem symm (h : Stays s t) : Stays t s := ⟨h.file.symm, h.current.symm, h.stack.symm⟩

theorem trans (h : Stays s t) (h' : Stays t u) : Stays s u :=
  ⟨h'.file.trans h.file, h'.current.trans h.current, h'.stack.trans h.stack⟩

theorem withError (h : Stays s t) (d : Diagnostic) : Stays s (t.withError d) := { h with }

theorem accumulates : Accumulates Stays := ⟨refl, trans, withError⟩

end Stays

theorem Frame.stays {s t : Evaluation} (h : Frame s t) : Stays s t := ⟨h.file, h.current, h.stack⟩

theorem OnlyJournal.stays {s t : Evaluation} (h : OnlyJournal s t) : Stays s t := h.frame.stays

theorem withNotes_stays (s : Evaluation) (path : String) (notes : List Note) :
    Stays s (s.withNotes path notes) := by
  rw [withNotes_eq]
  exact ⟨rfl, rfl, rfl⟩

theorem withInclusion_stays (s : Evaluation) (file : Descriptor) (text : String) (line : Nat) :
    Stays s (s.withInclusion file text line) := by
  obtain ⟨included, heq⟩ := s.withInclusion_eq file text line
  rw [heq]
  exact ⟨rfl, rfl, rfl⟩

/-! ## What a directive opens -/

/-- Whether a state may open a path, and which file lies there. -/
structure Opens (ctx : Context) (s : Evaluation) (target : String) (file : Descriptor) : Prop where
  closed : target ∉ s.stack
  located : ctx.library.locate target s.resource.file.version = .ok file

/-- A document that is read is located first. -/
theorem askText_ok {library : Library} {stack : List String} {path version text : String}
    {file : Descriptor} {j j' : Journal}
    (h : library.askText stack path version j = (.ok (file, text), j')) :
    library.locate path version = .ok file := by
  have hfound : (library.askText stack path version j).1 = .ok (file, text) := by rw [h]
  simp only [Library.askText, Library.askLocate] at hfound
  cases hlocate : library.locate path version with
  | error e =>
    rw [hlocate] at hfound
    cases hfound
  | ok found =>
    simp only [hlocate, Library.askContent] at hfound
    cases hcontent : library.content found with
    | error e =>
      rw [hcontent] at hfound
      cases hfound
    | ok bytes =>
      simp only [hcontent] at hfound
      cases hdecode : Library.decode found bytes with
      | error e =>
        rw [hdecode] at hfound
        cases hfound
      | ok decoded =>
        rw [hdecode] at hfound
        cases hfound
        rfl

theorem readText_ok {s t : Evaluation} {target text : String} {file : Descriptor}
    (h : s.readText ctx target = (.ok (file, text), t)) :
    ctx.library.locate target s.resource.file.version = .ok file := by
  have hfound : (s.readText ctx target).1 = .ok (file, text) := by rw [h]
  exact askText_ok (Prod.ext hfound rfl)

/-- A document that is included was opened, and its statements come in place. -/
theorem openInclusion_opens {α : Type} {deeper : Option α} {s : Evaluation} {raw : String}
    {line : Nat} {i : Inclusion α} (h : s.openInclusion ctx deeper raw line = .ok i) :
    deeper = some i.deeper ∧ Opens ctx s (Path.resolve s.current raw) i.file ∧
      Stays s i.before := by
  have hcases := s.openInclusion_cases ctx deeper raw line
  rw [h] at hcases
  cases hcases with
  | @included _ _ _ j _ hdeeper hclosed hread =>
    have hlocated := readText_ok hread
    have hasked : Stays s { s with journal := j } := ⟨rfl, rfl, rfl⟩
    exact ⟨hdeeper, ⟨hclosed, hlocated⟩, hasked.trans (withInclusion_stays _ _ _ _)⟩

/-- Inside an included document the state stands in its file, which is the last one that is open. -/
theorem inside_place {α : Type} (i : Inclusion α) :
    i.inside.resource.file = i.before.resource.file ∧ i.inside.current = i.file.path ∧
      i.inside.stack = i.before.stack ++ [i.file.path] :=
  ⟨(withNotes_stays _ _ _).file, rfl, rfl⟩

/-- Behind statements that stay inside an included document its file is still the last one that is
open, and the others are those of before. -/
theorem dropLast_stack {α : Type} {i : Inclusion α} {t : Evaluation} (h : Stays i.inside t) :
    t.stack.dropLast = i.before.stack := by
  rw [h.stack, (inside_place i).2.2, List.dropLast_concat]

theorem openInclusion_error_stays {α : Type} {deeper : Option α} {s t : Evaluation} {raw : String}
    {line : Nat} (h : s.openInclusion ctx deeper raw line = .error t) : Stays s t := by
  have hcases := s.openInclusion_cases ctx deeper raw line
  rw [h] at hcases
  cases hcases with
  | refused | unread => exact ⟨rfl, rfl, rfl⟩
  | @unparsed _ _ j =>
    have hasked : Stays s { s with journal := j } := ⟨rfl, rfl, rfl⟩
    exact (hasked.trans (withInclusion_stays _ _ _ _)).withError _

/-- What is known of a document that is about to be compiled inside another one: its file, its text
and what it says, and the journal before its statements. -/
structure Nested where
  file : Descriptor
  text : String
  document : Document
  journal : Journal

/-- Whether a state gets to evaluate a nested document. -/
structure Nests (ctx : Context) (s : Evaluation) (target : String) (n : Nested) : Prop where
  closed : target ∉ s.stack
  read : (s.record (.nest target)).readText ctx target =
    (.ok (n.file, n.text), { s with journal := n.journal })
  parsed : Document.ofScannedText ctx.options n.text = .ok n.document

/-- The first state of a nested document. -/
def Nested.start (n : Nested) (stack : List String) : Evaluation :=
  Evaluation.start n.file stack n.journal

theorem Nests.opens {s : Evaluation} {target : String} {n : Nested} (h : Nests ctx s target n) :
    Opens ctx s target n.file :=
  have hlocated := readText_ok h.read
  ⟨h.closed, hlocated⟩

/-! ## Statements -/

theorem visitAssignment_stays (deeper : Option Visit) (s : Evaluation) (key : String)
    (value : Value) : Stays s (s.visitAssignment ctx deeper key value) := by
  have hframe : Frame { s with assigning := some key }
      (resolve ctx deeper value { s with assigning := some key }).2 := resolve_frame value _
  obtain ⟨vars, own, errors, heq⟩ := s.visitAssignment_eq ctx deeper key value
  rw [heq]
  exact ⟨hframe.file, hframe.current, hframe.stack⟩

/-- Statements one after another leave the place if each of them does. -/
theorem foldl_stays {visit : Visit} (h : ∀ s node, Stays s (visit s node)) (nodes : List Node)
    (s : Evaluation) : Stays s (nodes.foldl visit s) :=
  Stays.accumulates.foldl (fun node _ s => h s node) s

theorem visitWith_stays {deeper : Option Visit}
    (h : ∀ visit, deeper = some visit → ∀ s node, Stays s (visit s node)) (s : Evaluation)
    (node : Node) : Stays s (s.visitWith ctx deeper node) := by
  unfold visitWith
  cases node.statement with
  | comment => exact Stays.refl s
  | assignment key value => exact visitAssignment_stays deeper s key value
  | inclusion path =>
    simp only [visitInclusion]
    cases hopen : s.openInclusion ctx deeper path node.line with
    | error t => exact openInclusion_error_stays hopen
    | ok i =>
      obtain ⟨hdeeper, -, hbefore⟩ := openInclusion_opens hopen
      -- the statements leave the open files alone, so the one that is closed is the one they are of
      have hnodes := foldl_stays (h _ hdeeper) i.document.nodes i.inside
      exact ⟨hnodes.file.trans ((inside_place i).1.trans hbefore.file), hbefore.current,
        (dropLast_stack hnodes).trans hbefore.stack⟩
  | extension path =>
    have hstays : Stays s (s.compileNested ctx deeper (Path.resolve s.current path)).2 :=
      (compileNested_onlyJournal s _).stays
    simp only [visitExtension]
    rcases hnested : s.compileNested ctx deeper (Path.resolve s.current path) with
      ⟨e | ⟨parent, text⟩, t⟩
    · rw [hnested] at hstays
      exact hstays.withError _
    · rw [hnested] at hstays
      exact ⟨hstays.file, hstays.current, hstays.stack⟩

/-- **A statement leaves the evaluation where it stands.** -/
theorem visit_stays : ∀ (levels : Nat) (s : Evaluation) (node : Node),
    Stays s (visit ctx levels s node)
  | 0, s, node => visitWith_stays (fun _ h => by cases h) s node
  | levels + 1, s, node => by
    refine visitWith_stays (fun visit h => ?_) s node
    cases h
    exact visit_stays levels

theorem keep_stays {visit : Visit} (h : ∀ s node, Stays s (visit s node)) (s : Evaluation)
    (node : Node) : Stays s (keep visit s node) := by
  have hvisit := h s { node with origin := s.current }
  exact ⟨hvisit.file, hvisit.current, hvisit.stack⟩

end Evaluation

end Courseware
