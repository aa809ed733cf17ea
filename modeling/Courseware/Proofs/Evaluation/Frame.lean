/-
What resolving a value leaves alone.

Resolving a value takes steps from state to state: those of its atoms, and the
errors of the items and entries that have no value. So a comparison of states
that holds over each step holds over the whole value (`Accumulates.resolve`),
and likewise over statements one after another (`Accumulates.foldl`).

An atom is resolved by asking the library, by compiling other documents on
their own, and by looking variables up. None of that assigns a variable or
changes where the evaluation stands: the journal goes on, diagnostics and
dependencies are appended, and the rest of the state is framed (`Frame`).
-/
import Courseware.Proofs.Document.Forall
import Courseware.Proofs.Evaluation.Effects

namespace Courseware.Evaluation

variable {ctx : Context} {deeper : Option Visit}

/-! ## Comparisons of states -/

/-- Whether a comparison of earlier states with later ones can be made step by step, and does not
mind an error. -/
structure Accumulates (R : Evaluation → Evaluation → Prop) : Prop where
  refl (s : Evaluation) : R s s
  trans {s t u : Evaluation} (h : R s t) (h' : R t u) : R s u
  withError {s t : Evaluation} (h : R s t) (d : Diagnostic) : R s (t.withError d)

namespace Accumulates

variable {R : Evaluation → Evaluation → Prop} {atoms : Atom → Prop}

mutual

/-- **What holds over each atom of a value holds over the value.** -/
theorem resolve (hR : Accumulates R)
    (hatom : ∀ line a s, atoms a → R s (s.resolveAtom ctx deeper line a).2) :
    ∀ (v : Value) (s : Evaluation), v.Forall atoms (fun _ => True) →
      R s (Evaluation.resolve ctx deeper v s).2
  | .atom line a, s, ha => hatom line a s ha
  | .array _ items, s, hitems => by
    simp only [Evaluation.resolve]
    exact hR.resolveItems hatom items s hitems
  | .object _ entries, s, hentries => by
    simp only [Evaluation.resolve]
    exact hR.resolveEntries hatom entries s hentries.2

theorem resolveItems (hR : Accumulates R)
    (hatom : ∀ line a s, atoms a → R s (s.resolveAtom ctx deeper line a).2) :
    ∀ (items : List Value) (s : Evaluation), Value.ForallItems atoms (fun _ => True) items →
      R s (Evaluation.resolveItems ctx deeper items s).2
  | [], s, _ => hR.refl s
  | item :: items, s, ⟨hv, hvs⟩ => by
    have h := hR.resolve hatom item s hv
    simp only [Evaluation.resolveItems]
    split
    · next t heq =>
      rw [heq] at h
      exact hR.trans h (hR.resolveItems hatom items t hvs)
    · next d t heq =>
      rw [heq] at h
      exact hR.trans (hR.withError h d) (hR.resolveItems hatom items _ hvs)

theorem resolveEntries (hR : Accumulates R)
    (hatom : ∀ line a s, atoms a → R s (s.resolveAtom ctx deeper line a).2) :
    ∀ (entries : List (String × Value)) (s : Evaluation),
      Value.ForallEntries atoms (fun _ => True) entries →
        R s (Evaluation.resolveEntries ctx deeper entries s).2
  | [], s, _ => hR.refl s
  | (_, v) :: entries, s, ⟨hv, hvs⟩ => by
    have h := hR.resolve hatom v s hv
    simp only [Evaluation.resolveEntries]
    split
    · next t heq =>
      rw [heq] at h
      exact hR.trans h (hR.resolveEntries hatom entries t hvs)
    · next d t heq =>
      rw [heq] at h
      exact hR.trans (hR.withError h d) (hR.resolveEntries hatom entries _ hvs)

end

/-- What holds over each statement holds over statements one after another. -/
theorem foldl (hR : Accumulates R) {visit : Visit} {nodes : List Node}
    (h : ∀ node ∈ nodes, ∀ s, R s (visit s node)) (s : Evaluation) : R s (nodes.foldl visit s) :=
  List.foldlRecOn nodes visit (hR.refl s) fun t ht node hnode => hR.trans ht (h node hnode t)

end Accumulates

/-! ## Framed states -/

/-- Whether a state differs from an earlier one at most in its journal, and in diagnostics and
dependencies that were appended. -/
structure Frame (s t : Evaluation) : Prop where
  file : t.resource.file = s.resource.file
  vars : t.resource.vars = s.resource.vars
  own : t.resource.own = s.resource.own
  nodes : t.resource.nodes = s.resource.nodes
  current : t.current = s.current
  stack : t.stack = s.stack
  included : t.included = s.included
  assigning : t.assigning = s.assigning
  errors : s.resource.errors <+: t.resource.errors
  warnings : s.resource.warnings <+: t.resource.warnings
  dependencies : s.resource.dependencies <+: t.resource.dependencies

namespace Frame

variable {s t u : Evaluation}

theorem refl (s : Evaluation) : Frame s s :=
  ⟨rfl, rfl, rfl, rfl, rfl, rfl, rfl, rfl, List.prefix_rfl, List.prefix_rfl, List.prefix_rfl⟩

theorem trans (h : Frame s t) (h' : Frame t u) : Frame s u :=
  ⟨h'.file.trans h.file, h'.vars.trans h.vars, h'.own.trans h.own, h'.nodes.trans h.nodes,
    h'.current.trans h.current, h'.stack.trans h.stack, h'.included.trans h.included,
    h'.assigning.trans h.assigning, h.errors.trans h'.errors, h.warnings.trans h'.warnings,
    h.dependencies.trans h'.dependencies⟩

theorem withError (h : Frame s t) (d : Diagnostic) : Frame s (t.withError d) :=
  { h with errors := h.errors.trans (List.prefix_append _ _) }

theorem accumulates : Accumulates Frame := ⟨refl, trans, withError⟩

theorem withJournal (h : Frame s t) (journal : Journal) : Frame s { t with journal } := { h with }

theorem absorb (h : Frame s t) (nested : Resource) :
    Frame s { t with resource := t.resource.absorb nested } :=
  { h with
    errors := h.errors.trans (List.prefix_append _ _)
    warnings := h.warnings.trans (List.prefix_append _ _)
    dependencies := h.dependencies.trans (List.prefix_append _ _) }

theorem withDependency (h : Frame s t) (d : Dependency) :
    Frame s { t with resource := t.resource.withDependency d } :=
  { h with dependencies := h.dependencies.trans (List.prefix_append _ _) }

end Frame

theorem OnlyJournal.frame {s t : Evaluation} (h : OnlyJournal s t) : Frame s t := by
  obtain ⟨j, rfl⟩ := h
  exact (Frame.refl s).withJournal j

/-! ## Values -/

theorem bindVariables_frame (s : Evaluation) (raw : String) (line : Nat) :
    Frame s (s.bindVariables ctx deeper raw line).2 := by
  have h : Frame s (s.compileNested ctx deeper (Path.resolve s.current raw)).2 :=
    (compileNested_onlyJournal s _).frame
  unfold bindVariables
  dsimp only
  split
  · next heq => rw [heq] at h; exact h
  · next heq => rw [heq] at h; exact (h.absorb _).withDependency _

theorem resolveAtom_frame (s : Evaluation) (line : Nat) (a : Atom) :
    Frame s (s.resolveAtom ctx deeper line a).2 := by
  cases a with
  | dictionary path => exact bindVariables_frame s path line
  | _ => exact (resolveAtom_onlyJournal s line (by simp)).frame

/-- **Resolving a value leaves the state framed.** -/
theorem resolve_frame (v : Value) (s : Evaluation) : Frame s (resolve ctx deeper v s).2 :=
  Frame.accumulates.resolve (fun line a s _ => resolveAtom_frame s line a) v s v.forall_trivial

end Courseware.Evaluation
