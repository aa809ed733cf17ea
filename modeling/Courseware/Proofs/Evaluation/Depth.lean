/-
Raising the depth that files may be nested to.

A directive is refused for the depth only if its target is not open already and as
many files are open as may be (`enter_tooDeep_iff`). A compilation that never comes
to that (`Journal.Fits`) can be followed side by side with the one of a higher
limit: each directive opens its document in both, or is refused in both because it
leads back to a file that is open. So the higher limit changes nothing
(`Context.outcome_deepened`).
-/
import Courseware.Proofs.Evaluation.Nesting
import Courseware.Proofs.Evaluation.Simulation

namespace Courseware

/-- Whether every directive of a compilation led to an open file, or came while fewer files were
open than may be: none was refused for the depth. -/
def Journal.Fits (maxDepth : Nat) (j : Journal) : Prop :=
  j.Allows fun stack target => target ∈ stack ∨ stack.length < maxDepth

instance (maxDepth : Nat) (j : Journal) : Decidable (j.Fits maxDepth) :=
  inferInstanceAs (Decidable
    (j.Allows fun stack target => target ∈ stack ∨ stack.length < maxDepth))

namespace Evaluation

variable {ctx : Context} {request : Request} {journal : Journal} {levels : Nat} {s : Evaluation}

theorem Point.stack_ne_nil {task : Task} (h : Point ctx request journal levels s task) :
    s.stack ≠ [] := by
  refine h.open_induction (P := fun _ _ stack => stack ≠ []) ?_ ?_
  · intro file _ _ _
    exact List.cons_ne_nil _ _
  · intro _ s _ _ _ _ _ _ _ _ _
    exact List.append_ne_nil_of_right_ne_nil s.stack (List.cons_ne_nil _ _)

/-- A refusal tells which of the two it is for. -/
theorem NestingFault.circular_ne_tooDeep (chain : List String) (maxDepth : Nat) :
    (circular chain).message ≠ (tooDeep maxDepth).message := by
  have hcircular : (circular chain).message =
    "Circular reference: " ++ " -> ".intercalate chain := rfl
  have htooDeep : (tooDeep maxDepth).message =
    "Nesting exceeds the maximum depth of " ++ toString maxDepth := rfl
  intro heq
  have hhead := congrArg (fun message => message.toList.head?) heq
  simp [hcircular, htooDeep] at hhead

/-- **When a directive is refused for the depth**: its target is not open, and no more files may
be. -/
theorem enter_tooDeep_iff {task : Task} (h : Point ctx request journal levels s task)
    (target : String) :
    (s.enter ctx (below ctx levels) target).1 =
        .error (.nesting target (NestingFault.tooDeep ctx.options.maxDepth).message) ↔
      ¬ (target ∈ s.stack ∨ s.stack.length < ctx.options.maxDepth) := by
  have hlevels := h.levels_add
  have hstack := List.length_pos_of_ne_nil h.stack_ne_nil
  by_cases hopen : target ∈ s.stack
  · have hmessage :=
      NestingFault.circular_ne_tooDeep (s.stack ++ [target]) ctx.options.maxDepth
    simp [enter_open _ hopen, hopen, hmessage]
  · cases levels with
    | zero =>
      have hdepth : ¬ s.stack.length < ctx.options.maxDepth := by omega
      simp [enter, hopen, below, hdepth]
    | succ l =>
      have hdepth : s.stack.length < ctx.options.maxDepth := by omega
      simp [enter, hopen, below, hdepth]

end Evaluation

/-- Whether two compilations come out alike: with resources that are the same but for identifiers,
or with the same error. -/
inductive Resource.OutcomesAlike (first first' : Nat) :
    Except Error Resource → Except Error Resource → Prop
  | ok {r r' : Resource} (h : r.Alike first first' r') : OutcomesAlike first first' (.ok r) (.ok r')
  | error (e : Error) : OutcomesAlike first first' (.error e) (.error e)

/-! ## Where no fault may stand for another -/

section NoFaults

variable {faults : Error → Error → Prop} {first first' : Nat}

theorem Diagnostic.SameBut.eq (hnone : ∀ e e', ¬ faults e e') {d d' : Diagnostic}
    (h : SameBut faults d d') : d = d' := by
  cases h with
  | same => rfl
  | shown h => exact absurd h (hnone _ _)

theorem Resource.AlikeBut.alike (hnone : ∀ e e', ¬ faults e e') {r r' : Resource}
    (h : r.AlikeBut faults first first' r') : r.Alike first first' r' := by
  have herrors := h.errors.imp fun _ _ => Diagnostic.SameBut.eq hnone
  rw [List.forall₂_eq_eq_eq] at herrors
  exact { h with errors := herrors.symm }

theorem Resource.OutcomesAlikeBut.alike (hnone : ∀ e e', ¬ faults e e')
    {a a' : Except Error Resource} (h : OutcomesAlikeBut faults first first' a a') :
    OutcomesAlike first first' a a' := by
  cases h with
  | ok h => exact .ok (h.alike hnone)
  | error e => exact .error e
  | fault h => exact absurd h (hnone _ _)

end NoFaults

/-! ## Higher limits -/

namespace Context

variable {ctx : Context} {maxDepth : Nat}

/-- The same compilation with another limit to the depth. -/
def withMaxDepth (ctx : Context) (maxDepth : Nat) : Context :=
  { ctx with options := { ctx.options with maxDepth } }

/-- A compilation whose directives all fit, and the same one with another limit. -/
def deepening (ctx : Context) (maxDepth first first' : Nat) : Comparison :=
  .atOneVersion ctx (ctx.withMaxDepth maxDepth) first first' (fun _ _ => False) fun stack event =>
    event.Allowed (fun stack target => target ∈ stack ∨ stack.length < ctx.options.maxDepth) stack

theorem deepening_lawful (h : ctx.options.maxDepth ≤ maxDepth) (first first' : Nat) :
    (ctx.deepening maxDepth first first').Lawful where
  options := rfl
  texts_refl _ := .inl rfl
  texts_id drawn := .inr ⟨drawn, rfl, rfl⟩
  faults_line? h := h.elim
  located {_ path version} _ := .refl (fun _ => ⟨rfl, rfl⟩) (ctx.library.locate path version)
  url _ := .inl rfl
  depth {stack target} hfits := by
    rcases (hfits : target ∈ stack ∨ stack.length < ctx.options.maxDepth) with hopen | hdepth
    · exact .inl hopen
    · exact .inr (.inr ⟨hdepth, hdepth.trans_le h⟩)

/-- **A higher limit to the depth changes nothing that fitted.** If no directive of a compilation
was refused for the depth, the compilation with a higher limit comes out alike, errors that end it
included, and asks the library for the same. -/
theorem outcome_deepened (request : Request) (first first' : Nat)
    (hdepth : ctx.options.maxDepth ≤ maxDepth)
    (hfits : (ctx.outcome request (.empty first)).2.Fits ctx.options.maxDepth) :
    Resource.OutcomesAlike first first' (ctx.outcome request (.empty first)).1
        ((ctx.withMaxDepth maxDepth).outcome request (.empty first')).1 ∧
      ((ctx.withMaxDepth maxDepth).outcome request (.empty first')).2.calls =
        (ctx.outcome request (.empty first)).2.calls := by
  obtain ⟨halike, hcalls⟩ :=
    Comparison.outcome_alikeBut (deepening_lawful hdepth first first') request hfits
  exact ⟨halike.alike fun _ _ => not_false, hcalls⟩

/-- A file that includes another one, which includes it again and binds the variables of a file that
is not there. -/
def includingBack : Memory :=
  ⟨"r", [⟨"/a", Memory.latest, "@include b\nx = wc-p".toUTF8⟩,
    ⟨"/b", Memory.latest, "@include a\ny = @copycontent c".toUTF8⟩]⟩

/-- Two levels are enough for it: the files that it is refused are open already. -/
theorem outcome_deepened_circular :
    let ctx : Context := ⟨includingBack.library, { maxDepth := 2 }⟩
    ∃ r r', (ctx.outcome (.path "/a" "v") (.empty 0)).1 = .ok r ∧
      ((ctx.withMaxDepth 9).outcome (.path "/a" "v") (.empty 5)).1 = .ok r' ∧ r.Alike 0 5 r' ∧
      r.errors.length = 2 ∧ (r.vars.lookup "x.cid").isSome = true ∧
      ((ctx.withMaxDepth 9).outcome (.path "/a" "v") (.empty 5)).2.calls =
        (ctx.outcome (.path "/a" "v") (.empty 0)).2.calls := by
  intro ctx
  have hdepth : ctx.options.maxDepth ≤ 9 := by decide
  have hfits : (ctx.outcome (.path "/a" "v") (.empty 0)).2.Fits ctx.options.maxDepth := by
    decide +kernel
  have hresource : (ctx.outcome (.path "/a" "v") (.empty 0)).1.toOption.any (fun r =>
      decide (r.errors.length = 2) && (r.vars.lookup "x.cid").isSome) = true := by
    decide +kernel
  obtain ⟨halike, hcalls⟩ := outcome_deepened (.path "/a" "v") 0 5 hdepth hfits
  generalize (ctx.outcome (.path "/a" "v") (.empty 0)).1 = done,
    ((ctx.withMaxDepth 9).outcome (.path "/a" "v") (.empty 5)).1 = done' at hresource halike ⊢
  cases halike with
  | error e => cases hresource
  | ok halike =>
    rw [Except.toOption, Option.any_some, Bool.and_eq_true, decide_eq_true_eq] at hresource
    exact ⟨_, _, rfl, rfl, halike, hresource.1, hresource.2, hcalls⟩

end Context

end Courseware
