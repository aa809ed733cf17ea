/-
What becomes of a directive whose target is open.

If the file at its target is open already, the directive opens nothing and asks
nothing of the library. It records one error, at its own line of the file that
it stands in (`Refused`, `Directs.refused`).
-/
import Courseware.Proofs.Evaluation.Points

namespace Courseware.Evaluation

variable {ctx : Context} {levels : Nat} {s t : Evaluation}

/-- What the error of a directive says whose target is open: the files that are open, outermost
first, and the target again. -/
def circularMessage (stack : List String) (target : String) : String :=
  "[PL] Compile Error in '" ++ target ++ "': " ++
    ("Circular reference: " ++ " -> ".intercalate (stack ++ [target]))

/-- Whether a state is left by a directive that was refused because its target is open: behind the
errors so far there is one more, at the line of the directive in the current file. The rest of the
resource is the same, and nothing is asked or changed besides. -/
structure Refused (s t : Evaluation) (line : Nat) (target : String) : Prop where
  errors : t.resource.errors =
    s.resource.errors ++ [⟨line, s.current, circularMessage s.stack target⟩]
  resource : t.resource = { s.resource with errors := t.resource.errors }
  current : t.current = s.current
  stack : t.stack = s.stack
  included : t.included = s.included
  journal : t.journal = s.journal.record s.stack (.nest target)

theorem visitInclusion_open (deeper : Option Visit) {raw : String} (line : Nat)
    (hopen : Path.resolve s.current raw ∈ s.stack) :
    Refused s (s.visitInclusion ctx deeper raw line) line (Path.resolve s.current raw) := by
  unfold visitInclusion openInclusion
  dsimp only
  rw [enter_open deeper hopen]
  exact ⟨rfl, rfl, rfl, rfl, rfl, rfl⟩

theorem compileNested_open (deeper : Option Visit) {target : String} (hopen : target ∈ s.stack) :
    s.compileNested ctx deeper target =
      (.error (.nesting target (NestingFault.circular (s.stack ++ [target])).message),
        s.record (.nest target)) := by
  unfold compileNested
  rw [enter_open deeper hopen]

theorem visitExtension_open (deeper : Option Visit) {raw : String} (line : Nat)
    (hopen : Path.resolve s.current raw ∈ s.stack) :
    Refused s (s.visitExtension ctx deeper raw line) line (Path.resolve s.current raw) := by
  unfold visitExtension
  dsimp only
  rw [compileNested_open deeper hopen]
  exact ⟨rfl, rfl, rfl, rfl, rfl, rfl⟩

/-- A value that binds the variables of an open file has none, and its error is that of the
directive. -/
theorem resolve_open (deeper : Option Visit) {raw : String} (line : Nat)
    (hopen : Path.resolve s.current raw ∈ s.stack) :
    resolve ctx deeper (.atom line (.dictionary raw)) s =
      (.error ⟨line, s.current, circularMessage s.stack (Path.resolve s.current raw)⟩,
        s.record (.nest (Path.resolve s.current raw))) := by
  simp only [resolve, resolveAtom, bindVariables]
  rw [compileNested_open deeper hopen]
  rfl

theorem visitAssignment_open (deeper : Option Visit) (key : String) {raw : String} (line : Nat)
    (hopen : Path.resolve s.current raw ∈ s.stack) :
    Refused s (s.visitAssignment ctx deeper key (.atom line (.dictionary raw))) line
      (Path.resolve s.current raw) := by
  have hopen' : Path.resolve { s with assigning := some key }.current raw ∈
      { s with assigning := some key }.stack := hopen
  unfold visitAssignment
  rw [resolve_open deeper line hopen']
  exact ⟨rfl, rfl, rfl, rfl, rfl, rfl⟩

/-- **A directive whose target is open is refused**, wherever it stands. -/
theorem Directs.refused {task : Task} {raw : String} {line : Nat}
    (h : Directs ctx levels s task raw line t) (hopen : Path.resolve s.current raw ∈ s.stack) :
    Refused s t line (Path.resolve s.current raw) := by
  cases h with
  | @inclusion _ node _ _ hnode =>
    rw [visit_eq, visitWith, hnode]
    exact visitInclusion_open _ node.line hopen
  | @extension _ node _ _ hnode =>
    rw [visit_eq, visitWith, hnode]
    exact visitExtension_open _ node.line hopen
  | @assigned _ node _ key _ line hnode =>
    rw [visit_eq, visitWith, hnode]
    exact visitAssignment_open _ key line hopen
  | value =>
    rw [resolve_open _ line hopen]
    exact ⟨rfl, rfl, rfl, rfl, rfl, rfl⟩

end Courseware.Evaluation
