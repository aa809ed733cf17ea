/-
What a statement needs of the levels below it.

Two ways to evaluate the documents below a statement give the same if they
agree on what the statement may open (`visitWith_congr`). So it does not matter
how many levels there are, as long as there are enough for every chain of files
that can be opened inside one another.
-/
import Courseware.Proofs.Evaluation.Points

namespace Courseware.Evaluation

variable {ctx : Context} {s t : Evaluation} {v v' : Visit}

/-- Whether two ways to evaluate documents agree on those that a state may open: on their statements
from any state that stands in their file. -/
def AgreeBelow (ctx : Context) (s : Evaluation) (v v' : Visit) : Prop :=
  ∀ (raw : String) (file : Descriptor) (own : Bool) (t : Evaluation) (nodes : List Node),
    Opens ctx s (Path.resolve s.current raw) file → t.current = file.path →
      t.stack = s.stack ++ [file.path] →
        nodes.foldl (visitOrKeep own v) t = nodes.foldl (visitOrKeep own v') t

theorem AgreeBelow.stays (h : AgreeBelow ctx s v v') (hst : Stays s t) : AgreeBelow ctx t v v' := by
  intro raw file own u nodes hopens hcurrent hstack
  obtain ⟨hclosed, hlocated⟩ := hopens
  rw [hst.current, hst.stack] at hclosed
  rw [hst.current, hst.file] at hlocated
  rw [hst.stack] at hstack
  exact h raw file own u nodes ⟨hclosed, hlocated⟩ hcurrent hstack

/-! ## Values -/

/-- What is compiled inside a document depends on what goes deeper only where they must agree. -/
theorem compileNested_congr (h : AgreeBelow ctx s v v') (raw : String) :
    s.compileNested ctx (some v) (Path.resolve s.current raw) =
      s.compileNested ctx (some v') (Path.resolve s.current raw) := by
  unfold compileNested
  by_cases hclosed : Path.resolve s.current raw ∈ s.stack
  · rw [enter_open _ hclosed, enter_open _ hclosed]
  · rw [enter_closed v hclosed, enter_closed v' hclosed]
    dsimp only
    split
    · rfl
    · next file text u hread =>
      have hlocated := readText_ok hread
      obtain ⟨j, rfl⟩ := readText_onlyJournal hread
      split
      · rfl
      · next document _ =>
        have hnodes := h raw file true ((start file s.stack j).withNotes file.path document.notes)
          document.nodes ⟨hclosed, hlocated⟩ (withNotes_stays _ _ _).current
          (withNotes_stays _ _ _).stack
        have hrun : (start file s.stack j).run v document =
            (start file s.stack j).run v' document := hnodes
        exact congrArg (fun nested : Evaluation => (Except.ok (nested.resource, text),
          { s with journal := nested.journal })) hrun

theorem bindVariables_congr (h : AgreeBelow ctx s v v') (raw : String) (line : Nat) :
    s.bindVariables ctx (some v) raw line = s.bindVariables ctx (some v') raw line := by
  simp only [bindVariables, compileNested_congr h]

theorem resolveAtom_congr (h : AgreeBelow ctx s v v') (line : Nat) (a : Atom) :
    s.resolveAtom ctx (some v) line a = s.resolveAtom ctx (some v') line a := by
  cases a with
  | dictionary path => exact bindVariables_congr h path line
  | _ => rfl

section Cons

variable {ctx' : Context} {deeper deeper' : Option Visit} {item : Value}

/-- Items come out alike if the first one does, and the others do after it. -/
theorem resolveItems_cons_congr {items : List Value}
    (hitem : resolve ctx' deeper' item s = resolve ctx deeper item s)
    (hrest : resolveItems ctx' deeper' items (settled (resolve ctx deeper item s)) =
      resolveItems ctx deeper items (settled (resolve ctx deeper item s))) :
    resolveItems ctx' deeper' (item :: items) s = resolveItems ctx deeper (item :: items) s := by
  simp only [resolveItems, hitem]
  generalize resolve ctx deeper item s = r at hrest ⊢
  rcases r with ⟨d | json, t⟩ <;> simp only [settled] at hrest ⊢ <;> rw [hrest]

theorem resolveEntries_cons_congr (key : String) {entries : List (String × Value)}
    (hitem : resolve ctx' deeper' item s = resolve ctx deeper item s)
    (hrest : resolveEntries ctx' deeper' entries (settled (resolve ctx deeper item s)) =
      resolveEntries ctx deeper entries (settled (resolve ctx deeper item s))) :
    resolveEntries ctx' deeper' ((key, item) :: entries) s =
      resolveEntries ctx deeper ((key, item) :: entries) s := by
  simp only [resolveEntries, hitem]
  generalize resolve ctx deeper item s = r at hrest ⊢
  rcases r with ⟨d | json, t⟩ <;> simp only [settled] at hrest ⊢ <;> rw [hrest]

end Cons

mutual

theorem resolve_congr : ∀ (value : Value) {s : Evaluation}, AgreeBelow ctx s v v' →
    resolve ctx (some v) value s = resolve ctx (some v') value s
  | .atom line a, _, h => resolveAtom_congr h line a
  | .array _ items, _, h => by simp only [resolve, resolveItems_congr items h]
  | .object _ entries, _, h => by simp only [resolve, resolveEntries_congr entries h]

theorem resolveItems_congr : ∀ (items : List Value) {s : Evaluation}, AgreeBelow ctx s v v' →
    resolveItems ctx (some v) items s = resolveItems ctx (some v') items s
  | [], _, _ => rfl
  | item :: items, s, h =>
    resolveItems_cons_congr (resolve_congr item h)
      (resolveItems_congr items (h.stays (settled_stays item s)))

theorem resolveEntries_congr : ∀ (entries : List (String × Value)) {s : Evaluation},
    AgreeBelow ctx s v v' →
      resolveEntries ctx (some v) entries s = resolveEntries ctx (some v') entries s
  | [], _, _ => rfl
  | (key, value) :: entries, s, h =>
    resolveEntries_cons_congr key (resolve_congr value h)
      (resolveEntries_congr entries (h.stays (settled_stays value s)))

end

/-! ## Statements -/

/-- Reading a document that is to be included does not depend on what goes deeper. -/
theorem openInclusion_some {α : Type} (deeper : α) (s : Evaluation) (raw : String) (line : Nat) :
    s.openInclusion ctx (some deeper) raw line =
      (s.openInclusion ctx (some ()) raw line).map
        fun i => ⟨deeper, i.file, i.document, i.before⟩ := by
  unfold openInclusion
  dsimp only
  by_cases hclosed : Path.resolve s.current raw ∈ s.stack
  · rw [enter_open _ hclosed, enter_open _ hclosed]
    rfl
  · rw [enter_closed deeper hclosed, enter_closed () hclosed]
    dsimp only
    split
    · rfl
    · split <;> rfl

theorem visitInclusion_congr (h : AgreeBelow ctx s v v') (raw : String) (line : Nat) :
    s.visitInclusion ctx (some v) raw line = s.visitInclusion ctx (some v') raw line := by
  unfold visitInclusion
  rw [openInclusion_some v, openInclusion_some v']
  cases hopen : s.openInclusion ctx (some ()) raw line with
  | error t => rfl
  | ok i =>
    obtain ⟨-, hopens, hbefore⟩ := openInclusion_opens hopen
    obtain ⟨-, hcurrent, hstack⟩ := inside_place i
    rw [hbefore.stack] at hstack
    have hnodes : i.document.nodes.foldl v i.inside = i.document.nodes.foldl v' i.inside :=
      h raw i.file false i.inside i.document.nodes hopens hcurrent hstack
    exact congrArg (fun t : Evaluation =>
      { t with current := i.before.current, stack := t.stack.dropLast }) hnodes

theorem visitWith_congr (h : AgreeBelow ctx s v v') (node : Node) :
    s.visitWith ctx (some v) node = s.visitWith ctx (some v') node := by
  unfold visitWith
  cases node.statement with
  | comment => rfl
  | assignment key value =>
    have hassigning : AgreeBelow ctx { s with assigning := some key } v v' :=
      h.stays ⟨rfl, rfl, rfl⟩
    simp only [visitAssignment, resolve_congr value hassigning]
  | inclusion path => exact visitInclusion_congr h path node.line
  | extension path => simp only [visitExtension, compileNested_congr h]

theorem visitOrKeep_congr (own : Bool) (node : Node)
    (h : ∀ origin, v s { node with origin } = v' s { node with origin }) :
    visitOrKeep own v s node = visitOrKeep own v' s node := by
  cases own with
  | true => simp only [visitOrKeep, if_true, keep, h]
  | false => exact h node.origin

end Courseware.Evaluation
