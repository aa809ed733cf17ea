/-
The variables of a compilation are made by assigning and inheriting.

A parent is evaluated one level deeper than the statement that names it. So, by
induction on the levels, the variables that it hands on were made before they are
taken over, and no state is reached whose variables came about in another way
(`Evaluation.Reached.made`). Those of every resource that a compilation gives
(`Context.Finished.made`) therefore read back what is assigned to them.
-/
import Courseware.Proofs.Evaluation.Precedence
import Courseware.Proofs.Variables.ReadBack

namespace Courseware

namespace Resource

/-- Whether both dictionaries of a resource were made from none. -/
structure Made (r : Resource) : Prop where
  vars : Variables.Made r.vars
  own : Variables.Made r.own

theorem made_empty (file : Descriptor) : (empty file).Made := ⟨.empty, .empty⟩

theorem Made.of_scopes {r r' : Resource} (h : r.Made) (heq : r'.scopes = r.scopes) : r'.Made := by
  obtain ⟨hvars, hown⟩ := scopes_eq_iff.mp heq
  exact ⟨hvars ▸ h.vars, hown ▸ h.own⟩

theorem Made.assign {r : Resource} (h : r.Made) (name : String) (value : Json) :
    (r.assign name value).1.Made := by
  unfold Resource.assign
  cases hvars : r.vars.assign name value with
  | error => exact h
  | ok vars =>
    have hmade := h.vars.assign hvars
    cases hown : r.own.assign name value with
    | error => exact ⟨hmade, h.own⟩
    | ok own => exact ⟨hmade, h.own.assign hown⟩

theorem inherit_cons (r : Resource) (key : String) (value : Json) (entries : Variables) :
    r.inherit ((key, value) :: entries) =
      ({ r with vars :=
        if Dict.hasKey r.own key then r.vars else Dict.insert r.vars key value }).inherit entries :=
  rfl

theorem Made.inherit_entries {parent entries : Variables} (hparent : parent.Made)
    (hentries : entries ⊆ parent) {r : Resource} (h : r.Made) : (r.inherit entries).Made := by
  induction entries generalizing r with
  | nil => exact h
  | cons entry entries ih =>
    obtain ⟨key, value⟩ := entry
    obtain ⟨hentry, hrest⟩ := List.cons_subset.mp hentries
    rw [inherit_cons]
    refine ih hrest ⟨?_, h.own⟩
    dsimp only
    split
    · exact h.vars
    · exact h.vars.takenOver hparent hentry

/-- Whether the parents of some changes were made from none. -/
def ParentsMade (cs : List Change) : Prop :=
  ∀ parent, .inherited parent ∈ cs → Variables.Made parent

theorem Made.foldl_change {r : Resource} (h : r.Made) (cs : List Change) (hcs : ParentsMade cs) :
    (cs.foldl change r).Made := by
  induction cs generalizing r with
  | nil => exact h
  | cons c cs ih =>
    have hrest : ParentsMade cs := fun parent hmem => hcs parent (List.mem_cons_of_mem _ hmem)
    cases c with
    | assigned name value => exact ih (h.assign name value) hrest
    | inherited parent =>
      have hparent := hcs parent List.mem_cons_self
      exact ih (Made.inherit_entries hparent (List.Subset.refl _) h) hrest

end Resource

namespace Evaluation

variable {ctx : Context}

open Resource (ParentsMade)

theorem parentsMade_listChanges {visit : Visit} {account : Account}
    (h : ∀ s node, ParentsMade (account s node)) (nodes : List Node) (s : Evaluation) :
    ParentsMade (listChanges visit account s nodes) := by
  intro parent hmem
  obtain ⟨t, node, hmem⟩ := mem_listChanges nodes hmem
  exact h t node parent hmem

/-- A document that is compiled on its own makes its variables, if the parents that its statements
inherit from were made. -/
theorem compileNested_made {levels : Nat}
    (hparents : ∀ s node, ParentsMade (changes ctx levels s node)) {s t : Evaluation}
    {target text : String} {nested : Resource}
    (h : s.compileNested ctx (some (visit ctx levels)) target = (.ok (nested, text), t)) :
    nested.Made := by
  have hcases := s.compileNested_cases ctx (some (visit ctx levels)) target
  rw [h] at hcases
  cases hcases with
  | @compiled _ file _ j document hdeeper =>
    cases hdeeper
    have hhistory : ParentsMade (history ctx levels document (start file s.stack j)) :=
      parentsMade_listChanges (fun _ _ => hparents _ _) _ _
    exact ((Resource.made_empty file).foldl_change _ hhistory).of_scopes
      ((reached_run levels file s.stack j document).scopes file)

/-- **Every parent that a statement inherits from was made.** -/
theorem parentsMade_changes : ∀ (levels : Nat) (s : Evaluation) (node : Node),
    ParentsMade (changes ctx levels s node)
  | 0, s, node => by
    intro parent hmem
    rcases inherited_of_changesWith hmem with ⟨_, _, hinner⟩ | ⟨target, _, _, _, hnested, rfl⟩
    · cases hinner
    · -- without a level below it a statement compiles nothing
      have hcases := s.compileNested_cases ctx none target
      rw [hnested] at hcases
      cases hcases with
      | compiled hdeeper => cases hdeeper
  | levels + 1, s, node => by
    intro parent hmem
    have hbelow := parentsMade_changes levels
    rcases inherited_of_changesWith hmem with ⟨t, n, hinner⟩ | ⟨_, _, _, _, hnested, rfl⟩
    · exact hbelow t n parent hinner
    · exact (compileNested_made hbelow hnested).vars

/-- **The variables of every state that is reached were made from none.** -/
theorem Reached.made {levels : Nat} {past : List Change} {s : Evaluation}
    (h : Reached ctx levels past s) : s.resource.Made := by
  induction h with
  | start => exact (Resource.made_empty _).of_scopes (withNotes_scopes _ _ _)
  | @kept levels _ s _ node ih =>
    exact (ih.foldl_change _ (parentsMade_changes levels s _)).of_scopes (visit_scopes levels s _)
  | @visited levels _ s _ node ih =>
    exact (ih.foldl_change _ (parentsMade_changes levels s _)).of_scopes (visit_scopes levels s _)
  | inside _ hopen ih => exact ih.of_scopes ((inside_scopes _).trans (openInclusion_ok hopen).2)

end Evaluation

namespace Context

variable {ctx : Context} {cs : List Change} {r : Resource}

theorem made_of_compileText {file : Descriptor} {text : String} {journal journal' : Journal}
    (h : ctx.compileText file text journal = (.ok r, journal')) : r.Made := by
  cases hdoc : Document.ofScannedText ctx.options text with
  | error e =>
    rw [compileText, hdoc] at h
    cases h
  | ok document =>
    rw [compileText, hdoc] at h
    cases h
    exact (Evaluation.reached_run _ file [] journal document).made

/-- **The variables of every resource that a compilation gives were made from none**, all of them
and those that the document assigns itself. -/
theorem Finished.made (h : ctx.Finished cs r) : r.Made := by
  cases h with
  | text h => exact made_of_compileText h
  | path hread h =>
    unfold compile at h
    rw [hread] at h
    exact made_of_compileText h

end Context

end Courseware
