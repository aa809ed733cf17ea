/-
The variables that a document assigns itself are part of all its variables.

A resource keeps two dictionaries, and an assignment goes to both: first to all
variables, then to those the document assigns itself. A dotted name may go into
an inherited object in the one and make a new object in the other, and a parent
changes only the one. Yet they cannot drift apart (`Resource.Overlaid`): each
key that the document assigns stays, with a value that is part of the inherited
one, so the second assignment is never blocked when the first was not.
-/
import Courseware.Proofs.Evaluation.History
import Courseware.Proofs.Variables.PartOf

namespace Courseware

namespace Resource

/-- Whether the variables that a document assigns itself are part of all its variables. -/
def Overlaid (r : Resource) : Prop := r.own.PartOf r.vars

theorem overlaid_empty (file : Descriptor) : (empty file).Overlaid := Variables.nil_partOf _

theorem Overlaid.of_scopes {r r' : Resource} (h : r.Overlaid) (heq : r'.scopes = r.scopes) :
    r'.Overlaid := by
  obtain ⟨hvars, hown⟩ := scopes_eq_iff.mp heq
  unfold Overlaid
  rw [hvars, hown]
  exact h

/-- **An assignment goes to both dictionaries or to neither.** -/
theorem Overlaid.assign {r : Resource} (h : r.Overlaid) (name : String) (value : Json) :
    (∃ vars own, r.vars.assign name value = .ok vars ∧ r.own.assign name value = .ok own ∧
      r.assign name value = ({ r with vars, own }, none)) ∨
    (∃ blocked, r.vars.assign name value = .error blocked ∧
      r.assign name value = (r, some blocked)) := by
  unfold Resource.assign
  cases hvars : r.vars.assign name value with
  | error blocked => exact .inr ⟨blocked, rfl, rfl⟩
  | ok vars =>
    obtain ⟨own, hown, -⟩ := Variables.PartOf.assign h hvars
    exact .inl ⟨vars, own, rfl, hown, by simp only [hown]⟩

/-- A parent leaves the value of each key that the document assigns itself. -/
theorem get?_inherit_of_own {r : Resource} {k : String} (hk : Dict.hasKey r.own k = true)
    (parent : Variables) : Dict.get? (r.inherit parent).vars k = Dict.get? r.vars k := by
  unfold inherit
  dsimp only
  generalize r.vars = vars
  induction parent generalizing vars with
  | nil => rfl
  | cons entry parent ih =>
    obtain ⟨key, value⟩ := entry
    rw [List.foldl_cons, ih]
    split
    · rfl
    · next hkey =>
      have hne : k ≠ key := fun heq => hkey (heq ▸ hk)
      exact Dict.get?_insert_other vars value hne

theorem Overlaid.change {r : Resource} (h : r.Overlaid) (c : Change) : (r.change c).Overlaid := by
  cases c with
  | assigned name value =>
    rw [change_assigned]
    rcases h.assign name value with ⟨vars, own, hvars, hown, hassign⟩ | ⟨blocked, -, hassign⟩
    · obtain ⟨own', hown', hpart⟩ := Variables.PartOf.assign h hvars
      rw [hown] at hown'
      cases hown'
      rw [hassign]
      exact hpart
    · rw [hassign]
      exact h
  | inherited parent =>
    have hkept : ∀ k, Dict.hasKey r.own k = true →
        Dict.get? (r.inherit parent).vars k = Dict.get? r.vars k :=
      fun k hk => get?_inherit_of_own hk parent
    exact Variables.PartOf.of_get?_eq h hkept

theorem Overlaid.foldl_change (cs : List Change) :
    ∀ {r : Resource}, r.Overlaid → (cs.foldl Resource.change r).Overlaid := by
  induction cs with
  | nil => exact fun h => h
  | cons c cs ih => exact fun h => ih (h.change c)

/-- As long as nothing is inherited the two dictionaries are equal, order included. -/
theorem foldl_change_vars_eq_own {cs : List Change} (hcs : ∀ parent, .inherited parent ∉ cs) :
    ∀ {r : Resource}, r.vars = r.own →
      (cs.foldl Resource.change r).vars = (cs.foldl Resource.change r).own := by
  induction cs with
  | nil => exact fun h => h
  | cons c cs ih =>
    intro r h
    refine ih (fun parent hmem => hcs parent (List.mem_cons_of_mem _ hmem)) ?_
    cases c with
    | inherited parent => exact absurd List.mem_cons_self (hcs parent)
    | assigned name value =>
      simp only [change, assign, h]
      cases r.own.assign name value with
      | error => exact h
      | ok own => rfl

end Resource

namespace Evaluation

variable {ctx : Context} {levels : Nat} {past : List Change} {s : Evaluation}

theorem Reached.overlaid (h : Reached ctx levels past s) : s.resource.Overlaid :=
  ((Resource.overlaid_empty s.resource.file).foldl_change past).of_scopes (h.scopes _)

/-- An assignment statement changes the variables as one assignment of the value that it resolves,
if there is one. -/
theorem visitAssignment_cases (deeper : Option Visit) (s : Evaluation) (key : String)
    (value : Value) : (s.visitAssignment ctx deeper key value).resource.scopes = s.resource.scopes ∨
      ∃ json, (s.visitAssignment ctx deeper key value).resource.scopes =
        (s.resource.assign key json).1.scopes := by
  rw [visitAssignment_scopes]
  unfold assignmentChanges
  split
  · exact .inl rfl
  · next json t _ =>
    split
    · exact .inl rfl
    · exact .inr ⟨json, rfl⟩

/-- **The two dictionaries never drift apart.** In every state that is reached, the document's own
variables are part of all variables; what can be assigned to all of them can be assigned to its own;
an assignment statement updates both or leaves both; and they are equal as long as nothing was
inherited. -/
theorem reached_overlay (h : Reached ctx levels past s) :
    s.resource.own.PartOf s.resource.vars ∧
    (∀ name value vars, s.resource.vars.assign name value = .ok vars →
      ∃ own, s.resource.own.assign name value = .ok own) ∧
    (∀ (node : Node) (key : String) (value : Value), node.statement = .assignment key value →
      (∃ json vars own, s.resource.vars.assign key json = .ok vars ∧
        s.resource.own.assign key json = .ok own ∧
        (visit ctx levels s node).resource.scopes = (vars, own)) ∨
      (visit ctx levels s node).resource.scopes = (s.resource.vars, s.resource.own)) ∧
    ((∀ parent, .inherited parent ∉ past) → s.resource.vars = s.resource.own) := by
  have hover := h.overlaid
  refine ⟨hover, ?_, ?_, ?_⟩
  · intro name value vars hvars
    obtain ⟨own, hown, -⟩ := Variables.PartOf.assign hover hvars
    exact ⟨own, hown⟩
  · intro node key value hnode
    have hvisit : visit ctx levels s node = s.visitAssignment ctx (below ctx levels) key value := by
      rw [visit_eq]
      unfold visitWith
      rw [hnode]
    rw [hvisit]
    rcases visitAssignment_cases (below ctx levels) s key value with heq | ⟨json, heq⟩
    · exact .inr heq
    · rcases hover.assign key json with ⟨vars, own, hvars, hown, hassign⟩ | ⟨blocked, -, hassign⟩
      · rw [hassign] at heq
        exact .inl ⟨json, vars, own, hvars, hown, heq⟩
      · rw [hassign] at heq
        exact .inr heq
  · intro hpast
    obtain ⟨hvars, hown⟩ := Resource.scopes_eq_iff.mp (h.scopes s.resource.file)
    rw [hvars, hown]
    exact Resource.foldl_change_vars_eq_own hpast rfl

/-- A key that is inherited and then assigned below: what is inherited below it is no variable of
the document's own, and the two dictionaries still agree. -/
theorem reached_overlay_inherited_key : ∃ (ctx : Context) (past : List Change) (s : Evaluation),
    Reached ctx 1 past s ∧
    (s.resource.vars.lookup "a.x").isSome = true ∧ (s.resource.own.lookup "a.x").isSome = false ∧
    (s.resource.own.lookup "a.b").isSome = true ∧ s.resource.own.PartOf s.resource.vars := by
  have h : Reached ⟨⟨fun path version => .ok ⟨"r", version, path⟩,
      fun _ => .ok "a.x = true".toUTF8⟩, {}⟩ 1 _ _ :=
    ((Reached.start 1 ⟨"r", "v", "/p"⟩ [] (.empty 0) []).kept ⟨.extension "/q", 1, "/p"⟩).kept
      ⟨.assignment "a.b" (.atom 2 (.boolean false)), 2, "/p"⟩
  exact ⟨_, _, _, h, by decide +kernel, by decide +kernel, by decide +kernel, (reached_overlay h).1⟩

end Evaluation

end Courseware
