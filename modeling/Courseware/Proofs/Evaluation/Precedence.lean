/-
Which value a variable ends up with.

Parents, own assignments and included documents come in any order, and each of
them writes to the same dictionary. Still the outcome follows a rule that only
looks at the last change of each kind: a key that the document does not assign
has the value of the last parent that has the key, and a key that is assigned
under its plain name has the value of the last such assignment, whatever was
inherited around it.

The rule is proved for any list of changes, by induction on its end, since what
counts is the last one. That two facts hold along the way is what it rests on:
the keys of a parent are distinct, so that merging it gives each key the value
the parent has; and no key is dotted, so that a plain assignment is never
blocked.
-/
import Courseware.Proofs.Evaluation.Overlay
import Courseware.Proofs.Variables.Keys
import Mathlib.Data.List.Induction

namespace Courseware

/-- The value that a parent has for a key. -/
def Change.inherited? (k : String) : Change → Option Json
  | .assigned _ _ => none
  | .inherited parent => Dict.get? parent k

/-- The value that is assigned to a name itself. -/
def Change.assigned? (k : String) : Change → Option Json
  | .assigned name value => if name = k then some value else none
  | .inherited _ => none

/-- The value of a key in the last parent that has it. -/
def lastInherited (k : String) (cs : List Change) : Option Json :=
  cs.reverse.findSome? (Change.inherited? k)

/-- The value that was last assigned to a name itself. -/
def lastAssigned (k : String) (cs : List Change) : Option Json :=
  cs.reverse.findSome? (Change.assigned? k)

/-- Whether every assignment that touches a key is to the key itself. -/
def OnlyPlain (k : String) (cs : List Change) : Prop :=
  ∀ name value, .assigned name value ∈ cs → (Variables.segments name).head? = some k → name = k

/-- Whether a change is no assignment below a key. -/
def Change.leavesPlain (k : String) : Change → Bool
  | .assigned name _ => (Variables.segments name).head? ≠ some k || name = k
  | .inherited _ => true

theorem onlyPlain_iff {k : String} {cs : List Change} :
    OnlyPlain k cs ↔ cs.all (Change.leavesPlain k) = true := by
  rw [List.all_eq_true]
  constructor
  · intro h c hc
    cases c with
    | inherited parent => rfl
    | assigned name value =>
      simpa [Change.leavesPlain, Classical.or_iff_not_imp_left] using h name value hc
  · intro h name value hc hk
    simpa [Change.leavesPlain, hk] using h _ hc

instance (k : String) (cs : List Change) : Decidable (OnlyPlain k cs) :=
  decidable_of_iff _ onlyPlain_iff.symm

@[simp] theorem lastInherited_append (k : String) (cs : List Change) (c : Change) :
    lastInherited k (cs ++ [c]) = (c.inherited? k).or (lastInherited k cs) := by
  simp only [lastInherited, List.reverse_append, List.reverse_singleton, List.singleton_append,
    List.findSome?_cons]
  cases c.inherited? k <;> rfl

@[simp] theorem lastAssigned_append (k : String) (cs : List Change) (c : Change) :
    lastAssigned k (cs ++ [c]) = (c.assigned? k).or (lastAssigned k cs) := by
  simp only [lastAssigned, List.reverse_append, List.reverse_singleton, List.singleton_append,
    List.findSome?_cons]
  cases c.assigned? k <;> rfl

namespace Resource

/-! ## One change -/

/-- **A parent gives each key that the document does not assign the value it has**, if it has
one. -/
theorem get?_inherit {r : Resource} {k : String} (hk : Dict.hasKey r.own k = false)
    {parent : Variables} (hparent : (Dict.keys parent).Nodup) :
    Dict.get? (r.inherit parent).vars k = (Dict.get? parent k).or (Dict.get? r.vars k) := by
  unfold inherit
  dsimp only
  generalize r.vars = vars
  induction parent generalizing vars with
  | nil => rfl
  | cons entry parent ih =>
    obtain ⟨key, value⟩ := entry
    obtain ⟨hkey, hrest⟩ := List.nodup_cons.mp hparent
    rw [List.foldl_cons, ih hrest, Dict.get?]
    by_cases h : key = k
    · subst h
      rw [Dict.get?_eq_none_of_not_mem hkey, if_pos rfl, hk]
      exact Dict.get?_insert_self vars key value
    · rw [if_neg h]
      split
      · rfl
      · rw [Dict.get?_insert_other vars value (Ne.symm h)]

/-- An assignment to a key itself is never blocked. -/
theorem assign_undotted (r : Resource) {k : String} (h : '.' ∉ k.toList) (value : Json) :
    r.assign k value = ({ r with
      vars := Dict.insert r.vars k value, own := Dict.insert r.own k value }, none) := by
  unfold assign
  rw [Variables.assign_undotted _ h, Variables.assign_undotted _ h]

/-- An assignment leaves every key but the first of its name. -/
theorem get?_assign_other {r : Resource} {name k : String}
    (hk : (Variables.segments name).head? ≠ some k) (value : Json) :
    Dict.get? (r.assign name value).1.vars k = Dict.get? r.vars k ∧
      Dict.get? (r.assign name value).1.own k = Dict.get? r.own k := by
  unfold assign
  cases hvars : r.vars.assign name value with
  | error => exact ⟨rfl, rfl⟩
  | ok vars =>
    have hvars' := Variables.get?_assign_other hvars hk
    cases hown : r.own.assign name value with
    | error => exact ⟨hvars', rfl⟩
    | ok own => exact ⟨hvars', Variables.get?_assign_other hown hk⟩

/-- An assignment that gives the document no key of its own leaves the variables. -/
theorem assign_of_not_own {r : Resource} (h : r.Overlaid) {name k : String}
    (hk : (Variables.segments name).head? = some k) {value : Json}
    (hnone : Dict.get? (r.assign name value).1.own k = none) : (r.assign name value).1 = r := by
  rcases h.assign name value with ⟨vars, own, -, hown, hassign⟩ | ⟨blocked, -, hassign⟩
  · obtain ⟨key, v, hkey, rfl⟩ := Variables.assign_eq_ok hown
    rw [hk, Option.some.injEq] at hkey
    subst hkey
    rw [hassign] at hnone
    dsimp only at hnone
    rw [Dict.get?_insert_self] at hnone
    cases hnone
  · rw [hassign]

/-! ## What every change preserves -/

/-- Whether the keys of all variables are distinct, and none that the document assigns is dotted. -/
structure KeysFit (r : Resource) : Prop where
  distinct : (Dict.keys r.vars).Nodup
  undotted : ∀ k, Dict.hasKey r.own k = true → '.' ∉ k.toList

theorem keysFit_empty (file : Descriptor) : (empty file).KeysFit :=
  ⟨List.nodup_nil, fun _ h => by cases h⟩

theorem KeysFit.of_scopes {r r' : Resource} (h : r.KeysFit) (heq : r'.scopes = r.scopes) :
    r'.KeysFit := by
  obtain ⟨hvars, hown⟩ := scopes_eq_iff.mp heq
  exact ⟨hvars ▸ h.distinct, hown ▸ h.undotted⟩

theorem KeysFit.inherit {r : Resource} (h : r.KeysFit) (parent : Variables) :
    (r.inherit parent).KeysFit := by
  refine ⟨?_, h.undotted⟩
  have hdistinct := h.distinct
  unfold Resource.inherit
  dsimp only
  generalize r.vars = vars at hdistinct
  induction parent generalizing vars with
  | nil => exact hdistinct
  | cons entry parent ih =>
    obtain ⟨key, value⟩ := entry
    rw [List.foldl_cons]
    refine ih _ ?_
    split
    · exact hdistinct
    · exact Dict.keys_nodup_insert hdistinct key value

theorem KeysFit.assign {r : Resource} (h : r.KeysFit) (name : String) (value : Json) :
    (r.assign name value).1.KeysFit := by
  unfold Resource.assign
  cases hvars : r.vars.assign name value with
  | error => exact h
  | ok vars =>
    obtain ⟨key, v, -, rfl⟩ := Variables.assign_eq_ok hvars
    have hdistinct := Dict.keys_nodup_insert h.distinct key v
    cases hown : r.own.assign name value with
    | error => exact ⟨hdistinct, h.undotted⟩
    | ok own =>
      obtain ⟨key', w, hkey', rfl⟩ := Variables.assign_eq_ok hown
      refine ⟨hdistinct, fun k hk => ?_⟩
      rw [Dict.hasKey_insert, Bool.or_eq_true, decide_eq_true_eq] at hk
      rcases hk with rfl | hk
      · exact Variables.not_mem_of_mem_segments (List.mem_of_mem_head? hkey')
      · exact h.undotted k hk

theorem KeysFit.foldl_change (cs : List Change) :
    ∀ {r : Resource}, r.KeysFit → (cs.foldl change r).KeysFit := by
  induction cs with
  | nil => exact fun h => h
  | cons c cs ih =>
    intro r h
    cases c with
    | assigned name value => exact ih (h.assign name value)
    | inherited parent => exact ih (h.inherit parent)

/-! ## The last change counts -/

/-- Whether the parents of some changes have distinct keys. -/
def ParentsFit (cs : List Change) : Prop :=
  ∀ parent, .inherited parent ∈ cs → (Dict.keys parent).Nodup

variable {cs : List Change} {file : Descriptor} {k : String}

/-- **A key that the document does not assign has the value of the last parent that has it.** -/
theorem get?_vars_of_not_own (hcs : ParentsFit cs)
    (hown : Dict.get? (cs.foldl change (empty file)).own k = none) :
    Dict.get? (cs.foldl change (empty file)).vars k = lastInherited k cs := by
  induction cs using List.reverseRecOn with
  | nil => rfl
  | append_singleton cs c ih =>
    have hover := (overlaid_empty file).foldl_change cs
    have ih := ih fun parent hmem => hcs parent (List.mem_append_left _ hmem)
    rw [List.foldl_append, List.foldl_cons, List.foldl_nil] at hown ⊢
    rw [lastInherited_append]
    generalize cs.foldl change (empty file) = r at hover ih hown
    cases c with
    | inherited parent =>
      rw [change_inherited] at hown ⊢
      have hkey : Dict.hasKey r.own k = false := by
        simp [Dict.hasKey, show Dict.get? r.own k = none from hown]
      rw [get?_inherit hkey (hcs parent (by simp)), ih hown]
      rfl
    | assigned name value =>
      rw [change_assigned] at hown ⊢
      by_cases hk : (Variables.segments name).head? = some k
      · have hsame := assign_of_not_own hover hk hown
        rw [hsame] at hown ⊢
        exact ih hown
      · obtain ⟨hvars', hown'⟩ := get?_assign_other (r := r) hk value
        rw [hown'] at hown
        rw [hvars']
        exact ih hown

/-- **A key that is only assigned under its plain name has the value that was assigned last.** -/
theorem get?_own_of_onlyPlain (hcs : OnlyPlain k cs)
    (hown : Dict.hasKey (cs.foldl change (empty file)).own k = true) :
    Dict.get? (cs.foldl change (empty file)).vars k = lastAssigned k cs ∧
      Dict.get? (cs.foldl change (empty file)).own k = lastAssigned k cs := by
  -- the key is not dotted, so assigning to it is never blocked
  have hplain := ((keysFit_empty file).foldl_change cs).undotted k hown
  induction cs using List.reverseRecOn with
  | nil => cases hown
  | append_singleton cs c ih =>
    have ih := ih fun name value hmem => hcs name value (List.mem_append_left _ hmem)
    rw [List.foldl_append, List.foldl_cons, List.foldl_nil] at hown ⊢
    rw [lastAssigned_append]
    generalize cs.foldl change (empty file) = r at ih hown
    cases c with
    | inherited parent =>
      rw [change_inherited] at hown ⊢
      have hown : Dict.hasKey r.own k = true := hown
      rw [get?_inherit_of_own hown]
      exact ih hown
    | assigned name value =>
      rw [change_assigned] at hown ⊢
      by_cases hname : name = k
      · subst hname
        rw [assign_undotted r hplain]
        simp [Change.assigned?, Dict.get?_insert_self]
      · have hk : (Variables.segments name).head? ≠ some k :=
          fun heq => hname (hcs name value (by simp) heq)
        obtain ⟨hvars', hown'⟩ := get?_assign_other (r := r) hk value
        rw [Dict.hasKey, hown'] at hown
        rw [hvars', hown']
        simpa [Change.assigned?, hname] using ih hown

/-- **What undotted assignments and parents come to**: a key is the document's own with the value
that was last assigned to it, and only if there is none it has that of the last parent. -/
theorem get?_of_undotted (hcs : ∀ name value, .assigned name value ∈ cs → '.' ∉ name.toList)
    (hparents : ParentsFit cs) (k : String) :
    Dict.get? (cs.foldl change (empty file)).own k = lastAssigned k cs ∧
      Dict.get? (cs.foldl change (empty file)).vars k =
        (lastAssigned k cs).or (lastInherited k cs) := by
  have hown : Dict.get? (cs.foldl change (empty file)).own k = lastAssigned k cs := by
    clear hparents
    induction cs using List.reverseRecOn with
    | nil => rfl
    | append_singleton cs c ih =>
      have ih := ih fun name value hmem => hcs name value (List.mem_append_left _ hmem)
      rw [List.foldl_append, List.foldl_cons, List.foldl_nil, lastAssigned_append]
      cases c with
      | inherited parent => exact ih
      | assigned name value =>
        rw [change_assigned, assign_undotted _ (hcs name value (by simp)), Change.assigned?]
        split
        · next hname => exact hname ▸ Dict.get?_insert_self _ name value
        · next hname => exact (Dict.get?_insert_other _ value (Ne.symm hname)).trans ih
  refine ⟨hown, ?_⟩
  cases hlast : lastAssigned k cs with
  | none => exact get?_vars_of_not_own hparents (hown.trans hlast)
  | some value =>
    have honly : OnlyPlain k cs := by
      intro name value hmem hhead
      rw [Variables.segments_undotted (hcs name value hmem)] at hhead
      exact Option.some.inj hhead
    have hkey : Dict.hasKey (cs.foldl change (empty file)).own k = true := by
      simp [Dict.hasKey, hown, hlast]
    exact (get?_own_of_onlyPlain honly hkey).1.trans hlast

end Resource

/-! ## Whole runs -/

namespace Evaluation

variable {ctx : Context}

theorem Reached.keysFit {levels : Nat} {past : List Change} {s : Evaluation}
    (h : Reached ctx levels past s) : s.resource.KeysFit :=
  ((Resource.keysFit_empty s.resource.file).foldl_change past).of_scopes (h.scopes _)

/-- A document that was compiled on its own was evaluated from its start. -/
theorem compileNested_reached {levels : Nat} {s t : Evaluation} {target text : String}
    {nested : Resource}
    (h : s.compileNested ctx (below ctx levels) target = (.ok (nested, text), t)) :
    ∃ levels past u, Reached ctx levels past u ∧ nested = u.resource := by
  have hcases := s.compileNested_cases ctx (below ctx levels) target
  rw [h] at hcases
  cases hcases with
  | @compiled _ file _ j document hdeeper =>
    cases levels with
    | zero => cases hdeeper
    | succ levels =>
      cases hdeeper
      exact ⟨levels, _, _, reached_run levels file s.stack j document, rfl⟩

theorem mem_listChanges {visit : Visit} {account : Account} {c : Change} (nodes : List Node) :
    ∀ {s : Evaluation}, c ∈ listChanges visit account s nodes →
      ∃ t node, c ∈ account t node := by
  induction nodes with
  | nil => exact fun h => by cases h
  | cons node nodes ih =>
    intro s h
    rcases List.mem_append.mp h with h | h
    · exact ⟨s, node, h⟩
    · exact ih h

theorem parentsFit_listChanges {visit : Visit} {account : Account}
    (h : ∀ s node, Resource.ParentsFit (account s node)) (nodes : List Node) (s : Evaluation) :
    Resource.ParentsFit (listChanges visit account s nodes) := by
  intro parent hmem
  obtain ⟨t, node, hmem⟩ := mem_listChanges nodes hmem
  exact h t node parent hmem

/-- A parent that a statement inherits from is one of a statement in a document that it includes,
or compiled for the statement itself. -/
theorem inherited_of_changesWith {deeper : Option Visit} {account : Account} {s : Evaluation}
    {node : Node} {parent : Variables}
    (h : .inherited parent ∈ changesWith ctx deeper account s node) :
    (∃ t n, .inherited parent ∈ account t n) ∨
      ∃ target nested text t, s.compileNested ctx deeper target = (.ok (nested, text), t) ∧
        parent = nested.vars := by
  unfold changesWith at h
  split at h
  · cases h
  · unfold assignmentChanges at h
    split at h
    · cases h
    · split at h
      · cases h
      · simp at h
  · split at h
    · cases h
    · exact .inl (mem_listChanges _ h)
  · split at h
    · cases h
    · next hnested =>
      rw [List.mem_singleton, Change.inherited.injEq] at h
      exact .inr ⟨_, _, _, _, hnested, h⟩

theorem parentsFit_changesWith (levels : Nat) {account : Account}
    (h : ∀ s node, Resource.ParentsFit (account s node)) (s : Evaluation) (node : Node) :
    Resource.ParentsFit (changesWith ctx (below ctx levels) account s node) := by
  intro parent hmem
  rcases inherited_of_changesWith hmem with ⟨t, n, hinner⟩ | ⟨_, nested, _, _, hnested, rfl⟩
  · exact h t n parent hinner
  · obtain ⟨_, _, u, hu, rfl⟩ := compileNested_reached hnested
    exact hu.keysFit.distinct

/-- The keys of every parent that a statement inherits from are distinct. -/
theorem parentsFit_changes : ∀ (levels : Nat) (s : Evaluation) (node : Node),
    Resource.ParentsFit (changes ctx levels s node)
  | 0, s, node => parentsFit_changesWith 0 (fun _ _ _ h => by cases h) s node
  | levels + 1, s, node =>
    parentsFit_changesWith (levels + 1) (parentsFit_changes levels) s node

end Evaluation

namespace Context

/-- The changes of a text's statements, compiled as if it stood at a file. -/
def history (ctx : Context) (file : Descriptor) (text : String) (journal : Journal) : List Change :=
  match Document.ofScannedText ctx.options text with
  | .error _ => []
  | .ok document =>
    Evaluation.history ctx (ctx.options.maxDepth - 1) document (.start file [] journal)

/-- A compilation that gave a resource, of a text or of the document at a path, with the changes of
its statements. -/
inductive Finished (ctx : Context) : List Change → Resource → Prop
  | text {file : Descriptor} {text : String} {journal journal' : Journal} {r : Resource}
      (h : ctx.compileText file text journal = (.ok r, journal')) :
      Finished ctx (ctx.history file text journal) r
  | path {path version : String} {journal journal' journal'' : Journal} {file : Descriptor}
      {text : String} {r : Resource}
      (hread : ctx.library.askText [] path version journal = (.ok (file, text), journal'))
      (h : ctx.compile path version journal = (.ok r, journal'')) :
      Finished ctx (ctx.history file text journal') r

variable {ctx : Context} {cs : List Change} {r : Resource}

theorem compileText_scopes {file : Descriptor} {text : String} {journal journal' : Journal}
    (h : ctx.compileText file text journal = (.ok r, journal')) :
    r.scopes = ((ctx.history file text journal).foldl Resource.change (.empty file)).scopes ∧
      Resource.ParentsFit (ctx.history file text journal) := by
  cases hdoc : Document.ofScannedText ctx.options text with
  | error e =>
    rw [compileText, hdoc] at h
    cases h
  | ok document =>
    rw [compileText, hdoc] at h
    rw [history, hdoc]
    cases h
    refine ⟨(Evaluation.reached_run _ file [] journal document).scopes file, ?_⟩
    exact Evaluation.parentsFit_listChanges (fun s node => Evaluation.parentsFit_changes _ _ _) _ _

/-- The variables of a compilation that finished are what its changes make of none. -/
theorem Finished.scopes (h : ctx.Finished cs r) :
    (∃ file, r.scopes = (cs.foldl Resource.change (.empty file)).scopes) ∧
      Resource.ParentsFit cs := by
  cases h with
  | text h =>
    obtain ⟨hscopes, hfit⟩ := compileText_scopes h
    exact ⟨⟨_, hscopes⟩, hfit⟩
  | path hread h =>
    unfold compile at h
    rw [hread] at h
    obtain ⟨hscopes, hfit⟩ := compileText_scopes h
    exact ⟨⟨_, hscopes⟩, hfit⟩

/-- **The precedence of variables.** In every resource that a compilation gives, a key that the
document does not assign has the value of the last parent that has it, and none if there is no such
parent; a key that it assigns only under its plain name has the value that was assigned last,
whatever was inherited. -/
theorem finished_precedence (h : ctx.Finished cs r) (k : String) :
    (Dict.hasKey r.own k = false → Dict.get? r.vars k = lastInherited k cs) ∧
    (Dict.hasKey r.own k = true → OnlyPlain k cs →
      Dict.get? r.vars k = Dict.get? r.own k ∧ Dict.get? r.vars k = lastAssigned k cs) := by
  obtain ⟨⟨file, hscopes⟩, hfit⟩ := h.scopes
  obtain ⟨hvars, hown⟩ := Resource.scopes_eq_iff.mp hscopes
  rw [hvars, hown]
  constructor
  · intro hk
    have hnone : Dict.get? (cs.foldl Resource.change (.empty file)).own k = none := by
      simpa [Dict.hasKey] using hk
    exact Resource.get?_vars_of_not_own hfit hnone
  · intro hk hplain
    obtain ⟨hvars', hown'⟩ := Resource.get?_own_of_onlyPlain hplain hk
    exact ⟨hvars'.trans hown'.symm, hvars'⟩

/-- A parent that comes last gives a document the key that it does not assign, and leaves the one
that it does. -/
theorem finished_precedence_parent_last : ∃ (ctx : Context) (cs : List Change) (r : Resource),
    ctx.Finished cs r ∧ (lastInherited "a" cs).isSome = true ∧
    Dict.get? r.vars "a" = lastInherited "a" cs ∧ (lastInherited "b" cs).isSome = true ∧
    Dict.get? r.vars "b" = Dict.get? r.own "b" ∧ Dict.get? r.vars "b" = lastAssigned "b" cs := by
  let ctx : Context := ⟨⟨fun path version => .ok ⟨"r", version, path⟩,
    fun _ => .ok "a = true\nb = true".toUTF8⟩, {}⟩
  let cs := ctx.history ⟨"r", "v", "/p"⟩ "b = false\n@extends /q" (.empty 0)
  have hcs : (lastInherited "a" cs).isSome = true ∧ (lastInherited "b" cs).isSome = true ∧
      OnlyPlain "b" cs := by decide +kernel
  have hkeys : (match ctx.compileText ⟨"r", "v", "/p"⟩ "b = false\n@extends /q" (.empty 0) with
      | (.ok r, _) => !Dict.hasKey r.own "a" && Dict.hasKey r.own "b"
      | (.error _, _) => false) = true := by decide +kernel
  split at hkeys
  · next r journal hr =>
    rw [Bool.and_eq_true, Bool.not_eq_true'] at hkeys
    have h : ctx.Finished cs r := .text hr
    obtain ⟨hvars, hlast⟩ := (finished_precedence h "b").2 hkeys.2 hcs.2.2
    exact ⟨ctx, cs, r, h, hcs.1, (finished_precedence h "a").1 hkeys.1, hcs.2.1, hvars, hlast⟩
  · cases hkeys

end Context

end Courseware
