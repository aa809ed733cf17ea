/-
The place of a parent among plain assignments.

Two plain documents with the same parents and the same assignments, each in the same
order, may have the parents at other places (`Document.Rearranges`). They compile to
the same variables but for the identifiers of components
(`Context.compileText_rearranged`).

What a variable ends up with follows from the last assignment to it and the last
parent that has it (`Resource.get?_of_undotted`), so it is enough to compare the
assignments with one another and the parents with one another, each of which comes
out the same wherever it stands.
-/
import Courseware.Json.Text
import Courseware.Library.Memory
import Courseware.Proofs.Evaluation.Precedence
import Courseware.Proofs.Evaluation.Stages

namespace Courseware

/-- **Whether two plain documents have the same parents and the same assignments**, the parents in
the same order and the assignments in the same order. Comments and lines may be any. -/
structure Document.Rearranges (d d' : Document) : Prop where
  plain : ∀ node ∈ d.nodes, node.statement.Plain
  plain' : ∀ node ∈ d'.nodes, node.statement.Plain
  parents : d'.nodes.filterMap (·.statement.parent?) = d.nodes.filterMap (·.statement.parent?)
  assignments :
    d'.nodes.filterMap (·.statement.assigned?) = d.nodes.filterMap (·.statement.assigned?)

/-- **Whether two resources have similar variables**, in whatever order, and similar ones of their
own. -/
def Resource.SameMaps (texts : String → String → Prop) (r r' : Resource) : Prop :=
  ∀ k, Option.Rel (Json.Similar texts) (Dict.get? r.vars k) (Dict.get? r'.vars k) ∧
    Option.Rel (Json.Similar texts) (Dict.get? r.own k) (Dict.get? r'.own k)

/-! ## What comes last -/

section Last

variable {texts : String → String → Prop} {cs cs' : List Change} {k : String}

/-- What is found first in lists that correspond does. -/
theorem findSome?_rel {α β γ δ : Type} {r : α → β → Prop} {q : γ → δ → Prop} {f : α → Option γ}
    {g : β → Option δ} (hfg : ∀ a b, r a b → Option.Rel q (f a) (g b)) {l : List α} {l' : List β}
    (h : List.Forall₂ r l l') : Option.Rel q (l.findSome? f) (l'.findSome? g) := by
  induction h with
  | nil => exact .none
  | @cons a b _ _ hab _ ih =>
    have hfound := hfg a b hab
    rw [List.findSome?_cons, List.findSome?_cons]
    generalize f a = found, g b = found' at hfound ⊢
    cases hfound with
    | some hq => exact .some hq
    | none => exact ih

theorem lastInherited_similar (h : List.Forall₂ (Change.Similar texts) cs cs') :
    Option.Rel (Json.Similar texts) (lastInherited k cs) (lastInherited k cs') := by
  refine findSome?_rel (fun c c' hc => ?_) (List.forall₂_reverse_iff.mpr h)
  cases hc with
  | assigned => exact .none
  | inherited hparent => exact get?_similar hparent k

theorem lastAssigned_similar (h : List.Forall₂ (Change.Similar texts) cs cs') :
    Option.Rel (Json.Similar texts) (lastAssigned k cs) (lastAssigned k cs') := by
  refine findSome?_rel (fun c c' hc => ?_) (List.forall₂_reverse_iff.mpr h)
  cases hc with
  | assigned name hv =>
    simp only [Change.assigned?]
    split
    · exact .some hv
    · exact .none
  | inherited => exact .none

end Last

namespace Evaluation

variable {ctx : Context} {levels : Nat} {s : Evaluation}

/-! ## What the stages of a kind come to -/

/-- What is found last among the changes of stages is found among those of a kind, if the others
make none that counts. -/
theorem findSome?_saying {α β : Type} {kind : Statement → Option α} {f : Change → Option β}
    {l : List Stage}
    (hothers : ∀ a ∈ l, kind a.statement = none → ∀ c ∈ a.changes, f c = none) :
    (l.flatMap Stage.changes).reverse.findSome? f =
      ((saying kind l).flatMap Stage.changes).reverse.findSome? f := by
  unfold saying
  induction l with
  | nil => rfl
  | cons a l ih =>
    obtain ⟨hfirst, hrest⟩ := List.forall_mem_cons.mp hothers
    rw [List.flatMap_cons, List.reverse_append, List.findSome?_append, ih hrest]
    cases hkind : kind a.statement with
    | some said =>
      rw [List.filter_cons_of_pos (by rw [hkind]; rfl), List.flatMap_cons, List.reverse_append,
        List.findSome?_append]
    | none =>
      have hnone : a.changes.reverse.findSome? f = none :=
        List.findSome?_eq_none_iff.mpr fun c hc => hfirst hkind c (List.mem_reverse.mp hc)
      rw [List.filter_cons_of_neg (by rw [hkind]; simp), hnone, Option.or_none]

section Plain

variable {nodes : List Node} (hplain : ∀ node ∈ nodes, node.statement.Plain)

include hplain

/-- A change of a plain stage is what the statement says. -/
theorem changes_of_mem_stages {a : Stage} (ha : a ∈ stages ctx levels s nodes) {c : Change}
    (hc : c ∈ a.changes) :
    (∃ key v json, a.statement = .assignment key v ∧ '.' ∉ key.toList ∧ c = .assigned key json) ∨
      ∃ path parent, a.statement = .extension path ∧ c = .inherited parent := by
  obtain ⟨t, node, hnode, -, rfl⟩ := exists_of_mem_stages nodes ha
  have hsays : ({ node with origin := t.current } : Node).statement.Plain := hplain node hnode
  rcases changes_plain hsays hc with ⟨key, v, json, hassigns, rfl⟩ | hinherits
  · rw [hassigns] at hsays
    exact .inl ⟨key, v, json, hassigns, hsays.1, rfl⟩
  · exact .inr hinherits

theorem lastInherited_stages (k : String) :
    lastInherited k ((stages ctx levels s nodes).flatMap Stage.changes) =
      lastInherited k
        ((saying Statement.parent? (stages ctx levels s nodes)).flatMap Stage.changes) := by
  refine findSome?_saying fun a ha hkind c hc => ?_
  rcases changes_of_mem_stages hplain ha hc with ⟨key, v, json, -, -, rfl⟩ | ⟨path, _, hpath, rfl⟩
  · rfl
  · rw [hpath] at hkind
    cases hkind

theorem lastAssigned_stages (k : String) :
    lastAssigned k ((stages ctx levels s nodes).flatMap Stage.changes) =
      lastAssigned k
        ((saying Statement.assigned? (stages ctx levels s nodes)).flatMap Stage.changes) := by
  refine findSome?_saying fun a ha hkind c hc => ?_
  rcases changes_of_mem_stages hplain ha hc with ⟨key, v, _, hassigns, -, rfl⟩ | ⟨_, _, -, rfl⟩
  · rw [hassigns] at hkind
    cases hkind
  · rfl

theorem undotted_of_mem_stages {name : String} {value : Json}
    (h : .assigned name value ∈ (stages ctx levels s nodes).flatMap Stage.changes) :
    '.' ∉ name.toList := by
  obtain ⟨a, ha, hc⟩ := List.mem_flatMap.mp h
  rcases changes_of_mem_stages hplain ha hc with ⟨_, _, _, -, hkey, heq⟩ | ⟨_, _, -, heq⟩
  · cases heq
    exact hkey
  · cases heq

end Plain

end Evaluation

/-! ## Rearranged documents -/

namespace Document.Rearranges

open Evaluation

variable {d d' : Document} {ctx : Context} {levels : Nat} {s s' : Evaluation}

theorem parents_correspond (h : d.Rearranges d') (hplace : Stays s s') :
    List.Forall₂ Stage.Corresponds (saying Statement.parent? (stages ctx levels s d.nodes))
      (saying Statement.parent? (stages ctx levels s' d'.nodes)) :=
  saying_correspond hplace h.parents fun _ _ hstays _ _ _ _ _ hpath hpath' =>
    extension_corresponds hstays (Statement.eq_extension_of_parent? hpath)
      (Statement.eq_extension_of_parent? hpath')

theorem assignments_correspond (h : d.Rearranges d') (hplace : Stays s s') :
    List.Forall₂ Stage.Corresponds (saying Statement.assigned? (stages ctx levels s d.nodes))
      (saying Statement.assigned? (stages ctx levels s' d'.nodes)) := by
  refine saying_correspond hplace h.assignments ?_
  rintro t t' hstays node hnode node' - ⟨key, w⟩ hsaid hsaid'
  obtain ⟨v, hassigns, hlines⟩ := Statement.eq_assignment_of_assigned? hsaid
  obtain ⟨v', hassigns', hlines'⟩ := Statement.eq_assignment_of_assigned? hsaid'
  have hplain := h.plain node hnode
  rw [hassigns] at hplain
  exact assignment_corresponds hstays hplain.1 hplain.2 (hlines.trans hlines'.symm) hassigns
    hassigns'

end Document.Rearranges

theorem rel_or {α β : Type} {r : α → β → Prop} {a b : Option α} {a' b' : Option β}
    (ha : Option.Rel r a a') (hb : Option.Rel r b b') : Option.Rel r (a.or b) (a'.or b') := by
  cases ha with
  | some h => exact .some h
  | none => exact hb

namespace Context

open Evaluation

variable {ctx : Context} {file : Descriptor} {text text' : String} {d d' : Document}
variable {journal journal' : Journal}

/-- The state before the first statement of a document. -/
def firstState (file : Descriptor) (journal : Journal) (d : Document) : Evaluation :=
  (start file [] journal).withNotes file.path d.notes

theorem firstState_stays (file : Descriptor) (journal journal' : Journal) (d d' : Document) :
    Stays (firstState file journal d) (firstState file journal' d') := by
  unfold firstState
  rw [withNotes_eq, withNotes_eq]
  exact ⟨rfl, rfl, rfl⟩

theorem history_eq_stages (hd : Document.ofScannedText ctx.options text = .ok d) :
    ctx.history file text journal =
      (stages ctx (ctx.options.maxDepth - 1) (firstState file journal d) d.nodes).flatMap
        Stage.changes := by
  rw [history, hd]
  exact listChanges_eq_stages d.nodes _

/-- The variables of a plain document come from its last assignments and its last parents. -/
theorem get?_of_plain (hd : Document.ofScannedText ctx.options text = .ok d)
    (hplain : ∀ node ∈ d.nodes, node.statement.Plain) {r : Resource}
    (hr : ctx.compileText file text journal = (.ok r, journal')) (k : String) :
    Dict.get? r.own k = lastAssigned k (ctx.history file text journal) ∧
      Dict.get? r.vars k = (lastAssigned k (ctx.history file text journal)).or
        (lastInherited k (ctx.history file text journal)) := by
  obtain ⟨hscopes, hparents⟩ := compileText_scopes hr
  obtain ⟨hvars, hown⟩ := Resource.scopes_eq_iff.mp hscopes
  rw [hvars, hown]
  refine Resource.get?_of_undotted (fun name value hmem => ?_) hparents k
  rw [history_eq_stages hd] at hmem
  exact undotted_of_mem_stages hplain hmem

theorem compileText_of_parsed (hd : Document.ofScannedText ctx.options text = .ok d)
    (file : Descriptor) (journal : Journal) :
    ∃ r after, ctx.compileText file text journal = (.ok r, after) := by
  unfold compileText
  rw [hd]
  exact ⟨_, _, rfl⟩

/-- **The place of a parent does not matter for plain assignments.** Two plain documents with the
same parents and the same assignments, each in the same order, compile to the same variables, and to
the same ones of their own, but for the identifiers of components, which stand one by one for one
another. -/
theorem compileText_rearranged (hd : Document.ofScannedText ctx.options text = .ok d)
    (hd' : Document.ofScannedText ctx.options text' = .ok d') (h : d.Rearranges d')
    (file : Descriptor) (journal journal' : Journal) :
    ∃ r r' after after', ∃ numbers : Nat → Nat → Prop,
      ctx.compileText file text journal = (.ok r, after) ∧
      ctx.compileText file text' journal' = (.ok r', after') ∧
      Relator.BiUnique numbers ∧ r.SameMaps (Json.Renamed numbers) r' := by
  obtain ⟨r, after, hr⟩ := compileText_of_parsed hd file journal
  obtain ⟨r', after', hr'⟩ := compileText_of_parsed hd' file journal'
  let l := stages ctx (ctx.options.maxDepth - 1) (firstState file journal d) d.nodes
  let l' := stages ctx (ctx.options.maxDepth - 1) (firstState file journal' d') d'.nodes
  have hplace := firstState_stays file journal journal' d d'
  have hsorted : l.Pairwise fun a b => a.next ≤ b.first := (stages_sorted h.plain _).2
  have hsorted' : l'.Pairwise fun a b => a.next ≤ b.first := (stages_sorted h.plain' _).2
  obtain ⟨numbers, hnumbers, hparents, hassignments⟩ :=
    exists_biUnique Statement.not_assigned?_of_parent? hsorted hsorted'
      (h.parents_correspond hplace) (h.assignments_correspond hplace)
  have hhistory : ctx.history file text journal = l.flatMap Stage.changes := history_eq_stages hd
  have hhistory' : ctx.history file text' journal' = l'.flatMap Stage.changes :=
    history_eq_stages hd'
  refine ⟨r, r', after, after', numbers, hr, hr', hnumbers, fun k => ?_⟩
  have hassigned : Option.Rel (Json.Similar (Json.Renamed numbers))
      (lastAssigned k (l.flatMap Stage.changes)) (lastAssigned k (l'.flatMap Stage.changes)) := by
    rw [lastAssigned_stages h.plain, lastAssigned_stages h.plain']
    exact lastAssigned_similar hassignments
  have hinherited : Option.Rel (Json.Similar (Json.Renamed numbers))
      (lastInherited k (l.flatMap Stage.changes)) (lastInherited k (l'.flatMap Stage.changes)) := by
    rw [lastInherited_stages h.plain, lastInherited_stages h.plain']
    exact lastInherited_similar hparents
  obtain ⟨hown, hvars⟩ := get?_of_plain hd h.plain hr k
  obtain ⟨hown', hvars'⟩ := get?_of_plain hd' h.plain' hr' k
  rw [hvars, hvars', hown, hown', hhistory, hhistory']
  exact ⟨rel_or hassigned hinherited, hassigned⟩

/-- A file that others may inherit from, with a component in it. -/
def inheritable : Context :=
  ⟨Memory.library ⟨"r", [⟨"/p", Memory.latest, "a = wc-x\nb = true".toUTF8⟩]⟩, {}⟩

/-- A key that the parent has, too, is assigned before it. -/
def parentLast : Document :=
  ⟨[⟨.assignment "b" (.atom 1 (.component "wc-y")), 1, ""⟩, ⟨.extension "p", 2, ""⟩], []⟩

/-- The key is assigned after the parent and a comment. -/
def parentFirst : Document :=
  ⟨[⟨.extension "p", 1, ""⟩, ⟨.comment "# c", 2, ""⟩,
    ⟨.assignment "b" (.atom 3 (.component "wc-y")), 3, ""⟩], []⟩

/-- The component of a parent has another identifier if the parent comes first, and nothing else
differs. -/
theorem compileText_rearranged_component : ∃ r r' after after', ∃ numbers : Nat → Nat → Prop,
    inheritable.compileText ⟨"r", "v", "/m"⟩ "b = wc-y\n@extends p" (.empty 0) = (.ok r, after) ∧
    inheritable.compileText ⟨"r", "v", "/m"⟩ "@extends p\n# c\nb = wc-y" (.empty 0) =
      (.ok r', after') ∧
    (r.get? "a.cid").map Json.compact = some (Json.quote (Identifier.ofNat 1)) ∧
    (r'.get? "a.cid").map Json.compact = some (Json.quote (Identifier.ofNat 0)) ∧
    Relator.BiUnique numbers ∧ r.SameMaps (Json.Renamed numbers) r' := by
  have htokens : Token.ofText? "wc-" "b = wc-y\n@extends p" = .ok [⟨.name "b", "b", 1⟩,
      ⟨.equals, "=", 1⟩, ⟨.selector "wc-y", "wc-y", 1⟩, ⟨.directive .extension, "@extends", 2⟩,
      ⟨.path "p", "p", 2⟩, ⟨.finish, "", 2⟩] := by decide +kernel
  have htokens' : Token.ofText? "wc-" "@extends p\n# c\nb = wc-y" = .ok [
      ⟨.directive .extension, "@extends", 1⟩, ⟨.path "p", "p", 1⟩, ⟨.comment "# c", "# c", 2⟩,
      ⟨.name "b", "b", 3⟩, ⟨.equals, "=", 3⟩, ⟨.selector "wc-y", "wc-y", 3⟩,
      ⟨.finish, "", 3⟩] := by decide +kernel
  have hparsed : Document.ofTokens false [⟨.name "b", "b", 1⟩, ⟨.equals, "=", 1⟩,
      ⟨.selector "wc-y", "wc-y", 1⟩, ⟨.directive .extension, "@extends", 2⟩, ⟨.path "p", "p", 2⟩,
      ⟨.finish, "", 2⟩] = .ok parentLast := rfl
  have hparsed' : Document.ofTokens false [⟨.directive .extension, "@extends", 1⟩,
      ⟨.path "p", "p", 1⟩, ⟨.comment "# c", "# c", 2⟩, ⟨.name "b", "b", 3⟩, ⟨.equals, "=", 3⟩,
      ⟨.selector "wc-y", "wc-y", 3⟩, ⟨.finish, "", 3⟩] = .ok parentFirst := rfl
  have hd : Document.ofScannedText {} "b = wc-y\n@extends p" = .ok parentLast := by
    rw [Document.ofScannedText, htokens]
    exact hparsed
  have hd' : Document.ofScannedText {} "@extends p\n# c\nb = wc-y" = .ok parentFirst := by
    rw [Document.ofScannedText, htokens']
    exact hparsed'
  have hrearranges : parentLast.Rearranges parentFirst := by
    refine ⟨?_, ?_, rfl, rfl⟩
    · simp [parentLast, Statement.Plain, Value.LooksNothingUp, Value.Forall]
    · simp [parentFirst, Statement.Plain, Value.LooksNothingUp, Value.Forall]
  have hfound : (inheritable.compileText ⟨"r", "v", "/m"⟩ "b = wc-y\n@extends p"
      (.empty 0)).1.toOption.map (fun r => (r.get? "a.cid").map Json.compact) =
        some (some (Json.quote (Identifier.ofNat 1))) := by decide +kernel
  have hfound' : (inheritable.compileText ⟨"r", "v", "/m"⟩ "@extends p\n# c\nb = wc-y"
      (.empty 0)).1.toOption.map (fun r => (r.get? "a.cid").map Json.compact) =
        some (some (Json.quote (Identifier.ofNat 0))) := by decide +kernel
  obtain ⟨r, r', after, after', numbers, hr, hr', hnumbers, hsame⟩ :=
    @compileText_rearranged inheritable _ _ _ _ hd hd' hrearranges ⟨"r", "v", "/m"⟩ (.empty 0)
      (.empty 0)
  rw [hr] at hfound
  rw [hr'] at hfound'
  exact ⟨r, r', after, after', numbers, hr, hr', Option.some.inj hfound, Option.some.inj hfound',
    hnumbers, hsame⟩

end Context

end Courseware
