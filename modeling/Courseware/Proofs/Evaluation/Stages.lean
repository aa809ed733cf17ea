/-
The stages of a plain document.

A plain statement is a comment, inherits from a document, or assigns a value that
looks no name up to an undotted key. What it changes does not depend on the
variables around it, so its stage in a run (`Stage`) is the same wherever the
statement stands, but for the identifiers that it draws (`extension_corresponds`,
`assignment_corresponds`).

The statements of a run draw their identifiers one after another, so the numbers of
two stages lie apart. If the stages of two runs can be paired, the numbers that are
drawn in one run therefore stand one by one for those of the other
(`exists_biUnique`).
-/
import Courseware.Proofs.Evaluation.Ledger
import Courseware.Proofs.Evaluation.Tandem
import Mathlib.Data.List.Forall2
import Mathlib.Data.List.Pairwise
import Mathlib.Logic.Relator

namespace Courseware

/-- Whether a value looks no name up. -/
def Value.LooksNothingUp (v : Value) : Prop :=
  v.Forall (fun a => ∀ name, a ≠ .reference name) fun _ => True

namespace Statement

/-- Whether a statement is a comment, inherits from a document, or assigns a value that looks no
name up to a key that is not dotted. -/
def Plain : Statement → Prop
  | .comment _ | .extension _ => True
  | .assignment key v => '.' ∉ key.toList ∧ v.LooksNothingUp
  | .inclusion _ => False

/-- The key and the value of an assignment, without the lines that the value stands on. -/
def assigned? : Statement → Option (String × Value)
  | .assignment key v => some (key, v.onLine 0)
  | .comment _ | .inclusion _ | .extension _ => none

theorem not_assigned?_of_parent? (statement : Statement) (h : statement.parent?.isSome) :
    ¬ statement.assigned?.isSome := by
  cases statement with
  | extension => exact fun h' => by cases h'
  | assignment | comment | inclusion => cases h

theorem eq_assignment_of_assigned? {statement : Statement} {key : String} {v : Value}
    (h : statement.assigned? = some (key, v)) :
    ∃ w, statement = .assignment key w ∧ w.onLine 0 = v := by
  cases statement with
  | assignment key' w =>
    cases h
    exact ⟨w, rfl, rfl⟩
  | comment | inclusion | extension => cases h

end Statement

/-- Whether two texts are the same, or identifiers of numbers that stand for one another. -/
def Json.Renamed (numbers : Nat → Nat → Prop) (text text' : String) : Prop :=
  text = text' ∨ ∃ n n', numbers n n' ∧ text = Identifier.ofNat n ∧ text' = Identifier.ofNat n'

/-- Whether two changes are of the same kind, with similar values. -/
inductive Change.Similar (texts : String → String → Prop) : Change → Change → Prop
  | assigned (name : String) {v v' : Json} (hv : Json.Similar texts v v') :
      Similar texts (.assigned name v) (.assigned name v')
  | inherited {parent parent' : Variables} (h : Json.EntriesSimilar texts parent parent') :
      Similar texts (.inherited parent) (.inherited parent')

theorem Change.Similar.imp {texts texts' : String → String → Prop}
    (himp : ∀ text text', texts text text' → texts' text text')
    {c c' : Change} (h : c.Similar texts c') : c.Similar texts' c' := by
  cases h with
  | assigned name hv => exact .assigned name (hv.imp himp)
  | inherited h => exact .inherited (h.imp himp)

namespace Evaluation

variable {ctx : Context} {levels : Nat} {s s' : Evaluation} {node node' : Node}

/-! ## Plain statements -/

theorem changes_extension {path : String} (h : node.statement = .extension path) :
    changes ctx levels s node =
      match s.compileNested ctx (below ctx levels) (Path.resolve s.current path) with
      | (.error _, _) => []
      | (.ok (parent, _), _) => [.inherited parent.vars] := by
  cases levels with
  | zero =>
    simp only [changes, changesWith, h]
    rfl
  | succ levels =>
    simp only [changes, changesWith, h]
    rfl

theorem changes_assignment {key : String} {v : Value} (h : node.statement = .assignment key v) :
    changes ctx levels s node = s.assignmentChanges ctx (below ctx levels) key v := by
  cases levels with
  | zero => simp only [changes, changesWith, h, below]
  | succ levels => simp only [changes, changesWith, h, below]

/-- A plain statement changes what it says: the key that it assigns, or what it inherits. -/
theorem changes_plain (hplain : node.statement.Plain) {c : Change}
    (hc : c ∈ changes ctx levels s node) :
    (∃ key v json, node.statement = .assignment key v ∧ c = .assigned key json) ∨
      ∃ path parent, node.statement = .extension path ∧ c = .inherited parent := by
  cases hnode : node.statement with
  | comment text => cases levels <;> simp [changes, changesWith, hnode] at hc
  | inclusion path =>
    rw [hnode] at hplain
    cases hplain
  | extension path =>
    rw [changes_extension hnode] at hc
    split at hc
    · cases hc
    · exact .inr ⟨path, _, rfl, List.mem_singleton.mp hc⟩
  | assignment key v =>
    rw [changes_assignment hnode, assignmentChanges] at hc
    split at hc
    · cases hc
    · split at hc
      · cases hc
      · exact .inl ⟨key, v, _, rfl, List.mem_singleton.mp hc⟩

/-- A statement of a run: the number of the first identifier that it may draw, that of the first one
after it, and the changes that it makes. -/
structure Stage where
  statement : Statement
  first : Nat
  next : Nat
  changes : List Change

/-- The stage of a statement that is evaluated in a state, and kept. -/
def stage (ctx : Context) (levels : Nat) (s : Evaluation) (node : Node) : Stage where
  statement := node.statement
  first := s.journal.nextId
  next := (keep (visit ctx levels) s node).journal.nextId
  changes := changes ctx levels s { node with origin := s.current }

/-- The stages of statements that are evaluated one after another. -/
def stages (ctx : Context) (levels : Nat) : Evaluation → List Node → List Stage
  | _, [] => []
  | s, node :: nodes =>
    stage ctx levels s node :: stages ctx levels (keep (visit ctx levels) s node) nodes

theorem stage_next_extension {path : String} (h : node.statement = .extension path) :
    (stage ctx levels s node).next =
      (s.compileNested ctx (below ctx levels) (Path.resolve s.current path)).2.journal.nextId := by
  refine congrArg Journal.nextId ?_
  simp only [keep, visit_eq, visitWith, h]
  exact visitExtension_journal s path node.line

theorem stage_next_assignment {key : String} {v : Value}
    (h : node.statement = .assignment key v) : (stage ctx levels s node).next =
      (resolve ctx (below ctx levels) v { s with assigning := some key }).2.journal.nextId := by
  refine congrArg Journal.nextId ?_
  simp only [keep, visit_eq, visitWith, h]
  exact visitAssignment_journal ctx _ s key v

theorem listChanges_eq_stages (nodes : List Node) : ∀ s : Evaluation,
    listChanges (keep (visit ctx levels))
        (fun s node => changes ctx levels s { node with origin := s.current }) s nodes =
      (stages ctx levels s nodes).flatMap Stage.changes := by
  induction nodes with
  | nil => exact fun _ => rfl
  | cons node nodes ih =>
    intro s
    rw [listChanges, stages, List.flatMap_cons, ih]
    rfl

theorem map_statement_stages (nodes : List Node) : ∀ s : Evaluation,
    (stages ctx levels s nodes).map Stage.statement = nodes.map Node.statement := by
  induction nodes with
  | nil => exact fun _ => rfl
  | cons node nodes ih => exact fun s => congrArg (node.statement :: ·) (ih _)

/-- Every stage is that of a statement, in a state that stands where the first one does. -/
theorem exists_of_mem_stages {a : Stage} (nodes : List Node) : ∀ {s : Evaluation},
    a ∈ stages ctx levels s nodes →
      ∃ t, ∃ node ∈ nodes, Stays s t ∧ a = stage ctx levels t node := by
  induction nodes with
  | nil => exact fun h => by cases h
  | cons node nodes ih =>
    intro s h
    rcases List.mem_cons.mp h with rfl | h
    · exact ⟨s, node, List.mem_cons_self, .refl s, rfl⟩
    · obtain ⟨t, node', hmem, hst, rfl⟩ := ih h
      have hkeep : Stays s (keep (visit ctx levels) s node) :=
        keep_stays (visit_stays levels) s node
      exact ⟨t, node', List.mem_cons_of_mem _ hmem, hkeep.trans hst, rfl⟩

/-- **Whether two stages come out the same but for the identifiers**: they draw as many, and their
changes are similar where each stands for the one at the same distance. -/
def Stage.Corresponds (a b : Stage) : Prop :=
  ∃ drawn, a.next = a.first + drawn ∧ b.next = b.first + drawn ∧
    List.Forall₂ (Change.Similar (Tandem.Texts ⟨a.first, b.first, False⟩ drawn)) a.changes b.changes

/-- States that stand at the same place are matched from there on, where variables do not count. -/
theorem Stays.matched (h : Stays s s') :
    Tandem.Matched ⟨s.journal.nextId, s'.journal.nextId, False⟩ 0 s s' where
  current := h.current
  stack := h.stack
  version := congrArg Descriptor.version h.file
  nextId := rfl
  nextId' := rfl
  vars := False.elim
  own := False.elim

/-- **A parent comes out the same at any place.** -/
theorem extension_corresponds (h : Stays s s') {path : String}
    (hnode : node.statement = .extension path) (hnode' : node'.statement = .extension path) :
    (stage ctx levels s node).Corresponds (stage ctx levels s' node') := by
  have hbelow : Tandem.KeepsBelow (below ctx levels) := Tandem.keepsBelow levels
  obtain ⟨drawn, -, hkind, ht⟩ :=
    Tandem.compileNested_results ctx hbelow h.matched (Path.resolve s.current path)
  have hnext' : (stage ctx levels s' node').next = _ := stage_next_extension hnode'
  have hchanges : (stage ctx levels s node).changes = _ := changes_extension hnode
  have hchanges' : (stage ctx levels s' node').changes = _ := changes_extension hnode'
  rw [h.current] at hnext' hchanges'
  refine ⟨drawn, (stage_next_extension hnode).trans ht.nextId, hnext'.trans ht.nextId', ?_⟩
  rw [hchanges, hchanges']
  generalize s.compileNested ctx (below ctx levels) (Path.resolve s.current path) = r,
    s'.compileNested ctx (below ctx levels) (Path.resolve s.current path) = r' at hkind ⊢
  obtain ⟨compiled, t⟩ := r
  obtain ⟨compiled', t'⟩ := r'
  cases hkind with
  | error => exact .nil
  | ok hparent => exact .cons (.inherited hparent) .nil

/-- **An assignment of a value that looks nothing up comes out the same at any place.** -/
theorem assignment_corresponds (h : Stays s s') {key : String} {v v' : Value}
    (hkey : '.' ∉ key.toList) (hv : v.LooksNothingUp) (hlines : v.onLine 0 = v'.onLine 0)
    (hnode : node.statement = .assignment key v) (hnode' : node'.statement = .assignment key v') :
    (stage ctx levels s node).Corresponds (stage ctx levels s' node') := by
  have hatoms : Tandem.AtomsAgree ⟨s.journal.nextId, s'.journal.nextId, False⟩ ctx
      (below ctx levels) fun a => ∀ name, a ≠ .reference name :=
    fun line line' a ha => Tandem.atomsAgree (Tandem.keepsBelow levels) line line' a (.inr ha)
  have hassigning : Tandem.Matched ⟨s.journal.nextId, s'.journal.nextId, False⟩ 0
      { s with assigning := some key } { s' with assigning := some key } := { h.matched with }
  obtain ⟨drawn, -, hkind, ht⟩ := Tandem.resolve_results hatoms v v' hlines hv hassigning
  have hchanges : (stage ctx levels s node).changes = _ := changes_assignment hnode
  have hchanges' : (stage ctx levels s' node').changes = _ := changes_assignment hnode'
  refine ⟨drawn, (stage_next_assignment hnode).trans ht.nextId,
    (stage_next_assignment hnode').trans ht.nextId', ?_⟩
  rw [hchanges, hchanges']
  unfold assignmentChanges
  generalize resolve ctx (below ctx levels) v { s with assigning := some key } = r,
    resolve ctx (below ctx levels) v' { s' with assigning := some key } = r' at hkind ⊢
  obtain ⟨outcome, t⟩ := r
  obtain ⟨outcome', t'⟩ := r'
  cases hkind with
  | error => exact .nil
  | ok hjson =>
    simp only [Variables.assign_undotted _ hkey]
    exact .cons (.assigned key hjson) .nil

/-! ## Stages one after another -/

theorem stage_first_le_next (hplain : node.statement.Plain) :
    (stage ctx levels s node).first ≤ (stage ctx levels s node).next := by
  -- What a statement draws is told by comparing it with itself.
  cases hnode : node.statement with
  | comment text =>
    refine le_of_eq ?_
    simp only [stage, keep, visit_eq, visitWith, hnode]
  | inclusion path =>
    rw [hnode] at hplain
    cases hplain
  | extension path =>
    have hsame : (stage ctx levels s node).Corresponds (stage ctx levels s node) :=
      extension_corresponds (.refl s) hnode hnode
    obtain ⟨drawn, hnext, -⟩ := hsame
    omega
  | assignment key v =>
    rw [hnode] at hplain
    have hsame : (stage ctx levels s node).Corresponds (stage ctx levels s node) :=
      assignment_corresponds (.refl s) hplain.1 hplain.2 rfl hnode hnode
    obtain ⟨drawn, hnext, -⟩ := hsame
    omega

/-- **Plain statements draw their identifiers one after another.** -/
theorem stages_sorted {nodes : List Node} (hplain : ∀ node ∈ nodes, node.statement.Plain) :
    ∀ s : Evaluation, (∀ a ∈ stages ctx levels s nodes, s.journal.nextId ≤ a.first) ∧
      (stages ctx levels s nodes).Pairwise fun a b => a.next ≤ b.first := by
  induction nodes with
  | nil => exact fun s => ⟨List.forall_mem_nil _, .nil⟩
  | cons node nodes ih =>
    intro s
    obtain ⟨hnode, hnodes⟩ := List.forall_mem_cons.mp hplain
    obtain ⟨hfirst, hrest⟩ := ih hnodes (keep (visit ctx levels) s node)
    have hle : s.journal.nextId ≤ (keep (visit ctx levels) s node).journal.nextId :=
      stage_first_le_next hnode
    refine ⟨List.forall_mem_cons.mpr ⟨le_rfl, fun a ha => hle.trans (hfirst a ha)⟩, ?_⟩
    exact .cons hfirst hrest

/-- The stages of the statements that say something of a kind. -/
def saying {α : Type} (kind : Statement → Option α) (l : List Stage) : List Stage :=
  l.filter fun a => (kind a.statement).isSome

theorem map_filter_isSome {α β : Type} (f : α → Option β) (l : List α) :
    (l.filter fun a => (f a).isSome).map f = (l.filterMap f).map some := by
  induction l with
  | nil => rfl
  | cons a l ih => cases h : f a <;> simp [h, ih]

/-- Two lists of statements that say the same of a kind have stages that correspond, if those of two
statements that say the same do. -/
theorem saying_correspond {α : Type} {kind : Statement → Option α} {nodes nodes' : List Node}
    (hplace : Stays s s')
    (hsame : nodes'.filterMap (kind ·.statement) = nodes.filterMap (kind ·.statement))
    (hcorresponds : ∀ t t' : Evaluation, Stays t t' → ∀ node ∈ nodes, ∀ node' ∈ nodes',
      ∀ said, kind node.statement = some said → kind node'.statement = some said →
        (stage ctx levels t node).Corresponds (stage ctx levels t' node')) :
    List.Forall₂ Stage.Corresponds (saying kind (stages ctx levels s nodes))
      (saying kind (stages ctx levels s' nodes')) := by
  have hkinds : ∀ (s : Evaluation) (nodes : List Node),
      (stages ctx levels s nodes).filterMap (kind ·.statement) =
        nodes.filterMap (kind ·.statement) := by
    intro s nodes
    have hstatements : ((stages ctx levels s nodes).map Stage.statement).filterMap kind =
        (nodes.map Node.statement).filterMap kind := by rw [map_statement_stages]
    rwa [List.filterMap_map, List.filterMap_map] at hstatements
  have hsaid : (saying kind (stages ctx levels s nodes)).map (kind ·.statement) =
      (saying kind (stages ctx levels s' nodes')).map (kind ·.statement) := by
    unfold saying
    rw [map_filter_isSome, map_filter_isSome, hkinds, hkinds, hsame]
  rw [← List.forall₂_eq_eq_eq, List.forall₂_map_left_iff, List.forall₂_map_right_iff,
    List.forall₂_iff_zip] at hsaid
  refine List.forall₂_iff_zip.mpr ⟨hsaid.1, fun {a b} hmem => ?_⟩
  obtain ⟨ha, hb⟩ := List.of_mem_zip hmem
  obtain ⟨ha, hsome⟩ := List.mem_filter.mp ha
  obtain ⟨said, hsome⟩ := Option.isSome_iff_exists.mp hsome
  have hsome' := (hsaid.2 hmem).symm.trans hsome
  obtain ⟨t, node, hnode, ht, rfl⟩ := exists_of_mem_stages nodes ha
  obtain ⟨t', node', hnode', ht', rfl⟩ := exists_of_mem_stages nodes' (List.mem_filter.mp hb).1
  have hstays : Stays t t' := (ht.symm.trans hplace).trans ht'
  exact hcorresponds t t' hstays node hnode node' hnode' said hsome hsome'

/-! ## The identifiers of two runs -/

/-- Whether the identifiers of one of two stages all come before those of the other. -/
def Stage.Apart (a b : Stage) : Prop := a.next ≤ b.first ∨ b.next ≤ a.first

instance : Std.Symm Stage.Apart := ⟨fun _ _ h => h.symm⟩

/-- Stages of two kinds that no statement is of at once lie apart if those of all statements do. -/
theorem apart_append {α β : Type} {kind : Statement → Option α} {kind' : Statement → Option β}
    (hkinds : ∀ statement, (kind statement).isSome → ¬ (kind' statement).isSome) {l : List Stage}
    (hsorted : l.Pairwise fun a b => a.next ≤ b.first) :
    (saying kind l ++ saying kind' l).Pairwise Stage.Apart := by
  have hapart : l.Pairwise Stage.Apart := hsorted.imp .inl
  refine List.pairwise_append.mpr ⟨hapart.filter _, hapart.filter _, fun a ha b hb => ?_⟩
  obtain ⟨ha, hkind⟩ := List.mem_filter.mp ha
  obtain ⟨hb, hkind'⟩ := List.mem_filter.mp hb
  refine hapart.forall ha hb fun heq => hkinds a.statement hkind ?_
  rw [heq]
  exact hkind'

/-- Whether two numbers are at the same distance from the first ones of two stages that are paired,
and the stages draw the identifiers of these numbers. -/
def Drawn (pairs : List (Stage × Stage)) (n n' : Nat) : Prop :=
  ∃ p ∈ pairs, ∃ distance, n = p.1.first + distance ∧ n' = p.2.first + distance ∧
    n < p.1.next ∧ n' < p.2.next

/-- **A number is drawn in one of the pairs only**, and so stands for one number. -/
theorem biUnique_drawn {pairs : List (Stage × Stage)}
    (hpairs : pairs.Pairwise fun p q => p.1.Apart q.1 ∧ p.2.Apart q.2) :
    Relator.BiUnique (Drawn pairs) := by
  have hsymm : Std.Symm fun p q : Stage × Stage => p.1.Apart q.1 ∧ p.2.Apart q.2 :=
    ⟨fun _ _ h => ⟨h.1.symm, h.2.symm⟩⟩
  have hsame : ∀ p ∈ pairs, ∀ q ∈ pairs, ¬ (p.1.Apart q.1 ∧ p.2.Apart q.2) → p = q :=
    fun p hp q hq hnot => by_contra fun hne => hnot (hpairs.forall hp hq hne)
  constructor
  · rintro m n c ⟨p, hp, i, rfl, rfl, hlt, hlt'⟩ ⟨q, hq, j, rfl, heq, hlt₂, hlt₂'⟩
    obtain rfl : p = q := hsame p hp q hq fun h => by
      have hapart := h.2
      unfold Stage.Apart at hapart
      omega
    omega
  · rintro c m n ⟨p, hp, i, rfl, rfl, hlt, hlt'⟩ ⟨q, hq, j, heq, rfl, hlt₂, hlt₂'⟩
    obtain rfl : p = q := hsame p hp q hq fun h => by
      have hapart := h.1
      unfold Stage.Apart at hapart
      omega
    omega

/-- Stages that are paired and correspond make changes that are similar but for the identifiers that
they draw. -/
theorem changes_similar {pairs : List (Stage × Stage)} {l l' : List Stage}
    (h : List.Forall₂ Stage.Corresponds l l') (hmem : ∀ p ∈ l.zip l', p ∈ pairs) :
    List.Forall₂ (Change.Similar (Json.Renamed (Drawn pairs))) (l.flatMap Stage.changes)
      (l'.flatMap Stage.changes) := by
  obtain ⟨hlength, hall⟩ := List.forall₂_iff_zip.mp h
  have hchanges : List.Forall₂ (fun a b : Stage =>
      List.Forall₂ (Change.Similar (Json.Renamed (Drawn pairs))) a.changes b.changes) l l' := by
    refine List.forall₂_iff_zip.mpr ⟨hlength, fun {a b} hab => ?_⟩
    obtain ⟨drawn, hnext, hnext', hchanges⟩ := hall hab
    refine hchanges.imp fun c c' hc => hc.imp fun text text' htext => ?_
    rcases htext with rfl | ⟨distance, hlt, rfl, rfl⟩
    · exact .inl rfl
    · have hdrawn : Drawn pairs (a.first + distance) (b.first + distance) :=
        ⟨(a, b), hmem _ hab, distance, rfl, rfl, hnext ▸ Nat.add_lt_add_left hlt _,
          hnext' ▸ Nat.add_lt_add_left hlt _⟩
      exact .inr ⟨_, _, hdrawn, rfl, rfl⟩
  exact List.rel_flatMap hchanges fun _ _ hab => hab

/-- **The numbers that two runs draw stand one by one for one another**, if the stages of two kinds
correspond. -/
theorem exists_biUnique {α β : Type} {kind : Statement → Option α} {kind' : Statement → Option β}
    (hkinds : ∀ statement, (kind statement).isSome → ¬ (kind' statement).isSome)
    {l l' : List Stage} (hsorted : l.Pairwise fun a b => a.next ≤ b.first)
    (hsorted' : l'.Pairwise fun a b => a.next ≤ b.first)
    (h : List.Forall₂ Stage.Corresponds (saying kind l) (saying kind l'))
    (h' : List.Forall₂ Stage.Corresponds (saying kind' l) (saying kind' l')) :
    ∃ numbers : Nat → Nat → Prop, Relator.BiUnique numbers ∧
      List.Forall₂ (Change.Similar (Json.Renamed numbers)) ((saying kind l).flatMap Stage.changes)
        ((saying kind l').flatMap Stage.changes) ∧
      List.Forall₂ (Change.Similar (Json.Renamed numbers)) ((saying kind' l).flatMap Stage.changes)
        ((saying kind' l').flatMap Stage.changes) := by
  let pairs := (saying kind l).zip (saying kind l') ++ (saying kind' l).zip (saying kind' l')
  have hfst : pairs.map Prod.fst = saying kind l ++ saying kind' l := by
    rw [List.map_append, List.map_fst_zip h.length_eq.le, List.map_fst_zip h'.length_eq.le]
  have hsnd : pairs.map Prod.snd = saying kind l' ++ saying kind' l' := by
    rw [List.map_append, List.map_snd_zip h.length_eq.ge, List.map_snd_zip h'.length_eq.ge]
  have hapart := apart_append hkinds hsorted
  have hapart' := apart_append hkinds hsorted'
  rw [← hfst, List.pairwise_map] at hapart
  rw [← hsnd, List.pairwise_map] at hapart'
  exact ⟨Drawn pairs, biUnique_drawn (hapart.and hapart'),
    changes_similar h fun p hp => List.mem_append_left _ hp,
    changes_similar h' fun p hp => List.mem_append_right _ hp⟩

end Evaluation

end Courseware
