/-
Two compilations go step by step.

Where two compilations can be followed side by side, a statement keeps their
states matched, whatever is below it (`Comparison.visit_matched`). A document that
it opens is opened in both or in none (`Comparison.enter_matched`), and is the same
in both, so the statements in it come next in both. The two compilations therefore
come out alike and ask for the same (`Comparison.outcome_matched`). If they are made
at one version, their resources are the same but for identifiers and for what the
libraries say of files that they do not have (`Comparison.outcome_alikeBut`).
-/
import Courseware.Proofs.Evaluation.Comparison
import Courseware.Proofs.Variables.Alike

namespace Courseware

/-- Whether two resources are the same but for the identifiers in their variables and for the errors
that may stand for one another. -/
structure Resource.AlikeBut (faults : Error → Error → Prop) (first first' : Nat)
    (r r' : Resource) : Prop where
  file : r'.file = r.file
  vars : Json.EntriesAlike first first' r.vars r'.vars
  own : Json.EntriesAlike first first' r.own r'.own
  dependencies : r'.dependencies = r.dependencies
  nodes : r'.nodes = r.nodes
  errors : List.Forall₂ (Diagnostic.SameBut faults) r.errors r'.errors
  warnings : r'.warnings = r.warnings

/-- Whether two compilations come out alike: with such resources, or both with an error, which is
the same or may stand for the other. -/
inductive Resource.OutcomesAlikeBut (faults : Error → Error → Prop) (first first' : Nat) :
    Except Error Resource → Except Error Resource → Prop
  | ok {r r' : Resource} (h : r.AlikeBut faults first first' r') :
      OutcomesAlikeBut faults first first' (.ok r) (.ok r')
  | error (e : Error) : OutcomesAlikeBut faults first first' (.error e) (.error e)
  | fault {e e' : Error} (h : faults e e') :
      OutcomesAlikeBut faults first first' (.error e) (.error e')

namespace Comparison

open Evaluation Journal

variable {c : Comparison} {r r' : Resource} {j j' : Journal} {s s' : Evaluation} {e e' : Error}
variable {stack : List String} {levels levels' : Nat}

/-! ## Documents -/

/-- Whether levels are those of the two compilations: what is open takes up the others. -/
structure Leveled (c : Comparison) (stack : List String) (levels levels' : Nat) : Prop where
  one : levels + stack.length = max 1 c.one.options.maxDepth
  other : levels' + stack.length = max 1 c.other.options.maxDepth

theorem Leveled.opened {l l' : Nat} (h : c.Leveled stack (l + 1) (l' + 1)) (path : String) :
    c.Leveled (stack ++ [path]) l l' := by
  obtain ⟨hone, hother⟩ := h
  constructor
  · rw [List.length_append, List.length_singleton]
    omega
  · rw [List.length_append, List.length_singleton]
    omega

/-- **A file is opened in both compilations, or refused for the same reason in both.** -/
theorem enter_matched (hc : c.Lawful) (hlevels : c.Leveled stack levels levels')
    (h : c.Matched stack s s') {target : String}
    (hallowed : (s.record (.nest target)).journal.Holds c.Allowed) :
    (∃ e, s.enter c.one (below c.one levels) target = (.error e, s.record (.nest target)) ∧
      s'.enter c.other (below c.other levels') target = (.error e, s'.record (.nest target))) ∨
    ∃ l l', levels = l + 1 ∧ levels' = l' + 1 ∧
      s.enter c.one (below c.one levels) target = (.ok (visit c.one l), s.record (.nest target)) ∧
      s'.enter c.other (below c.other levels') target =
        (.ok (visit c.other l'), s'.record (.nest target)) := by
  have hstack := h.stack
  have hstack' := h.stack'
  subst hstack
  by_cases hopen : target ∈ s.stack
  · have hopen' : target ∈ s'.stack := by rwa [hstack']
    refine .inl ⟨_, enter_open _ hopen, ?_⟩
    rw [enter_open _ hopen', hstack']
  · have hclosed' : target ∉ s'.stack := by rwa [hstack']
    have hone := hlevels.one
    have hother := hlevels.other
    -- Either the limits are the same, or the files that are open are below both.
    rcases hc.depth hallowed.last with hopened | hsame | ⟨hdepth, hdepth'⟩
    · exact absurd hopened hopen
    · obtain rfl : levels' = levels := by omega
      cases levels' with
      | zero =>
        refine .inl ⟨.nesting target (NestingFault.tooDeep c.one.options.maxDepth).message, ?_, ?_⟩
        · simp only [enter, if_neg hopen, below]
        · simp only [enter, if_neg hclosed', below, hsame]
      | succ l => exact .inr ⟨l, l, rfl, rfl, enter_closed _ hopen, enter_closed _ hclosed'⟩
    · obtain ⟨l, rfl⟩ : ∃ l, levels = l + 1 := ⟨levels - 1, by omega⟩
      obtain ⟨l', rfl⟩ : ∃ l', levels' = l' + 1 := ⟨levels' - 1, by omega⟩
      exact .inr ⟨l, l', rfl, rfl, enter_closed _ hopen, enter_closed _ hclosed'⟩

theorem ofScannedText_other (hc : c.Lawful) (text : String) :
    Document.ofScannedText c.other.options text = Document.ofScannedText c.one.options text := by
  rw [hc.options, Document.ofScannedText_maxDepth]

/-- Whether statements keep states matched, as long as what happens in them is allowed. -/
def Keeps (c : Comparison) (levels levels' : Nat) : Prop :=
  ∀ (stack : List String) (s s' : Evaluation) (node : Node), c.Leveled stack levels levels' →
    c.Matched stack s s' → (visit c.one levels s node).journal.Holds c.Allowed →
      c.Matched stack (visit c.one levels s node) (visit c.other levels' s' node)

/-- Whether they do one level deeper, if there is one in both. -/
def KeepsBelow (c : Comparison) (levels levels' : Nat) : Prop :=
  ∀ l l', levels = l + 1 → levels' = l' + 1 → c.Keeps l l'

theorem Keeps.foldl (hkeeps : c.Keeps levels levels') (hlevels : c.Leveled stack levels levels')
    (own : Bool) {nodes : List Node} : ∀ {s s' : Evaluation}, c.Matched stack s s' →
      (nodes.foldl (visitOrKeep own (visit c.one levels)) s).journal.Holds c.Allowed →
        c.Matched stack (nodes.foldl (visitOrKeep own (visit c.one levels)) s)
          (nodes.foldl (visitOrKeep own (visit c.other levels')) s') := by
  have hgrows : Visit.Continuing (visitOrKeep own (visit c.one levels)) := by
    intro s node
    rw [visitOrKeep_journal]
    exact visit_continues levels s node
  induction nodes with
  | nil => exact fun h _ => h
  | cons node nodes ih =>
    intro s s' h hallowed
    have hearlier := hallowed.of_continues (foldl_continues hgrows nodes _)
    rw [visitOrKeep_journal] at hearlier
    have hnode : c.Matched stack (visitOrKeep own (visit c.one levels) s node)
        (visitOrKeep own (visit c.other levels') s' node) := by
      cases own with
      | false => exact hkeeps stack s s' node hlevels h hearlier
      | true =>
        rw [← visit_origin levels s node s.current] at hearlier
        have hvisit := hkeeps stack s s' { node with origin := s.current } hlevels h hearlier
        simp only [visitOrKeep, if_true, keep, h.current]
        exact { hvisit with
          resources := { hvisit.resources with
            nodes := congrArg (· ++ _) hvisit.resources.nodes } }
    exact ih hnode hallowed

/-- A file starts alike in the two compilations. -/
theorem start_matched (h : c.Journals j j') (stack : List String) (file : Descriptor) :
    c.Matched (stack ++ [file.path]) (start file stack j) (start (c.file file) stack j') where
  current := rfl
  stack := rfl
  stack' := rfl
  included := rfl
  assigning := rfl
  resources := .empty c file
  journals := h

theorem start_run_matched (hkeeps : c.Keeps levels levels') (h : c.Journals j j')
    (document : Document) {file : Descriptor}
    (hlevels : c.Leveled (stack ++ [file.path]) levels levels')
    (hallowed : ((start file stack j).run (visit c.one levels) document).journal.Holds c.Allowed) :
    c.Matched (stack ++ [file.path]) ((start file stack j).run (visit c.one levels) document)
      ((start (c.file file) stack j').run (visit c.other levels') document) :=
  hkeeps.foldl hlevels true ((start_matched h stack file).withNotes file.path document.notes)
    hallowed

/-- A document that is compiled inside others is evaluated alike from the start of its file. -/
theorem run_matched (hkeeps : c.Keeps levels levels') (h : c.Matched stack s s')
    (document : Document) {file : Descriptor}
    (hlevels : c.Leveled (stack ++ [file.path]) levels levels')
    (hallowed : ((start file s.stack s.journal).run (visit c.one levels) document).journal.Holds
      c.Allowed) :
    c.Matched (stack ++ [file.path])
      ((start file s.stack s.journal).run (visit c.one levels) document)
      ((start (c.file file) s'.stack s'.journal).run (visit c.other levels') document) := by
  rw [h.stack] at hallowed ⊢
  rw [h.stack']
  exact start_run_matched hkeeps h.journals document hlevels hallowed

theorem compileNested_matched (hc : c.Lawful) (hkeeps : c.KeepsBelow levels levels')
    (hlevels : c.Leveled stack levels levels') (h : c.Matched stack s s') (target : String)
    (hallowed : (s.compileNested c.one (below c.one levels) target).2.journal.Holds c.Allowed) :
    c.Results (fun done done' => c.Resources done.1 done'.1 ∧ done.2 = done'.2)
        (s.compileNested c.one (below c.one levels) target).1
        (s'.compileNested c.other (below c.other levels') target).1 ∧
      c.Matched stack (s.compileNested c.one (below c.one levels) target).2
        (s'.compileNested c.other (below c.other levels') target).2 := by
  have htried := hallowed.of_continues (compileNested_continues (continuing_below levels) s target)
  have hrecord : c.Matched stack (s.record (.nest target)) (s'.record (.nest target)) :=
    h.record (.nest target)
  rcases enter_matched hc hlevels h htried with
    ⟨e, henter, henter'⟩ | ⟨l, l', rfl, rfl, henter, henter'⟩
  · simp only [compileNested, henter, henter']
    exact ⟨.error (.inl rfl), hrecord⟩
  · obtain ⟨hread, ht⟩ := readText_matched hc hrecord target
      (hallowed.of_continues (compileNested_reads (visit_continues l) henter))
    unfold compileNested at hallowed ⊢
    rw [henter] at hallowed ⊢
    rw [henter']
    dsimp only at hallowed ⊢
    generalize (s.record (.nest target)).readText c.one target = a,
      (s'.record (.nest target)).readText c.other target = a' at hread ht hallowed ⊢
    obtain ⟨found, t⟩ := a
    obtain ⟨found', t'⟩ := a'
    have ht : c.Matched stack t t' := ht
    cases hread with
    | error he => exact ⟨.error he, ht⟩
    | @ok found _ hfound =>
      obtain ⟨file, text⟩ := found
      subst hfound
      simp only [ofScannedText_other hc] at hallowed ⊢
      cases hparsed : Document.ofScannedText c.one.options text with
      | error e => exact ⟨.error (.inl rfl), ht⟩
      | ok document =>
        rw [hparsed] at hallowed
        have hnested := run_matched (hkeeps l l' rfl rfl) ht document (hlevels.opened file.path)
          hallowed
        exact ⟨.ok ⟨hnested.resources, rfl⟩, { ht with journals := hnested.journals }⟩

/-! ## Values that open documents -/

theorem bindVariables_agree (hc : c.Lawful) (hkeeps : c.KeepsBelow levels levels')
    (hlevels : c.Leveled stack levels levels') (h : c.Matched stack s s') (raw : String)
    (line : Nat)
    (hallowed : (s.bindVariables c.one (below c.one levels) raw line).2.journal.Holds c.Allowed) :
    (c.lockstep stack).Agree (s.bindVariables c.one (below c.one levels) raw line)
      (s'.bindVariables c.other (below c.other levels') raw line) := by
  rw [bindVariables_journal] at hallowed
  obtain ⟨hcompiled, ht⟩ := compileNested_matched hc hkeeps hlevels h _ hallowed
  unfold bindVariables
  dsimp only
  rw [h.current]
  generalize s.compileNested c.one (below c.one levels) (Path.resolve s.current raw) = a,
    s'.compileNested c.other (below c.other levels') (Path.resolve s.current raw) = a'
    at hcompiled ht ⊢
  obtain ⟨compiled, t⟩ := a
  obtain ⟨compiled', t'⟩ := a'
  have ht : c.Matched stack t t' := ht
  cases hcompiled with
  | error he =>
    dsimp only
    rw [ht.current]
    exact ⟨.error (he.ofNested hc _ line t.current), ht⟩
  | @ok done done' hdone =>
    obtain ⟨nested, text⟩ := done
    obtain ⟨nested', text'⟩ := done'
    obtain ⟨hnested, rfl⟩ := hdone
    have hnested : c.Resources nested nested' := hnested
    have hfile : nested'.file.path = nested.file.path := by
      rw [hnested.file]
      rfl
    have hbound : c.Resources
        ((t.resource.absorb nested).withDependency ⟨t.assigning, line, text, nested.file.path⟩)
        ((t'.resource.absorb nested').withDependency
          ⟨t'.assigning, line, text, nested'.file.path⟩) := by
      rw [ht.assigning, hfile]
      exact (ht.resources.absorb hnested).withDependency _
    exact ⟨.ok (.obj hnested.vars), { ht with resources := hbound }⟩

/-- **An atom comes out alike**, whatever it opens. -/
theorem atomsAgree (hc : c.Lawful) (hkeeps : c.KeepsBelow levels levels')
    (hlevels : c.Leveled stack levels levels') :
    (c.lockstep stack).AtomsAgree c.one c.other c.Allowed (fun _ => True) (below c.one levels)
      (below c.other levels') := by
  intro line a _ s s' h hallowed
  have h : c.Matched stack s s' := h
  cases a with
  | string text => exact h.agree_ok (.str (hc.texts_refl _))
  | number n => exact h.agree_ok (Json.similar_refl hc.texts_refl _)
  | boolean b => exact h.agree_ok (.bool b)
  | component selector =>
    obtain ⟨hv, ht⟩ := component_matched hc h selector
    exact ht.agree_ok hv
  | reference name => exact reference_agree h _ _ line name
  | url path => exact copyUrl_agree hc h path line hallowed
  | content path => exact copyContent_agree hc h path line hallowed
  | dictionary path => exact bindVariables_agree hc hkeeps hlevels h path line hallowed

/-! ## Statements -/

theorem visitAssignment_matched (hc : c.Lawful) (hkeeps : c.KeepsBelow levels levels')
    (hlevels : c.Leveled stack levels levels') (h : c.Matched stack s s') (key : String) (v : Value)
    (hallowed : (s.visitAssignment c.one (below c.one levels) key v).journal.Holds c.Allowed) :
    c.Matched stack (s.visitAssignment c.one (below c.one levels) key v)
      (s'.visitAssignment c.other (below c.other levels') key v) := by
  have hassigning : c.Matched stack { s with assigning := some key }
      { s' with assigning := some key } := { h with assigning := rfl }
  rw [visitAssignment_journal] at hallowed
  have hvalue := Lockstep.resolve_agree (continuing_below levels) (atomsAgree hc hkeeps hlevels) v
    v.forall_trivial hassigning hallowed
  unfold visitAssignment
  generalize resolve c.one (below c.one levels) v { s with assigning := some key } = a,
    resolve c.other (below c.other levels') v { s' with assigning := some key } = a' at hvalue ⊢
  obtain ⟨outcome, t⟩ := a
  obtain ⟨outcome', t'⟩ := a'
  obtain ⟨houtcomes, ht⟩ := hvalue
  have ht : c.Matched stack t t' := ht
  have hdone : c.Matched stack { t with assigning := none } { t' with assigning := none } :=
    { ht with assigning := rfl }
  cases houtcomes with
  | error hd => exact hdone.withError hd
  | ok hjson =>
    obtain ⟨hresources, hblocked⟩ := ht.resources.assign key hjson
    dsimp only
    generalize t.resource.assign key _ = assigned, t'.resource.assign key _ = assigned'
      at hresources hblocked ⊢
    obtain ⟨r, blocked⟩ := assigned
    obtain ⟨r', blocked'⟩ := assigned'
    cases hblocked
    have hset : c.Matched stack { t with assigning := none, resource := r }
        { t' with assigning := none, resource := r' } := { hdone with resources := hresources }
    cases blocked with
    | none => exact hset
    | some blocked =>
      refine hset.withError ?_
      rw [hdone.here]
      exact .same _

theorem Matched.withInclusion (h : c.Matched stack s s') (file : Descriptor) (text : String)
    (line : Nat) :
    c.Matched stack (s.withInclusion file text line)
      (s'.withInclusion (c.file file) text line) := by
  have hdependency : ∀ {t t' : Evaluation}, c.Matched stack t t' → ∀ d : Dependency,
      c.Matched stack { t with resource := t.resource.withDependency d }
        { t' with resource := t'.resource.withDependency d } :=
    fun ht d => { ht with resources := ht.resources.withDependency d }
  unfold Evaluation.withInclusion
  dsimp only
  by_cases hmem : file.path ∈ s.included
  · have hmem' : (c.file file).path ∈ s'.included := by rwa [h.included]
    rw [if_pos hmem, if_pos hmem', h.here]
    exact hdependency (h.withWarning _) _
  · have hmem' : (c.file file).path ∉ s'.included := by rwa [h.included]
    have hadded : c.Matched stack { s with included := s.included ++ [file.path] }
        { s' with included := s'.included ++ [file.path] } :=
      { h with included := congrArg (· ++ [file.path]) h.included }
    rw [if_neg hmem, if_neg hmem']
    exact hdependency hadded _

/-- Inside a document that is included, states are matched as they were before. -/
theorem Matched.inside (h : c.Matched stack s s') (visit visit' : Visit) (file : Descriptor)
    (document : Document) :
    c.Matched (stack ++ [file.path]) (Inclusion.inside ⟨visit, file, document, s⟩)
      (Inclusion.inside ⟨visit', c.file file, document, s'⟩) := by
  have hnoted := h.withNotes file.path document.notes
  exact { hnoted with
    current := rfl
    stack := congrArg (· ++ [file.path]) h.stack
    stack' := congrArg (· ++ [file.path]) h.stack' }

/-- **A document is included in both compilations or in none.** -/
theorem visitInclusion_matched (hc : c.Lawful) (hkeeps : c.KeepsBelow levels levels')
    (hlevels : c.Leveled stack levels levels') (h : c.Matched stack s s') (raw : String)
    (line : Nat)
    (hallowed : (s.visitInclusion c.one (below c.one levels) raw line).journal.Holds c.Allowed) :
    c.Matched stack (s.visitInclusion c.one (below c.one levels) raw line)
      (s'.visitInclusion c.other (below c.other levels') raw line) := by
  have htried := hallowed.of_continues
    (visitInclusion_continues (continuing_below levels) s raw line)
  have hrecord : c.Matched stack (s.record (.nest (Path.resolve s.current raw)))
      (s'.record (.nest (Path.resolve s.current raw))) := h.record (.nest _)
  rcases enter_matched hc hlevels h htried with
    ⟨e, henter, henter'⟩ | ⟨l, l', rfl, rfl, henter, henter'⟩
  · simp only [visitInclusion, openInclusion, h.current, henter, henter']
    rw [hrecord.here]
    exact hrecord.withError (.same _)
  · obtain ⟨hread, ht⟩ := readText_matched hc hrecord (Path.resolve s.current raw)
      (hallowed.of_continues (visitInclusion_reads (visit_continues l) line henter))
    unfold visitInclusion openInclusion at hallowed ⊢
    dsimp only at hallowed ⊢
    rw [henter] at hallowed ⊢
    rw [h.current, henter']
    dsimp only at hallowed ⊢
    generalize (s.record (.nest (Path.resolve s.current raw))).readText c.one
        (Path.resolve s.current raw) = a,
      (s'.record (.nest (Path.resolve s.current raw))).readText c.other
        (Path.resolve s.current raw) = a' at hread ht hallowed ⊢
    obtain ⟨found, t⟩ := a
    obtain ⟨found', t'⟩ := a'
    have ht : c.Matched stack t t' := ht
    cases hread with
    | error he =>
      dsimp only
      refine ht.withError ?_
      rw [ht.here]
      exact he.shown line t.current _
    | @ok found _ hfound =>
      obtain ⟨file, text⟩ := found
      subst hfound
      have hbefore := ht.withInclusion file text line
      simp only [ofScannedText_other hc] at hallowed ⊢
      cases hparsed : Document.ofScannedText c.one.options text with
      | error e =>
        refine hbefore.withError ?_
        rw [hbefore.current]
        exact .same _
      | ok document =>
        rw [hparsed] at hallowed
        have hinside := hbefore.inside (visit c.one l) (visit c.other l') file document
        have hdone := (hkeeps l l' rfl rfl).foldl (hlevels.opened file.path) false hinside hallowed
        exact { hdone with
          current := hbefore.current
          stack := (congrArg List.dropLast hdone.stack).trans List.dropLast_concat
          stack' := (congrArg List.dropLast hdone.stack').trans List.dropLast_concat }

theorem visitExtension_matched (hc : c.Lawful) (hkeeps : c.KeepsBelow levels levels')
    (hlevels : c.Leveled stack levels levels') (h : c.Matched stack s s') (raw : String)
    (line : Nat)
    (hallowed : (s.visitExtension c.one (below c.one levels) raw line).journal.Holds c.Allowed) :
    c.Matched stack (s.visitExtension c.one (below c.one levels) raw line)
      (s'.visitExtension c.other (below c.other levels') raw line) := by
  rw [visitExtension_journal] at hallowed
  obtain ⟨hcompiled, ht⟩ := compileNested_matched hc hkeeps hlevels h _ hallowed
  unfold visitExtension
  dsimp only
  rw [h.current]
  generalize s.compileNested c.one (below c.one levels) (Path.resolve s.current raw) = a,
    s'.compileNested c.other (below c.other levels') (Path.resolve s.current raw) = a'
    at hcompiled ht ⊢
  obtain ⟨compiled, t⟩ := a
  obtain ⟨compiled', t'⟩ := a'
  have ht : c.Matched stack t t' := ht
  cases hcompiled with
  | error he =>
    dsimp only
    rw [ht.current]
    exact ht.withError (he.ofNested hc _ line t.current)
  | ok hdone =>
    obtain ⟨hnested, -⟩ := hdone
    exact { ht with resources := (ht.resources.absorb hnested).inherit hnested.vars }

/-- A statement keeps states matched if those one level deeper do. -/
theorem visitWith_keeps (hc : c.Lawful) (hkeeps : c.KeepsBelow levels levels') :
    c.Keeps levels levels' := by
  intro stack s s' node hlevels h hallowed
  rw [visit_eq] at hallowed ⊢
  rw [visit_eq]
  unfold visitWith at hallowed ⊢
  cases hnode : node.statement with
  | comment => exact h
  | assignment key v =>
    rw [hnode] at hallowed
    exact visitAssignment_matched hc hkeeps hlevels h key v hallowed
  | inclusion path =>
    rw [hnode] at hallowed
    exact visitInclusion_matched hc hkeeps hlevels h path node.line hallowed
  | extension path =>
    rw [hnode] at hallowed
    exact visitExtension_matched hc hkeeps hlevels h path node.line hallowed

/-- **A statement keeps states matched**, as long as what happens in it is allowed. -/
theorem visit_matched (hc : c.Lawful) : ∀ levels levels', c.Keeps levels levels'
  | 0, _ => visitWith_keeps hc fun _ _ h _ => by cases h
  | levels + 1, _ => visitWith_keeps hc fun l l' h _ => by
    cases h
    exact visit_matched hc levels l'

/-! ## Whole compilations -/

/-- The document that a compilation starts with is the same. -/
theorem firstDocument_matched (hc : c.Lawful) (h : c.Journals j j') (request : Request)
    (hallowed : (c.one.firstDocument request j).2.Holds c.Allowed) :
    c.Results (fun found found' => found' = (c.file found.1, found.2))
        (c.one.firstDocument request j).1 (c.other.firstDocument (c.request request) j').1 ∧
      c.Journals (c.one.firstDocument request j).2
        (c.other.firstDocument (c.request request) j').2 := by
  have hparse : ∀ (file : Descriptor) (text : String),
      c.Results (fun found found' => found' = (c.file found.1, found.2)) (c.one.parseAt file text)
        (c.other.parseAt (c.file file) text) := by
    intro file text
    unfold Context.parseAt
    rw [ofScannedText_other hc]
    cases Document.ofScannedText c.one.options text with
    | error e => exact .error (.inl rfl)
    | ok document => exact .ok rfl
  cases request with
  | text file text => exact ⟨hparse file text, h⟩
  | path path version =>
    have hread : (c.one.library.askText [] path version j).2.Holds c.Allowed → _ :=
      askText_matched hc h
    unfold Context.firstDocument at hallowed ⊢
    dsimp only [Comparison.request] at hallowed ⊢
    generalize c.one.library.askText [] path version j = a,
      c.other.library.askText [] path (c.version version) j' = a' at hread hallowed ⊢
    obtain ⟨found, k⟩ := a
    obtain ⟨found', k'⟩ := a'
    cases found with
    | error e =>
      obtain ⟨hfound, hasked⟩ := hread hallowed
      cases hfound with
      | error he => exact ⟨.error he, hasked⟩
    | ok found =>
      obtain ⟨file, text⟩ := found
      obtain ⟨hfound, hasked⟩ := hread hallowed
      cases hfound with
      | ok hfound =>
        subst hfound
        exact ⟨hparse file text, hasked⟩

/-- **Two compilations come out alike and ask for the same**, as long as what happens in the first
is allowed. -/
theorem outcome_matched (hc : c.Lawful) (h : c.Journals j j') (request : Request)
    (hallowed : (c.one.outcome request j).2.Holds c.Allowed) :
    c.Results c.Resources (c.one.outcome request j).1 (c.other.outcome (c.request request) j').1 ∧
      c.Journals (c.one.outcome request j).2 (c.other.outcome (c.request request) j').2 := by
  rw [Context.outcome_eq] at hallowed ⊢
  rw [Context.outcome_eq]
  have hfirst := firstDocument_matched hc h request
  unfold Context.outcomeWithin at hallowed ⊢
  generalize c.one.firstDocument request j = a, c.other.firstDocument (c.request request) j' = a'
    at hfirst hallowed ⊢
  obtain ⟨found, k⟩ := a
  obtain ⟨found', k'⟩ := a'
  cases found with
  | error e =>
    obtain ⟨hfound, hasked⟩ := hfirst hallowed
    cases hfound with
    | error he => exact ⟨.error he, hasked⟩
  | ok found =>
    obtain ⟨file, document⟩ := found
    have hgrows : Visit.Continuing (visit c.one (c.one.options.maxDepth - 1)) := visit_continues _
    have hrun := run_continues hgrows document (start file [] k)
    obtain ⟨hfound, hasked⟩ := hfirst (hallowed.of_continues hrun)
    cases hfound with
    | ok hfound =>
      subst hfound
      have hlevels : c.Leveled ([] ++ [file.path]) (c.one.options.maxDepth - 1)
          (c.other.options.maxDepth - 1) := by
        constructor
        · rw [List.nil_append, List.length_singleton]
          omega
        · rw [List.nil_append, List.length_singleton]
          omega
      have hdone := start_run_matched (visit_matched hc _ _) hasked document hlevels hallowed
      exact ⟨.ok hdone.resources, hdone.journals⟩

/-! ## Compilations at one version -/

section OneVersion

variable {one other : Context} {first first' : Nat} {faults : Error → Error → Prop}
variable {allowed : List String → Event → Prop}

/-- Two compilations that are made at the same versions and draw their own identifiers. -/
def atOneVersion (one other : Context) (first first' : Nat) (faults : Error → Error → Prop)
    (allowed : List String → Event → Prop) : Comparison :=
  ⟨one, other, id, first, first', Json.SameText first first', faults, allowed⟩

theorem atOneVersion_request (request : Request) :
    (atOneVersion one other first first' faults allowed).request request = request := by
  cases request <;> rfl

theorem atOneVersion_call : (atOneVersion one other first first' faults allowed).call = id := by
  funext call
  cases call <;> rfl

theorem Results.alikeBut {a a' : Except Error Resource}
    (h : (atOneVersion one other first first' faults allowed).Results
      (atOneVersion one other first first' faults allowed).Resources a a') :
    Resource.OutcomesAlikeBut faults first first' a a' := by
  cases h with
  | ok h => exact .ok { h with vars := h.vars.alike, own := h.own.alike }
  | error he =>
    rcases he with rfl | he
    · exact .error _
    · exact .fault he

/-- **Compilations at one version come out alike and ask for the same**, as long as what happens in
the first is allowed. -/
theorem outcome_alikeBut (hc : (atOneVersion one other first first' faults allowed).Lawful)
    (request : Request) (hallowed : (one.outcome request (.empty first)).2.Holds allowed) :
    Resource.OutcomesAlikeBut faults first first' (one.outcome request (.empty first)).1
        (other.outcome request (.empty first')).1 ∧
      (other.outcome request (.empty first')).2.calls =
        (one.outcome request (.empty first)).2.calls := by
  obtain ⟨hresults, hjournals⟩ := outcome_matched hc (.empty _) request hallowed
  have hcalls := hjournals.calls
  rw [atOneVersion_call, List.map_id] at hcalls
  rw [atOneVersion_request] at hresults hcalls
  exact ⟨hresults.alikeBut, hcalls⟩

end OneVersion

end Comparison

end Courseware
