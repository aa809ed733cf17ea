/-
The order in which a compilation reads files.

While a document is evaluated, the files that its own directives name are asked
for in the order in which the document holds the directives, and whatever those
files ask for comes in between, with more files open. That is the order of the
text as long as no object of the document repeats a key
(`outcome_reads_in_order`). An object that does is a dictionary with the last
value at the place of the first one, and so are its directives
(`outcome_reads_repeated_key`).

Every point of a compilation lies on the way to its end: when the task of a
point is finished, the compilation goes on from there (`continues_of_point`).
-/
import Courseware.Proofs.Evaluation.Questions

namespace Courseware

open Journal

namespace Evaluation

variable {ctx : Context} {request : Request} {journal : Journal} {levels : Nat} {s : Evaluation}

/-! ## Tasks that are finished -/

/-- The state after a task. -/
def finish (ctx : Context) (levels : Nat) (s : Evaluation) : Task → Evaluation
  | .statements own nodes => nodes.foldl (visitOrKeep own (visit ctx levels)) s
  | .value v => (resolve ctx (below ctx levels) v s).2
  | .items items => (resolveItems ctx (below ctx levels) items s).2
  | .entries entries => (resolveEntries ctx (below ctx levels) entries s).2

/-- A nested document that is evaluated is evaluated to its end. -/
theorem Nests.compileNested {target : String} {n : Nested} (h : Nests ctx s target n)
    (visit : Visit) : s.compileNested ctx (some visit) target =
      (.ok (((n.start s.stack).run visit n.document).resource, n.text),
        { s with journal := ((n.start s.stack).run visit n.document).journal }) := by
  unfold Evaluation.compileNested
  rw [enter_closed visit h.closed]
  dsimp only
  rw [h.read]
  dsimp only
  rw [h.parsed]
  rfl

/-- After a statement the journal goes on with the statements that follow. -/
theorem visit_continues_foldl (ctx : Context) (levels : Nat) (s : Evaluation) (own : Bool)
    (node : Node) (nodes : List Node) : (visit ctx levels s node).journal.Continues
      ((node :: nodes).foldl (visitOrKeep own (visit ctx levels)) s).journal := by
  have hgrows : Visit.Continuing (visitOrKeep own (visit ctx levels)) := by
    intro t node
    rw [visitOrKeep_journal]
    exact visit_continues levels t node
  have hnodes := foldl_continues hgrows nodes (visitOrKeep own (visit ctx levels) s node)
  rw [visitOrKeep_journal] at hnodes
  exact hnodes

/-- **A compilation goes on from each of its points**, once the task there is finished. -/
theorem continues_of_point {task : Task} (h : Point ctx request journal levels s task) :
    (finish ctx levels s task).journal.Continues (ctx.outcome request journal).2 := by
  induction h with
  | @start file document j h =>
    rw [Context.outcome_eq, Context.outcomeWithin, h]
    exact GoesOn.refl
      ((start file [] j).run (visit ctx (ctx.options.maxDepth - 1)) document).journal
  | next _ ih => exact ih
  | @assigned levels s own node nodes key v _ hnode ih =>
    have hvisit : (visit ctx levels s node).journal =
        (resolve ctx (below ctx levels) v { s with assigning := some key }).2.journal := by
      rw [visit_eq, visitWith, hnode]
      exact visitAssignment_journal _ _ _ _ _
    have hafter := visit_continues_foldl ctx levels s own node nodes
    rw [hvisit] at hafter
    exact hafter.trans ih
  | @inclusion levels s own node nodes raw i _ hnode hopen ih =>
    have hdeeper : i.deeper = visit ctx levels :=
      (Option.some.inj (openInclusion_opens hopen).1).symm
    have hvisit : (visit ctx (levels + 1) s node).journal =
        (i.document.nodes.foldl (visit ctx levels) i.inside).journal := by
      rw [visit_eq, visitWith, hnode]
      simp only [below, visitInclusion, hopen, hdeeper]
    have hafter := visit_continues_foldl ctx (levels + 1) s own node nodes
    rw [hvisit] at hafter
    exact hafter.trans ih
  | @extension levels s own node nodes raw n _ hnode hopen ih =>
    have hvisit : (visit ctx (levels + 1) s node).journal =
        ((n.start s.stack).run (visit ctx levels) n.document).journal := by
      rw [visit_eq, visitWith, hnode]
      simp only [below, visitExtension_journal, hopen.compileNested]
    have hafter := visit_continues_foldl ctx (levels + 1) s own node nodes
    rw [hvisit] at hafter
    exact hafter.trans ih
  | dictionary _ hopen ih =>
    simp only [finish, below, resolve, resolveAtom, bindVariables_journal,
      hopen.compileNested] at ih
    exact ih
  | array _ ih =>
    simp only [finish, resolve] at ih
    exact ih
  | @item levels s v items _ ih =>
    have hafter : (resolve ctx (below ctx levels) v s).2.journal.Continues
        (finish ctx levels s (.items (v :: items))).journal := by
      rw [finish, resolveItems_cons, ← settled_journal]
      exact resolveItems_continues (continuing_below levels) items _
    exact hafter.trans ih
  | nextItem _ ih =>
    simp only [finish, resolveItems_cons] at ih
    exact ih
  | object _ ih =>
    simp only [finish, resolve] at ih
    exact ih
  | @entry levels s key v entries _ ih =>
    have hafter : (resolve ctx (below ctx levels) v s).2.journal.Continues
        (finish ctx levels s (.entries ((key, v) :: entries))).journal := by
      rw [finish, resolveEntries_cons, ← settled_journal]
      exact resolveEntries_continues (continuing_below levels) entries _
    exact hafter.trans ih
  | nextEntry _ ih =>
    simp only [finish, resolveEntries_cons] at ih
    exact ih

end Evaluation

/-! ## Files that are read -/

/-- The path that a question asks to locate, if it asks for that. -/
def Call.located? : Call → Option String
  | .locate path _ => some path
  | .content _ | .url _ _ => none

/-- The files that the library was asked to locate, each with those that were open. -/
def Journal.reads (j : Journal) : List (List String × String) :=
  j.questions.filterMap fun (stack, call) => call.located?.map (stack, ·)

/-- How a file that is asked for appears among them. -/
def Asked.read (a : Asked) : List String × String := (a.stack, a.path)

/-- A file that is asked for is located once. -/
theorem Asked.filterMap_questions (ctx : Context) (a : Asked) :
    (a.questions ctx).filterMap (fun (stack, call) => call.located?.map (stack, ·)) =
      [a.read] := by
  unfold questions
  cases ctx.library.locate a.path a.version with
  | error e => rfl
  | ok file =>
    dsimp only
    split <;> rfl

theorem Journal.Asks.reads {ctx : Context} {files : List Asked} {j j' : Journal}
    (h : j.Asks ctx files j') : j'.reads = j.reads ++ files.map Asked.read := by
  unfold Asks at h
  rw [Journal.reads, h, List.filterMap_append, List.filterMap_flatMap]
  simp only [Asked.filterMap_questions, ← List.map_eq_flatMap]
  rfl

theorem Journal.Continues.reads {j j' : Journal} (h : j.Continues j') :
    ∃ after, j'.reads = j.reads ++ after := by
  obtain ⟨events, hevents, -⟩ := h
  simp only [Journal.reads, questions, hevents, List.filterMap_append]
  exact ⟨_, rfl⟩

/-- The paths among reads with certain files open. -/
def readsAt (stack : List String) (reads : List (List String × String)) : List String :=
  (reads.filter fun read => read.1 = stack).map Prod.snd

@[simp] theorem readsAt_append (stack : List String) (reads reads' : List (List String × String)) :
    readsAt stack (reads ++ reads') = readsAt stack reads ++ readsAt stack reads' := by
  simp [readsAt]

namespace Site

/-- Whether a directive is followed: it is unless it opens a document that is open already, or one
for which there is no level left. -/
def follows (p : Site) (levels : Nat) (d : Directive × String) : Bool :=
  ¬ d.1.opens ∨ (p.target d.2 ∉ p.stack ∧ 0 < levels)

/-- The files that directives name, if they are followed. -/
def named (p : Site) (levels : Nat) (directives : List (Directive × String)) : List String :=
  (directives.filter (p.follows levels)).map fun d => p.target d.2

theorem named_append (p : Site) (levels : Nat) (ds ds' : List (Directive × String)) :
    p.named levels (ds ++ ds') = p.named levels ds ++ p.named levels ds' := by
  simp [named]

end Site

namespace Evaluation

variable {ctx : Context} {request : Request} {journal : Journal} {levels : Nat} {s : Evaluation}

/-- All that is asked because of directives is asked with the files open that are open there. -/
theorem asked_stack (levels : Nat) (p : Site) (nodes : List Node) :
    ∀ a ∈ asked ctx levels p nodes, p.stack <+: a.stack := by
  refine forall_asked (P := fun q => p.stack <+: q.stack) (fun q _ _ hq => hq) ?_ levels p nodes
    List.prefix_rfl
  exact fun q _ _ file _ hq _ => hq.trans (List.prefix_append _ _)

/-- In a document that is opened, nothing is read with as few files open as where it was opened. -/
theorem readsAt_askedIn (levels : Nat) (p : Site) (d : Directive)
    (found : Except Error (Descriptor × Document)) :
    readsAt p.stack ((askedIn (asked ctx levels) (p.inside d) found).map Asked.read) = [] := by
  refine List.map_eq_nil_iff.mpr (List.filter_eq_nil_iff.mpr fun read hread => ?_)
  obtain ⟨a, ha, rfl⟩ := List.mem_map.mp hread
  obtain ⟨file, document, -, ha⟩ := mem_askedIn ha
  have hstack : p.stack ++ [file.path] <+: a.stack := asked_stack levels _ _ a ha
  have hlength := hstack.length_le
  rw [List.length_append, List.length_singleton] at hlength
  intro heq
  have heq : a.stack = p.stack := of_decide_eq_true heq
  rw [heq] at hlength
  omega

/-- Where a directive stands, just its own file is read, if the directive is followed. -/
theorem readsAt_follow (levels : Nat) (p : Site) (d : Directive × String) :
    readsAt p.stack ((follow ctx (askedBelow ctx levels) p d).map Asked.read) =
      p.named levels [d] := by
  obtain ⟨d, raw⟩ := d
  cases hopens : d.opens with
  | false =>
    simp [follow_of_not_opens hopens, Site.named, Site.follows, hopens, Site.asks, readsAt,
      Asked.read]
  | true =>
    by_cases hmem : p.target raw ∈ p.stack
    · simp [follow_of_mem hopens hmem, Site.named, Site.follows, hopens, hmem, readsAt]
    · cases levels with
      | zero => simp [askedBelow, follow_none hopens, Site.named, Site.follows, hopens, readsAt]
      | succ l =>
        have hown : readsAt p.stack [(p.asks d raw).read] = [p.target raw] := by
          simp [readsAt, Asked.read, Site.asks]
        rw [askedBelow, follow_some hopens hmem, List.map_cons, ← List.singleton_append,
          readsAt_append, readsAt_askedIn, hown]
        simp [Site.named, Site.follows, hopens, hmem]

/-- Where directives stand, just their own files are read. -/
theorem readsAt_asked (levels : Nat) (p : Site) (nodes : List Node) :
    readsAt p.stack ((asked ctx levels p nodes).map Asked.read) =
      p.named levels (Node.directives nodes) := by
  rw [asked_eq]
  induction Node.directives nodes with
  | nil => rfl
  | cons d ds ih =>
    rw [List.flatMap_cons, List.map_append, readsAt_append, ih, readsAt_follow, ← Site.named_append]
    rfl

/-- **The files that a document names are read in order.** Whenever the statements of a document are
about to be evaluated in the course of a compilation, the reads with just the files open that are
open there, until the statements are done, are those of the directives that are followed, in the
order in which the document holds them; all others come with more files open. If the document
deserves no warning, that is the order of its text. -/
theorem outcome_reads_in_order {own : Bool} {document : Document} {text : String}
    (h : Point ctx request journal levels s (.statements own document.nodes))
    (hparsed : Document.ofScannedText ctx.options text = .ok document) :
    ∃ during after,
      (finish ctx levels s (.statements own document.nodes)).journal.reads =
        s.journal.reads ++ during ∧
      (ctx.outcome request journal).2.reads = s.journal.reads ++ during ++ after ∧
      (∀ read ∈ during, s.stack <+: read.1) ∧
      readsAt s.stack during = s.site.named levels document.directives ∧
      (document.notes = [] → ∃ tokens,
        Token.ofText? ctx.options.componentStart text = .ok tokens ∧
        readsAt s.stack during = s.site.named levels (Token.directives tokens)) := by
  have hasked : (finish ctx levels s (.statements own document.nodes)).journal.reads =
      s.journal.reads ++ (asked ctx levels s.site document.nodes).map Asked.read :=
    (foldl_asks ctx levels own document.nodes s).reads
  obtain ⟨after, hafter⟩ := (continues_of_point h).reads
  have hreads : readsAt s.stack ((asked ctx levels s.site document.nodes).map Asked.read) =
      s.site.named levels document.directives := readsAt_asked levels s.site document.nodes
  refine ⟨_, after, hasked, hasked ▸ hafter, ?_, hreads, fun hnotes => ?_⟩
  · intro read hread
    obtain ⟨a, ha, rfl⟩ := List.mem_map.mp hread
    exact asked_stack levels s.site document.nodes a ha
  · obtain ⟨tokens, htokens, hdirectives⟩ := Document.directives_of_notes hparsed hnotes
    exact ⟨tokens, htokens, hdirectives ▸ hreads⟩

/-- A text that includes a file and copies from two others. -/
def copyingText : String := "@include b\nx = [@copyurl p, @copycontent q]"

/-- The file that it includes, which copies from another one. -/
def copyingFiles : Memory := ⟨"r", [⟨"/b", Memory.latest, "y = @copyurl c".toUTF8⟩]⟩

/-- The text deserves no warning, so it has its files read in the order of its tokens, and that of
the included file comes in between. -/
theorem outcome_reads_in_order_value :
    ∃ (s : Evaluation) (document : Document) (tokens : List Token) (during after : _),
    Point ⟨copyingFiles.library, {}⟩ (.text ⟨"r", "v", "/m"⟩ copyingText) (.empty 0) 31 s
      (.statements true document.nodes) ∧
    Document.ofScannedText {} copyingText = .ok document ∧ document.notes = [] ∧
    Token.ofText? "wc-" copyingText = .ok tokens ∧
    (Context.outcome ⟨copyingFiles.library, {}⟩ (.text ⟨"r", "v", "/m"⟩ copyingText)
      (.empty 0)).2.reads = during ++ after ∧
    readsAt ["/m"] during =
      (Site.first ⟨"r", "v", "/m"⟩).named 31 (Token.directives tokens) ∧
    readsAt ["/m"] during = ["/b", "/p", "/q"] ∧
    (["/m", "/b"], "/c") ∈ during ++ after := by
  have hnotes : (Document.ofScannedText {} copyingText).toOption.map Document.notes = some [] := by
    decide +kernel
  have hdirectives : (Token.ofText? "wc-" copyingText).toOption.map Token.directives =
      some [(.inclusion, "b"), (.url, "p"), (.content, "q")] := by decide +kernel
  cases hparsed : Document.ofScannedText {} copyingText with
  | error e =>
    rw [hparsed] at hnotes
    cases hnotes
  | ok document =>
    rw [hparsed] at hnotes
    have hnotes : document.notes = [] := Option.some.inj hnotes
    have hfirst : Context.firstDocument ⟨copyingFiles.library, {}⟩
        (.text ⟨"r", "v", "/m"⟩ copyingText) (.empty 0) =
          (.ok (⟨"r", "v", "/m"⟩, document), .empty 0) := by
      rw [Context.firstDocument, Context.parseAt, hparsed]
      rfl
    obtain ⟨during, after, -, hreads, -, -, hordered⟩ :=
      outcome_reads_in_order (.start hfirst) hparsed
    obtain ⟨tokens, htokens, hat⟩ := hordered hnotes
    rw [show Token.ofText? "wc-" copyingText = .ok tokens from htokens] at hdirectives
    have hdirectives : Token.directives tokens =
        [(.inclusion, "b"), (.url, "p"), (.content, "q")] := Option.some.inj hdirectives
    have hstart := withNotes_stays (start ⟨"r", "v", "/m"⟩ [] (.empty 0)) "/m" document.notes
    rw [hstart.site, hstart.stack] at hat
    rw [withNotes_journal] at hreads
    refine ⟨_, document, tokens, during, after, .start hfirst, rfl, hnotes, htokens, hreads, hat,
      hat.trans ?_, ?_⟩
    · rw [hdirectives]
      decide +kernel
    · have hall : (["/m", "/b"], "/c") ∈ (Context.outcome ⟨copyingFiles.library, {}⟩
          (.text ⟨"r", "v", "/m"⟩ copyingText) (.empty 0)).2.reads := by decide +kernel
      rw [hreads] at hall
      exact hall

/-- A text with an object whose last entry repeats the key of the first one. -/
def repeatingText : String := "x = \x7ba: @copyurl p, b: @copyurl q, a: @copyurl r\x7d"

/-- The text as a file, and the files that it names. -/
def repeating : Memory :=
  ⟨"res", [⟨"/r", Memory.latest, "R".toUTF8⟩, ⟨"/q", Memory.latest, "Q".toUTF8⟩,
    ⟨"/p", Memory.latest, "P".toUTF8⟩, ⟨"/main", Memory.latest, repeatingText.toUTF8⟩]⟩

/-- An entry that repeats a key is read before those that stand between the two, and the earlier
entry is not read. So the reads are not in the order of the text. -/
theorem outcome_reads_repeated_key :
    (Token.ofText? "wc-" repeatingText).toOption.map Token.directives =
      some [(.url, "p"), (.url, "q"), (.url, "r")] ∧
    (Context.outcome ⟨repeating.library, {}⟩ (.path "/main" Memory.latest) (.empty 0)).2.reads =
      [([], "/main"), (["/main"], "/r"), (["/main"], "/q")] ∧
    ¬ ["/r", "/q"].Sublist ((Site.first ⟨"res", Memory.latest, "/main"⟩).named 31
      [(.url, "p"), (.url, "q"), (.url, "r")]) := by
  refine ⟨?_, ?_, ?_⟩ <;> decide +kernel

end Evaluation

end Courseware
