/-
What a compilation asks of its library.

Each directive asks for the file that it names, and one that opens it goes on
with the directives of that file. Nothing else is asked, and variables do not
come into it: what is asked can be read off the documents (`asked`). An
evaluation asks just that, in that order (`foldl_asks`), and so does a whole
compilation (`Context.outcome_asks`).
-/
import Courseware.Proofs.Document.Directives
import Courseware.Proofs.Evaluation.JournalGrowth
import Courseware.Proofs.Evaluation.Refusal
import Courseware.Proofs.Library.Steady

namespace Courseware

/-- Whether a directive opens the document that it names. -/
def Directive.opens : Directive → Bool
  | .inclusion | .extension => true
  | .url | .content => false

/-- A file that is asked for, while those of `stack` are open. -/
structure Asked where
  stack : List String
  version : String
  /-- The directive that asks; none does for the document that a compilation starts with. -/
  directive : Option Directive
  path : String
  deriving DecidableEq, Repr

/-- Where directives stand: at a version, in a file, inside those that are open. -/
structure Site where
  version : String
  current : String
  stack : List String

namespace Site

/-- The path that a directive names there. -/
def target (p : Site) (raw : String) : String := Path.resolve p.current raw

/-- The file that a directive asks for. -/
def asks (p : Site) (d : Directive) (raw : String) : Asked :=
  ⟨p.stack, p.version, some d, p.target raw⟩

/-- Where the directives of a file stand that a directive opens. Those of an included one go on at
the version of the file that includes it. -/
def inside (p : Site) (d : Directive) (file : Descriptor) : Site :=
  ⟨if d = .inclusion then p.version else file.version, file.path, p.stack ++ [file.path]⟩

/-- Where the directives of a file stand that nothing has opened. -/
def first (file : Descriptor) : Site := ⟨file.version, file.path, [file.path]⟩

end Site

/-- **The questions about a file that is asked for**: where it is, and if it is somewhere, for its
address or its content. -/
def Asked.questions (ctx : Context) (a : Asked) : List (List String × Call) :=
  (a.stack, .locate a.path a.version) ::
    match ctx.library.locate a.path a.version with
    | .error _ => []
    | .ok file =>
      if a.directive = some .url then [(a.stack, .url file ctx.options.urlStart)]
      else [(a.stack, .content file)]

/-- The same without the files that are open. -/
def Asked.calls (ctx : Context) (a : Asked) : List Call := (a.questions ctx).map Prod.snd

namespace Journal

/-- The questions to the library in order, each with the files that were open. -/
def questions (j : Journal) : List (List String × Call) :=
  j.events.filterMap fun
    | (stack, .call call) => some (stack, call)
    | (_, .nest _) => none

theorem map_snd_questions (j : Journal) : j.questions.map Prod.snd = j.calls := by
  simp only [questions, calls, List.map_filterMap]
  refine List.filterMap_congr fun event _ => ?_
  obtain ⟨stack, call | target⟩ := event <;> rfl

@[simp] theorem questions_record_call (j : Journal) (stack : List String) (call : Call) :
    (j.record stack (.call call)).questions = j.questions ++ [(stack, call)] := by
  simp [questions, record]

@[simp] theorem questions_record_nest (j : Journal) (stack : List String) (target : String) :
    (j.record stack (.nest target)).questions = j.questions := by
  simp [questions, record]

end Journal

/-- **Whether a journal goes on with the questions about files**, and no others. -/
def Journal.Asks (ctx : Context) (j : Journal) (files : List Asked) (j' : Journal) : Prop :=
  j'.questions = j.questions ++ files.flatMap (Asked.questions ctx)

namespace Journal.Asks

variable {ctx : Context} {j j' j'' : Journal} {files files' : List Asked}

theorem of_events_eq (h : j'.events = j.events) : Asks ctx j [] j' := by
  simp [Asks, questions, h]

theorem refl (j : Journal) : Asks ctx j [] j := of_events_eq rfl

theorem nest (j : Journal) (stack : List String) (target : String) :
    Asks ctx j [] (j.record stack (.nest target)) := by
  simp [Asks]

theorem trans (h : Asks ctx j files j') (h' : Asks ctx j' files' j'') :
    Asks ctx j (files ++ files') j'' := by
  unfold Asks at h h' ⊢
  rw [h', h, List.flatMap_append, List.append_assoc]

protected theorem calls (h : Asks ctx j files j') :
    j'.calls = j.calls ++ files.flatMap (Asked.calls ctx) := by
  unfold Asks at h
  rw [← map_snd_questions, ← map_snd_questions, h, List.map_append, List.map_flatMap]
  rfl

end Journal.Asks

open Journal

/-- The document at a path is asked for in the same way by everything that opens it. -/
theorem Library.askText_asks (ctx : Context) (stack : List String) (path version : String)
    (j : Journal) {d : Option Directive} (hd : d ≠ some .url) :
    j.Asks ctx [⟨stack, version, d, path⟩] (ctx.library.askText stack path version j).2 := by
  simp only [Asks, askText, askLocate, askContent, List.flatMap_singleton, Asked.questions,
    if_neg hd]
  cases ctx.library.locate path version with
  | error e => simp
  | ok file =>
    dsimp only
    cases ctx.library.content file <;> simp

namespace Context

/-- The document at a path and a version, and its file. -/
def documentAt (ctx : Context) (path version : String) : Except Error (Descriptor × Document) := do
  let (file, text) ← ctx.library.readText path version
  ctx.parseAt file text

theorem documentAt_eq {ctx : Context} {path version text : String} {file : Descriptor}
    {document : Document} (hread : ctx.library.readText path version = .ok (file, text))
    (hparsed : Document.ofScannedText ctx.options text = .ok document) :
    ctx.documentAt path version = .ok (file, document) := by
  simp only [documentAt, bind, Except.bind, hread, parseAt, hparsed, Except.map]

theorem documentAt_ok {ctx : Context} {path version : String} {file : Descriptor}
    {document : Document} (h : ctx.documentAt path version = .ok (file, document)) :
    ∃ text, ctx.library.readText path version = .ok (file, text) ∧
      Document.ofScannedText ctx.options text = .ok document := by
  simp only [documentAt, bind, Except.bind, parseAt] at h
  cases hread : ctx.library.readText path version with
  | error e =>
    rw [hread] at h
    cases h
  | ok found =>
    obtain ⟨file', text⟩ := found
    rw [hread] at h
    dsimp only at h
    cases hparsed : Document.ofScannedText ctx.options text with
    | error e =>
      rw [hparsed] at h
      cases h
    | ok document' =>
      rw [hparsed] at h
      cases h
      exact ⟨text, rfl, hparsed⟩

end Context

namespace Evaluation

variable {ctx : Context}

/-! ## Reading it off the documents -/

/-- What is asked in a document, if there is one, by what goes `deeper`. -/
def askedIn (deeper : Site → List Node → List Asked) (inside : Descriptor → Site) :
    Except Error (Descriptor × Document) → List Asked
  | .error _ => []
  | .ok (file, document) => deeper (inside file) document.nodes

theorem mem_askedIn {deeper : Site → List Node → List Asked} {inside : Descriptor → Site}
    {found : Except Error (Descriptor × Document)} {a : Asked}
    (h : a ∈ askedIn deeper inside found) :
    ∃ file document, found = .ok (file, document) ∧ a ∈ deeper (inside file) document.nodes := by
  rcases found with e | ⟨file, document⟩
  · cases h
  · exact ⟨file, document, rfl, h⟩

/-- What is asked because of a directive, with what goes on in the documents one level deeper. -/
def follow (ctx : Context) (deeper : Option (Site → List Node → List Asked)) (p : Site) :
    Directive × String → List Asked
  | (d, raw) =>
    if d.opens then
      if p.target raw ∈ p.stack then []
      else
        match deeper with
        | none => []
        | some deeper =>
          p.asks d raw :: askedIn deeper (p.inside d) (ctx.documentAt (p.target raw) p.version)
    else [p.asks d raw]

/-- **What statements ask for**, with some levels of documents below them. -/
def asked (ctx : Context) : (levels : Nat) → Site → List Node → List Asked
  | 0, p, nodes => (Node.directives nodes).flatMap (follow ctx none p)
  | levels + 1, p, nodes => (Node.directives nodes).flatMap (follow ctx (some (asked ctx levels)) p)

/-- What is asked in the documents below. -/
def askedBelow (ctx : Context) : (levels : Nat) → Option (Site → List Node → List Asked)
  | 0 => none
  | levels + 1 => some (asked ctx levels)

theorem asked_eq (levels : Nat) (p : Site) (nodes : List Node) :
    asked ctx levels p nodes =
      (Node.directives nodes).flatMap (follow ctx (askedBelow ctx levels) p) := by
  cases levels <;> rfl

section Follow

variable {d : Directive} {raw : String} {p : Site}

theorem follow_of_not_opens (h : d.opens = false)
    (deeper : Option (Site → List Node → List Asked)) :
    follow ctx deeper p (d, raw) = [p.asks d raw] := by
  simp [follow, h]

/-- A document that is open is not asked for. -/
theorem follow_of_mem (h : d.opens = true) (hmem : p.target raw ∈ p.stack)
    (deeper : Option (Site → List Node → List Asked)) : follow ctx deeper p (d, raw) = [] := by
  simp [follow, h, hmem]

theorem follow_none (h : d.opens = true) : follow ctx none p (d, raw) = [] := by
  simp [follow, h]

theorem follow_some (h : d.opens = true) (hmem : p.target raw ∉ p.stack)
    (deeper : Site → List Node → List Asked) :
    follow ctx (some deeper) p (d, raw) =
      p.asks d raw :: askedIn deeper (p.inside d) (ctx.documentAt (p.target raw) p.version) := by
  simp [follow, h, hmem]

/-- What is asked because of a directive is its file, or is asked in the document there. -/
theorem mem_follow {a : Asked} {deeper : Option (Site → List Node → List Asked)}
    (h : a ∈ follow ctx deeper p (d, raw)) : a = p.asks d raw ∨
      ∃ more file document, deeper = some more ∧
        ctx.documentAt (p.target raw) p.version = .ok (file, document) ∧
        a ∈ more (p.inside d file) document.nodes := by
  cases hopens : d.opens with
  | false =>
    rw [follow_of_not_opens hopens] at h
    exact .inl (List.mem_singleton.mp h)
  | true =>
    by_cases hmem : p.target raw ∈ p.stack
    · rw [follow_of_mem hopens hmem] at h
      cases h
    · cases deeper with
      | none =>
        rw [follow_none hopens] at h
        cases h
      | some more =>
        rw [follow_some hopens hmem] at h
        rcases List.mem_cons.mp h with h | h
        · exact .inl h
        · obtain ⟨file, document, hfound, ha⟩ := mem_askedIn h
          exact .inr ⟨more, file, document, rfl, hfound, ha⟩

end Follow

/-- **What is asked everywhere.** If it goes on to hold of the place when a document is opened, and
holds of what directives ask for there, it holds of all that is asked. -/
theorem forall_asked {P : Site → Prop} {Q : Asked → Prop}
    (hasks : ∀ p d raw, P p → Q (p.asks d raw))
    (hinside : ∀ p d raw file document, P p →
      ctx.documentAt (p.target raw) p.version = .ok (file, document) → P (p.inside d file)) :
    ∀ (levels : Nat) (p : Site) (nodes : List Node), P p → ∀ a ∈ asked ctx levels p nodes, Q a := by
  intro levels
  induction levels with
  | zero =>
    intro p nodes hp a ha
    obtain ⟨⟨d, raw⟩, -, ha⟩ := List.mem_flatMap.mp ha
    rcases mem_follow ha with rfl | ⟨more, -, -, hmore, -⟩
    · exact hasks p d raw hp
    · cases hmore
  | succ levels ih =>
    intro p nodes hp a ha
    obtain ⟨⟨d, raw⟩, -, ha⟩ := List.mem_flatMap.mp ha
    rcases mem_follow ha with rfl | ⟨more, file, document, hmore, hfound, ha⟩
    · exact hasks p d raw hp
    · cases hmore
      exact ih _ _ (hinside p d raw file document hp hfound) a ha

/-- The place of the directives that a state evaluates. -/
def site (s : Evaluation) : Site := ⟨s.resource.file.version, s.current, s.stack⟩

theorem Stays.site {s t : Evaluation} (h : Stays s t) : t.site = s.site := by
  simp only [Evaluation.site, h.file, h.current, h.stack]

/-! ## Files that are named -/

/-- A directive is refused and asks for nothing, or it asks for its file and for what the document
there goes on with. -/
theorem enter_follow (ctx : Context) (levels : Nat) (s : Evaluation) {d : Directive}
    (hd : d.opens = true) (raw : String) :
    ((∃ e, s.enter ctx (below ctx levels) (Path.resolve s.current raw) =
        (.error e, s.record (.nest (Path.resolve s.current raw)))) ∧
      follow ctx (askedBelow ctx levels) s.site (d, raw) = []) ∨
    ∃ l, levels = l + 1 ∧
      s.enter ctx (below ctx levels) (Path.resolve s.current raw) =
        (.ok (visit ctx l), s.record (.nest (Path.resolve s.current raw))) ∧
      follow ctx (askedBelow ctx levels) s.site (d, raw) = s.site.asks d raw ::
        askedIn (asked ctx l) (s.site.inside d)
          (ctx.documentAt (Path.resolve s.current raw) s.resource.file.version) := by
  by_cases hmem : Path.resolve s.current raw ∈ s.stack
  · have hmem' : s.site.target raw ∈ s.site.stack := hmem
    exact .inl ⟨⟨_, enter_open _ hmem⟩, follow_of_mem hd hmem' _⟩
  · have hmem' : s.site.target raw ∉ s.site.stack := hmem
    cases levels with
    | zero =>
      refine .inl ⟨⟨.nesting (Path.resolve s.current raw)
        (NestingFault.tooDeep ctx.options.maxDepth).message, ?_⟩, follow_none hd⟩
      simp only [enter, if_neg hmem, below]
    | succ l => exact .inr ⟨l, rfl, enter_closed _ hmem, follow_some hd hmem' _⟩

/-- A document that is opened is read as the library has it, after its file is asked for. -/
theorem record_readText_asks (ctx : Context) (s : Evaluation) {d : Directive} (hd : d.opens = true)
    (raw : String) : ∃ journal,
      (s.record (.nest (Path.resolve s.current raw))).readText ctx (Path.resolve s.current raw) =
        (ctx.library.readText (Path.resolve s.current raw) s.resource.file.version,
          { s with journal }) ∧
      s.journal.Asks ctx [s.site.asks d raw] journal := by
  have hurl : some d ≠ some .url := by
    rintro ⟨⟩
    cases hd
  have hasked := Library.askText_asks ctx s.stack (Path.resolve s.current raw)
    s.resource.file.version (s.record (.nest (Path.resolve s.current raw))).journal hurl
  exact ⟨_, Prod.ext (ctx.library.askText_fst _ _ _ _) rfl, (Asks.nest _ _ _).trans hasked⟩

theorem copyUrl_asks (s : Evaluation) (raw : String) (line : Nat) :
    s.journal.Asks ctx [s.site.asks .url raw] (s.copyUrl ctx raw line).2.journal := by
  simp only [Journal.Asks, copyUrl, locate, Library.askLocate, Asked.questions, Site.asks,
    Site.target, site, List.flatMap_singleton]
  cases ctx.library.locate (Path.resolve s.current raw) s.resource.file.version with
  | error e => simp
  | ok file => simp [record]

theorem copyContent_asks (s : Evaluation) (raw : String) (line : Nat) :
    s.journal.Asks ctx [s.site.asks .content raw] (s.copyContent ctx raw line).2.journal := by
  simp only [Journal.Asks, copyContent, locate, Library.askLocate, content, Library.askContent,
    Asked.questions, Site.asks, Site.target, site, List.flatMap_singleton]
  cases ctx.library.locate (Path.resolve s.current raw) s.resource.file.version with
  | error e => simp
  | ok file =>
    dsimp only
    cases ctx.library.content file <;> simp

/-- Whether the statements one level deeper ask for what their directives name, if there are any. -/
def AsksBelow (ctx : Context) (levels : Nat) : Prop :=
  ∀ l, levels = l + 1 → ∀ (own : Bool) (nodes : List Node) (s : Evaluation),
    s.journal.Asks ctx (asked ctx l s.site nodes)
      (nodes.foldl (visitOrKeep own (visit ctx l)) s).journal

variable {levels l : Nat}

/-- A document that is compiled on its own is asked for like one that is inherited from. -/
theorem compileNested_asks (hbelow : AsksBelow ctx levels) (s : Evaluation) (raw : String) :
    s.journal.Asks ctx (follow ctx (askedBelow ctx levels) s.site (.extension, raw))
      (s.compileNested ctx (below ctx levels) (Path.resolve s.current raw)).2.journal := by
  unfold compileNested
  rcases enter_follow ctx levels s (d := .extension) rfl raw with
    ⟨⟨e, henter⟩, hfollow⟩ | ⟨l, rfl, henter, hfollow⟩
  · rw [henter, hfollow]
    exact .nest _ _ _
  · obtain ⟨journal, hread, hasked⟩ := record_readText_asks ctx s (d := .extension) rfl raw
    rw [henter, hfollow, Context.documentAt]
    dsimp only
    rw [hread]
    cases ctx.library.readText (Path.resolve s.current raw) s.resource.file.version with
    | error e => exact hasked
    | ok found =>
      obtain ⟨file, text⟩ := found
      simp only [bind, Except.bind, Context.parseAt]
      cases Document.ofScannedText ctx.options text with
      | error e => exact hasked
      | ok document =>
        have hrun := hbelow l rfl true document.nodes
          ((start file s.stack journal).withNotes file.path document.notes)
        rw [withNotes_journal, (withNotes_stays _ _ _).site] at hrun
        exact hasked.trans hrun

/-! ## Values -/

theorem resolveAtom_asks (hbelow : AsksBelow ctx levels) (s : Evaluation) (line : Nat) (a : Atom) :
    s.journal.Asks ctx (a.directives.flatMap (follow ctx (askedBelow ctx levels) s.site))
      (s.resolveAtom ctx (below ctx levels) line a).2.journal := by
  cases a with
  | string | number | boolean => exact .refl _
  | component selector => exact .of_events_eq rfl
  | reference name =>
    unfold resolveAtom
    dsimp only
    split <;> exact .refl _
  | url path =>
    simp only [Atom.directives, List.flatMap_singleton, follow_of_not_opens (d := .url) rfl]
    exact copyUrl_asks s path line
  | content path =>
    simp only [Atom.directives, List.flatMap_singleton, follow_of_not_opens (d := .content) rfl]
    exact copyContent_asks s path line
  | dictionary path =>
    simp only [Atom.directives, List.flatMap_singleton, resolveAtom, bindVariables_journal]
    exact compileNested_asks hbelow s path

mutual

/-- **A value asks for what its directives name.** -/
theorem resolve_asks (hbelow : AsksBelow ctx levels) : ∀ (v : Value) (s : Evaluation),
    s.journal.Asks ctx (v.directives.flatMap (follow ctx (askedBelow ctx levels) s.site))
      (resolve ctx (below ctx levels) v s).2.journal
  | .atom line a, s => resolveAtom_asks hbelow s line a
  | .array _ items, s => by
    simp only [resolve, Value.directives]
    exact resolveItems_asks hbelow items s
  | .object _ entries, s => by
    simp only [resolve, Value.directives]
    exact resolveEntries_asks hbelow entries s

theorem resolveItems_asks (hbelow : AsksBelow ctx levels) : ∀ (items : List Value) (s : Evaluation),
    s.journal.Asks ctx
      ((Value.itemsDirectives items).flatMap (follow ctx (askedBelow ctx levels) s.site))
      (resolveItems ctx (below ctx levels) items s).2.journal
  | [], s => .refl _
  | v :: items, s => by
    have hv := resolve_asks hbelow v s
    have hitems := resolveItems_asks hbelow items (settled (resolve ctx (below ctx levels) v s))
    rw [settled_journal, (settled_stays v s).site] at hitems
    rw [resolveItems_cons, Value.itemsDirectives, List.flatMap_append]
    exact hv.trans hitems

theorem resolveEntries_asks (hbelow : AsksBelow ctx levels) :
    ∀ (entries : List (String × Value)) (s : Evaluation),
      s.journal.Asks ctx
        ((Value.entriesDirectives entries).flatMap (follow ctx (askedBelow ctx levels) s.site))
        (resolveEntries ctx (below ctx levels) entries s).2.journal
  | [], s => .refl _
  | (_, v) :: entries, s => by
    have hv := resolve_asks hbelow v s
    have hentries := resolveEntries_asks hbelow entries
      (settled (resolve ctx (below ctx levels) v s))
    rw [settled_journal, (settled_stays v s).site] at hentries
    rw [resolveEntries_cons, Value.entriesDirectives, List.flatMap_append]
    exact hv.trans hentries

end

/-! ## Statements -/

theorem inside_site {α : Type} (i : Inclusion α) :
    i.inside.site = i.before.site.inside .inclusion i.file := by
  obtain ⟨hfile, hcurrent, hstack⟩ := inside_place i
  simp only [site, Site.inside, hfile, hcurrent, hstack, if_true]

/-- The statements of a document that is included ask for what its directives name. -/
theorem included_asks (hbelow : AsksBelow ctx (l + 1)) (s : Evaluation) (journal : Journal)
    (file : Descriptor) (text : String) (line : Nat) (document : Document) :
    journal.Asks ctx (asked ctx l (s.site.inside .inclusion file) document.nodes)
      (document.nodes.foldl (visit ctx l) (Inclusion.inside ⟨visit ctx l, file, document,
        { s with journal }.withInclusion file text line⟩)).journal := by
  have hstatements := hbelow l rfl false document.nodes (Inclusion.inside ⟨visit ctx l, file,
    document, { s with journal }.withInclusion file text line⟩)
  have hbefore : ({ s with journal }.withInclusion file text line).site = s.site :=
    (withInclusion_stays { s with journal } file text line).site
  have hjournal : (Inclusion.inside ⟨visit ctx l, file, document,
      { s with journal }.withInclusion file text line⟩).journal = journal :=
    (withNotes_journal _ _ _).trans (withInclusion_journal _ _ _ _)
  rw [inside_site, hbefore, hjournal] at hstatements
  exact hstatements

theorem visitInclusion_asks (hbelow : AsksBelow ctx levels) (s : Evaluation) (raw : String)
    (line : Nat) :
    s.journal.Asks ctx (follow ctx (askedBelow ctx levels) s.site (.inclusion, raw))
      (s.visitInclusion ctx (below ctx levels) raw line).journal := by
  unfold visitInclusion openInclusion
  dsimp only
  rcases enter_follow ctx levels s (d := .inclusion) rfl raw with
    ⟨⟨e, henter⟩, hfollow⟩ | ⟨l, rfl, henter, hfollow⟩
  · rw [henter, hfollow]
    exact .nest _ _ _
  · obtain ⟨journal, hread, hasked⟩ := record_readText_asks ctx s (d := .inclusion) rfl raw
    rw [henter, hfollow, Context.documentAt]
    dsimp only
    rw [hread]
    cases ctx.library.readText (Path.resolve s.current raw) s.resource.file.version with
    | error e => exact hasked
    | ok found =>
      obtain ⟨file, text⟩ := found
      simp only [bind, Except.bind, Context.parseAt]
      cases Document.ofScannedText ctx.options text with
      | error e =>
        simp only [withError, withInclusion_journal]
        exact hasked
      | ok document => exact hasked.trans (included_asks hbelow s journal file text line document)

/-- A statement asks for what its directives name, if those one level deeper do. -/
theorem visit_asks (hbelow : AsksBelow ctx levels) (s : Evaluation) (node : Node) :
    s.journal.Asks ctx
      (node.statement.directives.flatMap (follow ctx (askedBelow ctx levels) s.site))
      (visit ctx levels s node).journal := by
  rw [visit_eq]
  unfold visitWith
  cases node.statement with
  | comment => exact .refl _
  | assignment key v =>
    dsimp only
    rw [visitAssignment_journal]
    exact resolve_asks hbelow v { s with assigning := some key }
  | inclusion path =>
    simp only [Statement.directives, List.flatMap_singleton]
    exact visitInclusion_asks hbelow s path node.line
  | extension path =>
    simp only [Statement.directives, List.flatMap_singleton, visitExtension_journal]
    exact compileNested_asks hbelow s path

theorem foldl_asks_of_below (hbelow : AsksBelow ctx levels) (own : Bool) (nodes : List Node)
    (s : Evaluation) :
    s.journal.Asks ctx (asked ctx levels s.site nodes)
      (nodes.foldl (visitOrKeep own (visit ctx levels)) s).journal := by
  rw [asked_eq]
  induction nodes generalizing s with
  | nil => exact .refl _
  | cons node nodes ih =>
    have hnode := visit_asks hbelow s node
    have hnodes := ih (visitOrKeep own (visit ctx levels) s node)
    rw [visitOrKeep_journal, (visitOrKeep_stays own levels s node).site] at hnodes
    rw [Node.directives_cons, List.flatMap_append]
    exact hnode.trans hnodes

theorem asksBelow : ∀ levels, AsksBelow ctx levels
  | 0 => fun _ h => by cases h
  | levels + 1 => fun l h => by
    cases h
    exact foldl_asks_of_below (asksBelow levels)

/-- **Statements ask for what their directives name**, in the order in which they hold them, and the
documents that are opened likewise, each after its file. -/
theorem foldl_asks (ctx : Context) (levels : Nat) (own : Bool) (nodes : List Node)
    (s : Evaluation) : s.journal.Asks ctx (asked ctx levels s.site nodes)
      (nodes.foldl (visitOrKeep own (visit ctx levels)) s).journal :=
  foldl_asks_of_below (asksBelow levels) own nodes s

end Evaluation

/-! ## Compilations -/

namespace Context

/-- What the document that a compilation starts with asks for. -/
def askedFirst (ctx : Context) : Except Error (Descriptor × Document) → List Asked :=
  Evaluation.askedIn (Evaluation.asked ctx (ctx.options.maxDepth - 1)) .first

/-- **What a compilation asks for**: the document that it starts with, unless its text is given, and
then what that document names. -/
def asked (ctx : Context) : Request → List Asked
  | .path path version =>
    ⟨[], version, none, path⟩ :: ctx.askedFirst (ctx.documentAt path version)
  | .text file text => ctx.askedFirst (ctx.parseAt file text)

theorem run_asks (ctx : Context) (file : Descriptor) (document : Document) (journal : Journal) :
    journal.Asks ctx (ctx.askedFirst (.ok (file, document)))
      ((Evaluation.start file [] journal).run
        (Evaluation.visit ctx (ctx.options.maxDepth - 1)) document).journal := by
  have hrun := Evaluation.foldl_asks ctx (ctx.options.maxDepth - 1) true document.nodes
    ((Evaluation.start file [] journal).withNotes file.path document.notes)
  rw [Evaluation.withNotes_journal, (Evaluation.withNotes_stays _ _ _).site] at hrun
  exact hrun

/-- **A compilation asks its library for this and nothing else.** -/
theorem outcome_asks (ctx : Context) (request : Request) (journal : Journal) :
    journal.Asks ctx (ctx.asked request) (ctx.outcome request journal).2 := by
  rw [outcome_eq]
  unfold outcomeWithin
  cases request with
  | text file text =>
    simp only [firstDocument, asked]
    cases ctx.parseAt file text with
    | error e => exact .refl _
    | ok found => exact ctx.run_asks found.1 found.2 journal
  | path path version =>
    have hasked := Library.askText_asks ctx [] path version journal (d := none) (by simp)
    have hfound := ctx.library.askText_fst [] path version journal
    simp only [firstDocument, asked, documentAt, ← hfound]
    generalize ctx.library.askText [] path version journal = r at hasked ⊢
    obtain ⟨e | ⟨file, text⟩, j⟩ := r
    · exact hasked
    · simp only [bind, Except.bind]
      cases ctx.parseAt file text with
      | error e => exact hasked
      | ok found => exact hasked.trans (ctx.run_asks found.1 found.2 j)

end Context

end Courseware
