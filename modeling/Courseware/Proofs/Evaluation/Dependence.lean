/-
A compilation depends on what it asks for.

Two libraries that agree on the files that a compilation over the first one asks
for cannot be told apart by it: the compilation over the second one asks for the
same, records the same and comes out the same (`Context.outcome_agree`). A write
to a library in memory changes nothing but the files at its normal path, so a
compilation that asks for none of them does not notice it
(`Context.outcome_insert`).
-/
import Courseware.Proofs.Evaluation.Levels
import Courseware.Proofs.Evaluation.Questions

namespace Courseware

/-- Whether another library has the same to say about a file that is asked for. -/
structure Asked.Agrees (library library' : Library) (a : Asked) : Prop where
  located : library'.locate a.path a.version = library.locate a.path a.version
  content (file : Descriptor) (h : library.locate a.path a.version = .ok file) :
    library'.content file = library.content file

/-- Whether it has about files. -/
def AgreeOn (library library' : Library) (files : List Asked) : Prop :=
  ∀ a ∈ files, a.Agrees library library'

/-- The same compilation over another library. -/
def Context.over (ctx : Context) (library : Library) : Context := { ctx with library }

variable {ctx : Context} {library : Library}

@[simp] theorem Context.over_options : (ctx.over library).options = ctx.options := rfl

theorem AgreeOn.append {library' : Library} {files files' : List Asked}
    (h : AgreeOn library library' (files ++ files')) :
    AgreeOn library library' files ∧ AgreeOn library library' files' :=
  List.forall_mem_append.mp h

/-- A document about which libraries agree is read alike. -/
theorem Asked.Agrees.askText {a : Asked} (h : a.Agrees ctx.library library) (j : Journal) :
    library.askText a.stack a.path a.version j =
      ctx.library.askText a.stack a.path a.version j := by
  simp only [Library.askText, Library.askLocate, Library.askContent, h.located]
  cases hlocate : ctx.library.locate a.path a.version with
  | error e => rfl
  | ok file => simp only [h.content file hlocate]

namespace Evaluation

variable {levels : Nat}

/-! ## Files that are named -/

theorem copyUrl_agree {s : Evaluation} {raw : String}
    (h : (s.site.asks .url raw).Agrees ctx.library library) (line : Nat) :
    s.copyUrl (ctx.over library) raw line = s.copyUrl ctx raw line := by
  have hlocated : library.locate (Path.resolve s.current raw) s.resource.file.version =
      ctx.library.locate (Path.resolve s.current raw) s.resource.file.version := h.located
  simp only [copyUrl, locate, Library.askLocate, Context.over, hlocated]

theorem copyContent_agree {s : Evaluation} {raw : String}
    (h : (s.site.asks .content raw).Agrees ctx.library library) (line : Nat) :
    s.copyContent (ctx.over library) raw line = s.copyContent ctx raw line := by
  have hlocated : library.locate (Path.resolve s.current raw) s.resource.file.version =
      ctx.library.locate (Path.resolve s.current raw) s.resource.file.version := h.located
  simp only [copyContent, locate, Library.askLocate, Context.over, hlocated]
  cases hfile : ctx.library.locate (Path.resolve s.current raw) s.resource.file.version with
  | error e => rfl
  | ok file => simp only [content, Library.askContent, h.content file hfile]

theorem readText_agree {s : Evaluation} {d : Directive} {raw : String}
    (h : (s.site.asks d raw).Agrees ctx.library library) :
    (s.record (.nest (Path.resolve s.current raw))).readText (ctx.over library)
        (Path.resolve s.current raw) =
      (s.record (.nest (Path.resolve s.current raw))).readText ctx
        (Path.resolve s.current raw) := by
  have hread := h.askText (s.record (.nest (Path.resolve s.current raw))).journal
  exact congrArg (fun r : Except Error (Descriptor × String) × Journal =>
    (r.1, { s with journal := r.2 })) hread

/-- A document that a directive opens is read alike, and the libraries agree on what its own
directives ask for. -/
theorem opened_agree {l : Nat} {s : Evaluation} {d : Directive} {raw : String} (hd : d.opens = true)
    (hmem : s.site.target raw ∉ s.site.stack) (h : AgreeOn ctx.library library
      (follow ctx (askedBelow ctx (l + 1)) s.site (d, raw))) :
    (∃ journal,
      (s.record (.nest (Path.resolve s.current raw))).readText (ctx.over library)
          (Path.resolve s.current raw) =
        (ctx.library.readText (Path.resolve s.current raw) s.resource.file.version,
          { s with journal }) ∧
      (s.record (.nest (Path.resolve s.current raw))).readText ctx (Path.resolve s.current raw) =
        (ctx.library.readText (Path.resolve s.current raw) s.resource.file.version,
          { s with journal })) ∧
    ∀ file text document,
      ctx.library.readText (Path.resolve s.current raw) s.resource.file.version = .ok (file, text) →
        Document.ofScannedText ctx.options text = .ok document →
          AgreeOn ctx.library library (asked ctx l (s.site.inside d file) document.nodes) := by
  rw [askedBelow, follow_some hd hmem] at h
  obtain ⟨hfile, hinner⟩ := List.forall_mem_cons.mp h
  obtain ⟨journal, hread, -⟩ := record_readText_asks ctx s hd raw
  refine ⟨⟨journal, (readText_agree hfile).trans hread, hread⟩, ?_⟩
  intro file text document hfound hparsed
  have hdocument : ctx.documentAt (s.site.target raw) s.site.version = .ok (file, document) :=
    Context.documentAt_eq hfound hparsed
  rw [hdocument] at hinner
  exact hinner

/-- Whether the statements one level deeper come out alike over another library that agrees on what
they ask for, if there are any. -/
def AgreesBelow (ctx : Context) (library : Library) (levels : Nat) : Prop :=
  ∀ l, levels = l + 1 → ∀ (own : Bool) (nodes : List Node) (s : Evaluation),
    AgreeOn ctx.library library (asked ctx l s.site nodes) →
      nodes.foldl (visitOrKeep own (visit (ctx.over library) l)) s =
        nodes.foldl (visitOrKeep own (visit ctx l)) s

theorem compileNested_agree (hbelow : AgreesBelow ctx library levels) {s : Evaluation}
    {raw : String} (h : AgreeOn ctx.library library
      (follow ctx (askedBelow ctx levels) s.site (.extension, raw))) :
    s.compileNested (ctx.over library) (below (ctx.over library) levels)
        (Path.resolve s.current raw) =
      s.compileNested ctx (below ctx levels) (Path.resolve s.current raw) := by
  by_cases hmem : Path.resolve s.current raw ∈ s.stack
  · rw [compileNested_open _ hmem, compileNested_open _ hmem]
  · have hmem' : s.site.target raw ∉ s.site.stack := hmem
    cases levels with
    | zero => simp only [compileNested, enter, if_neg hmem, below, Context.over]
    | succ l =>
      obtain ⟨⟨journal, hread', hread⟩, hinner⟩ := opened_agree rfl hmem' h
      unfold compileNested
      rw [below, below, enter_closed _ hmem, enter_closed _ hmem]
      dsimp only
      rw [hread', hread]
      cases hfound : ctx.library.readText (Path.resolve s.current raw) s.resource.file.version with
      | error e => rfl
      | ok found =>
        obtain ⟨file, text⟩ := found
        dsimp only [Context.over_options]
        cases hparsed : Document.ofScannedText ctx.options text with
        | error e => rfl
        | ok document =>
          have hrun := hbelow l rfl true document.nodes
            ((start file s.stack journal).withNotes file.path document.notes) (by
              rw [(withNotes_stays _ _ _).site]
              exact hinner file text document hfound hparsed)
          exact congrArg (fun nested : Evaluation => (Except.ok (nested.resource, text),
            { s with journal := nested.journal })) hrun

/-! ## Values -/

theorem bindVariables_agree (hbelow : AgreesBelow ctx library levels) {s : Evaluation}
    {raw : String} (h : AgreeOn ctx.library library
      (follow ctx (askedBelow ctx levels) s.site (.extension, raw))) (line : Nat) :
    s.bindVariables (ctx.over library) (below (ctx.over library) levels) raw line =
      s.bindVariables ctx (below ctx levels) raw line := by
  simp only [bindVariables, compileNested_agree hbelow h]

theorem resolveAtom_agree (hbelow : AgreesBelow ctx library levels) {s : Evaluation} {a : Atom}
    (h : AgreeOn ctx.library library
      (a.directives.flatMap (follow ctx (askedBelow ctx levels) s.site))) (line : Nat) :
    s.resolveAtom (ctx.over library) (below (ctx.over library) levels) line a =
      s.resolveAtom ctx (below ctx levels) line a := by
  cases a with
  | string | number | boolean | component | reference => simp only [resolveAtom]
  | url path =>
    rw [Atom.directives, List.flatMap_singleton, follow_of_not_opens rfl] at h
    simp only [resolveAtom, copyUrl_agree (h _ (List.mem_singleton_self _))]
  | content path =>
    rw [Atom.directives, List.flatMap_singleton, follow_of_not_opens rfl] at h
    simp only [resolveAtom, copyContent_agree (h _ (List.mem_singleton_self _))]
  | dictionary path =>
    rw [Atom.directives, List.flatMap_singleton] at h
    simp only [resolveAtom, bindVariables_agree hbelow h]

mutual

/-- **A value comes out alike** over a library that agrees on what it asks for. -/
theorem resolve_agree (hbelow : AgreesBelow ctx library levels) : ∀ (v : Value) (s : Evaluation),
    AgreeOn ctx.library library
      (v.directives.flatMap (follow ctx (askedBelow ctx levels) s.site)) →
      resolve (ctx.over library) (below (ctx.over library) levels) v s =
        resolve ctx (below ctx levels) v s
  | .atom line _, _ => fun h => by simp only [resolve, resolveAtom_agree hbelow h line]
  | .array _ items, s => fun h => by simp only [resolve, resolveItems_agree hbelow items s h]
  | .object _ entries, s => fun h => by simp only [resolve, resolveEntries_agree hbelow entries s h]

theorem resolveItems_agree (hbelow : AgreesBelow ctx library levels) :
    ∀ (items : List Value) (s : Evaluation), AgreeOn ctx.library library
      ((Value.itemsDirectives items).flatMap (follow ctx (askedBelow ctx levels) s.site)) →
      resolveItems (ctx.over library) (below (ctx.over library) levels) items s =
        resolveItems ctx (below ctx levels) items s
  | [], _ => fun _ => by simp only [resolveItems]
  | v :: items, s => fun h => by
    rw [Value.itemsDirectives, List.flatMap_append] at h
    obtain ⟨hv, hitems⟩ := h.append
    have hplace : Stays s (settled (resolve ctx (below ctx levels) v s)) := settled_stays v s
    rw [← hplace.site] at hitems
    exact resolveItems_cons_congr (resolve_agree hbelow v s hv)
      (resolveItems_agree hbelow items _ hitems)

theorem resolveEntries_agree (hbelow : AgreesBelow ctx library levels) :
    ∀ (entries : List (String × Value)) (s : Evaluation), AgreeOn ctx.library library
      ((Value.entriesDirectives entries).flatMap (follow ctx (askedBelow ctx levels) s.site)) →
      resolveEntries (ctx.over library) (below (ctx.over library) levels) entries s =
        resolveEntries ctx (below ctx levels) entries s
  | [], _ => fun _ => by simp only [resolveEntries]
  | (key, v) :: entries, s => fun h => by
    rw [Value.entriesDirectives, List.flatMap_append] at h
    obtain ⟨hv, hentries⟩ := h.append
    have hplace : Stays s (settled (resolve ctx (below ctx levels) v s)) := settled_stays v s
    rw [← hplace.site] at hentries
    exact resolveEntries_cons_congr key (resolve_agree hbelow v s hv)
      (resolveEntries_agree hbelow entries _ hentries)

end

/-! ## Statements -/

theorem visitInclusion_agree (hbelow : AgreesBelow ctx library levels) {s : Evaluation}
    {raw : String} (h : AgreeOn ctx.library library
      (follow ctx (askedBelow ctx levels) s.site (.inclusion, raw))) (line : Nat) :
    s.visitInclusion (ctx.over library) (below (ctx.over library) levels) raw line =
      s.visitInclusion ctx (below ctx levels) raw line := by
  unfold visitInclusion openInclusion
  dsimp only
  by_cases hmem : Path.resolve s.current raw ∈ s.stack
  · rw [enter_open _ hmem, enter_open _ hmem]
  · have hmem' : s.site.target raw ∉ s.site.stack := hmem
    cases levels with
    | zero => simp only [enter, if_neg hmem, below, Context.over]
    | succ l =>
      obtain ⟨⟨journal, hread', hread⟩, hinner⟩ := opened_agree rfl hmem' h
      rw [below, below, enter_closed _ hmem, enter_closed _ hmem]
      dsimp only
      rw [hread', hread]
      cases hfound : ctx.library.readText (Path.resolve s.current raw) s.resource.file.version with
      | error e => rfl
      | ok found =>
        obtain ⟨file, text⟩ := found
        dsimp only [Context.over_options]
        cases hparsed : Document.ofScannedText ctx.options text with
        | error e => rfl
        | ok document =>
          have hbefore : ({ s with journal }.withInclusion file text line).site = s.site :=
            (withInclusion_stays { s with journal } file text line).site
          have hstatements := hbelow l rfl false document.nodes (Inclusion.inside ⟨visit ctx l,
            file, document, { s with journal }.withInclusion file text line⟩) (by
              rw [inside_site, hbefore]
              exact hinner file text document hfound hparsed)
          simp only [visitOrKeep, Bool.false_eq_true, if_false, Inclusion.inside] at hstatements ⊢
          rw [hstatements]

/-- A statement comes out alike if those one level deeper do. -/
theorem visit_agree (hbelow : AgreesBelow ctx library levels) {s : Evaluation} {node : Node}
    (h : AgreeOn ctx.library library
      (node.statement.directives.flatMap (follow ctx (askedBelow ctx levels) s.site))) :
    visit (ctx.over library) levels s node = visit ctx levels s node := by
  rw [visit_eq, visit_eq]
  unfold visitWith
  cases hnode : node.statement with
  | comment => rfl
  | assignment key v =>
    rw [hnode] at h
    have hv : resolve (ctx.over library) (below (ctx.over library) levels) v
        { s with assigning := some key } =
          resolve ctx (below ctx levels) v { s with assigning := some key } :=
      resolve_agree hbelow v _ h
    simp only [visitAssignment, hv]
  | inclusion path =>
    rw [hnode, Statement.directives, List.flatMap_singleton] at h
    exact visitInclusion_agree hbelow h node.line
  | extension path =>
    rw [hnode, Statement.directives, List.flatMap_singleton] at h
    simp only [visitExtension, compileNested_agree hbelow h]

theorem foldl_agree_of_below (hbelow : AgreesBelow ctx library levels) (own : Bool)
    (nodes : List Node) (s : Evaluation)
    (h : AgreeOn ctx.library library (asked ctx levels s.site nodes)) :
    nodes.foldl (visitOrKeep own (visit (ctx.over library) levels)) s =
      nodes.foldl (visitOrKeep own (visit ctx levels)) s := by
  rw [asked_eq] at h
  induction nodes generalizing s with
  | nil => rw [List.foldl_nil, List.foldl_nil]
  | cons node nodes ih =>
    rw [Node.directives_cons, List.flatMap_append] at h
    obtain ⟨hnode, hnodes⟩ := h.append
    have hvisit : visitOrKeep own (visit (ctx.over library) levels) s node =
        visitOrKeep own (visit ctx levels) s node :=
      visitOrKeep_congr own node fun _ => visit_agree hbelow hnode
    rw [← (visitOrKeep_stays own levels s node).site] at hnodes
    rw [List.foldl_cons, List.foldl_cons, hvisit]
    exact ih _ hnodes

theorem agreesBelow : ∀ levels, AgreesBelow ctx library levels
  | 0 => fun _ h => by cases h
  | levels + 1 => fun l h => by
    cases h
    exact foldl_agree_of_below (agreesBelow levels)

/-- **Statements come out alike** over a library that agrees on what they ask for. -/
theorem foldl_agree (levels : Nat) (own : Bool) (nodes : List Node) (s : Evaluation)
    (h : AgreeOn ctx.library library (asked ctx levels s.site nodes)) :
    nodes.foldl (visitOrKeep own (visit (ctx.over library) levels)) s =
      nodes.foldl (visitOrKeep own (visit ctx levels)) s :=
  foldl_agree_of_below (agreesBelow levels) own nodes s h

end Evaluation

/-! ## Compilations -/

namespace Context

theorem run_agree {file : Descriptor} {document : Document}
    (h : AgreeOn ctx.library library (ctx.askedFirst (.ok (file, document)))) (journal : Journal) :
    (Evaluation.start file [] journal).run
        (Evaluation.visit (ctx.over library) (ctx.options.maxDepth - 1)) document =
      (Evaluation.start file [] journal).run
        (Evaluation.visit ctx (ctx.options.maxDepth - 1)) document := by
  refine Evaluation.foldl_agree _ true document.nodes
    ((Evaluation.start file [] journal).withNotes file.path document.notes) ?_
  rw [(Evaluation.withNotes_stays _ _ _).site]
  exact h

/-- **A compilation depends on what it asks for**: over a library that agrees on that, it is the
same. -/
theorem outcome_agree {request : Request} (h : AgreeOn ctx.library library (ctx.asked request))
    (journal : Journal) :
    (ctx.over library).outcome request journal = ctx.outcome request journal := by
  rw [outcome_eq, outcome_eq]
  unfold outcomeWithin
  cases request with
  | text file text =>
    have hparse : (ctx.over library).parseAt file text = ctx.parseAt file text := rfl
    simp only [firstDocument, asked, hparse] at h ⊢
    cases hfound : ctx.parseAt file text with
    | error e => rfl
    | ok found =>
      rw [hfound] at h
      have hrun := run_agree h journal
      exact congrArg (fun s : Evaluation => (Except.ok s.resource, s.journal)) hrun
  | path path version =>
    obtain ⟨hfirst, hrest⟩ := List.forall_mem_cons.mp h
    have hasked : (ctx.over library).library.askText [] path version journal =
        ctx.library.askText [] path version journal := hfirst.askText journal
    rw [documentAt, ← ctx.library.askText_fst [] path version journal] at hrest
    simp only [firstDocument, hasked]
    generalize ctx.library.askText [] path version journal = r at hrest ⊢
    obtain ⟨e | ⟨file, text⟩, j⟩ := r
    · rfl
    · have hparse : (ctx.over library).parseAt file text = ctx.parseAt file text := rfl
      simp only [bind, Except.bind, hparse] at hrest ⊢
      cases hfound : ctx.parseAt file text with
      | error e => rfl
      | ok found =>
        rw [hfound] at hrest
        have hrun := run_agree hrest j
        exact congrArg (fun s : Evaluation => (Except.ok s.resource, s.journal)) hrun

end Context

/-! ## Writes to memory -/

namespace Memory

variable {m : Memory} {path version : String} {bytes : ByteArray}

/-- A write leaves what stands at other paths. -/
theorem bytes?_insert_of_ne {other : String} (h : other ≠ Path.normalize path) (v : String) :
    (m.insert path version bytes).bytes? other v = m.bytes? other v := by
  have hwritten : ∀ v, (m.insert path version bytes).writtenAt? other v = m.writtenAt? other v := by
    intro v
    simp [writtenAt?, insert, Ne.symm h]
  simp only [bytes?, hwritten]

theorem insert_agrees {a : Asked} (h : Path.normalize a.path ≠ Path.normalize path) :
    a.Agrees m.library (m.insert path version bytes).library := by
  constructor
  · simp only [library_locate, locate, bytes?_insert_of_ne h]
    rfl
  · intro file hlocate
    have hfile : file.path = Path.normalize a.path := (locate_ok hlocate).2.1
    rw [← hfile] at h
    simp only [library, content, bytes?_insert_of_ne h]

end Memory

namespace Context

/-- A file that is asked for shows in the questions of a compilation. -/
theorem locate_mem_calls {request : Request} {journal : Journal} {a : Asked}
    (h : a ∈ ctx.asked request) :
    .locate a.path a.version ∈ (ctx.outcome request journal).2.calls := by
  rw [(ctx.outcome_asks request journal).calls]
  have hmem : .locate a.path a.version ∈ a.calls ctx := List.mem_cons_self
  exact List.mem_append_right _ (List.mem_flatMap.mpr ⟨a, h, hmem⟩)

/-- **A compilation over a library in memory does not notice a write** at a path whose normal form
is that of none of the paths that it asks for. Its questions and its outcome are the same, whatever
number its identifiers start at. -/
theorem outcome_insert {m : Memory} {options : Options} {request : Request} {first : Nat}
    {path version : String} {bytes : ByteArray}
    (h : ∀ asked v,
      .locate asked v ∈ (outcome ⟨m.library, options⟩ request (.empty first)).2.calls →
        Path.normalize asked ≠ Path.normalize path) (journal : Journal) :
    outcome ⟨(m.insert path version bytes).library, options⟩ request journal =
      outcome ⟨m.library, options⟩ request journal := by
  have hagree : AgreeOn m.library (m.insert path version bytes).library
      (asked ⟨m.library, options⟩ request) := fun a ha =>
    Memory.insert_agrees (h a.path a.version (locate_mem_calls ha))
  exact outcome_agree hagree journal

/-- A file that includes one that copies an address. -/
def pointing : Memory :=
  ⟨"r", [⟨"/a", Memory.latest, "@include b".toUTF8⟩,
    ⟨"/b", Memory.latest, "x = @copyurl c".toUTF8⟩]⟩

/-- It does not notice a file beside the one whose address it copies, which is not there. -/
theorem outcome_insert_beside :
    (∀ asked v,
      .locate asked v ∈ (outcome ⟨pointing.library, {}⟩ (.path "/a" "v") (.empty 0)).2.calls →
        Path.normalize asked ≠ Path.normalize "c/../d") ∧
    outcome ⟨(pointing.insert "c/../d" "v" "y".toUTF8).library, {}⟩ (.path "/a" "v") (.empty 0) =
      outcome ⟨pointing.library, {}⟩ (.path "/a" "v") (.empty 0) := by
  have hcalls : (outcome ⟨pointing.library, {}⟩ (.path "/a" "v") (.empty 0)).2.calls =
      [.locate "/a" "v", .content ⟨"r", "v", "/a"⟩, .locate "/b" "v", .content ⟨"r", "v", "/b"⟩,
        .locate "/c" "v"] := by decide +kernel
  have h : ∀ asked v,
      .locate asked v ∈ (outcome ⟨pointing.library, {}⟩ (.path "/a" "v") (.empty 0)).2.calls →
        Path.normalize asked ≠ Path.normalize "c/../d" := by
    rw [hcalls]
    intro asked v hmem
    simp only [List.mem_cons, Call.locate.injEq, reduceCtorEq, List.not_mem_nil, or_false,
      false_or] at hmem
    rcases hmem with ⟨rfl, -⟩ | ⟨rfl, -⟩ | ⟨rfl, -⟩ <;> decide +kernel
  exact ⟨h, outcome_insert h (.empty 0)⟩

end Context

end Courseware
