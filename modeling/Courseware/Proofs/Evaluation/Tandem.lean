/-
Two evaluations in tandem.

The same value, or the same document, may be evaluated at different points of two
compilations that share a library. What was recorded before is not the same then, and
neither are the identifiers that were drawn. But an evaluation only looks at where
it stands, at the variables of its document and at what the library answers. So it
comes out the same in both but for the identifiers (`Tandem.resolve_results`,
`Tandem.compileNested_results`): those that the one draws stand for those that the
other draws, each for the one at the same distance, and no other text for any but
itself. How many were drawn is part of what is compared (`Tandem.Matched`).

A document that is compiled on its own starts without variables, so it comes out
the same whatever the variables around it are. They only count where a name is
looked up (`Tandem.looksUp`).
-/
import Courseware.Identifier
import Courseware.Proofs.Document.Writing
import Courseware.Proofs.Evaluation.Points
import Courseware.Proofs.Variables.Similar

namespace Courseware.Evaluation

open Json

/-- **Two evaluations in tandem**: the numbers of the first identifiers that they may draw, and
whether they may look names up, so that the variables of their documents count. -/
structure Tandem where
  first : Nat
  first' : Nat
  looksUp : Prop

namespace Tandem

variable {p : Tandem} {drawn drawn' : Nat} {s s' : Evaluation} {ctx : Context}

/-- Whether two texts are the same, or identifiers of which so many were drawn, at the same distance
from the first ones. -/
def Texts (p : Tandem) (drawn : Nat) (text text' : String) : Prop :=
  text = text' ∨ ∃ distance < drawn,
    text = Identifier.ofNat (p.first + distance) ∧ text' = Identifier.ofNat (p.first' + distance)

theorem Texts.mono (hle : drawn ≤ drawn') (text text' : String) (h : p.Texts drawn text text') :
    p.Texts drawn' text text' :=
  h.imp_right fun ⟨distance, hlt, heq⟩ => ⟨distance, hlt.trans_le hle, heq⟩

/-- **Whether two states correspond** after so many identifiers were drawn. -/
structure Matched (p : Tandem) (drawn : Nat) (s s' : Evaluation) : Prop where
  current : s'.current = s.current
  stack : s'.stack = s.stack
  version : s'.resource.file.version = s.resource.file.version
  nextId : s.journal.nextId = p.first + drawn
  nextId' : s'.journal.nextId = p.first' + drawn
  vars : p.looksUp → EntriesSimilar (p.Texts drawn) s.resource.vars s'.resource.vars
  own : p.looksUp → EntriesSimilar (p.Texts drawn) s.resource.own s'.resource.own

/-- Whether two results are values that correspond, or errors, whatever these say. -/
inductive SameKind {ε α : Type} (values : α → α → Prop) : Except ε α → Except ε α → Prop
  | ok {a a' : α} (h : values a a') : SameKind values (.ok a) (.ok a')
  | error (e e' : ε) : SameKind values (.error e) (.error e')

/-- Whether two results are of the same kind and leave states that correspond, after more
identifiers may have been drawn. -/
def Results {ε α : Type} (p : Tandem) (drawn : Nat)
    (values : (String → String → Prop) → α → α → Prop) (r r' : Except ε α × Evaluation) : Prop :=
  ∃ drawn', drawn ≤ drawn' ∧ SameKind (values (p.Texts drawn')) r.1 r'.1 ∧
    p.Matched drawn' r.2 r'.2

namespace Matched

theorem withError (h : p.Matched drawn s s') (d d' : Diagnostic) :
    p.Matched drawn (s.withError d) (s'.withError d') :=
  { h with }

theorem withNotes (h : p.Matched drawn s s') (path : String) (notes : List Note) :
    p.Matched drawn (s.withNotes path notes) (s'.withNotes path notes) := by
  rw [withNotes_eq, withNotes_eq]
  exact { h with }

theorem withInclusion (h : p.Matched drawn s s') (file : Descriptor) (text : String) (line : Nat) :
    p.Matched drawn (s.withInclusion file text line) (s'.withInclusion file text line) := by
  obtain ⟨included, heq⟩ := s.withInclusion_eq file text line
  obtain ⟨included', heq'⟩ := s'.withInclusion_eq file text line
  rw [heq, heq']
  exact { h with }

/-- States that correspond do so after other identifiers were drawn, if as many were in both. -/
theorem withJournal (h : p.Matched drawn s s') (hle : drawn ≤ drawn') {j j' : Journal}
    (hj : j.nextId = p.first + drawn') (hj' : j'.nextId = p.first' + drawn') :
    p.Matched drawn' { s with journal := j } { s' with journal := j' } :=
  { h with
    nextId := hj, nextId' := hj'
    vars := fun hlooks => (h.vars hlooks).imp (Texts.mono hle)
    own := fun hlooks => (h.own hlooks).imp (Texts.mono hle) }

theorem results_ok {ε α : Type} {values : (String → String → Prop) → α → α → Prop} {a a' : α}
    (h : p.Matched drawn s s') (ha : values (p.Texts drawn) a a') :
    p.Results drawn values ((.ok a, s) : Except ε α × Evaluation) (.ok a', s') :=
  ⟨drawn, le_rfl, .ok ha, h⟩

theorem results_error {ε α : Type} {values : (String → String → Prop) → α → α → Prop}
    (h : p.Matched drawn s s') (e e' : ε) :
    p.Results drawn values (.error e, s) (.error e', s') :=
  ⟨drawn, le_rfl, .error e e', h⟩

/-! ## What is asked of the library -/

theorem locate (h : p.Matched drawn s s') (ctx : Context) (path : String) :
    (s'.locate ctx path).1 = (s.locate ctx path).1 ∧
      p.Matched drawn (s.locate ctx path).2 (s'.locate ctx path).2 := by
  unfold Evaluation.locate Library.askLocate
  rw [h.version]
  exact ⟨rfl, { h with }⟩

theorem content (h : p.Matched drawn s s') (ctx : Context) (file : Descriptor) :
    (s'.content ctx file).1 = (s.content ctx file).1 ∧
      p.Matched drawn (s.content ctx file).2 (s'.content ctx file).2 :=
  ⟨rfl, { h with }⟩

theorem readText (h : p.Matched drawn s s') (ctx : Context) (path : String) :
    (s'.readText ctx path).1 = (s.readText ctx path).1 ∧
      p.Matched drawn (s.readText ctx path).2 (s'.readText ctx path).2 := by
  simp only [Evaluation.readText, Library.askText, Library.askLocate, Library.askContent,
    h.version]
  cases ctx.library.locate path s.resource.file.version with
  | error e => exact ⟨rfl, { h with }⟩
  | ok file =>
    dsimp only
    cases ctx.library.content file with
    | error e => exact ⟨rfl, { h with }⟩
    | ok bytes => exact ⟨rfl, { h with }⟩

/-- A file is opened in both evaluations or in none. -/
theorem enter {α : Type} (h : p.Matched drawn s s') (ctx : Context) (deeper : Option α)
    (target : String) :
    (s'.enter ctx deeper target).1 = (s.enter ctx deeper target).1 ∧
      p.Matched drawn (s.enter ctx deeper target).2 (s'.enter ctx deeper target).2 := by
  unfold Evaluation.enter
  rw [h.stack]
  exact ⟨rfl, { h with }⟩

end Matched

/-! ## Documents -/

/-- Whether what is made of a statement keeps states matched whose variables count. -/
def Keeps (visit : Visit) : Prop :=
  ∀ (first first' drawn : Nat) (s s' : Evaluation) (node : Node),
    Matched ⟨first, first', True⟩ drawn s s' → ∃ drawn', drawn ≤ drawn' ∧
      Matched ⟨first, first', True⟩ drawn' (visit s node) (visit s' node)

/-- Whether what is made of the statements one level deeper does, if there is such a level. -/
def KeepsBelow (deeper : Option Visit) : Prop := ∀ visit, deeper = some visit → Keeps visit

variable {deeper : Option Visit} {visit : Visit} {first first' : Nat}

theorem Keeps.keep (hkeeps : Keeps visit) : Keeps (Evaluation.keep visit) := by
  intro first first' drawn s s' node h
  obtain ⟨drawn', hle, hvisit⟩ := hkeeps first first' drawn s s' { node with origin := s.current } h
  simp only [Evaluation.keep, h.current]
  exact ⟨drawn', hle, { hvisit with }⟩

theorem Keeps.foldl (hkeeps : Keeps visit) (nodes : List Node) : ∀ {drawn : Nat}
    {s s' : Evaluation}, Matched ⟨first, first', True⟩ drawn s s' → ∃ drawn', drawn ≤ drawn' ∧
      Matched ⟨first, first', True⟩ drawn' (nodes.foldl visit s) (nodes.foldl visit s') := by
  induction nodes with
  | nil => exact fun h => ⟨_, le_rfl, h⟩
  | cons node nodes ih =>
    intro drawn s s' h
    obtain ⟨next, hnext, hnode⟩ := hkeeps first first' drawn s s' node h
    obtain ⟨last, hlast, hnodes⟩ := ih hnode
    exact ⟨last, hnext.trans hlast, hnodes⟩

/-- Two evaluations of a file start without variables, so theirs count from there. -/
theorem Matched.start (h : p.Matched drawn s s') (file : Descriptor) :
    Matched ⟨p.first, p.first', True⟩ drawn (Evaluation.start file s.stack s.journal)
      (Evaluation.start file s'.stack s'.journal) where
  current := rfl
  stack := congrArg (· ++ [file.path]) h.stack
  version := rfl
  nextId := h.nextId
  nextId' := h.nextId'
  vars _ := .nil
  own _ := .nil

/-- **A document that is compiled on its own comes out the same**, whatever the variables around it
are. -/
theorem compileNested_results (ctx : Context) (hkeeps : KeepsBelow deeper)
    (h : p.Matched drawn s s') (target : String) :
    p.Results drawn (fun texts done done' => EntriesSimilar texts done.1.vars done'.1.vars)
      (s.compileNested ctx deeper target) (s'.compileNested ctx deeper target) := by
  have hentered := h.enter ctx deeper target
  unfold compileNested
  rcases henter : s.enter ctx deeper target with ⟨entered, t⟩
  rcases henter' : s'.enter ctx deeper target with ⟨entered', t'⟩
  rw [henter, henter'] at hentered
  obtain ⟨rfl, ht⟩ := hentered
  have ht : p.Matched drawn t t' := ht
  cases entered' with
  | error e => exact ht.results_error e e
  | ok visit =>
    obtain ⟨hread, hu⟩ := ht.readText ctx target
    dsimp only
    generalize t.readText ctx target = r, t'.readText ctx target = r' at hread hu ⊢
    obtain ⟨found, u⟩ := r
    obtain ⟨found', u'⟩ := r'
    cases hread
    have hu : p.Matched drawn u u' := hu
    cases found with
    | error e => exact hu.results_error e e
    | ok found =>
      obtain ⟨file, text⟩ := found
      dsimp only
      cases Document.ofScannedText ctx.options text with
      | error e => exact hu.results_error e e
      | ok document =>
        have hvisit : Keeps visit := hkeeps visit (enter_ok henter).2.1
        have hstart := (hu.start file).withNotes file.path document.notes
        obtain ⟨drawn', hle, hrun⟩ := hvisit.keep.foldl document.nodes hstart
        exact ⟨drawn', hle, .ok (hrun.vars trivial),
          hu.withJournal hle hrun.nextId hrun.nextId'⟩

/-! ## Values -/

theorem component_matched (h : p.Matched drawn s s') (selector : String) :
    Similar (p.Texts (drawn + 1)) (s.component selector).1 (s'.component selector).1 ∧
      p.Matched (drawn + 1) (s.component selector).2 (s'.component selector).2 := by
  have hid : p.Texts (drawn + 1) (Identifier.ofNat s.journal.nextId)
      (Identifier.ofNat s'.journal.nextId) :=
    .inr ⟨drawn, Nat.lt_succ_self drawn, by rw [h.nextId], by rw [h.nextId']⟩
  exact ⟨.obj (.cons (.str hid) (.cons (.str (.inl rfl)) .nil)),
    h.withJournal (Nat.le_succ drawn) (congrArg (· + 1) h.nextId) (congrArg (· + 1) h.nextId')⟩

/-- A name has similar values where variables count. -/
theorem reference_results (h : p.Matched drawn s s') (hlooks : p.looksUp) (line line' : Nat)
    (name : String) : p.Results drawn Similar (s.resolveAtom ctx deeper line (.reference name))
      (s'.resolveAtom ctx deeper line' (.reference name)) := by
  have hvalue := Variables.lookup_similar (h.vars hlooks) name
  simp only [resolveAtom, Resource.get?]
  generalize s.resource.vars.lookup name = found, s'.resource.vars.lookup name = found' at hvalue ⊢
  cases hvalue with
  | some hv => exact h.results_ok hv
  | none => exact h.results_error _ _

theorem copyUrl_results (h : p.Matched drawn s s') (raw : String) (line line' : Nat) :
    p.Results drawn Similar (s.copyUrl ctx raw line) (s'.copyUrl ctx raw line') := by
  obtain ⟨hfound, ht⟩ := h.locate ctx (Path.resolve s.current raw)
  unfold copyUrl
  rw [h.current]
  generalize s.locate ctx (Path.resolve s.current raw) = r,
    s'.locate ctx (Path.resolve s.current raw) = r' at hfound ht ⊢
  obtain ⟨found, t⟩ := r
  obtain ⟨found', t'⟩ := r'
  cases hfound
  cases found with
  | error e => exact ht.results_error _ _
  | ok file =>
    have hcalled : p.Matched drawn (t.record (.call (.url file ctx.options.urlStart)))
        (t'.record (.call (.url file ctx.options.urlStart))) := { ht with }
    exact hcalled.results_ok (.str (.inl rfl))

theorem copyContent_results (h : p.Matched drawn s s') (raw : String) (line line' : Nat) :
    p.Results drawn Similar (s.copyContent ctx raw line) (s'.copyContent ctx raw line') := by
  obtain ⟨hfound, ht⟩ := h.locate ctx (Path.resolve s.current raw)
  unfold copyContent
  dsimp only
  rw [h.current]
  generalize s.locate ctx (Path.resolve s.current raw) = r,
    s'.locate ctx (Path.resolve s.current raw) = r' at hfound ht ⊢
  obtain ⟨found, t⟩ := r
  obtain ⟨found', t'⟩ := r'
  cases hfound
  cases found with
  | error e => exact ht.results_error _ _
  | ok file =>
    obtain ⟨hread, hu⟩ := Matched.content ht ctx file
    dsimp only
    generalize t.content ctx file = r, t'.content ctx file = r' at hread hu ⊢
    obtain ⟨bytes, u⟩ := r
    obtain ⟨bytes', u'⟩ := r'
    cases hread
    cases bytes with
    | error e => exact hu.results_error _ _
    | ok bytes => exact hu.results_ok (.str (.inl rfl))

theorem bindVariables_results (hkeeps : KeepsBelow deeper) (h : p.Matched drawn s s')
    (raw : String) (line line' : Nat) :
    p.Results drawn Similar (s.bindVariables ctx deeper raw line)
      (s'.bindVariables ctx deeper raw line') := by
  have hcompiled := compileNested_results ctx hkeeps h (Path.resolve s.current raw)
  unfold bindVariables
  dsimp only
  rw [h.current]
  generalize s.compileNested ctx deeper (Path.resolve s.current raw) = r,
    s'.compileNested ctx deeper (Path.resolve s.current raw) = r' at hcompiled ⊢
  obtain ⟨compiled, t⟩ := r
  obtain ⟨compiled', t'⟩ := r'
  obtain ⟨drawn', hle, hkind, ht⟩ := hcompiled
  have ht : p.Matched drawn' t t' := ht
  cases hkind with
  | error e e' => exact ⟨drawn', hle, .error _ _, ht⟩
  | ok hvars => exact ⟨drawn', hle, .ok (.obj hvars), { ht with }⟩

/-- Whether atoms of some kind come out the same, on whatever lines they are. -/
def AtomsAgree (p : Tandem) (ctx : Context) (deeper : Option Visit) (atoms : Atom → Prop) : Prop :=
  ∀ (line line' : Nat) (a : Atom), atoms a → ∀ (drawn : Nat) (s s' : Evaluation),
    p.Matched drawn s s' → p.Results drawn Similar (s.resolveAtom ctx deeper line a)
      (s'.resolveAtom ctx deeper line' a)

/-- **Every atom comes out the same**, unless it looks a name up and variables do not count. -/
theorem atomsAgree (hkeeps : KeepsBelow deeper) :
    p.AtomsAgree ctx deeper fun a => p.looksUp ∨ ∀ name, a ≠ .reference name := by
  intro line line' a ha drawn s s' h
  cases a with
  | string text => exact h.results_ok (.str (.inl rfl))
  | number n => exact h.results_ok (similar_refl (fun _ => .inl rfl) _)
  | boolean b => exact h.results_ok (.bool b)
  | component selector =>
    obtain ⟨hv, ht⟩ := component_matched h selector
    exact ⟨drawn + 1, Nat.le_succ drawn, .ok hv, ht⟩
  | reference name =>
    have hlooks : p.looksUp := ha.resolve_right fun hno => hno name rfl
    exact reference_results h hlooks line line' name
  | url path => exact copyUrl_results h path line line'
  | content path => exact copyContent_results h path line line'
  | dictionary path => exact bindVariables_results hkeeps h path line line'

variable {atoms : Atom → Prop}

mutual

/-- **A value comes out the same if its atoms do**, on whatever lines it is written. -/
theorem resolve_results (hatoms : p.AtomsAgree ctx deeper atoms) : ∀ (v v' : Value) {drawn : Nat}
    {s s' : Evaluation}, v.onLine 0 = v'.onLine 0 → v.Forall atoms (fun _ => True) →
      p.Matched drawn s s' →
        p.Results drawn Similar (resolve ctx deeper v s) (resolve ctx deeper v' s')
  | .atom line a, .atom line' a', drawn, s, s', hlines, hv, h => by
    cases hlines
    exact hatoms line line' a hv drawn s s' h
  | .array _ items, .array _ items', _, s, s', hlines, hv, h => by
    simp only [Value.onLine, Value.array.injEq, true_and] at hlines
    obtain ⟨drawn', hle, hitems, ht⟩ := resolveItems_similar hatoms items items' hlines hv h
    simp only [resolve]
    exact ⟨drawn', hle, .ok (.arr hitems), ht⟩
  | .object _ entries, .object _ entries', _, s, s', hlines, hv, h => by
    simp only [Value.onLine, Value.object.injEq, true_and] at hlines
    obtain ⟨drawn', hle, hentries, ht⟩ :=
      resolveEntries_similar hatoms entries entries' hlines hv.2 h
    simp only [resolve]
    exact ⟨drawn', hle, .ok (.obj hentries), ht⟩
  | .atom _ _, .array _ _, _, _, _, hlines, _, _ | .atom _ _, .object _ _, _, _, _, hlines, _, _
  | .array _ _, .atom _ _, _, _, _, hlines, _, _ | .array _ _, .object _ _, _, _, _, hlines, _, _
  | .object _ _, .atom _ _, _, _, _, hlines, _, _
  | .object _ _, .array _ _, _, _, _, hlines, _, _ => by cases hlines

theorem resolveItems_similar (hatoms : p.AtomsAgree ctx deeper atoms) :
    ∀ (items items' : List Value) {drawn : Nat} {s s' : Evaluation},
      Value.itemsOnLine 0 items = Value.itemsOnLine 0 items' →
        Value.ForallItems atoms (fun _ => True) items → p.Matched drawn s s' →
          ∃ drawn', drawn ≤ drawn' ∧
            ItemsSimilar (p.Texts drawn') (resolveItems ctx deeper items s).1
              (resolveItems ctx deeper items' s').1 ∧
            p.Matched drawn' (resolveItems ctx deeper items s).2
              (resolveItems ctx deeper items' s').2
  | [], [], drawn, _, _, _, _, h => ⟨drawn, le_rfl, .nil, h⟩
  | item :: items, item' :: items', _, s, s', hlines, ⟨hv, hvs⟩, h => by
    obtain ⟨hline, hlines⟩ := List.cons.inj hlines
    obtain ⟨drawn', hle, hkind, ht⟩ := resolve_results hatoms item item' hline hv h
    simp only [resolveItems]
    generalize resolve ctx deeper item s = r, resolve ctx deeper item' s' = r' at hkind ht ⊢
    obtain ⟨outcome, t⟩ := r
    obtain ⟨outcome', t'⟩ := r'
    cases hkind with
    | ok hjson =>
      obtain ⟨last, hlast, hitems, hu⟩ := resolveItems_similar hatoms items items' hlines hvs ht
      exact ⟨last, hle.trans hlast, .cons (hjson.imp (Texts.mono hlast)) hitems, hu⟩
    | error d d' =>
      obtain ⟨last, hlast, hitems, hu⟩ :=
        resolveItems_similar hatoms items items' hlines hvs (ht.withError d d')
      exact ⟨last, hle.trans hlast, .cons .null hitems, hu⟩
  | [], _ :: _, _, _, _, hlines, _, _ | _ :: _, [], _, _, _, hlines, _, _ => by cases hlines

theorem resolveEntries_similar (hatoms : p.AtomsAgree ctx deeper atoms) :
    ∀ (entries entries' : List (String × Value)) {drawn : Nat} {s s' : Evaluation},
      Value.entriesOnLine 0 entries = Value.entriesOnLine 0 entries' →
        Value.ForallEntries atoms (fun _ => True) entries → p.Matched drawn s s' →
          ∃ drawn', drawn ≤ drawn' ∧
            EntriesSimilar (p.Texts drawn') (resolveEntries ctx deeper entries s).1
              (resolveEntries ctx deeper entries' s').1 ∧
            p.Matched drawn' (resolveEntries ctx deeper entries s).2
              (resolveEntries ctx deeper entries' s').2
  | [], [], drawn, _, _, _, _, h => ⟨drawn, le_rfl, .nil, h⟩
  | (key, v) :: entries, (key', v') :: entries', _, s, s', hlines, ⟨hv, hvs⟩, h => by
    simp only [Value.entriesOnLine, List.cons.injEq, Prod.mk.injEq] at hlines
    obtain ⟨⟨rfl, hline⟩, hlines⟩ := hlines
    obtain ⟨drawn', hle, hkind, ht⟩ := resolve_results hatoms v v' hline hv h
    simp only [resolveEntries]
    generalize resolve ctx deeper v s = r, resolve ctx deeper v' s' = r' at hkind ht ⊢
    obtain ⟨outcome, t⟩ := r
    obtain ⟨outcome', t'⟩ := r'
    cases hkind with
    | ok hjson =>
      obtain ⟨last, hlast, hentries, hu⟩ :=
        resolveEntries_similar hatoms entries entries' hlines hvs ht
      exact ⟨last, hle.trans hlast, .cons (hjson.imp (Texts.mono hlast)) hentries, hu⟩
    | error d d' =>
      obtain ⟨last, hlast, hentries, hu⟩ :=
        resolveEntries_similar hatoms entries entries' hlines hvs (ht.withError d d')
      exact ⟨last, hle.trans hlast, hentries, hu⟩
  | [], _ :: _, _, _, _, hlines, _, _ | _ :: _, [], _, _, _, hlines, _, _ => by cases hlines

end

/-! ## Statements -/

/-- Similar values can be assigned to the same names, and are blocked in the same way. -/
theorem Matched.assign (h : Matched ⟨first, first', True⟩ drawn s s') (name : String) {v v' : Json}
    (hv : Similar (Texts ⟨first, first', True⟩ drawn) v v') :
    Matched ⟨first, first', True⟩ drawn { s with resource := (s.resource.assign name v).1 }
        { s' with resource := (s'.resource.assign name v').1 } ∧
      (s'.resource.assign name v').2 = (s.resource.assign name v).2 := by
  obtain ⟨hvars, hown, hblocked⟩ :=
    Resource.assign_similar (h.vars trivial) (h.own trivial) name hv
  obtain ⟨vars, own, heq⟩ := s.resource.assign_eq name v
  obtain ⟨vars', own', heq'⟩ := s'.resource.assign_eq name v'
  rw [heq, heq'] at hvars hown ⊢
  exact ⟨{ h with vars := fun _ => hvars, own := fun _ => hown }, hblocked⟩

theorem visitAssignment_keeps (hkeeps : KeepsBelow deeper)
    (h : Matched ⟨first, first', True⟩ drawn s s') (key : String) (v : Value) :
    ∃ drawn', drawn ≤ drawn' ∧ Matched ⟨first, first', True⟩ drawn'
      (s.visitAssignment ctx deeper key v) (s'.visitAssignment ctx deeper key v) := by
  have hatoms : AtomsAgree ⟨first, first', True⟩ ctx deeper fun _ => True :=
    fun line line' a _ => atomsAgree hkeeps line line' a (.inl trivial)
  have hassigning : Matched ⟨first, first', True⟩ drawn { s with assigning := some key }
      { s' with assigning := some key } := { h with }
  obtain ⟨drawn', hle, hkind, ht⟩ := resolve_results hatoms v v rfl v.forall_trivial hassigning
  unfold visitAssignment
  generalize resolve ctx deeper v { s with assigning := some key } = r,
    resolve ctx deeper v { s' with assigning := some key } = r' at hkind ht ⊢
  obtain ⟨outcome, t⟩ := r
  obtain ⟨outcome', t'⟩ := r'
  refine ⟨drawn', hle, ?_⟩
  cases hkind with
  | error d d' => exact { ht with }
  | @ok json json' hjson =>
    obtain ⟨hset, hblocked⟩ := Matched.assign ht key hjson
    dsimp only
    generalize t.resource.assign key json = assigned, t'.resource.assign key json' = assigned'
      at hset hblocked ⊢
    obtain ⟨r, blocked⟩ := assigned
    obtain ⟨r', blocked'⟩ := assigned'
    cases hblocked
    cases blocked with
    | none => exact { hset with }
    | some blocked => exact { hset with }

/-- **A document is opened in both evaluations or in none**, and where it is, it says the same. -/
theorem Matched.openInclusion (h : Matched ⟨first, first', True⟩ drawn s s') (ctx : Context)
    (deeper : Option Visit) (raw : String) (line : Nat) :
    (∃ t t', s.openInclusion ctx deeper raw line = .error t ∧
      s'.openInclusion ctx deeper raw line = .error t' ∧
      Matched ⟨first, first', True⟩ drawn t t') ∨
    ∃ visit file document before before', deeper = some visit ∧
      s.openInclusion ctx deeper raw line = .ok ⟨visit, file, document, before⟩ ∧
      s'.openInclusion ctx deeper raw line = .ok ⟨visit, file, document, before'⟩ ∧
      Matched ⟨first, first', True⟩ drawn before before' := by
  have hentered := h.enter ctx deeper (Path.resolve s.current raw)
  unfold Evaluation.openInclusion
  dsimp only
  rw [h.current]
  rcases henter : s.enter ctx deeper (Path.resolve s.current raw) with ⟨entered, t⟩
  rcases henter' : s'.enter ctx deeper (Path.resolve s.current raw) with ⟨entered', t'⟩
  rw [henter, henter'] at hentered
  obtain ⟨rfl, ht⟩ := hentered
  have ht : Matched ⟨first, first', True⟩ drawn t t' := ht
  cases entered' with
  | error e => exact .inl ⟨_, _, rfl, rfl, ht.withError _ _⟩
  | ok visit =>
    obtain ⟨hread, hu⟩ := ht.readText ctx (Path.resolve s.current raw)
    dsimp only
    generalize t.readText ctx (Path.resolve s.current raw) = r,
      t'.readText ctx (Path.resolve s.current raw) = r' at hread hu ⊢
    obtain ⟨found, u⟩ := r
    obtain ⟨found', u'⟩ := r'
    cases hread
    have hu : Matched ⟨first, first', True⟩ drawn u u' := hu
    cases found with
    | error e => exact .inl ⟨_, _, rfl, rfl, hu.withError _ _⟩
    | ok found =>
      obtain ⟨file, text⟩ := found
      have hbefore := hu.withInclusion file text line
      dsimp only
      cases Document.ofScannedText ctx.options text with
      | error e => exact .inl ⟨_, _, rfl, rfl, hbefore.withError _ _⟩
      | ok document =>
        exact .inr ⟨visit, file, document, _, _, (enter_ok henter).2.1, rfl, rfl, hbefore⟩

theorem visitInclusion_keeps (hkeeps : KeepsBelow deeper)
    (h : Matched ⟨first, first', True⟩ drawn s s') (raw : String) (line : Nat) :
    ∃ drawn', drawn ≤ drawn' ∧ Matched ⟨first, first', True⟩ drawn'
      (s.visitInclusion ctx deeper raw line) (s'.visitInclusion ctx deeper raw line) := by
  unfold visitInclusion
  rcases h.openInclusion ctx deeper raw line with ⟨t, t', hopen, hopen', ht⟩ |
    ⟨visit, file, document, before, before', hdeeper, hopen, hopen', hbefore⟩
  · rw [hopen, hopen']
    exact ⟨drawn, le_rfl, ht⟩
  · rw [hopen, hopen']
    have hvisit : Keeps visit := hkeeps visit hdeeper
    have hnoted := hbefore.withNotes file.path document.notes
    have hinside : Matched ⟨first, first', True⟩ drawn
        (Inclusion.inside ⟨visit, file, document, before⟩)
        (Inclusion.inside ⟨visit, file, document, before'⟩) :=
      { hnoted with current := rfl, stack := congrArg (· ++ [file.path]) hbefore.stack }
    obtain ⟨drawn', hle, hdone⟩ := hvisit.foldl document.nodes hinside
    exact ⟨drawn', hle,
      { hdone with current := hbefore.current, stack := congrArg List.dropLast hdone.stack }⟩

theorem visitExtension_keeps (hkeeps : KeepsBelow deeper)
    (h : Matched ⟨first, first', True⟩ drawn s s') (raw : String) (line : Nat) :
    ∃ drawn', drawn ≤ drawn' ∧ Matched ⟨first, first', True⟩ drawn'
      (s.visitExtension ctx deeper raw line) (s'.visitExtension ctx deeper raw line) := by
  obtain ⟨drawn', hle, hkind, ht⟩ :=
    compileNested_results ctx hkeeps h (Path.resolve s.current raw)
  unfold visitExtension
  dsimp only
  rw [h.current]
  generalize s.compileNested ctx deeper (Path.resolve s.current raw) = r,
    s'.compileNested ctx deeper (Path.resolve s.current raw) = r' at hkind ht ⊢
  obtain ⟨compiled, t⟩ := r
  obtain ⟨compiled', t'⟩ := r'
  have ht : Matched ⟨first, first', True⟩ drawn' t t' := ht
  refine ⟨drawn', hle, ?_⟩
  cases hkind with
  | error e e' => exact ht.withError _ _
  | ok hparent =>
    exact { ht with
      vars := fun _ => Resource.inherit_similar (ht.vars trivial) (ht.own trivial) hparent }

/-- What is made of a statement keeps states matched if what is made of those one level deeper
does. -/
theorem visitWith_keeps (hkeeps : KeepsBelow deeper) :
    Keeps fun s node => s.visitWith ctx deeper node := by
  intro first first' drawn s s' node h
  unfold visitWith
  dsimp only
  cases node.statement with
  | comment => exact ⟨drawn, le_rfl, h⟩
  | assignment key v => exact visitAssignment_keeps hkeeps h key v
  | inclusion path => exact visitInclusion_keeps hkeeps h path node.line
  | extension path => exact visitExtension_keeps hkeeps h path node.line

/-- **A statement keeps states matched.** -/
theorem visit_keeps : ∀ levels, Keeps (Evaluation.visit ctx levels)
  | 0 => visitWith_keeps fun _ h => by cases h
  | levels + 1 => visitWith_keeps fun visit h => by
    cases h
    exact visit_keeps levels

theorem keepsBelow (levels : Nat) : KeepsBelow (below ctx levels) := by
  cases levels with
  | zero => exact fun _ h => by cases h
  | succ levels =>
    intro visit h
    cases h
    exact visit_keeps levels

end Tandem

end Courseware.Evaluation
