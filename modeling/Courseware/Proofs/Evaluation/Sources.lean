/-
Evaluations record real lines.

Whatever an evaluation records, it records at a line that a document mentions,
with the path of the file that the document stands in: the current file for a
statement or a value, the target of a directive for the error of the document
there, and the file of a nested document for all that was recorded for it. A
document mentions no lines but those of its text (`Document.hasLine_of_ofScannedText`).
So a state stays sound (`Sources.Sound`) if the lines of what is evaluated belong
to the current file, and what it opens is sound again (`Sources.keeps_visit`).

What the files say is a parameter (`Sources`), since a compilation may start
from a text that no file holds.
-/
import Courseware.Proofs.Document.LineNumbers
import Courseware.Proofs.Library.Steady

namespace Courseware

namespace Evaluation

/-- What the files say that a compilation at a version can have to do with. A file that is opened
says what was read at the path by which it was asked for, and at its own. -/
structure Sources (ctx : Context) (version : String) where
  /-- Whether a text is what the file at a path says. -/
  Says : (path text : String) → Prop
  /-- Whether files can be open. -/
  CanBeOpen : (current : String) → List String → Prop
  opened {current : String} {stack : List String} {raw : String} {file : Descriptor}
    {text : String} (hopen : CanBeOpen current stack) (hclosed : Path.resolve current raw ∉ stack)
    (hread : ctx.library.readText (Path.resolve current raw) version = .ok (file, text)) :
    file.version = version ∧ Says (Path.resolve current raw) text ∧ Says file.path text ∧
      CanBeOpen file.path (stack ++ [file.path])
  /-- What keeps a file from being read is no fault of a text. -/
  unread {path : String} {e : Error} (h : ctx.library.readText path version = .error e) :
    e.line? = none

variable {ctx : Context} {version : String} {sources : Sources ctx version}

namespace Sources

/-- Whether the file at a path has a line. -/
def HasLine (sources : Sources ctx version) (path : String) (line : Nat) : Prop :=
  ∃ text, sources.Says path text ∧ Text.HasLine text line

/-- Whether a diagnostic points at a line of a file. -/
def Real (sources : Sources ctx version) (d : Diagnostic) : Prop := sources.HasLine d.path d.line

/-- Whether all that a resource has recorded is real. -/
structure Reports (sources : Sources ctx version) (r : Resource) : Prop where
  errors : ∀ d ∈ r.errors, sources.Real d
  warnings : ∀ d ∈ r.warnings, sources.Real d

/-- Whether a state can be: its files can be open, and all that it has recorded is real. -/
structure Sound (sources : Sources ctx version) (s : Evaluation) : Prop where
  version : s.resource.file.version = version
  canBeOpen : sources.CanBeOpen s.current s.stack
  reports : sources.Reports s.resource

/-- Whether lines are such as the current file has. -/
def Covers (sources : Sources ctx version) (s : Evaluation) (ls : List Nat) : Prop :=
  ∀ l ∈ ls, sources.HasLine s.current l

variable {s t : Evaluation}

theorem Reports.withError {r : Resource} (h : sources.Reports r) {d : Diagnostic}
    (hd : sources.Real d) : sources.Reports (r.withError d) :=
  ⟨List.forall_mem_append.mpr ⟨h.errors, List.forall_mem_singleton.mpr hd⟩, h.warnings⟩

theorem Reports.absorb {r nested : Resource} (h : sources.Reports r)
    (hnested : sources.Reports nested) : sources.Reports (r.absorb nested) :=
  ⟨List.forall_mem_append.mpr ⟨h.errors, hnested.errors⟩,
    List.forall_mem_append.mpr ⟨h.warnings, hnested.warnings⟩⟩

theorem Sound.withError (h : sources.Sound s) {d : Diagnostic} (hd : sources.Real d) :
    sources.Sound (s.withError d) :=
  { h with reports := h.reports.withError hd }

theorem Sound.withWarning (h : sources.Sound s) {d : Diagnostic} (hd : sources.Real d) :
    sources.Sound (s.withWarning d) :=
  { h with
    reports := ⟨h.reports.errors,
      List.forall_mem_append.mpr ⟨h.reports.warnings, List.forall_mem_singleton.mpr hd⟩⟩ }

theorem Sound.onlyJournal (h : sources.Sound s) (hst : OnlyJournal s t) : sources.Sound t := by
  obtain ⟨j, rfl⟩ := hst
  exact ⟨h.version, h.canBeOpen, h.reports⟩

theorem Covers.stays {ls : List Nat} (h : sources.Covers s ls) (hst : Stays s t) :
    sources.Covers t ls := by
  unfold Covers
  rw [hst.current]
  exact h

theorem Sound.withNotes (h : sources.Sound s) {path : String} {notes : List Note}
    (hnotes : ∀ l ∈ notes.map (·.line), sources.HasLine path l) :
    sources.Sound (s.withNotes path notes) := by
  induction notes generalizing s with
  | nil => exact h
  | cons note notes ih =>
    obtain ⟨hnote, hnotes⟩ := List.forall_mem_cons.mp hnotes
    exact ih (h.withWarning hnote) hnotes

theorem Sound.withInclusion (h : sources.Sound s) (file : Descriptor) (text : String) {line : Nat}
    (hline : sources.HasLine s.current line) : sources.Sound (s.withInclusion file text line) := by
  unfold Evaluation.withInclusion
  dsimp only
  split
  · have hreal : sources.Real
        (s.here line ("'" ++ file.path ++ "' is included more than once")) := hline
    have hwarned := h.withWarning hreal
    exact ⟨hwarned.version, hwarned.canBeOpen, hwarned.reports.errors, hwarned.reports.warnings⟩
  · exact ⟨h.version, h.canBeOpen, h.reports.errors, h.reports.warnings⟩

/-- The error of a document points into it, or else at the directive. -/
theorem real_ofNested {e : Error} {target : String} {line : Nat}
    (he : ∀ l, e.line? = some l → sources.HasLine target l)
    (hline : sources.HasLine s.current line) :
    sources.Real (.ofNested e target line s.current) := by
  unfold Diagnostic.ofNested
  cases hl : e.line? with
  | none => exact hline
  | some l => exact he l hl

/-! ## Opening documents -/

/-- What is read by a directive is what the library reads. -/
theorem Sound.read (h : sources.Sound s) {target : String}
    {found : Except Error (Descriptor × String)}
    (hasked : (s.record (.nest target)).readText ctx target = (found, t)) :
    ctx.library.readText target version = found := by
  have hfound : (ctx.library.askText s.stack target s.resource.file.version
      (s.record (.nest target)).journal).1 = found := congrArg Prod.fst hasked
  rw [Library.askText_fst, h.version] at hfound
  exact hfound

/-- A document has the lines of the file that says its text. -/
theorem hasLine_of_said {path text : String} {document : Document} (h : sources.Says path text)
    (hparsed : Document.ofScannedText ctx.options text = .ok document) :
    ∀ l ∈ document.lines, sources.HasLine path l :=
  fun l hl => ⟨text, h, Document.hasLine_of_ofScannedText hparsed l hl⟩

theorem hasLine_of_error {path text : String} {e : Error} (h : sources.Says path text)
    (hparsed : Document.ofScannedText ctx.options text = .error e) {l : Nat}
    (hl : e.line? = some l) : sources.HasLine path l := by
  obtain ⟨line, hline, htext⟩ := Document.pointsInto_of_ofScannedText hparsed
  cases hline.symm.trans hl
  exact ⟨text, h, htext⟩

/-- Whether statements leave a state sound whose current file has their lines. -/
def Keeps (sources : Sources ctx version) (visit : Visit) : Prop :=
  ∀ (s : Evaluation) (node : Node), sources.Sound s → sources.Covers s node.lines →
    sources.Sound (visit s node) ∧ Stays s (visit s node)

theorem Keeps.foldl {visit : Visit} (hvisit : sources.Keeps visit) {nodes : List Node} :
    ∀ {s : Evaluation}, sources.Sound s → sources.Covers s (nodes.flatMap Node.lines) →
      sources.Sound (nodes.foldl visit s) ∧ Stays s (nodes.foldl visit s) := by
  induction nodes with
  | nil => exact fun {s} hs _ => ⟨hs, Stays.refl s⟩
  | cons node nodes ih =>
    intro s hs hlines
    obtain ⟨hnode, hnodes⟩ := List.forall_mem_append.mp hlines
    obtain ⟨hs', hstays⟩ := hvisit s node hs hnode
    obtain ⟨hafter, hstays'⟩ := ih hs' (Covers.stays hnodes hstays)
    exact ⟨hafter, hstays.trans hstays'⟩

theorem Keeps.keep {visit : Visit} (hvisit : sources.Keeps visit) : sources.Keeps (keep visit) := by
  intro s node hs hnode
  obtain ⟨hs', hstays⟩ := hvisit s { node with origin := s.current } hs hnode
  exact ⟨⟨hs'.version, hs'.canBeOpen, hs'.reports.errors, hs'.reports.warnings⟩,
    ⟨hstays.file, hstays.current, hstays.stack⟩⟩

/-- A document evaluated from the start of its file stays sound. -/
theorem Keeps.run {visit : Visit} (hvisit : sources.Keeps visit) {file : Descriptor}
    {stack : List String} {text : String} {document : Document} (j : Journal)
    (hversion : file.version = version)
    (hopen : sources.CanBeOpen file.path (stack ++ [file.path]))
    (hsaid : sources.Says file.path text)
    (hparsed : Document.ofScannedText ctx.options text = .ok document) :
    sources.Reports ((start file stack j).run visit document).resource := by
  have hlines := hasLine_of_said hsaid hparsed
  obtain ⟨hnodes, hnotes⟩ := List.forall_mem_append.mp hlines
  have hstart : sources.Sound (start file stack j) :=
    ⟨hversion, hopen, List.forall_mem_nil _, List.forall_mem_nil _⟩
  have hcovers : sources.Covers ((start file stack j).withNotes file.path document.notes)
      (document.nodes.flatMap Node.lines) := by
    have hstays := withNotes_stays (start file stack j) file.path document.notes
    exact Covers.stays (s := start file stack j) hnodes hstays
  exact (hvisit.keep.foldl (hstart.withNotes hnotes) hcovers).1.reports

variable {deeper : Option Visit}

/-- **What is compiled inside a sound state reports real lines**, and an error that points at a line
points into the text at the target. -/
theorem Sound.compileNested (h : sources.Sound s)
    (hvisit : ∀ visit, deeper = some visit → sources.Keeps visit) (raw : String) :
    match (s.compileNested ctx deeper (Path.resolve s.current raw)).1 with
    | .error e => ∀ l, e.line? = some l → sources.HasLine (Path.resolve s.current raw) l
    | .ok (nested, _) => sources.Reports nested := by
  have hcases := s.compileNested_cases ctx deeper (Path.resolve s.current raw)
  generalize s.compileNested ctx deeper (Path.resolve s.current raw) = r at hcases
  cases hcases with
  | refused =>
    intro l hl
    cases hl
  | unread hasked =>
    intro l hl
    rw [sources.unread (h.read hasked)] at hl
    cases hl
  | unparsed hclosed hasked hparsed =>
    obtain ⟨-, htarget, -, -⟩ := sources.opened h.canBeOpen hclosed (h.read hasked)
    exact fun l hl => hasLine_of_error htarget hparsed hl
  | @compiled visit file text j document hdeeper hclosed hasked hparsed =>
    obtain ⟨hversion, -, hfile, hopen⟩ := sources.opened h.canBeOpen hclosed (h.read hasked)
    exact (hvisit visit hdeeper).run j hversion hopen hfile hparsed

/-! ## Values -/

/-- Whether what a value gives is in order: the state stays sound, and an error is real. -/
structure Settles (sources : Sources ctx version) (r : Except Diagnostic Json × Evaluation) :
    Prop where
  sound : sources.Sound r.2
  error : ∀ d, r.1 = .error d → sources.Real d

theorem Settles.settled {r : Except Diagnostic Json × Evaluation} (h : sources.Settles r) :
    sources.Sound (settled r) := by
  rcases r with ⟨d | json, t⟩
  · exact h.sound.withError (h.error d rfl)
  · exact h.sound

theorem Sound.settles_ok (h : sources.Sound s) (json : Json) : sources.Settles (.ok json, s) :=
  ⟨h, fun _ herror => by cases herror⟩

theorem Sound.settles_error (h : sources.Sound s) {d : Diagnostic} (hd : sources.Real d) :
    sources.Settles (.error d, s) := by
  refine ⟨h, fun _ herror => ?_⟩
  cases herror
  exact hd

theorem Sound.copyUrl (h : sources.Sound s) (raw : String) {line : Nat}
    (hline : sources.HasLine s.current line) : sources.Settles (s.copyUrl ctx raw line) := by
  unfold Evaluation.copyUrl
  split
  · next hlocate =>
    obtain ⟨j, rfl⟩ := locate_onlyJournal hlocate
    exact (h.onlyJournal ⟨j, rfl⟩).settles_error hline
  · next hlocate =>
    obtain ⟨j, rfl⟩ := locate_onlyJournal hlocate
    exact (h.onlyJournal ⟨_, rfl⟩).settles_ok _

theorem Sound.copyContent (h : sources.Sound s) (raw : String) {line : Nat}
    (hline : sources.HasLine s.current line) : sources.Settles (s.copyContent ctx raw line) := by
  unfold Evaluation.copyContent
  dsimp only
  split
  · next hlocate =>
    obtain ⟨j, rfl⟩ := locate_onlyJournal hlocate
    exact (h.onlyJournal ⟨j, rfl⟩).settles_error hline
  · next hlocate =>
    obtain ⟨j, rfl⟩ := locate_onlyJournal hlocate
    split
    · next hcontent =>
      obtain ⟨j', rfl⟩ := content_onlyJournal hcontent
      exact (h.onlyJournal ⟨j', rfl⟩).settles_error hline
    · next hcontent =>
      obtain ⟨j', rfl⟩ := content_onlyJournal hcontent
      exact (h.onlyJournal ⟨j', rfl⟩).settles_ok _

theorem Sound.bindVariables (h : sources.Sound s)
    (hvisit : ∀ visit, deeper = some visit → sources.Keeps visit) (raw : String) {line : Nat}
    (hline : sources.HasLine s.current line) :
    sources.Settles (s.bindVariables ctx deeper raw line) := by
  have hnested := h.compileNested hvisit raw
  have hjournal : OnlyJournal s (s.compileNested ctx deeper (Path.resolve s.current raw)).2 :=
    compileNested_onlyJournal s _
  unfold Evaluation.bindVariables
  dsimp only
  rcases hcompiled : s.compileNested ctx deeper (Path.resolve s.current raw) with
    ⟨e | ⟨nested, text⟩, t⟩
  · rw [hcompiled] at hnested hjournal
    obtain ⟨j, rfl⟩ := hjournal
    exact (h.onlyJournal ⟨j, rfl⟩).settles_error (real_ofNested hnested hline)
  · rw [hcompiled] at hnested hjournal
    obtain ⟨j, rfl⟩ := hjournal
    have habsorbed := h.reports.absorb hnested
    have hbound : sources.Sound
        { s with
          journal := j
          resource := (s.resource.absorb nested).withDependency
            ⟨s.assigning, line, text, nested.file.path⟩ } :=
      ⟨h.version, h.canBeOpen, habsorbed.errors, habsorbed.warnings⟩
    exact hbound.settles_ok _

theorem Sound.resolveAtom (h : sources.Sound s)
    (hvisit : ∀ visit, deeper = some visit → sources.Keeps visit) {line : Nat}
    (hline : sources.HasLine s.current line) (a : Atom) :
    sources.Settles (s.resolveAtom ctx deeper line a) := by
  cases a with
  | string | number | boolean => exact h.settles_ok _
  | component selector => exact (h.onlyJournal ⟨_, rfl⟩).settles_ok _
  | reference name =>
    unfold Evaluation.resolveAtom
    dsimp only
    split
    · exact h.settles_ok _
    · exact h.settles_error hline
  | url path => exact h.copyUrl path hline
  | content path => exact h.copyContent path hline
  | dictionary path => exact h.bindVariables hvisit path hline

mutual

/-- **A value of the current file leaves the state sound.** -/
theorem Sound.resolve (hvisit : ∀ visit, deeper = some visit → sources.Keeps visit) :
    ∀ (v : Value) {s : Evaluation}, sources.Sound s → sources.Covers s v.lines →
      sources.Settles (Evaluation.resolve ctx deeper v s)
  | .atom _ a, _, h, hlines => h.resolveAtom hvisit (hlines _ List.mem_cons_self) a
  | .array _ items, s, h, hlines => by
    have hitems := Sound.resolveItems hvisit items h (List.forall_mem_cons.mp hlines).2
    simp only [Evaluation.resolve]
    exact hitems.settles_ok _
  | .object _ entries, s, h, hlines => by
    have hentries := Sound.resolveEntries hvisit entries h (List.forall_mem_cons.mp hlines).2
    simp only [Evaluation.resolve]
    exact hentries.settles_ok _

theorem Sound.resolveItems (hvisit : ∀ visit, deeper = some visit → sources.Keeps visit) :
    ∀ (items : List Value) {s : Evaluation}, sources.Sound s →
      sources.Covers s (Value.itemsLines items) →
        sources.Sound (Evaluation.resolveItems ctx deeper items s).2
  | [], _, h, _ => h
  | item :: items, s, h, hlines => by
    obtain ⟨hitem, hitems⟩ := List.forall_mem_append.mp hlines
    have hsettled := (Sound.resolve hvisit item h hitem).settled
    have hstays : Stays s (settled (Evaluation.resolve ctx deeper item s)) := settled_stays _ _
    rw [resolveItems_cons]
    exact Sound.resolveItems hvisit items hsettled (Covers.stays hitems hstays)

theorem Sound.resolveEntries (hvisit : ∀ visit, deeper = some visit → sources.Keeps visit) :
    ∀ (entries : List (String × Value)) {s : Evaluation}, sources.Sound s →
      sources.Covers s (Value.entriesLines entries) →
        sources.Sound (Evaluation.resolveEntries ctx deeper entries s).2
  | [], _, h, _ => h
  | (key, v) :: entries, s, h, hlines => by
    obtain ⟨hentry, hentries⟩ := List.forall_mem_append.mp hlines
    have hsettled := (Sound.resolve hvisit v h hentry).settled
    have hstays : Stays s (settled (Evaluation.resolve ctx deeper v s)) := settled_stays _ _
    rw [resolveEntries_cons]
    exact Sound.resolveEntries hvisit entries hsettled (Covers.stays hentries hstays)

end

/-! ## Statements -/

theorem Sound.visitAssignment (h : sources.Sound s)
    (hvisit : ∀ visit, deeper = some visit → sources.Keeps visit) (key : String) {v : Value}
    (hlines : sources.Covers s v.lines) :
    sources.Sound (s.visitAssignment ctx deeper key v) := by
  have hassigning : sources.Sound { s with assigning := some key } :=
    ⟨h.version, h.canBeOpen, h.reports⟩
  have hsettles := Sound.resolve hvisit v hassigning hlines
  have hcurrent : (Evaluation.resolve ctx deeper v { s with assigning := some key }).2.current =
      s.current := (resolve_frame v _).current
  unfold Evaluation.visitAssignment
  rcases hresolve : Evaluation.resolve ctx deeper v { s with assigning := some key } with
    ⟨d | json, t⟩
  · rw [hresolve] at hsettles
    have hfailed := hsettles.settled
    exact ⟨hfailed.version, hfailed.canBeOpen, hfailed.reports⟩
  · rw [hresolve] at hsettles hcurrent
    have ht : sources.Sound t := hsettles.sound
    obtain ⟨vars, own, hassign⟩ := t.resource.assign_eq key json
    dsimp only
    rcases hresource : t.resource.assign key json with ⟨r, blocked⟩
    rw [hresource] at hassign
    cases hassign
    have hr : sources.Sound
        { t with assigning := none, resource := { t.resource with vars, own } } :=
      ⟨ht.version, ht.canBeOpen, ht.reports.errors, ht.reports.warnings⟩
    cases blocked with
    | none => exact hr
    | some blocked =>
      have hline : sources.HasLine t.current v.line := by
        rw [hcurrent]
        exact hlines _ v.line_mem_lines
      exact hr.withError hline

/-- A document that is included is sound from its first statement on. -/
theorem Sound.openInclusion {α : Type} (h : sources.Sound s) (deeper : Option α) (raw : String)
    {line : Nat} (hline : sources.HasLine s.current line) :
    match s.openInclusion ctx deeper raw line with
    | .error t => sources.Sound t
    | .ok i => sources.Sound i.before ∧ sources.Sound i.inside ∧
        sources.Covers i.inside (i.document.nodes.flatMap Node.lines) := by
  have hincluded : ∀ file text j,
      sources.Sound ({ s with journal := j }.withInclusion file text line) := fun file text j =>
    (h.onlyJournal ⟨j, rfl⟩).withInclusion file text hline
  have hcases := s.openInclusion_cases ctx deeper raw line
  generalize s.openInclusion ctx deeper raw line = r at hcases
  cases hcases with
  | refused | unread => exact (h.onlyJournal ⟨_, rfl⟩).withError hline
  | @unparsed file text j e hclosed hasked hparsed =>
    obtain ⟨-, -, hsaid, -⟩ := sources.opened h.canBeOpen hclosed (h.read hasked)
    exact (hincluded file text j).withError
      (real_ofNested (fun l => hasLine_of_error hsaid hparsed) hline)
  | @included _ file text j document _ hclosed hasked hparsed =>
    obtain ⟨-, -, hsaid, hopen⟩ := sources.opened h.canBeOpen hclosed (h.read hasked)
    have hincluded := hincluded file text j
    have hplace : Stays { s with journal := j } ({ s with journal := j }.withInclusion file text
        line) := withInclusion_stays _ _ _ _
    obtain ⟨hnodes, hnotes⟩ := List.forall_mem_append.mp (hasLine_of_said hsaid hparsed)
    have hnoted := hincluded.withNotes hnotes
    dsimp only
    generalize Evaluation.withInclusion _ file text line = before at hincluded hplace hnoted ⊢
    have hstack : sources.CanBeOpen file.path (before.stack ++ [file.path]) := by
      rw [hplace.stack]
      exact hopen
    exact ⟨hincluded, ⟨hnoted.version, hstack, hnoted.reports⟩, hnodes⟩

theorem Sound.visitInclusion (h : sources.Sound s)
    (hvisit : ∀ visit, deeper = some visit → sources.Keeps visit) (raw : String) {line : Nat}
    (hline : sources.HasLine s.current line) :
    sources.Sound (s.visitInclusion ctx deeper raw line) := by
  have hopened := h.openInclusion deeper raw hline
  unfold Evaluation.visitInclusion
  cases hopen : s.openInclusion ctx deeper raw line with
  | error t =>
    rw [hopen] at hopened
    exact hopened
  | ok i =>
    rw [hopen] at hopened
    obtain ⟨hbefore, hinside, hlines⟩ := hopened
    have hdeeper := (openInclusion_opens hopen).1
    obtain ⟨hafter, hstays⟩ := (hvisit _ hdeeper).foldl hinside hlines
    refine ⟨hafter.version, ?_, hafter.reports⟩
    dsimp only
    rw [dropLast_stack hstays]
    exact hbefore.canBeOpen

theorem Sound.visitExtension (h : sources.Sound s)
    (hvisit : ∀ visit, deeper = some visit → sources.Keeps visit) (raw : String) {line : Nat}
    (hline : sources.HasLine s.current line) :
    sources.Sound (s.visitExtension ctx deeper raw line) := by
  have hnested := h.compileNested hvisit raw
  have hjournal : OnlyJournal s (s.compileNested ctx deeper (Path.resolve s.current raw)).2 :=
    compileNested_onlyJournal s _
  unfold Evaluation.visitExtension
  dsimp only
  rcases hcompiled : s.compileNested ctx deeper (Path.resolve s.current raw) with
    ⟨e | ⟨parent, text⟩, t⟩
  · rw [hcompiled] at hnested hjournal
    obtain ⟨j, rfl⟩ := hjournal
    exact (h.onlyJournal ⟨j, rfl⟩).withError (real_ofNested hnested hline)
  · rw [hcompiled] at hnested hjournal
    obtain ⟨j, rfl⟩ := hjournal
    have habsorbed := h.reports.absorb hnested
    exact ⟨h.version, h.canBeOpen, habsorbed.errors, habsorbed.warnings⟩

theorem keeps_visitWith (hvisit : ∀ visit, deeper = some visit → sources.Keeps visit)
    (hstays : ∀ visit, deeper = some visit → ∀ s node, Stays s (visit s node)) :
    sources.Keeps fun s node => s.visitWith ctx deeper node := by
  intro s node h hlines
  refine ⟨?_, visitWith_stays hstays s node⟩
  have hline := hlines node.line List.mem_cons_self
  have hvalues : sources.Covers s node.statement.lines := (List.forall_mem_cons.mp hlines).2
  show sources.Sound (s.visitWith ctx deeper node)
  unfold visitWith
  cases hnode : node.statement with
  | comment => exact h
  | assignment key value =>
    rw [hnode] at hvalues
    exact h.visitAssignment hvisit key hvalues
  | inclusion path => exact h.visitInclusion hvisit path hline
  | extension path => exact h.visitExtension hvisit path hline

/-- **A statement of the current file leaves the state sound.** -/
theorem keeps_visit : ∀ levels, sources.Keeps (visit ctx levels)
  | 0 => keeps_visitWith (fun _ h => by cases h) fun _ h => by cases h
  | levels + 1 => by
    refine keeps_visitWith (fun _ h => ?_) fun _ h => ?_
    · cases h
      exact keeps_visit levels
    · cases h
      exact visit_stays levels

/-- A compilation reports real lines if it starts from what its file says. -/
theorem reports_of_compileText (sources : Sources ctx version) {file : Descriptor} {text : String}
    (hversion : file.version = version) (hopen : sources.CanBeOpen file.path [file.path])
    (hsaid : sources.Says file.path text) {journal : Journal} {r : Resource}
    (h : (ctx.compileText file text journal).1 = .ok r) :
    r.file = file ∧ sources.Reports r := by
  unfold Context.compileText at h
  cases hparsed : Document.ofScannedText ctx.options text with
  | error e =>
    rw [hparsed] at h
    cases h
  | ok document =>
    rw [hparsed] at h
    cases h
    have hvisit : ∀ s node, Stays s (visit ctx (ctx.options.maxDepth - 1) s node) := visit_stays _
    have hreports : sources.Reports
        ((start file [] journal).run (visit ctx (ctx.options.maxDepth - 1)) document).resource :=
      (keeps_visit _).run journal hversion hopen hsaid hparsed
    exact ⟨(foldl_stays (keep_stays hvisit) _ _).file.trans (withNotes_stays _ _ _).file, hreports⟩

end Sources

end Evaluation

end Courseware
