/-
Diagnostics point at lines that are there.

In a library that gives the same text again, a file says what can be read at
its path (`Sources.ofSteady`). For a text that stands at a path of a library in
memory, that path is the exception: it cannot be opened as long as the text is
open, so nothing that is recorded there is about another text
(`Sources.ofText`). Either way every diagnostic of a compilation points at a line
that is there, and so does an error of its first text
(`Context.outcome_pointsAtLines`).
-/
import Courseware.Proofs.Evaluation.Sources

namespace Courseware

namespace Evaluation

/-- In a steady library, the file at a path says what can be read there. -/
def Sources.ofSteady {library : Library} (h : library.Steady) (options : Options)
    (version : String) : Sources ⟨library, options⟩ version where
  Says path text := ∃ file, library.readText path version = .ok (file, text)
  CanBeOpen _ _ := True
  opened _ _ hread :=
    have hagain := h.readText_again hread
    ⟨hagain.1, ⟨_, hread⟩, ⟨_, hagain.2⟩, trivial⟩
  unread := h.readText_line?

/-- The same for a text that stands at a path of a library in memory: it is what the file there
says, which is open throughout. -/
def Sources.ofText (m : Memory) (options : Options) (first : Descriptor) (text : String) :
    Sources ⟨m.library, options⟩ first.version where
  Says path said :=
    if path = first.path then said = text
    else ∃ file, m.library.readText path first.version = .ok (file, said)
  CanBeOpen current stack := m.OpenFiles current stack ∧ first.path ∈ stack
  opened {current stack raw file said} hopen hclosed hread := by
    obtain ⟨hopen, hfirst⟩ := hopen
    have hlocated := (Library.readText_ok_iff.mp hread).1
    rw [Memory.library_locate] at hlocated
    obtain ⟨hversion, hagain⟩ := m.library_steady.readText_again hread
    have htarget : Path.resolve current raw ≠ first.path := fun heq => hclosed (heq ▸ hfirst)
    have hfile : file.path ≠ first.path := fun heq =>
      hopen.not_mem hclosed hlocated (heq ▸ hfirst)
    rw [if_neg htarget, if_neg hfile]
    exact ⟨hversion, ⟨_, hread⟩, ⟨_, hagain⟩, hopen.opened hclosed hlocated,
      List.mem_append_left _ hfirst⟩
  unread := m.library_steady.readText_line?

end Evaluation

/-! ## Compilations -/

/-- The version that a compilation is for. -/
def Request.version : Request → String
  | .path _ version => version
  | .text file _ => file.version

/-- Whether a request is for the text of a file. -/
inductive Request.Starts (library : Library) : Request → Descriptor → (text : String) → Prop
  | path {path version text : String} {file : Descriptor}
      (h : library.readText path version = .ok (file, text)) :
      Starts library (.path path version) file text
  | text (file : Descriptor) (text : String) : Starts library (.text file text) file text

/-- Whether a request can be answered by a library: any one over files in memory, and one for a path
over directories. -/
inductive Request.Served : Library → Request → Prop
  | memory (m : Memory) (request : Request) : Served m.library request
  | directory (d : Directory) (path version : String) : Served d.library (.path path version)

/-- Whether a diagnostic points at a line that is there: one of a text if it is for the file of the
text, and otherwise one of what can be read at its path. -/
def Diagnostic.PointsAt (library : Library) (version : String) (file : Descriptor) (text : String)
    (d : Diagnostic) : Prop :=
  if d.path = file.path then Text.HasLine text d.line
  else ∃ other said, library.readText d.path version = .ok (other, said) ∧
    Text.HasLine said d.line

theorem Evaluation.Sources.pointsAt_ofSteady {library : Library} (h : library.Steady)
    {options : Options} {path version text : String} {file : Descriptor}
    (hread : library.readText path version = .ok (file, text)) {d : Diagnostic}
    (hd : (ofSteady h options version).Real d) : d.PointsAt library version file text := by
  obtain ⟨said, ⟨other, hother⟩, hline⟩ := hd
  unfold Diagnostic.PointsAt
  split
  · next hpath =>
    rw [hpath, (h.readText_again hread).2] at hother
    cases hother
    exact hline
  · exact ⟨other, said, hother, hline⟩

theorem Evaluation.Sources.pointsAt_ofText {m : Memory} {options : Options} {file : Descriptor}
    {text : String} {d : Diagnostic} (hd : (ofText m options file text).Real d) :
    d.PointsAt m.library file.version file text := by
  obtain ⟨said, hsaid, hline⟩ := hd
  unfold Diagnostic.PointsAt
  by_cases hpath : d.path = file.path
  · have heq : said = text := by simpa [ofText, hpath] using hsaid
    rw [if_pos hpath, ← heq]
    exact hline
  · obtain ⟨other, hother⟩ :
        ∃ other, m.library.readText d.path file.version = .ok (other, said) := by
      simpa [ofText, hpath] using hsaid
    rw [if_neg hpath]
    exact ⟨other, said, hother, hline⟩

namespace Context

variable {ctx : Context} {path version : String} {journal : Journal}

theorem compile_eq (ctx : Context) (path version : String) (journal : Journal) :
    match ctx.library.readText path version with
    | .error e => (ctx.compile path version journal).1 = .error e
    | .ok (file, text) => ∃ j, (ctx.compile path version journal).1 =
        (ctx.compileText file text j).1 := by
  rw [← ctx.library.askText_fst [] path version journal]
  unfold compile
  rcases ctx.library.askText [] path version journal with ⟨e | ⟨file, text⟩, j⟩
  · rfl
  · exact ⟨j, rfl⟩

theorem compileText_error {file : Descriptor} {text : String} {e : Error}
    (h : (ctx.compileText file text journal).1 = .error e) : e.PointsInto text := by
  unfold compileText at h
  cases hparsed : Document.ofScannedText ctx.options text with
  | error e' =>
    rw [hparsed] at h
    cases h
    exact Document.pointsInto_of_ofScannedText hparsed
  | ok document =>
    rw [hparsed] at h
    cases h

/-- What is recorded for the text of a file is real if what its sources say is. -/
theorem compileText_pointsAt (journal : Journal) (sources : Evaluation.Sources ctx version)
    {file : Descriptor} {text : String} (hversion : file.version = version)
    (hopen : sources.CanBeOpen file.path [file.path]) (hsaid : sources.Says file.path text)
    (hpoints : ∀ d, sources.Real d → d.PointsAt ctx.library version file text) :
    match (ctx.compileText file text journal).1 with
    | .ok r => r.file = file ∧
        ∀ d ∈ r.errors ++ r.warnings, d.PointsAt ctx.library version file text
    | .error e => e.PointsInto text := by
  cases hcompiled : (ctx.compileText file text journal).1 with
  | error e => exact compileText_error hcompiled
  | ok r =>
    obtain ⟨hfile, hreports⟩ := sources.reports_of_compileText hversion hopen hsaid hcompiled
    refine ⟨hfile, fun d hd => hpoints d ?_⟩
    rcases List.mem_append.mp hd with hd | hd
    · exact hreports.errors d hd
    · exact hreports.warnings d hd

/-- Whether the outcome of a compilation points at lines that are there: every diagnostic does, and
a fatal error too if it is one of a text, which is then the first one. -/
def PointsAtLines (library : Library) (request : Request) : Except Error Resource → Prop
  | .ok r => ∃ file text, request.Starts library file text ∧ r.file = file ∧
      ∀ d ∈ r.errors ++ r.warnings, d.PointsAt library request.version file text
  | .error e => ∀ line, e.line? = some line →
      ∃ file text, request.Starts library file text ∧ Text.HasLine text line

theorem compile_pointsAtLines {library : Library} (h : library.Steady) (options : Options)
    (path version : String) (journal : Journal) :
    PointsAtLines library (.path path version)
      (Context.compile ⟨library, options⟩ path version journal).1 := by
  have hcompile := Context.compile_eq ⟨library, options⟩ path version journal
  cases hread : library.readText path version with
  | error e =>
    rw [hread] at hcompile
    rw [hcompile]
    intro line hline
    rw [h.readText_line? hread] at hline
    cases hline
  | ok found =>
    obtain ⟨file, text⟩ := found
    rw [hread] at hcompile
    obtain ⟨j, hcompile⟩ := hcompile
    obtain ⟨hversion, hagain⟩ := h.readText_again hread
    have hpoints := compileText_pointsAt j (.ofSteady h options version) hversion
      trivial ⟨file, hagain⟩ fun d => Evaluation.Sources.pointsAt_ofSteady h hread
    rw [hcompile]
    cases hcompiled : (Context.compileText ⟨library, options⟩ file text j).1 with
    | error e =>
      rw [hcompiled] at hpoints
      intro line hline
      obtain ⟨line', hline', htext⟩ := hpoints
      cases hline'.symm.trans hline
      exact ⟨file, text, .path hread, htext⟩
    | ok r =>
      rw [hcompiled] at hpoints
      exact ⟨file, text, .path hread, hpoints⟩

theorem compileText_pointsAtLines (m : Memory) (options : Options) (file : Descriptor)
    (text : String) (journal : Journal) :
    PointsAtLines m.library (.text file text)
      (Context.compileText ⟨m.library, options⟩ file text journal).1 := by
  have hsaid : (Evaluation.Sources.ofText m options file text).Says file.path text := by
    simp [Evaluation.Sources.ofText]
  have hpoints := compileText_pointsAt journal (.ofText m options file text) rfl
    ⟨m.openFiles_singleton file.path, List.mem_singleton_self _⟩ hsaid
    fun d => Evaluation.Sources.pointsAt_ofText
  cases hcompiled : (Context.compileText ⟨m.library, options⟩ file text journal).1 with
  | error e =>
    rw [hcompiled] at hpoints
    intro line hline
    obtain ⟨line', hline', htext⟩ := hpoints
    cases hline'.symm.trans hline
    exact ⟨file, text, .text file text, htext⟩
  | ok r =>
    rw [hcompiled] at hpoints
    exact ⟨file, text, .text file text, hpoints⟩

/-- **Every diagnostic points at a line that is there**, in the text that a compilation starts from
or in one that its library reads at the path of the diagnostic. So does an error that ends the
compilation because of a text, which can only be the first one. -/
theorem outcome_pointsAtLines {library : Library} {request : Request} (h : request.Served library)
    (options : Options) (journal : Journal) :
    PointsAtLines library request (Context.outcome ⟨library, options⟩ request journal).1 := by
  cases h with
  | memory m =>
    cases request with
    | path path version =>
      exact compile_pointsAtLines m.library_steady options path version journal
    | text file text => exact compileText_pointsAtLines m options file text journal
  | directory d path version =>
    exact compile_pointsAtLines d.library_steady options path version journal

/-- A file that inherits from one with an error in its second line. -/
def inheritingError : Memory :=
  ⟨"r", [⟨"/b", Memory.latest, "x = 1\ny = [z]".toUTF8⟩,
    ⟨"/a", Memory.latest, "@extends b".toUTF8⟩]⟩

/-- The error of a file that is inherited from points at its own second line, which the first file
does not have. -/
theorem outcome_pointsAtLines_inherited : ∃ r : Resource,
    (Context.outcome ⟨inheritingError.library, {}⟩ (.path "/a" "v") (.empty 0)).1 = .ok r ∧
    r.errors = [⟨2, "/b", "Unresolved reference 'z'"⟩] ∧
    (∀ d ∈ r.errors ++ r.warnings,
      d.PointsAt inheritingError.library "v" ⟨"r", "v", "/a"⟩ "@extends b") ∧
    ¬ Text.HasLine "@extends b" 2 := by
  have hlines := outcome_pointsAtLines (.memory inheritingError (.path "/a" "v")) {} (.empty 0)
  have hread : inheritingError.library.readText "/a" "v" =
      .ok (⟨"r", "v", "/a"⟩, "@extends b") := rfl
  obtain ⟨r, hr, herrors⟩ : ∃ r : Resource, (Context.outcome ⟨inheritingError.library, {}⟩
      (.path "/a" "v") (.empty 0)).1 = .ok r ∧
        r.errors = [⟨2, "/b", "Unresolved reference 'z'"⟩] := ⟨_, rfl, by decide +kernel⟩
  rw [hr] at hlines
  obtain ⟨file, text, hstarts, -, hpoints⟩ := hlines
  cases hstarts with
  | path h =>
    cases hread.symm.trans h
    exact ⟨r, hr, herrors, hpoints, by decide⟩

end Context

end Courseware
