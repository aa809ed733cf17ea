/-
A version that nothing was written at.

Where every file of a library in memory was written at `latest`, a file is at any
version what it is at `latest` (`Memory.bytes?_eq_latest`). A compilation hands the
version that it was asked for on to every question, and what it is told depends on
the version in two places only: how it is worded that a file is absent, and the
address of a file. So a compilation at such a version and the one at `latest` go step
by step (`Comparison`), and where no address is copied they come out the same
(`Memory.outcome_latest`).
-/
import Courseware.Proofs.Evaluation.OpenFiles
import Courseware.Proofs.Evaluation.Simulation

namespace Courseware

/-- The line and the file that a diagnostic points at. -/
def Diagnostic.place (d : Diagnostic) : Nat × String := (d.line, d.path)

theorem Diagnostic.SameBut.place_eq {faults : Error → Error → Prop} {d d' : Diagnostic}
    (h : SameBut faults d d') : d'.place = d.place := by
  cases h <;> rfl

theorem Diagnostic.map_place_eq {faults : Error → Error → Prop} {ds ds' : List Diagnostic}
    (h : List.Forall₂ (SameBut faults) ds ds') : ds'.map place = ds.map place := by
  induction h with
  | nil => rfl
  | cons hd _ ih => rw [List.map_cons, List.map_cons, hd.place_eq, ih]

/-- The same file, at another version. -/
def Descriptor.atVersion (file : Descriptor) (version : String) : Descriptor :=
  { file with version }

/-- The same question, at another version. -/
def Call.atVersion (version : String) : Call → Call
  | .locate path _ => .locate path version
  | .content file => .content (file.atVersion version)
  | .url file start => .url (file.atVersion version) start

/-- The same request, at another version. -/
def Request.atVersion (version : String) : Request → Request
  | .path asked _ => .path asked version
  | .text file said => .text (file.atVersion version) said

theorem Request.atVersion_atVersion (request : Request) (version version' : String) :
    (request.atVersion version).atVersion version' = request.atVersion version' := by
  cases request <;> rfl

/-- Whether a question is not for the address of a file. -/
def Call.NoAddress : Call → Prop
  | .url _ _ => False
  | .locate _ _ | .content _ => True

instance : (call : Call) → Decidable call.NoAddress
  | .url _ _ => inferInstanceAs (Decidable False)
  | .locate _ _ | .content _ => inferInstanceAs (Decidable True)

/-- **Whether a compilation copies no address.** -/
def Journal.NoAddress (j : Journal) : Prop := ∀ call ∈ j.calls, call.NoAddress

instance (j : Journal) : Decidable j.NoAddress :=
  inferInstanceAs (Decidable (∀ call ∈ j.calls, call.NoAddress))

/-- Whether an event copies an address only if addresses may be copied. -/
def Event.Copies (addresses : Prop) : Event → Prop
  | .call (.url _ _) => addresses
  | _ => True

theorem Journal.NoAddress.copies {j : Journal} (h : j.NoAddress) (addresses : Prop) :
    j.Holds fun _ event => event.Copies addresses := by
  rintro ⟨stack, event⟩ hmem
  cases event with
  | nest => trivial
  | call call =>
    have hcall := h call (List.mem_filterMap.mpr ⟨_, hmem, rfl⟩)
    cases call with
    | url => exact hcall.elim
    | locate | content => trivial

/-- Any event copies an address if addresses may be copied. -/
theorem Journal.copies_true (j : Journal) : j.Holds fun _ event => event.Copies True := by
  rintro ⟨stack, event⟩ -
  dsimp only
  unfold Event.Copies
  split <;> trivial

namespace Memory

variable {m : Memory}

/-- **Whether every file was written at `latest`.** -/
def OnlyLatest (m : Memory) : Prop := ∀ w ∈ m.writes, w.version = latest

instance (m : Memory) : Decidable m.OnlyLatest :=
  inferInstanceAs (Decidable (∀ w ∈ m.writes, w.version = latest))

theorem writtenAt?_of_ne_latest (h : m.OnlyLatest) {version : String} (hversion : version ≠ latest)
    (path : String) : m.writtenAt? path version = none := by
  rw [writtenAt?, Option.map_eq_none_iff, List.find?_eq_none]
  intro w hw
  simp [h w hw, Ne.symm hversion]

/-- **A file is at any version what it is at `latest`.** -/
theorem bytes?_eq_latest (h : m.OnlyLatest) (path version : String) :
    m.bytes? path version = m.bytes? path latest := by
  by_cases hversion : version = latest
  · rw [hversion]
  · simp [bytes?, writtenAt?_of_ne_latest h hversion]

theorem content_atVersion (h : m.OnlyLatest) (file : Descriptor) (version : String) :
    m.content (file.atVersion version) = m.content file := by
  simp only [content, Descriptor.atVersion, bytes?_eq_latest h file.path version,
    bytes?_eq_latest h file.path file.version]

/-- Whether two errors say of a file that it is absent, each at a version of its own. -/
def BothAbsent (e e' : Error) : Prop :=
  ∃ path version version', e = (FileFault.absent version).error path ∧
    e' = (FileFault.absent version').error path

/-! ## Two compilations -/

/-- The texts of values that may stand for one another: an identifier for the one at the same
distance, and, if there are `addresses`, the address of a file for the one at a version. -/
def Texts (version : String) (addresses : Prop) (first first' : Nat) (text text' : String) : Prop :=
  Json.SameText first first' text text' ∨
    addresses ∧ ∃ (file : Descriptor) (start : String), text = file.url start ∧
      text' = (file.atVersion version).url start

theorem texts_false (version : String) (first first' : Nat) :
    Texts version False first first' = Json.SameText first first' := by
  funext text text'
  simp [Texts]

/-- The compilation of a request, and the one at a version that nothing was written at. -/
def beside (m : Memory) (options : Options) (version : String) (addresses : Prop)
    (first first' : Nat) : Comparison where
  one := ⟨m.library, options⟩
  other := ⟨m.library, options⟩
  version _ := version
  firstId := first
  firstId' := first'
  Texts := Texts version addresses first first'
  Faults := BothAbsent
  Allowed _ event := event.Copies addresses

variable {options : Options} {version : String} {addresses : Prop} {first first' : Nat}

theorem beside_request (request : Request) :
    (m.beside options version addresses first first').request request =
      request.atVersion version := by
  cases request <;> rfl

theorem beside_call :
    (m.beside options version addresses first first').call = Call.atVersion version := by
  funext call
  cases call <;> rfl

theorem located_beside (h : m.OnlyLatest) (path asked : String) :
    (m.beside options version addresses first first').Results
      (m.beside options version addresses first first').SameFile
      (m.library.locate path asked) (m.library.locate path version) := by
  have hfile : (m.beside options version addresses first first').SameFile
      ⟨m.resource, asked, Path.normalize path⟩ ⟨m.resource, version, Path.normalize path⟩ :=
    ⟨rfl, content_atVersion h ⟨m.resource, asked, Path.normalize path⟩ version⟩
  have habsent : BothAbsent ((FileFault.absent asked).error (Path.normalize path))
      ((FileFault.absent version).error (Path.normalize path)) := ⟨_, _, _, rfl, rfl⟩
  have hbytes (asked : String) := bytes?_eq_latest h (Path.normalize path) asked
  rw [library_locate]
  simp only [locate, hbytes]
  by_cases hhome : Path.isHome path.toList = true
  · simp only [hhome, if_true]
    exact .error (.inl rfl)
  · simp only [hhome, Bool.false_eq_true, if_false]
    split
    · exact .ok hfile
    · exact .error (.inr habsent)

theorem beside_lawful (h : m.OnlyLatest) :
    (m.beside options version addresses first first').Lawful where
  options := rfl
  texts_refl _ := .inl (.inl rfl)
  texts_id drawn := .inl (.inr ⟨drawn, rfl, rfl⟩)
  faults_line? h := by
    obtain ⟨path, asked, asked', rfl, rfl⟩ := h
    rfl
  located {_ path asked} _ := located_beside h path asked
  url {_ file start} haddresses := .inr ⟨haddresses, file, start, rfl, rfl⟩
  depth _ := .inr (.inl rfl)

/-- **Compilations at a version that nothing was written at come out as at `latest`.** -/
theorem outcome_beside (h : m.OnlyLatest) (options : Options) (request : Request)
    (version : String) (addresses : Prop) (first first' : Nat)
    (hcopies : (Context.outcome ⟨m.library, options⟩ request (.empty first)).2.Holds
      fun _ event => event.Copies addresses) :
    let c := m.beside options version addresses first first'
    c.Results c.Resources (Context.outcome ⟨m.library, options⟩ request (.empty first)).1
        (Context.outcome ⟨m.library, options⟩ (request.atVersion version) (.empty first')).1 ∧
      (Context.outcome ⟨m.library, options⟩ (request.atVersion version) (.empty first')).2.calls =
        (Context.outcome ⟨m.library, options⟩ request (.empty first)).2.calls.map
          (Call.atVersion version) := by
  intro c
  have hc : c.Lawful := beside_lawful h
  obtain ⟨hresults, hjournals⟩ := Comparison.outcome_matched hc (.empty c) request hcopies
  have hcalls := hjournals.calls
  rw [beside_request] at hresults hcalls
  rw [beside_call] at hcalls
  exact ⟨hresults, hcalls⟩

/-- **A version that nothing was written at behaves as `latest`.** The compilations at both ask for
the same, each at its version. They both end in an error, which is the same or says that the file is
absent, or both make a resource, with the same nodes, dependencies and warnings, and with errors at
the same lines of the same files. Where no address is copied, the variables are the same but for
identifiers. -/
theorem outcome_latest (h : m.OnlyLatest) (options : Options) (request : Request)
    (version : String) (first first' : Nat) :
    let ctx : Context := ⟨m.library, options⟩
    let one := ctx.outcome (request.atVersion latest) (.empty first)
    let other := ctx.outcome (request.atVersion version) (.empty first')
    other.2.calls = one.2.calls.map (Call.atVersion version) ∧
    ((∃ e e', one.1 = .error e ∧ other.1 = .error e' ∧ (e' = e ∨ BothAbsent e e')) ∨
      ∃ r r', one.1 = .ok r ∧ other.1 = .ok r' ∧
        r'.nodes = r.nodes ∧ r'.dependencies = r.dependencies ∧ r'.warnings = r.warnings ∧
        r'.errors.map Diagnostic.place = r.errors.map Diagnostic.place ∧
        (one.2.NoAddress → Json.EntriesAlike first first' r.vars r'.vars ∧
          Json.EntriesAlike first first' r.own r'.own)) := by
  intro ctx one other
  have hbeside (addresses : Prop) (hcopies : one.2.Holds fun _ event => event.Copies addresses) :=
    outcome_beside h options (request.atVersion latest) version addresses first first' hcopies
  rw [Request.atVersion_atVersion] at hbeside
  obtain ⟨hresults, hcalls⟩ := hbeside True one.2.copies_true
  refine ⟨hcalls, ?_⟩
  have halike (hnone : one.2.NoAddress) := (hbeside False (hnone.copies False)).1
  generalize one.1 = done, other.1 = done' at hresults halike ⊢
  cases hresults with
  | error he => exact .inl ⟨_, _, rfl, rfl, he⟩
  | @ok r r' hr =>
    refine .inr ⟨r, r', rfl, rfl, hr.nodes, hr.dependencies, hr.warnings,
      Diagnostic.map_place_eq hr.errors, fun hnone => ?_⟩
    cases halike hnone with
    | ok hr =>
      obtain ⟨-, hvars, hown, -⟩ := hr
      simp only [beside, texts_false] at hvars hown
      exact ⟨hvars.alike, hown.alike⟩

/-- A file that includes another one and copies the content of a third. The included one inherits
from a file that is not there. -/
def undated : Memory :=
  ⟨"r", [⟨"/a", latest, "@include b\nx = [wc-p, @copycontent c]".toUTF8⟩,
    ⟨"/b", latest, "y = 1\n@extends d".toUTF8⟩, ⟨"/c", latest, "z".toUTF8⟩]⟩

/-- At any version the same is missing, and it is worded otherwise. -/
theorem outcome_latest_undated :
    let one := Context.outcome ⟨undated.library, {}⟩ (.path "/a" latest) (.empty 0)
    let other := Context.outcome ⟨undated.library, {}⟩ (.path "/a" "v2") (.empty 5)
    undated.OnlyLatest ∧ one.2.NoAddress ∧
    other.2.calls = one.2.calls.map (Call.atVersion "v2") ∧
    ∃ r r', one.1 = .ok r ∧ other.1 = .ok r' ∧ r'.nodes = r.nodes ∧
      r'.errors.map Diagnostic.place = [(2, "/b")] ∧ r'.errors ≠ r.errors ∧
      Json.EntriesAlike 0 5 r.vars r'.vars ∧ (r.vars.lookup "x.0.cid").isSome = true := by
  intro one other
  have hlatest : undated.OnlyLatest := by decide
  have hnone : one.2.NoAddress := by decide +kernel
  have hresources : (one.1.toOption.any fun r => other.1.toOption.any fun r' =>
      decide (r.errors.map Diagnostic.place = [(2, "/b")]) && decide (r'.errors ≠ r.errors) &&
        (r.vars.lookup "x.0.cid").isSome) = true := by
    decide +kernel
  obtain ⟨hcalls, hdone⟩ := outcome_latest hlatest {} (.path "/a" latest) "v2" 0 5
  refine ⟨hlatest, hnone, hcalls, ?_⟩
  rcases hdone with ⟨e, e', he, -⟩ | ⟨r, r', hr, hr', hnodes, -, -, hplaces, halike⟩
  · have hone : one.1 = .error e := he
    rw [hone] at hresources
    cases hresources
  · have hone : one.1 = .ok r := hr
    have hother : other.1 = .ok r' := hr'
    rw [hone, hother] at hresources
    simp only [Except.toOption, Option.any_some, Bool.and_eq_true, decide_eq_true_eq] at hresources
    obtain ⟨⟨hline, hworded⟩, hcid⟩ := hresources
    exact ⟨r, r', hone, hother, hnodes, hplaces.trans hline, hworded, (halike hnone).1, hcid⟩

end Memory

end Courseware
