/-
How a compilation deals with its library.

The questions of a compilation come in blocks (`Block`), one for each file that
is asked for. A file that is nowhere is not asked about again; one that is
somewhere is asked about once more and at once, for its address if a directive
copies that and for its content otherwise. In a library that gives each file
the version that it is asked for at, all blocks are at the version of the
request (`Context.outcome_blocks`), however many descriptors the version has
passed through.
-/
import Courseware.Proofs.Evaluation.Diagnostics
import Courseware.Proofs.Evaluation.Questions

namespace Courseware

/-- Whether a library is held in memory or in directories. -/
inductive Library.Stored : Library → Prop
  | memory (m : Memory) : Stored m.library
  | directory (d : Directory) : Stored d.library

theorem Library.Stored.steady {library : Library} (h : library.Stored) : library.Steady := by
  cases h with
  | memory m => exact m.library_steady
  | directory d => exact d.library_steady

/-- **A block of questions at a version**, on behalf of a directive or of the document that a
compilation starts with. -/
inductive Block (ctx : Context) (version : String) : Option Directive → List Call → Prop
  /-- The file is nowhere. -/
  | failed {d : Option Directive} {path : String} {e : Error}
      (h : ctx.library.locate path version = .error e) : Block ctx version d [.locate path version]
  /-- The content of a file, which no directive wants that copies an address. -/
  | content {d : Option Directive} {path : String} {file : Descriptor} (hd : d ≠ some .url)
      (h : ctx.library.locate path version = .ok file) :
      Block ctx version d [.locate path version, .content file]
  /-- The address of a file, under what the options say that addresses start with. -/
  | url {path : String} {file : Descriptor} (h : ctx.library.locate path version = .ok file) :
      Block ctx version (some .url) [.locate path version, .url file ctx.options.urlStart]

/-- The questions about a file make a block. -/
theorem Asked.block (ctx : Context) (a : Asked) :
    Block ctx a.version a.directive (a.calls ctx) := by
  unfold calls questions
  cases hlocate : ctx.library.locate a.path a.version with
  | error e => exact .failed hlocate
  | ok file =>
    by_cases hurl : a.directive = some .url
    · simp only [hurl, if_true]
      exact .url hlocate
    · simp only [hurl, if_false]
      exact .content hurl hlocate

namespace Context

variable {library : Library} {options : Options}

/-- A document stands at the version that it is asked for at, and so do those that it opens. -/
theorem documentAt_version (h : library.Steady) {path version : String} {file : Descriptor}
    {document : Document}
    (hfound : documentAt ⟨library, options⟩ path version = .ok (file, document)) :
    file.version = version := by
  obtain ⟨text, hread, -⟩ := documentAt_ok hfound
  exact (h.readText_again hread).1

/-- All that is asked because of the directives of a document is asked at its version. -/
theorem asked_version (h : library.Steady) (levels : Nat) (p : Site) (nodes : List Node) :
    ∀ a ∈ Evaluation.asked ⟨library, options⟩ levels p nodes, a.version = p.version := by
  refine Evaluation.forall_asked (P := fun q => q.version = p.version) (fun q d raw hq => hq) ?_
    levels p nodes rfl
  intro q d raw file document hq hfound
  unfold Site.inside
  split
  · exact hq
  · exact (documentAt_version h hfound).trans hq

theorem askedFirst_version (h : library.Steady) {version : String}
    {found : Except Error (Descriptor × Document)}
    (hfound : ∀ file document, found = .ok (file, document) → file.version = version) :
    ∀ a ∈ askedFirst ⟨library, options⟩ found, a.version = version := by
  rcases found with e | ⟨file, document⟩
  · exact List.forall_mem_nil _
  · intro a ha
    exact (asked_version h _ (.first file) document.nodes a ha).trans (hfound file document rfl)

/-- All that a compilation asks for is asked at the version of the request. -/
theorem asked_request_version (h : library.Steady) (options : Options) (request : Request) :
    ∀ a ∈ asked ⟨library, options⟩ request, a.version = request.version := by
  cases request with
  | text first text =>
    refine askedFirst_version h fun file document hfound => ?_
    unfold parseAt at hfound
    cases hparsed : Document.ofScannedText options text with
    | error e =>
      rw [hparsed] at hfound
      cases hfound
    | ok document' =>
      rw [hparsed] at hfound
      cases hfound
      rfl
  | path path version =>
    refine List.forall_mem_cons.mpr ⟨rfl, ?_⟩
    exact askedFirst_version h fun file document hfound => documentAt_version h hfound

/-- **The questions of a compilation come in blocks**, one for each file that is asked for, all of
them at the version of the request. -/
theorem outcome_blocks (h : library.Stored) (options : Options) (request : Request)
    (journal : Journal) :
    (outcome ⟨library, options⟩ request journal).2.calls =
        journal.calls ++
          (asked ⟨library, options⟩ request).flatMap (Asked.calls ⟨library, options⟩) ∧
      ∀ a ∈ asked ⟨library, options⟩ request,
        Block ⟨library, options⟩ request.version a.directive (a.calls ⟨library, options⟩) := by
  refine ⟨(outcome_asks ⟨library, options⟩ request journal).calls, fun a ha => ?_⟩
  rw [← asked_request_version h.steady options request a ha]
  exact a.block ⟨library, options⟩

/-- A file that includes another one and inherits from a third, which is not there. The included one
copies the address and the content of a file, and binds the variables of one that is no text. -/
def copying : Memory :=
  ⟨"r", [⟨"/a", Memory.latest, "@include b\n@extends c".toUTF8⟩,
    ⟨"/b", Memory.latest, "x = [@copyurl d, @copycontent d, \x7by: @extends e\x7d]".toUTF8⟩,
    ⟨"/d", Memory.latest, "z".toUTF8⟩, ⟨"/e", Memory.latest, ⟨#[255]⟩⟩]⟩

/-- Its questions, at the version of the request throughout. -/
theorem outcome_blocks_copying :
    (outcome ⟨copying.library, {}⟩ (.path "/a" "v") (.empty 0)).2.calls = List.flatten
      [[.locate "/a" "v", .content ⟨"r", "v", "/a"⟩],
        [.locate "/b" "v", .content ⟨"r", "v", "/b"⟩],
        [.locate "/d" "v", .url ⟨"r", "v", "/d"⟩ "/api/v1/files"],
        [.locate "/d" "v", .content ⟨"r", "v", "/d"⟩],
        [.locate "/e" "v", .content ⟨"r", "v", "/e"⟩],
        [.locate "/c" "v"]] ∧
    ∀ a ∈ asked ⟨copying.library, {}⟩ (.path "/a" "v"),
      Block ⟨copying.library, {}⟩ "v" a.directive (a.calls ⟨copying.library, {}⟩) := by
  obtain ⟨hcalls, hblocks⟩ := outcome_blocks (.memory copying) {} (.path "/a" "v") (.empty 0)
  refine ⟨?_, hblocks⟩
  rw [hcalls]
  decide +kernel

end Context

end Courseware
