/-
The open files of a compilation over directories.

A library held in directories gives every file a path in normal form, the ones
below the home directory included (`Directory.normalPath`). A directive is
checked against the open files before the library sees its path. A path that is
rooted or relative is in normal form by then (`Directory.normalPath_resolve`),
so the check finds the file if it is open. A path below the home directory is
checked as it is spelled. If this is not how the library gives it (`Settled`), the
check never finds the file, and the file can be opened inside itself until no
level is left.
-/
import Courseware.Library.Directory
import Courseware.Proofs.Evaluation.Recorded
import Courseware.Proofs.Evaluation.Refusal
import Courseware.Proofs.Path.Normal
import Mathlib.Data.List.Nodup

namespace Courseware.Directory

/-! ## Spellings -/

theorem normalPath_home (below : List Char) :
    normalPath (String.ofList ('~' :: Path.normalizeChars below)) =
      String.ofList ('~' :: Path.normalizeChars below) := by
  have hhome : Path.isHome ('~' :: Path.normalizeChars below) = true := rfl
  simp [normalPath, hhome]

theorem normalPath_of_normal {path : String} (h : Path.Normal path) : normalPath path = path := by
  simp only [normalPath, h.not_isHome, Bool.false_eq_true, if_false]
  exact h

/-- A path in normal form is rooted, or it is a tilde before one that is. -/
theorem normal_or_home {path : String} (h : normalPath path = path) :
    Path.Normal path ∨ ∃ below, path.toList = '~' :: Path.normalizeChars below := by
  rw [← h]
  unfold normalPath
  split
  · exact .inr ⟨_, String.toList_ofList⟩
  · exact .inl (Path.normal_normalize path)

theorem normalPath_normalPath (path : String) :
    normalPath (normalPath path) = normalPath path := by
  cases hhome : Path.isHome path.toList with
  | true =>
    have hpath : normalPath path =
        String.ofList ('~' :: Path.normalizeChars (path.toList.drop 1)) := if_pos hhome
    rw [hpath, normalPath_home]
  | false =>
    have hpath : normalPath path = Path.normalize path := by simp [normalPath, hhome]
    rw [hpath, normalPath_of_normal (Path.normal_normalize path)]

/-- Whether a path that a directive names is spelled as the library gives it, if it is one below the
home directory. -/
def Settled (raw : String) : Prop :=
  Path.isHome (Text.trim raw.toList) = true →
    normalPath (String.ofList (Text.trim raw.toList)) = String.ofList (Text.trim raw.toList)

/-- **What a directive names is in normal form** when it is checked, unless it is a path below the
home directory that is not settled. -/
theorem normalPath_resolve {current : String} (hcurrent : normalPath current = current)
    (raw : String) : normalPath (Path.resolve current raw) = Path.resolve current raw ↔
      Settled raw := by
  cases hhome : Path.isHome (Text.trim raw.toList) with
  | true =>
    rw [Path.resolve_of_isHome hhome]
    exact ⟨fun h _ => h, fun h => h hhome⟩
  | false =>
    have hsettled : Settled raw := fun h => absurd h (by simp [hhome])
    refine ⟨fun _ => hsettled, fun _ => ?_⟩
    rcases normal_or_home hcurrent with hnormal | ⟨below, hbelow⟩
    · refine normalPath_of_normal (Path.normal_resolve ?_ hhome)
      rw [hnormal.head]
      simp
    · have hhead : (Path.normalizeChars below).head? ≠ some '~' := by
        simp [Path.normalizeChars, Path.ofSegments]
      obtain ⟨whole, hwhole⟩ := Path.relative_of_head hhead (Text.trim raw.toList)
      by_cases hroot : (Text.trim raw.toList).head? = some '/'
      · have hresolve : Path.resolve current raw =
            Path.normalize (String.ofList (Text.trim raw.toList)) := by
          simp [Path.resolve, Path.resolveChars, hhome, hroot, Path.normalize]
        rw [hresolve]
        exact normalPath_of_normal (Path.normal_normalize _)
      · have hresolve : Path.resolve current raw =
            String.ofList ('~' :: Path.normalizeChars whole) := by
          simp [Path.resolve, Path.resolveChars, hhome, hroot, hbelow, Path.relative, hwhole]
        rw [hresolve]
        exact normalPath_home whole

/-! ## Open files -/

theorem library_locate (d : Directory) : d.library.locate = d.locate := by
  simp only [library]

/-- A file that is located has the normal form of the path. -/
theorem locate_ok {d : Directory} {path version : String} {file : Descriptor}
    (h : d.locate path version = .ok file) : file.path = normalPath path := by
  unfold locate at h
  dsimp only at h
  split at h
  · cases h
  · split at h <;> cases h
    rfl

theorem normalPath_of_locate {d : Directory} {path version : String} {file : Descriptor}
    (h : d.locate path version = .ok file) : normalPath file.path = file.path := by
  rw [locate_ok h, normalPath_normalPath]

open Evaluation

variable {d : Directory} {options : Options} {path version : String} {journal : Journal}

/-- The first file of a compilation is the one at the path that it is asked for. -/
theorem firstDocument_ok {ctx : Context} {file : Descriptor} {document : Document} {j : Journal}
    (h : ctx.firstDocument (.path path version) journal = (.ok (file, document), j)) :
    ctx.library.locate path version = .ok file := by
  unfold Context.firstDocument at h
  dsimp only at h
  split at h
  · cases h
  · next first text j' hask =>
    have hfirst : ctx.parseAt first text = .ok (file, document) := congrArg Prod.fst h
    unfold Context.parseAt at hfirst
    cases hparsed : Document.ofScannedText ctx.options text with
    | error e =>
      rw [hparsed] at hfirst
      cases hfirst
    | ok parsed =>
      rw [hparsed] at hfirst
      cases hfirst
      exact askText_ok hask

/-- All open files have paths in normal form. -/
theorem normalPath_of_point {levels : Nat} {s : Evaluation} {task : Task}
    (h : Point ⟨d.library, options⟩ (.path path version) journal levels s task) :
    normalPath s.current = s.current ∧ ∀ p ∈ s.stack, normalPath p = p := by
  have hlocate : ∀ {target version : String} {file : Descriptor},
      d.library.locate target version = .ok file → normalPath file.path = file.path := by
    intro target version file hlocated
    rw [library_locate] at hlocated
    exact normalPath_of_locate hlocated
  refine h.open_induction (P := fun _ current stack =>
    normalPath current = current ∧ ∀ p ∈ stack, normalPath p = p) ?_ ?_
  · intro file _ _ hfirst
    have hnormal := hlocate (firstDocument_ok hfirst)
    exact ⟨hnormal, List.forall_mem_singleton.mpr hnormal⟩
  · intro _ _ _ _ _ _ file _ _ hopens ih
    have hnormal := hlocate hopens.located
    exact ⟨hnormal, List.forall_mem_append.mpr ⟨ih.2, List.forall_mem_singleton.mpr hnormal⟩⟩

/-- A file that a settled directive opens was not open. -/
theorem not_mem_of_opens {s : Evaluation} {raw : String} {file : Descriptor}
    (hcurrent : normalPath s.current = s.current) (hraw : Settled raw)
    (h : Opens ⟨d.library, options⟩ s (Path.resolve s.current raw) file) : file.path ∉ s.stack := by
  have hlocated := h.located
  rw [library_locate] at hlocated
  rw [locate_ok hlocated, (normalPath_resolve hcurrent raw).mpr hraw]
  exact h.closed

/-- Whether all directives of a compilation are settled. -/
def AllSettled (d : Directory) (options : Options) (path version : String) (journal : Journal) :
    Prop :=
  ∀ (levels : Nat) (s : Evaluation) (task : Task) (raw : String) (line : Nat) (t : Evaluation),
    Point ⟨d.library, options⟩ (.path path version) journal levels s task →
      Directs ⟨d.library, options⟩ levels s task raw line t → Settled raw

/-- Opening files leaves them distinct as long as all directives are settled. -/
theorem AllSettled.nodup (hsettled : AllSettled d options path version journal) {levels : Nat}
    {s : Evaluation} {task : Task}
    (h : Point ⟨d.library, options⟩ (.path path version) journal levels s task) :
    s.stack.Nodup := by
  refine h.open_induction (P := fun _ _ stack => stack.Nodup)
    (fun _ => List.nodup_singleton _) ?_
  intro _ s _ task raw line file hpoint hdirects hopens ih
  have hraw := hsettled _ _ _ _ _ _ hpoint hdirects
  have hnew := not_mem_of_opens (normalPath_of_point hpoint).1 hraw hopens
  rw [← List.concat_eq_append]
  exact ih.concat hnew

/-- **The open files of a compilation over directories.** At every point all of them have paths in
normal form. A directive that is settled is refused if the file at its target is open, and one that
is not settled is never refused for that. So no file is open twice if all directives are settled,
and the journal bears witness to this. -/
theorem not_opened_twice (d : Directory) (options : Options) (path version : String)
    (journal : Journal) :
    (∀ (levels : Nat) (s : Evaluation) (task : Task),
      Point ⟨d.library, options⟩ (.path path version) journal levels s task →
        (∀ p ∈ s.stack, normalPath p = p) ∧
        ∀ (raw : String) (line : Nat) (t : Evaluation),
          Directs ⟨d.library, options⟩ levels s task raw line t →
            (Settled raw → ∀ file,
              d.locate (Path.resolve s.current raw) s.resource.file.version = .ok file →
                file.path ∈ s.stack → Refused s t line (Path.resolve s.current raw)) ∧
            (¬ Settled raw → Path.resolve s.current raw ∉ s.stack)) ∧
      (AllSettled d options path version journal →
        (∀ (levels : Nat) (s : Evaluation) (task : Task),
          Point ⟨d.library, options⟩ (.path path version) journal levels s task →
            s.stack.Nodup) ∧
        journal.GoesOn List.Nodup
          (Context.outcome ⟨d.library, options⟩ (.path path version) journal).2) := by
  refine ⟨fun levels s task h => ?_, fun hsettled => ⟨fun _ _ _ h => hsettled.nodup h, ?_⟩⟩
  · obtain ⟨hcurrent, hstack⟩ := normalPath_of_point h
    refine ⟨hstack, fun raw line t hdirects => ⟨fun hraw file hlocated hopen => ?_, ?_⟩⟩
    · rw [locate_ok hlocated, (normalPath_resolve hcurrent raw).mpr hraw] at hopen
      exact hdirects.refused hopen
    · intro hraw hopen
      exact hraw ((normalPath_resolve hcurrent raw).mp (hstack _ hopen))
  · refine (outcome_goesOn _ _ journal).mono fun stack hstack => ?_
    rcases hstack with rfl | ⟨levels, s, task, h, rfl⟩
    · exact List.nodup_nil
    · exact hsettled.nodup h

/-- One file, `h` in the home directory, which includes what lies at a path. -/
def including (path : String) : Directory :=
  ⟨"r", .empty, .ofPaths [("h", ("@include " ++ path).toUTF8)] []⟩

theorem firstDocument_including : ∃ j, Context.firstDocument ⟨(including "x//../h").library, {}⟩
    (.path "~/h" "v") (.empty 0) =
      (.ok (⟨"r", "v", "~/h"⟩, ⟨[⟨.inclusion "x//../h", 1, ""⟩], []⟩), j) := ⟨_, rfl⟩

theorem settled_including : Settled "x//../h" := by
  unfold Settled
  decide +kernel

/-- Where a file includes itself by a settled path, there are two points: before and after this. -/
theorem points_including {levels : Nat} {s : Evaluation} {task : Task}
    (h : Point ⟨(including "x//../h").library, {}⟩ (.path "~/h" "v") (.empty 0) levels s task) :
    (s.current = "~/h" ∧ s.stack = ["~/h"]) ∧ (task = .statements true [] ∨
      task = .statements true [⟨.inclusion "x//../h", 1, ""⟩]) := by
  have htarget : Path.resolve "~/h" "x//../h" = "~/h" := by decide +kernel
  induction h with
  | start h =>
    obtain ⟨j, hfirst⟩ := firstDocument_including
    cases hfirst.symm.trans h
    exact ⟨⟨rfl, rfl⟩, .inr rfl⟩
  | next _ ih =>
    obtain ⟨⟨hcurrent, hstack⟩, htask⟩ := ih
    refine ⟨⟨(visitOrKeep_stays _ _ _ _).current.trans hcurrent,
      (visitOrKeep_stays _ _ _ _).stack.trans hstack⟩, ?_⟩
    rcases htask with htask | htask <;> cases htask
    exact .inl rfl
  | inclusion _ hnode hopen ih =>
    obtain ⟨⟨hcurrent, hstack⟩, htask⟩ := ih
    obtain ⟨-, hopens, -⟩ := openInclusion_opens hopen
    rcases htask with htask | htask <;> cases htask
    cases hnode
    have hclosed := hopens.closed
    rw [hcurrent, htarget, hstack] at hclosed
    exact absurd List.mem_cons_self hclosed
  | assigned _ hnode ih | extension _ hnode _ ih =>
    rcases ih.2 with htask | htask <;> cases htask
    cases hnode
  | dictionary _ _ ih | array _ ih | item _ ih | nextItem _ ih | object _ ih | entry _ ih
  | nextEntry _ ih => rcases ih.2 with htask | htask <;> cases htask

/-- A file below the home directory that includes itself by a settled path is refused, and is open
only once. -/
theorem not_opened_twice_relative :
    (∃ (levels : Nat) (s t : Evaluation) (task : Task),
      Point ⟨(including "x//../h").library, {}⟩ (.path "~/h" "v") (.empty 0) levels s task ∧
      Directs ⟨(including "x//../h").library, {}⟩ levels s task "x//../h" 1 t ∧
      Settled "x//../h" ∧ s.stack = ["~/h"] ∧ Refused s t 1 "~/h") ∧
    AllSettled (including "x//../h") {} "~/h" "v" (.empty 0) ∧
    (Journal.empty 0).GoesOn List.Nodup
      (Context.outcome ⟨(including "x//../h").library, {}⟩ (.path "~/h" "v") (.empty 0)).2 := by
  have hall : AllSettled (including "x//../h") {} "~/h" "v" (.empty 0) := by
    intro levels s task raw line t hpoint hdirects
    rcases (points_including hpoint).2 with rfl | rfl
    · cases hdirects
    · cases hdirects with
      | inclusion hnode =>
        cases hnode
        exact settled_including
      | extension hnode | assigned hnode => cases hnode
  refine ⟨?_, hall, ((not_opened_twice _ _ _ _ _).2 hall).2⟩
  obtain ⟨j, hfirst⟩ := firstDocument_including
  have hpoint := Point.start hfirst
  have hdirects : Directs ⟨(including "x//../h").library, {}⟩ 31 (start ⟨"r", "v", "~/h"⟩ [] j)
      (.statements true [⟨.inclusion "x//../h", 1, ""⟩]) "x//../h" 1 _ := .inclusion rfl
  have hlocated : (including "x//../h").locate (Path.resolve "~/h" "x//../h") "v" =
      .ok ⟨"r", "v", "~/h"⟩ := by decide +kernel
  have htarget : Path.resolve "~/h" "x//../h" = "~/h" := by decide +kernel
  obtain ⟨-, hall⟩ := (not_opened_twice _ _ _ _ _).1 _ _ _ hpoint
  have hrefused : Refused (start ⟨"r", "v", "~/h"⟩ [] j) _ 1 (Path.resolve "~/h" "x//../h") :=
    (hall _ _ _ hdirects).1 settled_including _ hlocated List.mem_cons_self
  rw [htarget] at hrefused
  exact ⟨31, _, _, _, hpoint, hdirects, settled_including, rfl, hrefused⟩

/-- **A file below the home directory that includes itself by a path that is not settled is opened
again.** -/
theorem opened_twice_unsettled : ∃ (levels : Nat) (s t inside : Evaluation) (task task' : Task),
    Point ⟨(including "~/./h").library, {}⟩ (.path "~/h" "v") (.empty 0) (levels + 1) s task ∧
    Directs ⟨(including "~/./h").library, {}⟩ (levels + 1) s task "~/./h" 1 t ∧
    s.stack = ["~/h"] ∧
    Point ⟨(including "~/./h").library, {}⟩ (.path "~/h" "v") (.empty 0) levels inside task' ∧
    inside.stack = ["~/h", "~/h"] := by
  have hfirst : Context.firstDocument ⟨(including "~/./h").library, {}⟩ (.path "~/h" "v")
      (.empty 0) = (.ok (⟨"r", "v", "~/h"⟩, ⟨[⟨.inclusion "~/./h", 1, ""⟩], []⟩),
        ⟨[([], .call (.locate "~/h" "v")), ([], .call (.content ⟨"r", "v", "~/h"⟩))], 0⟩) := rfl
  obtain ⟨document, before, hopen⟩ : ∃ document before,
      (start ⟨"r", "v", "~/h"⟩ [] ⟨[([], .call (.locate "~/h" "v")),
        ([], .call (.content ⟨"r", "v", "~/h"⟩))], 0⟩).openInclusion
          ⟨(including "~/./h").library, {}⟩ (some (visit ⟨(including "~/./h").library, {}⟩ 30))
            "~/./h" 1 = .ok ⟨_, ⟨"r", "v", "~/h"⟩, document, before⟩ := ⟨_, _, rfl⟩
  have hpoint := Point.start hfirst
  have hinside := hpoint.inclusion rfl hopen
  have hstack : before.stack = ["~/h"] := (openInclusion_opens hopen).2.2.stack
  refine ⟨30, _, _, _, _, _, hpoint, .inclusion rfl, rfl, hinside, ?_⟩
  rw [(inside_place _).2.2, hstack]
  rfl

end Courseware.Directory
