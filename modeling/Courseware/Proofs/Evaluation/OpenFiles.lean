/-
The open files of a compilation over a library in memory.

A directive is checked against the paths of the open files as it resolves, and
what is opened has the path that the library gives it. The two are the same
path: what resolves is normal (`Path.normal_resolve`), and so is what the
library gives. There are two exceptions, and neither does any harm. A path below
the home directory is refused by the library. And in the file that a compilation
starts with, which may have any path, one can start with a tilde without being
such a path; what a directive opens there is normal and differs from it.

So no file is open twice (`OpenFiles`), and there are never more files open than
the library holds, besides the first one. The depth that the options allow does
not matter beyond that (`Memory.visit_levels`).
-/
import Courseware.Library.Memory
import Courseware.Proofs.Evaluation.Levels
import Courseware.Proofs.Evaluation.Recorded
import Courseware.Proofs.Evaluation.Refusal
import Courseware.Proofs.Path.Normal
import Mathlib.Data.List.Dedup
import Mathlib.Data.List.Perm.Subperm

namespace Courseware

namespace Memory

/-- The paths at which something was written. -/
def paths (m : Memory) : List String := (m.writes.map (·.path)).dedup

theorem mem_paths_of_bytes? {m : Memory} {path version : String}
    (h : (m.bytes? path version).isSome = true) : path ∈ m.paths := by
  have hwritten : ∀ v, (m.writtenAt? path v).isSome = true → path ∈ m.paths := by
    intro v hv
    rw [writtenAt?, Option.isSome_map] at hv
    obtain ⟨w, hw⟩ := Option.isSome_iff_exists.mp hv
    have hfound := List.find?_some hw
    simp only [decide_eq_true_eq] at hfound
    exact List.mem_dedup.mpr (List.mem_map.mpr ⟨w, List.mem_of_find?_eq_some hw, hfound.1⟩)
  rw [bytes?, Option.isSome_or, Bool.or_eq_true] at h
  rcases h with h | h
  · exact hwritten version h
  · exact hwritten latest h

theorem library_locate (m : Memory) : m.library.locate = m.locate := rfl

/-- A file that is located has a normal path at which something was written. -/
theorem locate_ok {m : Memory} {path version : String} {file : Descriptor}
    (h : m.locate path version = .ok file) : Path.isHome path.toList = false ∧
      file.path = Path.normalize path ∧ file.path ∈ m.paths := by
  unfold locate at h
  split at h
  · cases h
  · next hhome =>
    dsimp only at h
    split at h
    · next hbytes =>
      cases h
      exact ⟨by simpa using hhome, rfl, mem_paths_of_bytes? hbytes⟩
    · cases h

/-! ## No file is open twice -/

/-- Whether files are open as they can be: none of them twice, the current one last, and all but the
first at normal paths of the library. -/
structure OpenFiles (m : Memory) (current : String) (stack : List String) : Prop where
  last : stack.getLast? = some current
  nodup : stack.Nodup
  stored : ∀ path ∈ stack.tail, path ∈ m.paths
  normal : ∀ path ∈ stack.tail, Path.Normal path

variable {m : Memory} {current : String} {stack : List String}

theorem openFiles_singleton (m : Memory) (path : String) : m.OpenFiles path [path] :=
  ⟨rfl, List.nodup_singleton path, List.forall_mem_nil _, List.forall_mem_nil _⟩

/-- The paths that are open are those of the library and one more. -/
theorem OpenFiles.length_le (h : m.OpenFiles current stack) :
    stack.length ≤ 1 + m.paths.length := by
  have hsub : stack.tail ⊆ m.paths := h.stored
  have hle := (List.Nodup.subperm h.nodup.tail hsub).length_le
  rw [List.length_tail] at hle
  omega

/-- Only the first of the open files has a path that is not normal. -/
theorem OpenFiles.eq_singleton (h : m.OpenFiles current stack) (hcurrent : ¬ Path.Normal current) :
    stack = [current] := by
  have hlast := h.last
  cases stack with
  | nil => cases hlast
  | cons first inner =>
    cases inner with
    | nil =>
      cases hlast
      rfl
    | cons second inner =>
      have hmem : current ∈ second :: inner := by
        rw [List.getLast?_cons_cons] at hlast
        exact List.mem_of_getLast? hlast
      exact absurd (h.normal current hmem) hcurrent

/-- What a directive opens is not open yet. -/
theorem OpenFiles.not_mem (h : m.OpenFiles current stack) {raw version : String}
    {file : Descriptor} (hclosed : Path.resolve current raw ∉ stack)
    (hlocated : m.locate (Path.resolve current raw) version = .ok file) : file.path ∉ stack := by
  obtain ⟨hhome, hpath, -⟩ := locate_ok hlocated
  by_cases hcurrent : current.toList.head? = some '~'
  · -- the first file, at a path that starts with a tilde
    have hnormal : ¬ Path.Normal current := by
      intro hnormal
      rw [hnormal.head] at hcurrent
      cases hcurrent
    rw [h.eq_singleton hnormal, List.mem_singleton]
    intro heq
    rw [← heq, hpath] at hnormal
    exact hnormal (Path.normal_normalize _)
  · have hraw : Path.isHome (Text.trim raw.toList) = false := by
      cases hisHome : Path.isHome (Text.trim raw.toList) with
      | false => rfl
      | true =>
        rw [Path.resolve_of_isHome hisHome, String.toList_ofList, hisHome] at hhome
        cases hhome
    have hnormal : Path.Normal (Path.resolve current raw) := Path.normal_resolve hcurrent hraw
    rw [hpath, hnormal]
    exact hclosed

theorem OpenFiles.opened (h : m.OpenFiles current stack) {raw version : String}
    {file : Descriptor} (hclosed : Path.resolve current raw ∉ stack)
    (hlocated : m.locate (Path.resolve current raw) version = .ok file) :
    m.OpenFiles file.path (stack ++ [file.path]) := by
  have hnew := h.not_mem hclosed hlocated
  obtain ⟨-, hpath, hmem⟩ := locate_ok hlocated
  have hne : stack ≠ [] := by
    intro hnil
    have hlast := h.last
    rw [hnil] at hlast
    cases hlast
  have htail : (stack ++ [file.path]).tail = stack.tail ++ [file.path] :=
    List.tail_append_of_ne_nil hne
  refine ⟨List.getLast?_concat, ?_, ?_, ?_⟩
  · rw [← List.concat_eq_append]
    exact h.nodup.concat hnew
  · rw [htail, List.forall_mem_append]
    exact ⟨h.stored, List.forall_mem_singleton.mpr hmem⟩
  · have hnormal : Path.Normal file.path := by
      rw [hpath]
      exact Path.normal_normalize _
    rw [htail, List.forall_mem_append]
    exact ⟨h.normal, List.forall_mem_singleton.mpr hnormal⟩

open Evaluation

variable {options : Options} {request : Request} {journal : Journal}

theorem openFiles_of_point {levels : Nat} {s : Evaluation} {task : Task}
    (h : Point ⟨m.library, options⟩ request journal levels s task) :
    m.OpenFiles s.current s.stack := by
  refine h.open_induction (P := fun _ current stack => m.OpenFiles current stack)
    (fun _ => openFiles_singleton m _) ?_
  intro _ s _ _ raw _ file _ _ hopens ih
  have hlocated := hopens.located
  rw [library_locate] at hlocated
  exact ih.opened hopens.closed hlocated

/-! ## How many levels there are -/

theorem OpenFiles.stays {s t : Evaluation} (h : m.OpenFiles s.current s.stack) (hst : Stays s t) :
    m.OpenFiles t.current t.stack := by
  rw [hst.current, hst.stack]
  exact h

/-- Statements of a document give the same if all statements do wherever files are open to the same
depth. -/
theorem foldl_congr {levels levels' n : Nat} (own : Bool)
    (h : ∀ s node, m.OpenFiles s.current s.stack → m.paths.length + 2 ≤ s.stack.length + n →
      visit ⟨m.library, options⟩ levels s node = visit ⟨m.library, options⟩ levels' s node)
    (nodes : List Node) :
    ∀ s, m.OpenFiles s.current s.stack → m.paths.length + 2 ≤ s.stack.length + n →
      nodes.foldl (visitOrKeep own (visit ⟨m.library, options⟩ levels)) s =
        nodes.foldl (visitOrKeep own (visit ⟨m.library, options⟩ levels')) s := by
  induction nodes with
  | nil => exact fun _ _ _ => rfl
  | cons node nodes ih =>
    intro s hopen hlen
    have hnode := visitOrKeep_congr own node fun origin => h s { node with origin } hopen hlen
    have hplace : Stays s (visitOrKeep own (visit ⟨m.library, options⟩ levels) s node) :=
      visitOrKeep_stays own levels s node
    rw [List.foldl_cons, List.foldl_cons, ← hnode]
    refine ih _ (hopen.stays hplace) ?_
    rw [hplace.stack]
    exact hlen

/-- **As many levels as there may be files besides the open ones, and one more, are as good as any
number.** With all files open, the next one is refused for being open or for not being there, and
never for the depth. -/
theorem visit_levels (n : Nat) : ∀ {levels levels' : Nat} (s : Evaluation) (node : Node),
    m.OpenFiles s.current s.stack → m.paths.length + 2 ≤ s.stack.length + n →
      n ≤ levels → n ≤ levels' →
        visit ⟨m.library, options⟩ levels s node = visit ⟨m.library, options⟩ levels' s node := by
  induction n with
  | zero =>
    intro _ _ s _ hopen hlen
    have hle := hopen.length_le
    omega
  | succ n ih =>
    intro levels levels' s node hopen hlen hlevels hlevels'
    obtain ⟨l, rfl⟩ := Nat.exists_eq_add_of_le' (Nat.le_of_add_left_le hlevels)
    obtain ⟨l', rfl⟩ := Nat.exists_eq_add_of_le' (Nat.le_of_add_left_le hlevels')
    have hl : n ≤ l := by omega
    have hl' : n ≤ l' := by omega
    refine visitWith_congr ?_ node
    intro raw file own t nodes hopens hcurrent hstack
    have hlocated := hopens.located
    rw [library_locate] at hlocated
    have hopen' : m.OpenFiles t.current t.stack := by
      rw [hcurrent, hstack]
      exact hopen.opened hopens.closed hlocated
    have hlen' : m.paths.length + 2 ≤ t.stack.length + n := by
      rw [hstack, List.length_append, List.length_singleton]
      omega
    exact foldl_congr own (fun u node hu hlenu => ih u node hu hlenu hl hl') nodes t hopen' hlen'

/-- A whole compilation needs one level more than there are files. -/
theorem run_levels {levels levels' : Nat} (hlevels : m.paths.length + 1 ≤ levels)
    (hlevels' : m.paths.length + 1 ≤ levels') (file : Descriptor) (document : Document)
    (j : Journal) : (start file [] j).run (visit ⟨m.library, options⟩ levels) document =
      (start file [] j).run (visit ⟨m.library, options⟩ levels') document := by
  have hnotes := withNotes_stays (start file [] j) (start file [] j).current document.notes
  have hopen : m.OpenFiles (start file [] j).current (start file [] j).stack :=
    openFiles_singleton m file.path
  refine foldl_congr true (fun s node hs hlen => visit_levels _ s node hs hlen hlevels hlevels')
    document.nodes _ (hopen.stays hnotes) ?_
  rw [hnotes.stack]
  show m.paths.length + 2 ≤ 1 + (m.paths.length + 1)
  omega

/-- **The open files of a compilation over a library in memory.** Whatever is asked for and whatever
the files say, at every point of the compilation no file is open twice; there are no more open files
than the options allow, and no more than the library holds and the first one; and a directive whose
target is open is refused with one error. The journal bears witness to this at every event. So the
outcome is that of a compilation with one level more than there are files, whatever depth the
options allow. -/
theorem open_files (m : Memory) (options : Options) (request : Request) (journal : Journal) :
    (∀ (levels : Nat) (s : Evaluation) (task : Task),
      Point ⟨m.library, options⟩ request journal levels s task →
        s.stack.Nodup ∧ s.stack.length ≤ max 1 options.maxDepth ∧
          s.stack.length ≤ 1 + m.paths.length ∧
          ∀ (raw : String) (line : Nat) (t : Evaluation),
            Directs ⟨m.library, options⟩ levels s task raw line t →
              Path.resolve s.current raw ∈ s.stack →
                Refused s t line (Path.resolve s.current raw)) ∧
      journal.GoesOn (fun stack => stack.Nodup ∧ stack.length ≤ max 1 options.maxDepth ∧
          stack.length ≤ 1 + m.paths.length)
        (Context.outcome ⟨m.library, options⟩ request journal).2 ∧
      Context.outcome ⟨m.library, options⟩ request journal =
        Context.outcomeWithin ⟨m.library, options⟩
          (min (options.maxDepth - 1) (m.paths.length + 1)) request journal := by
  have hpoint : ∀ (levels : Nat) (s : Evaluation) (task : Task),
      Point ⟨m.library, options⟩ request journal levels s task →
        s.stack.Nodup ∧ s.stack.length ≤ max 1 options.maxDepth ∧
          s.stack.length ≤ 1 + m.paths.length := by
    intro levels s task h
    have hopen := openFiles_of_point h
    have hdepth := h.levels_add
    exact ⟨hopen.nodup, Nat.le_trans (Nat.le_add_left _ _) (Nat.le_of_eq hdepth), hopen.length_le⟩
  refine ⟨fun levels s task h => ?_, ?_, ?_⟩
  · obtain ⟨hnodup, hdepth, hfiles⟩ := hpoint levels s task h
    exact ⟨hnodup, hdepth, hfiles, fun raw line t hdirects => hdirects.refused⟩
  · refine (outcome_goesOn _ request journal).mono fun stack hstack => ?_
    rcases hstack with rfl | ⟨levels, s, task, h, rfl⟩
    · exact ⟨List.nodup_nil, Nat.zero_le _, Nat.zero_le _⟩
    · exact hpoint levels s task h
  · rw [Context.outcome_eq]
    dsimp only
    by_cases hdepth : options.maxDepth - 1 ≤ m.paths.length + 1
    · rw [Nat.min_eq_left hdepth]
    · have hlevels : m.paths.length + 1 ≤ options.maxDepth - 1 := Nat.le_of_not_le hdepth
      rw [Nat.min_eq_right hlevels]
      unfold Context.outcomeWithin
      rcases Context.firstDocument ⟨m.library, options⟩ request journal with
        ⟨e | ⟨file, document⟩, j⟩
      · rfl
      · dsimp only
        rw [run_levels hlevels (Nat.le_refl _)]

/-- One file, at `/b`, which inherits from `/a` by another spelling. -/
def inheriting : Memory :=
  ⟨"r", [⟨"/b", latest, "@extends ./x/../a".toUTF8⟩]⟩

/-- A file that inherits from the text that includes it is refused at its line. -/
theorem open_files_cycle : ∃ (levels : Nat) (s t : Evaluation) (task : Task),
    Point ⟨inheriting.library, {}⟩ (.text ⟨"r", "v", "/a"⟩ "@include b") (.empty 0) levels s task ∧
    Directs ⟨inheriting.library, {}⟩ levels s task "./x/../a" 1 t ∧
    s.stack = ["/a", "/b"] ∧ s.stack.Nodup ∧ Refused s t 1 "/a" := by
  have hfirst : Context.firstDocument ⟨inheriting.library, {}⟩
      (.text ⟨"r", "v", "/a"⟩ "@include b") (.empty 0) =
        (.ok (⟨"r", "v", "/a"⟩, ⟨[⟨.inclusion "b", 1, ""⟩], []⟩), .empty 0) := rfl
  obtain ⟨before, hopen⟩ : ∃ before, (start ⟨"r", "v", "/a"⟩ [] (.empty 0)).openInclusion
      ⟨inheriting.library, {}⟩ (some (visit ⟨inheriting.library, {}⟩ 30)) "b" 1 =
        .ok ⟨_, ⟨"r", "v", "/b"⟩, ⟨[⟨.extension "./x/../a", 1, ""⟩], []⟩, before⟩ := ⟨_, rfl⟩
  have hpoint := (Point.start hfirst).inclusion rfl hopen
  obtain ⟨-, hcurrent, hstack⟩ := inside_place ⟨visit ⟨inheriting.library, {}⟩ 30,
    ⟨"r", "v", "/b"⟩, ⟨[⟨.extension "./x/../a", 1, ""⟩], []⟩, before⟩
  have hbefore : before.stack = ["/a"] := (openInclusion_opens hopen).2.2.stack
  rw [hbefore] at hstack
  obtain ⟨hnodup, -, -, hrefused⟩ := (open_files _ _ _ _).1 _ _ _ hpoint
  have htarget : Path.resolve "/b" "./x/../a" = "/a" := by decide +kernel
  have hrefused := hrefused _ _ _ (.extension rfl)
  rw [hcurrent, htarget, hstack] at hrefused
  exact ⟨30, _, _, _, hpoint, .extension rfl, hstack, hnodup, hrefused List.mem_cons_self⟩

end Memory

end Courseware
