/-
What is in a library after a history of writes to it.

A path may be spelled in any way each time that it is used. A write and a question
about a file meet where both paths have one normal form (`Insertion.Lands`), and the
file is what was written there last (`Insertion.IsLast`), at the version asked for if there was
such a write and at `latest` if not (`Memory.locate_content_after`).

Whether there is a file is asked in two ways. `contains` looks at the normal form of a
path alone, while a path below the home directory is located nowhere, so the two
answers differ if a file was written under such a path
(`Memory.located_iff_contains`).
-/
import Courseware.Library.Memory
import Mathlib.Data.List.Induction

namespace Courseware

/-- A file that is written to a library. -/
structure Insertion where
  /-- The path as it is spelled. -/
  path : String
  version : String
  bytes : ByteArray

/-- Whether a file is written where a path leads to, and at exactly a version. -/
def Insertion.Lands (path version : String) (i : Insertion) : Prop :=
  Path.normalize i.path = Path.normalize path ∧ i.version = version

instance (path version : String) (i : Insertion) : Decidable (i.Lands path version) :=
  inferInstanceAs (Decidable (_ ∧ _))

/-- Whether a write is the last one of a history that lands at a path and a version. -/
def Insertion.IsLast (history : List Insertion) (path version : String) (i : Insertion) : Prop :=
  i.Lands path version ∧
    ∃ before later, history = before ++ i :: later ∧ ∀ j ∈ later, ¬ j.Lands path version

/-- Whether what is at a path and a version is what a write put there: the last write at the
version, or else the last one at `latest`. -/
def Insertion.Answers (history : List Insertion) (path version : String) (i : Insertion) : Prop :=
  i.IsLast history path version ∨
    (∀ j ∈ history, ¬ j.Lands path version) ∧ i.IsLast history path Memory.latest

variable {history : List Insertion} {path version : String}

/-- The last write that lands somewhere is the first one from the end. -/
theorem find?_reverse_eq_some_iff {i : Insertion} :
    history.reverse.find? (fun j => j.Lands path version) = some i ↔
      i.IsLast history path version := by
  rw [List.find?_eq_some_iff_append, decide_eq_true_eq, Insertion.IsLast]
  refine and_congr_right fun _ => ⟨?_, ?_⟩
  · rintro ⟨later, before, hsplit, hlater⟩
    refine ⟨before.reverse, later.reverse, ?_, fun j hj => ?_⟩
    · rw [← List.reverse_reverse history, hsplit]
      simp
    · simpa using hlater j (List.mem_reverse.mp hj)
  · rintro ⟨before, later, rfl, hlater⟩
    exact ⟨later.reverse, before.reverse, by simp, by simpa using hlater⟩

/-- Some write is the last one wherever there is any. -/
theorem exists_isLast_iff : (∃ i : Insertion, i.IsLast history path version) ↔
    ∃ i ∈ history, i.Lands path version := by
  simp only [← find?_reverse_eq_some_iff]
  rw [← Option.isSome_iff_exists, List.find?_isSome]
  simp only [List.mem_reverse, decide_eq_true_eq]

theorem exists_answers_iff : (∃ i : Insertion, i.Answers history path version) ↔
    ∃ i ∈ history, Path.normalize i.path = Path.normalize path ∧
      (i.version = version ∨ i.version = Memory.latest) := by
  have hversion : (∃ i : Insertion, i.IsLast history path version) ↔ _ := exists_isLast_iff
  have hlatest : (∃ i : Insertion, i.IsLast history path Memory.latest) ↔ _ := exists_isLast_iff
  unfold Insertion.Answers
  constructor
  · rintro ⟨i, hi | ⟨-, hi⟩⟩
    · obtain ⟨j, hj, hpath, hv⟩ := hversion.mp ⟨i, hi⟩
      exact ⟨j, hj, hpath, .inl hv⟩
    · obtain ⟨j, hj, hpath, hv⟩ := hlatest.mp ⟨i, hi⟩
      exact ⟨j, hj, hpath, .inr hv⟩
  · rintro ⟨j, hj, hpath, hv⟩
    by_cases hany : ∃ i ∈ history, i.Lands path version
    · obtain ⟨i, hi⟩ := hversion.mpr hany
      exact ⟨i, .inl hi⟩
    · have hnone : ∀ i ∈ history, ¬ i.Lands path version := fun i hi hl => hany ⟨i, hi, hl⟩
      have hj' : j.Lands path Memory.latest :=
        ⟨hpath, hv.resolve_left fun hv => hnone j hj ⟨hpath, hv⟩⟩
      obtain ⟨i, hi⟩ := hlatest.mpr ⟨j, hj, hj'⟩
      exact ⟨i, .inr ⟨hnone, hi⟩⟩

namespace Memory

/-- **A library after a history of writes.** -/
def after (resource : String) (history : List Insertion) : Memory :=
  history.foldl (fun m i => m.insert i.path i.version i.bytes) (empty resource)

/-- One more write comes last. -/
theorem after_snoc (resource : String) (history : List Insertion) (i : Insertion) :
    after resource (history ++ [i]) = (after resource history).insert i.path i.version i.bytes := by
  rw [after, List.foldl_append]
  rfl

@[simp] theorem after_resource (resource : String) (history : List Insertion) :
    (after resource history).resource = resource := by
  induction history using List.reverseRecOn with
  | nil => rfl
  | append_singleton history i ih => rw [after_snoc, insert, ih]

/-- A write replaces what is written where it lands, and nothing else. -/
theorem writtenAt?_insert (m : Memory) (i : Insertion) (path version : String) :
    (m.insert i.path i.version i.bytes).writtenAt? (Path.normalize path) version =
      if i.Lands path version then some i.bytes
      else m.writtenAt? (Path.normalize path) version := by
  by_cases hi : Path.normalize i.path = Path.normalize path ∧ i.version = version
  · simp [writtenAt?, insert, Insertion.Lands, hi]
  · rw [if_neg (show ¬ i.Lands path version from hi), writtenAt?, insert,
      List.find?_cons_of_neg (by simpa using hi)]
    rfl

theorem writtenAt?_after (resource : String) (history : List Insertion) (path version : String) :
    (after resource history).writtenAt? (Path.normalize path) version =
      (history.reverse.find? fun i => i.Lands path version).map (·.bytes) := by
  induction history using List.reverseRecOn with
  | nil => rfl
  | append_singleton history i ih =>
    rw [after_snoc, writtenAt?_insert, List.reverse_append, List.reverse_singleton,
      List.singleton_append, List.find?_cons]
    by_cases hi : i.Lands path version
    · simp [hi]
    · simp [hi, ih]

/-- **The bytes at a path and a version are those of the write that answers for them.** -/
theorem bytes?_after_eq_some_iff (resource : String) {bytes : ByteArray} :
    (after resource history).bytes? (Path.normalize path) version = some bytes ↔
      ∃ i : Insertion, i.Answers history path version ∧ i.bytes = bytes := by
  have hnone : history.reverse.find? (fun j => j.Lands path version) = none ↔
      ∀ j ∈ history, ¬ j.Lands path version := by
    simp [List.find?_eq_none]
  rw [bytes?, Option.or_eq_some_iff, writtenAt?_after, writtenAt?_after]
  simp only [Option.map_eq_some_iff, Option.map_eq_none_iff, hnone, find?_reverse_eq_some_iff,
    Insertion.Answers, or_and_right, exists_or, and_assoc, exists_and_left]

/-- There are bytes at a path and a version exactly if a write answers for them. -/
theorem bytes?_after_isSome (resource : String) (history : List Insertion) (path version : String) :
    ((after resource history).bytes? (Path.normalize path) version).isSome ↔
      ∃ i ∈ history, Path.normalize i.path = Path.normalize path ∧
        (i.version = version ∨ i.version = latest) := by
  rw [← exists_answers_iff, Option.isSome_iff_exists]
  simp only [bytes?_after_eq_some_iff]
  exact ⟨fun ⟨_, i, hi, _⟩ => ⟨i, hi⟩, fun ⟨i, hi⟩ => ⟨_, i, hi, rfl⟩⟩

/-- Where a path is not below the home directory, it leads to a file if there are bytes. -/
theorem locate_eq_ok_iff {m : Memory} {file : Descriptor}
    (hpath : Path.isHome path.toList = false) :
    m.locate path version = .ok file ↔ (m.bytes? (Path.normalize path) version).isSome ∧
      file = ⟨m.resource, version, Path.normalize path⟩ := by
  simp only [locate, hpath, Bool.false_eq_true, if_false]
  split
  · next h => simp [h, eq_comm]
  · next h => simp [h]

/-- **A library answers with the last write.** After any history of writes, a path that is not below
the home directory leads to a file at a version if and only if something was written where it leads
to, at the version or at `latest`. The file is the one at the normal form of the path, and its
content is what was written there last: at the version, or else at `latest`. -/
theorem locate_content_after (resource : String) (history : List Insertion) {path : String}
    (version : String) (hpath : Path.isHome path.toList = false) :
    ((∃ file, (after resource history).locate path version = .ok file) ↔
      ∃ i ∈ history, Path.normalize i.path = Path.normalize path ∧
        (i.version = version ∨ i.version = latest)) ∧
    ∀ file, (after resource history).locate path version = .ok file →
      file = ⟨resource, version, Path.normalize path⟩ ∧
        ∃ i : Insertion, i.Answers history path version ∧
          (after resource history).content file = .ok i.bytes := by
  refine ⟨?_, fun file hfile => ?_⟩
  · simp only [locate_eq_ok_iff hpath, bytes?_after_isSome, exists_and_left, exists_eq, and_true]
  · obtain ⟨hbytes, rfl⟩ := (locate_eq_ok_iff hpath).mp hfile
    obtain ⟨bytes, hbytes⟩ := Option.isSome_iff_exists.mp hbytes
    obtain ⟨i, hi, rfl⟩ := (bytes?_after_eq_some_iff resource).mp hbytes
    refine ⟨by rw [after_resource], i, hi, ?_⟩
    rw [content, hbytes]

/-- Two files, one of them written twice at a version and under another spelling. -/
def spelled : List Insertion :=
  [⟨"/a", "latest", "old".toUTF8⟩, ⟨"b/../a", "v2", "first".toUTF8⟩, ⟨"./a", "v2", "second".toUTF8⟩,
    ⟨"/b", "v2", "other".toUTF8⟩, ⟨"a/", "latest", "new".toUTF8⟩]

/-- At a version of its own and at one that nothing was written at, under another spelling. -/
theorem locate_content_after_spelled :
    Path.isHome "//a".toList = false ∧
      (after "r" spelled).content ⟨"r", "v2", "/a"⟩ = .ok "second".toUTF8 ∧
      (after "r" spelled).content ⟨"r", "v1", "/a"⟩ = .ok "new".toUTF8 := by
  have hpath : Path.isHome "//a".toList = false := by decide
  have hdated : spelled.reverse.find? (fun i => i.Lands "//a" "v2") =
      some ⟨"./a", "v2", "second".toUTF8⟩ := by rfl
  have hundated : spelled.reverse.find? (fun i => i.Lands "//a" "v1") = none := by rfl
  have hlatest : spelled.reverse.find? (fun i => i.Lands "//a" latest) =
      some ⟨"a/", "latest", "new".toUTF8⟩ := by rfl
  refine ⟨hpath, ?_, ?_⟩
  · obtain ⟨-, i, hi | ⟨hnone, -⟩, hcontent⟩ :=
      (locate_content_after "r" spelled "v2" hpath).2 ⟨"r", "v2", "/a"⟩ (by rfl)
    · cases hdated.symm.trans (find?_reverse_eq_some_iff.mpr hi)
      exact hcontent
    · have hmem := List.mem_reverse.mp (List.mem_of_find?_eq_some hdated)
      exact absurd ⟨by rfl, rfl⟩ (hnone _ hmem)
  · obtain ⟨-, i, hi | ⟨-, hi⟩, hcontent⟩ :=
      (locate_content_after "r" spelled "v1" hpath).2 ⟨"r", "v1", "/a"⟩ (by rfl)
    · cases hundated.symm.trans (find?_reverse_eq_some_iff.mpr hi)
    · cases hlatest.symm.trans (find?_reverse_eq_some_iff.mpr hi)
      exact hcontent

/-- **Whether there is a file, asked in two ways.** After any history of writes, `contains` tells
whether something was written where a path leads to, at a version or at `latest`. The path leads to
a file if and only if it does and is not below the home directory. -/
theorem located_iff_contains (resource : String) (history : List Insertion)
    (path version : String) :
    ((after resource history).contains path version = true ↔
      ∃ i ∈ history, Path.normalize i.path = Path.normalize path ∧
        (i.version = version ∨ i.version = latest)) ∧
    ((∃ file, (after resource history).locate path version = .ok file) ↔
      (after resource history).contains path version = true ∧
        Path.isHome path.toList = false) := by
  refine ⟨bytes?_after_isSome resource history path version, ?_⟩
  cases hpath : Path.isHome path.toList with
  | true => simp [locate, hpath]
  | false => simp [locate_eq_ok_iff hpath, contains]

/-- A file that was written under a path below the home directory is there for `contains`, and
cannot be located. -/
theorem not_located_of_contains_home :
    ¬ ((after "r" [⟨"~/a", "latest", "x".toUTF8⟩]).contains "~/a" "latest" = true ↔
      ∃ file, (after "r" [⟨"~/a", "latest", "x".toUTF8⟩]).locate "~/a" "latest" = .ok file) := by
  intro h
  obtain ⟨file, hfile⟩ := h.mp (by decide +kernel)
  have hnone : (after "r" [⟨"~/a", "latest", "x".toUTF8⟩]).locate "~/a" "latest" =
      .error (FileFault.noHome.error "~/a") := by rfl
  cases hnone.symm.trans hfile

end Memory

end Courseware
