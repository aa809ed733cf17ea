/-
Paths that are put together.

The parts of a path are taken one after another, so where it leads to depends on
what its front leads through and on nothing else of its front
(`Path.segments_append`). A front may be brought to its normal form
(`Path.normalizeChars_append`), and slashes at its end lead nowhere. So a path that
is read relative to a file takes from the path of the file the normal form of its
directory (`Path.relative_of_rooted`).
-/
import Courseware.Proofs.Path.Normal
import Mathlib.Data.List.Induction

namespace Courseware.Path

/-! ## One path behind another -/

/-- A path goes on from where its front leads to. -/
theorem segments_append (path rest : List Char) :
    segments (path ++ '/' :: rest) = (Text.split '/' rest).foldl step (segments path) := by
  rw [segments, Text.split_append, List.foldl_append, segments]

/-- What goes on from a path goes on from its normal form. -/
theorem normalizeChars_append (path rest : List Char) :
    normalizeChars (normalizeChars path ++ '/' :: rest) = normalizeChars (path ++ '/' :: rest) := by
  have hsegments :
      segments (normalizeChars path ++ '/' :: rest) = segments (path ++ '/' :: rest) := by
    rw [segments_append, segments_append, segments_normalizeChars]
  rw [normalizeChars, hsegments, normalizeChars]

/-- A slash at the end leads nowhere. -/
theorem segments_append_slash (path : List Char) : segments (path ++ ['/']) = segments path :=
  segments_append path []

theorem segments_without_slashes (path : List Char) :
    segments (path.reverse.dropWhile (· = '/')).reverse = segments path := by
  induction path using List.reverseRecOn with
  | nil => rfl
  | append_singleton path c ih =>
    rw [List.reverse_append, List.reverse_singleton, List.singleton_append]
    by_cases hc : c = '/'
    · rw [List.dropWhile_cons_of_pos (by simp [hc]), ih, hc, segments_append_slash]
    · rw [List.dropWhile_cons_of_neg (by simp [hc]), List.reverse_cons, List.reverse_reverse]

/-! ## A path in a file -/

/-- A relative path takes nothing else from the path of a rooted file than the normal form of its
directory. -/
theorem relative_of_rooted {current : List Char} (h : current.head? = some '/')
    (path : List Char) : relative current path =
      normalizeChars (normalizeChars (directoryChars current) ++ '/' :: path) := by
  unfold relative
  split
  · cases h
  · have hbase : normalizeChars ((directoryChars current).reverse.dropWhile (· = '/')).reverse =
        normalizeChars (directoryChars current) := by
      rw [normalizeChars, segments_without_slashes, normalizeChars]
    dsimp only
    rw [← normalizeChars_append, hbase]

/-- **A path leads to the same file wherever it is written in a directory**, however the directory
is spelled. -/
theorem resolve_of_directory {current other : String} (hcurrent : current.toList.head? = some '/')
    (hother : other.toList.head? = some '/')
    (hdirectory : normalize (directory other) = normalize (directory current)) (raw : String) :
    resolve other raw = resolve current raw := by
  have hchars : normalizeChars (directoryChars other.toList) =
      normalizeChars (directoryChars current.toList) := by
    have hlists := String.ofList_injective hdirectory
    simpa only [directory, String.toList_ofList] using hlists
  simp only [resolve, resolveChars, relative_of_rooted hother, relative_of_rooted hcurrent, hchars]

/-- **Paths compose.** A path goes on from the normal form of its front as it does from the front.
A normal form is a slash and names that lead down with slashes between them, and it is its own
normal form. A path that is written in a rooted file takes nothing from there but the normal form
of the directory: it resolves to itself without the blanks around it if that is a path below the
home directory, and to a normal form otherwise. -/
theorem paths_compose (path rest : String) :
    normalize (path ++ "/" ++ rest) = normalize (normalize path ++ "/" ++ rest) ∧
    (∃ names, (∀ name ∈ names, LeadsDown name) ∧
      (normalize path).toList = '/' :: Text.join ['/'] names) ∧
    normalize (normalize path) = normalize path ∧
    ∀ current raw : String, current.toList.head? = some '/' →
      (∀ other : String, other.toList.head? = some '/' →
        normalize (directory other) = normalize (directory current) →
          resolve other raw = resolve current raw) ∧
      if isHome (Text.trim raw.toList) then resolve current raw = Text.trimmed raw
      else normalize (resolve current raw) = resolve current raw := by
  refine ⟨?_, ?_, normal_normalize path, fun current raw hcurrent => ⟨?_, ?_⟩⟩
  · have happend : ∀ front : String,
        (front ++ "/" ++ rest).toList = front.toList ++ '/' :: rest.toList := by
      intro front
      simp
    rw [normalize, normalize, happend, happend, normalize, String.toList_ofList,
      normalizeChars_append]
  · refine ⟨segments path.toList, leadsDown_segments _, ?_⟩
    rw [normalize, String.toList_ofList]
    rfl
  · exact fun other hother hdirectory => resolve_of_directory hcurrent hother hdirectory raw
  · split
    · next hhome => exact resolve_of_isHome hhome
    · next hhome =>
      have htilde : current.toList.head? ≠ some '~' := by simp [hcurrent]
      exact normal_resolve htilde (by simpa using hhome)

/-- A path that climbs above the root, and two that are written in files of one directory. -/
theorem paths_compose_climbing :
    normalize (normalize "/a//./b/../c/" ++ "/" ++ "..//../../d/.") = "/d" ∧
      "/ex/loop/main".toList.head? = some '/' ∧ "/x/..//ex/./loop/b".toList.head? = some '/' ∧
      normalize (directory "/x/..//ex/./loop/b") = normalize (directory "/ex/loop/main") ∧
      resolve "/x/..//ex/./loop/b" " ../lib//base " = "/ex/lib/base" ∧
      resolve "/x/..//ex/./loop/b" "\t~/../lib//base " = "~/../lib//base" := by
  obtain ⟨happend, -, -, hresolve⟩ := paths_compose "/a//./b/../c/" "..//../../d/."
  have hmain : "/ex/loop/main".toList.head? = some '/' := by decide
  have hother : "/x/..//ex/./loop/b".toList.head? = some '/' := by decide
  have hdirectory : normalize (directory "/x/..//ex/./loop/b") =
      normalize (directory "/ex/loop/main") := by decide +kernel
  have hwhole : normalize ("/a//./b/../c/" ++ "/" ++ "..//../../d/.") = "/d" := by decide +kernel
  have hbase : resolve "/ex/loop/main" " ../lib//base " = "/ex/lib/base" := by decide +kernel
  have hisHome : isHome (Text.trim "\t~/../lib//base ".toList) = true := by decide +kernel
  have htrimmed : Text.trimmed "\t~/../lib//base " = "~/../lib//base" := by decide +kernel
  have hhome := (hresolve "/x/..//ex/./loop/b" "\t~/../lib//base " hother).2
  rw [if_pos hisHome, htrimmed] at hhome
  have hsame := (hresolve "/ex/loop/main" " ../lib//base " hmain).1 _ hother hdirectory
  exact ⟨happend.symm.trans hwhole, hmain, hother, hdirectory, hsame.trans hbase, hhome⟩

end Courseware.Path
