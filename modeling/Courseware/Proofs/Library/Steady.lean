/-
Libraries that give the same text again.

A library gives every file that it locates a path of its own. In a steady one
the file is found again there, so what was read by one spelling of a path is
what is read at the path of the file (`Library.Steady.readText_again`). Files in
memory and in directories are both found again, since their paths are normal
(`Memory.library_steady`, `Directory.library_steady`).
-/
import Courseware.Proofs.Evaluation.HomePaths
import Courseware.Proofs.Evaluation.OpenFiles

namespace Courseware

/-- What is asked is read, and the journal makes no difference. -/
theorem Library.askText_fst (library : Library) (stack : List String) (path version : String)
    (j : Journal) : (library.askText stack path version j).1 = library.readText path version := by
  simp only [askText, askLocate, askContent, readText, bind, Except.bind, pure, Except.pure]
  cases library.locate path version with
  | error e => rfl
  | ok file =>
    dsimp only
    cases library.content file with
    | error e => rfl
    | ok bytes =>
      dsimp only
      cases decode file bytes <;> rfl

/-- Whether a library knows a file that it located by the path that it gave it, and whether its
faults are none of a text. -/
structure Library.Steady (library : Library) : Prop where
  again {path version : String} {file : Descriptor} (h : library.locate path version = .ok file) :
    file.version = version ∧ library.locate file.path version = .ok file
  locate_line? {path version : String} {e : Error} (h : library.locate path version = .error e) :
    e.line? = none
  content_line? {file : Descriptor} {e : Error} (h : library.content file = .error e) :
    e.line? = none

namespace Library

variable {library : Library} {path version : String}

theorem readText_ok_iff {file : Descriptor} {text : String} :
    library.readText path version = .ok (file, text) ↔
      library.locate path version = .ok file ∧
        ∃ bytes, library.content file = .ok bytes ∧ decode file bytes = .ok text := by
  simp only [readText, bind, Except.bind, pure, Except.pure]
  cases library.locate path version with
  | error e => simp
  | ok found =>
    cases hcontent : library.content found with
    | error e => grind
    | ok bytes => cases hdecode : decode found bytes <;> grind

/-- What is read is asked for in two steps. -/
theorem askText_of_readText {file : Descriptor} {text : String}
    (h : library.readText path version = .ok (file, text)) (stack : List String) (j : Journal) :
    library.askText stack path version j = (.ok (file, text),
      (j.record stack (.call (.locate path version))).record stack (.call (.content file))) := by
  obtain ⟨hlocate, bytes, hcontent, hdecode⟩ := readText_ok_iff.mp h
  simp only [askText, askLocate, askContent, hlocate, hcontent, hdecode, Except.map]

theorem Steady.readText_again (h : library.Steady) {file : Descriptor} {text : String}
    (hread : library.readText path version = .ok (file, text)) :
    file.version = version ∧ library.readText file.path version = .ok (file, text) := by
  obtain ⟨hlocate, hcontent⟩ := readText_ok_iff.mp hread
  obtain ⟨hversion, hagain⟩ := h.again hlocate
  exact ⟨hversion, readText_ok_iff.mpr ⟨hagain, hcontent⟩⟩

theorem Steady.readText_line? (h : library.Steady) {e : Error}
    (hread : library.readText path version = .error e) : e.line? = none := by
  unfold readText at hread
  cases hlocate : library.locate path version with
  | error e' =>
    rw [hlocate] at hread
    cases hread
    exact h.locate_line? hlocate
  | ok file =>
    rw [hlocate] at hread
    cases hcontent : library.content file with
    | error e' =>
      simp only [bind, Except.bind, hcontent] at hread
      cases hread
      exact h.content_line? hcontent
    | ok bytes =>
      simp only [bind, Except.bind, hcontent, decode] at hread
      split at hread
      · next heq =>
        split at heq <;> cases heq
        cases hread
        rfl
      · cases hread

end Library

theorem Memory.library_steady (m : Memory) : m.library.Steady := by
  refine ⟨fun {path version file} h => ?_, fun {path version e} h => ?_, fun {file e} h => ?_⟩
  · rw [library_locate] at h ⊢
    unfold locate at h
    split at h
    · cases h
    · dsimp only at h
      split at h
      · next hbytes =>
        cases h
        have hnormal := Path.normal_normalize path
        refine ⟨rfl, ?_⟩
        have hnormalize : Path.normalize (Path.normalize path) = Path.normalize path := hnormal
        simp only [locate, hnormal.not_isHome, Bool.false_eq_true, if_false, hnormalize, hbytes,
          if_true]
      · cases h
  · rw [library_locate] at h
    unfold locate at h
    split at h
    · cases h
      rfl
    · dsimp only at h
      split at h <;> cases h
      rfl
  · unfold library content at h
    dsimp only at h
    split at h <;> cases h
    rfl

/-- A home directory that is not known is no fault of a text. -/
theorem Directory.reach_line? {d : Directory} {path : String} {e : Error}
    (h : d.reach path = .error e) : e.line? = none := by
  unfold reach at h
  split at h <;> cases h
  rfl

theorem Directory.library_steady (d : Directory) : d.library.Steady := by
  refine ⟨fun {path version file} h => ?_, fun {path version e} h => ?_, fun {file e} h => ?_⟩
  · rw [library_locate] at h ⊢
    have hpath := locate_ok h
    unfold locate at h ⊢
    rw [hpath, normalPath_normalPath]
    refine ⟨?_, h⟩
    dsimp only at h
    split at h
    · cases h
    · split at h <;> cases h
      rfl
  · rw [library_locate] at h
    unfold locate at h
    dsimp only at h
    split at h
    · next hreach =>
      cases h
      exact reach_line? hreach
    · split at h <;> cases h <;> rfl
  · unfold library content at h
    dsimp only at h
    split at h
    · next hreach =>
      cases h
      exact reach_line? hreach
    · split at h <;> cases h
      rfl

end Courseware
