/-
Normal paths.

A normal path is one that `normalize` leaves as it is: a slash, and segments
that lead down with slashes between them. What `normalize` gives is normal
(`normal_normalize`), and so is what a path in a file resolves to, unless it
lies below the home directory (`normal_resolve`).
-/
import Courseware.Path
import Courseware.Proofs.Variables.Keys

namespace Courseware

namespace Text

/-- The first part ends at the first separator. -/
theorem split_cons {separator : Char} {part : List Char} (hpart : separator ∉ part)
    (cs : List Char) : split separator (part ++ separator :: cs) = part :: split separator cs := by
  rw [split_append, split_eq_singleton hpart]
  rfl

/-- **Splitting undoes joining**, if no part holds the separator. -/
theorem split_join {separator : Char} {parts : List (List Char)} (hne : parts ≠ [])
    (hparts : ∀ part ∈ parts, separator ∉ part) :
    split separator (join [separator] parts) = parts := by
  induction parts with
  | nil => exact absurd rfl hne
  | cons part parts ih =>
    obtain ⟨hpart, hparts⟩ := List.forall_mem_cons.mp hparts
    cases parts with
    | nil => exact split_eq_singleton hpart
    | cons next parts =>
      have hrest := ih (List.cons_ne_nil _ _) hparts
      have hjoin : join [separator] (part :: next :: parts) =
          part ++ separator :: join [separator] (next :: parts) := by simp [join]
      rw [hjoin, split_cons hpart, hrest]

end Text

namespace Path

/-- Whether a segment leads to something below a directory. -/
structure LeadsDown (segment : List Char) : Prop where
  nonempty : segment ≠ []
  not_dot : segment ≠ ['.']
  not_dots : segment ≠ ['.', '.']
  not_mem : '/' ∉ segment

/-- A segment that leads down is one more. -/
theorem step_of_leadsDown {segment : List Char} (h : LeadsDown segment)
    (segments : List (List Char)) : step segments segment = segments ++ [segment] := by
  simp [step, h.nonempty, h.not_dot, h.not_dots]

theorem leadsDown_step {segments : List (List Char)} {segment : List Char}
    (h : ∀ s ∈ segments, LeadsDown s) (hsegment : '/' ∉ segment) :
    ∀ s ∈ step segments segment, LeadsDown s := by
  intro s hs
  unfold step at hs
  split at hs
  · exact h s hs
  · next hstay =>
    rw [not_or] at hstay
    split at hs
    · exact h s (List.dropLast_subset _ hs)
    · next hup =>
      rcases List.mem_append.mp hs with hs | hs
      · exact h s hs
      · rw [List.mem_singleton] at hs
        rw [hs]
        exact ⟨hstay.1, hstay.2, hup, hsegment⟩

/-- What a path leads through leads down. -/
theorem leadsDown_segments (path : List Char) : ∀ s ∈ segments path, LeadsDown s := by
  have hfold : ∀ (parts before : List (List Char)), (∀ part ∈ parts, '/' ∉ part) →
      (∀ s ∈ before, LeadsDown s) → ∀ s ∈ parts.foldl step before, LeadsDown s := by
    intro parts
    induction parts with
    | nil => exact fun _ _ hbefore => hbefore
    | cons part parts ih =>
      intro before hparts hbefore
      obtain ⟨hpart, hparts⟩ := List.forall_mem_cons.mp hparts
      exact ih _ hparts (leadsDown_step hbefore hpart)
  exact hfold _ [] (fun _ => Text.not_mem_of_mem_split) (List.forall_mem_nil _)

/-- A normal path leads through the segments that it is made of. -/
theorem segments_ofSegments {names : List (List Char)} (h : ∀ s ∈ names, LeadsDown s) :
    segments (ofSegments names) = names := by
  have hfold : ∀ before : List (List Char), names.foldl step before = before ++ names := by
    induction names with
    | nil => exact fun before => (List.append_nil before).symm
    | cons name names ih =>
      intro before
      obtain ⟨hname, hnames⟩ := List.forall_mem_cons.mp h
      rw [List.foldl_cons, step_of_leadsDown hname, ih hnames, List.append_assoc]
      rfl
  have hroot : ∀ cs, Text.split '/' ('/' :: cs) = [] :: Text.split '/' cs :=
    fun cs => Text.split_cons List.not_mem_nil cs
  have hstay : step [] [] = [] := rfl
  rw [segments, ofSegments, hroot, List.foldl_cons, hstay]
  by_cases hnames : names = []
  · subst hnames
    rfl
  · rw [Text.split_join hnames fun name hname => (h name hname).not_mem, hfold]
    rfl

/-- A normal form leads through the same segments. -/
@[simp] theorem segments_normalizeChars (path : List Char) :
    segments (normalizeChars path) = segments path :=
  segments_ofSegments (leadsDown_segments path)

/-- `normalizeChars` twice is once. -/
@[simp] theorem normalizeChars_normalizeChars (path : List Char) :
    normalizeChars (normalizeChars path) = normalizeChars path := by
  rw [normalizeChars, segments_normalizeChars, normalizeChars]

/-- Whether a path is in normal form. -/
def Normal (path : String) : Prop := normalize path = path

theorem normal_normalize (path : String) : Normal (normalize path) := by
  simp [Normal, normalize]

/-- A normal path starts at the root. -/
theorem Normal.head {path : String} (h : Normal path) : path.toList.head? = some '/' := by
  rw [← h, normalize, String.toList_ofList]
  rfl

theorem Normal.not_isHome {path : String} (h : Normal path) : isHome path.toList = false := by
  have hhead := h.head
  cases hpath : path.toList with
  | nil => rfl
  | cons c cs =>
    rw [hpath] at hhead
    cases hhead
    rfl

/-- A path below the home directory resolves to itself. -/
theorem resolve_of_isHome {current raw : String} (h : isHome (Text.trim raw.toList) = true) :
    resolve current raw = String.ofList (Text.trim raw.toList) := by
  simp [resolve, resolveChars, h]

/-- A path read relative to a rooted file is normal. -/
theorem relative_of_head {current : List Char} (h : current.head? ≠ some '~') (path : List Char) :
    ∃ whole, relative current path = normalizeChars whole := by
  unfold relative
  split
  · exact absurd rfl h
  · exact ⟨_, rfl⟩

/-- **A path resolves to a normal one**, unless it lies below the home directory or is read in a
file that does. -/
theorem normal_resolve {current raw : String} (hcurrent : current.toList.head? ≠ some '~')
    (hraw : isHome (Text.trim raw.toList) = false) : Normal (resolve current raw) := by
  have hchars : ∃ whole, resolveChars current.toList raw.toList = normalizeChars whole := by
    unfold resolveChars
    dsimp only
    rw [hraw]
    split
    · contradiction
    · split
      · exact ⟨_, rfl⟩
      · exact relative_of_head hcurrent _
  obtain ⟨whole, hwhole⟩ := hchars
  rw [Normal, normalize, resolve, hwhole, String.toList_ofList, normalizeChars_normalizeChars]

end Path

end Courseware
