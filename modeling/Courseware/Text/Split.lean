/-
Splitting a text at a separator, and joining the parts again.

`split` keeps empty parts, so a text with `n` separators has `n + 1` parts,
and `join` undoes it (`join_split`).
-/

namespace Courseware.Text

/-- The parts of a text between occurrences of `separator`, empty ones included. -/
def split (separator : Char) : List Char → List (List Char)
  | [] => [[]]
  | c :: cs =>
    if c = separator then [] :: split separator cs
    else
      match split separator cs with
      | [] => [[c]]
      | part :: parts => (c :: part) :: parts

/-- The parts with `separator` between them. -/
def join (separator : List Char) : List (List Char) → List Char
  | [] => []
  | [part] => part
  | part :: parts => part ++ separator ++ join separator parts

@[simp] theorem split_ne_nil (separator : Char) (cs : List Char) : split separator cs ≠ [] := by
  cases cs with
  | nil => simp [split]
  | cons c cs =>
    rw [split]
    split
    · simp
    · split <;> simp

/-- **Joining undoes splitting.** -/
theorem join_split (separator : Char) (cs : List Char) :
    join [separator] (split separator cs) = cs := by
  induction cs with
  | nil => rfl
  | cons c cs ih =>
    rw [split]
    split
    · next h =>
      subst h
      match hs : split c cs with
      | [] => exact absurd hs (split_ne_nil _ _)
      | part :: parts => rw [hs] at ih; simp [join, ih]
    · match hs : split separator cs with
      | [] => exact absurd hs (split_ne_nil _ _)
      | [part] => rw [hs] at ih; simpa [join] using ih
      | part :: next :: parts => rw [hs] at ih; simpa [join] using ih

/-- A separator ends the last part in front of it. -/
theorem split_append (separator : Char) (cs ds : List Char) :
    split separator (cs ++ separator :: ds) = split separator cs ++ split separator ds := by
  induction cs with
  | nil => simp [split]
  | cons c cs ih =>
    rw [List.cons_append, split, split, ih]
    split
    · rfl
    · match hs : split separator cs with
      | [] => exact absurd hs (split_ne_nil _ _)
      | part :: parts => rfl

/-- `split` on strings. -/
def parts (separator : Char) (s : String) : List String :=
  (split separator s.toList).map String.ofList

end Courseware.Text
