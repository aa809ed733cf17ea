/-
Which characters are blank, and what trimming removes.

Two notions are kept apart. `isBlank` is the Unicode property White_Space,
the one that trims go by. `isSpace` is the four ASCII characters a reader of
documents skips between tokens. The second is part of the first
(`isBlank_of_isSpace`), so what is skipped would also be trimmed.
-/

namespace Courseware.Text

/-- The ranges of code points that have the Unicode property White_Space. -/
def blankRanges : List (Nat × Nat) :=
  [(0x0009, 0x000D), (0x0020, 0x0020), (0x0085, 0x0085), (0x00A0, 0x00A0), (0x1680, 0x1680),
   (0x2000, 0x200A), (0x2028, 0x2029), (0x202F, 0x202F), (0x205F, 0x205F), (0x3000, 0x3000)]

/-- A character of the Unicode property White_Space. -/
def isBlank (c : Char) : Bool :=
  blankRanges.any fun (low, high) => low ≤ c.toNat && c.toNat ≤ high

/-- A space, a tab or a carriage return: what may stand between two tokens of one line. -/
def isGap (c : Char) : Bool := c = ' ' || c = '\t' || c = '\r'

/-- What may stand between two tokens: a gap or a newline. -/
def isSpace (c : Char) : Bool := isGap c || c = '\n'

theorem isBlank_of_isSpace {c : Char} (h : isSpace c = true) : isBlank c = true := by
  simp only [isSpace, isGap, Bool.or_eq_true, decide_eq_true_eq] at h
  rcases h with ((rfl | rfl) | rfl) | rfl <;> decide

/-- Text without its leading blanks. -/
def trimStart (cs : List Char) : List Char := cs.dropWhile isBlank

/-- Text without its trailing blanks. -/
def trimEnd (cs : List Char) : List Char := (cs.reverse.dropWhile isBlank).reverse

/-- Text without the blanks at either end. -/
def trim (cs : List Char) : List Char := trimEnd (trimStart cs)

/-- `trim` on strings. -/
def trimmed (s : String) : String := String.ofList (trim s.toList)

end Courseware.Text
