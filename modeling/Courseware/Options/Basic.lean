/-
The options of a compilation.
-/

namespace Courseware

/-- What a compilation lets its caller choose. -/
structure Options where
  /-- How many files may be open inside one another. -/
  maxDepth : Nat := 32
  /-- Whether a first line that only names a language is left out of a value over several
  lines. -/
  stripHint : Bool := true
  /-- What the name of a component starts with; empty if there are no components. -/
  componentStart : String := "wc-"
  /-- What the addresses of files start with. -/
  urlStart : String := "/api/v1/files"
  deriving DecidableEq, Repr

end Courseware
