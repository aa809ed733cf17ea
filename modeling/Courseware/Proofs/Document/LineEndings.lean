/-
How lines end does not matter to a document.

A text whose tokens stay on their lines makes the same document where every
newline has a carriage return in front of it (`Document.ofText_withReturns`): the
tokens have the same kinds and stand on the same lines (`Scans.returned`), and a
parser looks at nothing else (`Parser.document?_down`). The lexemes may differ: a
path and a `==` take the carriage return with them.
-/
import Courseware.Proofs.Document.Lowered
import Courseware.Proofs.Token.CarriageReturns

namespace Courseware

/-- A text with a carriage return in front of each newline. -/
def Text.withReturns (text : String) : String := String.ofList (returned text.toList)

@[simp] theorem Text.toList_withReturns (text : String) :
    (withReturns text).toList = returned text.toList := by rw [withReturns, String.toList_ofList]

namespace Document

variable {options : Options} {text : String} {ts : List Token} {d : Document}

/-- **Line endings do not matter outside of verbatim text.** If no token of a text is a line of a
value, or a string or a comment over several lines, then the text makes the same document, with the
same lines and notes, where every newline has a carriage return in front of it; and it makes the
same one if it is scanned first. -/
theorem ofText_withReturns (hnewline : '\n' ∉ options.componentStart.toList)
    (hreturn : '\r' ∉ options.componentStart.toList)
    (htokens : Token.ofText? options.componentStart text = .ok ts) (hts : ∀ t ∈ ts, t.OnOneLine)
    (h : ofText options text = .ok d) :
    ofText options (Text.withReturns text) = .ok d ∧
      ofScannedText options (Text.withReturns text) = .ok d := by
  rw [ofScannedText_eq_ok_iff, and_self, ofText_eq_ok_iff]
  obtain ⟨us, last, hscans, hd⟩ := ofText_eq_ok_iff.mp h
  have hus : ∀ t ∈ us, t.OnOneLine := by
    rw [Token.ofText?_of_scans hscans, Except.ok.injEq] at htokens
    intro t ht
    exact hts t (htokens ▸ List.mem_append_left _ ht)
  have hstart : Scanner.Returning (.ofText text) (.ofText (Text.withReturns text)) := by
    constructor <;> simp [Scanner.ofText, Scanner.ofChars]
  obtain ⟨us', last', hbelow, hscans'⟩ := hscans.returned hnewline hreturn hus hstart
  refine ⟨us', last', hscans', ?_⟩
  have hsame := Parser.document?_down hbelow hd
  rwa [Document.down_zero] at hsame

/-- A comment with a blank behind it, an object over two lines of which the first one ends in a
carriage return already, a path, a value of no lines, and an `=` without a value. -/
def endingsText : String :=
  "# c \nx = \x7bk: 'a\\nb',\r\n k: [true, /* i */ wc-p]\x7d\n@include d/e \nm == \n==\nz =\n"

def endingsTokens : List Token :=
  [⟨.comment "# c", "# c", 1⟩, ⟨.name "x", "x", 2⟩, ⟨.equals, "=", 2⟩, ⟨.leftBrace, "\x7b", 2⟩,
    ⟨.name "k", "k", 2⟩, ⟨.colon, ":", 2⟩, ⟨.string "a\nb", "'a\\nb'", 2⟩, ⟨.comma, ",", 2⟩,
    ⟨.name "k", "k", 3⟩, ⟨.colon, ":", 3⟩, ⟨.leftBracket, "[", 3⟩, ⟨.boolean true, "true", 3⟩,
    ⟨.comma, ",", 3⟩, ⟨.comment "/* i */", "/* i */", 3⟩, ⟨.selector "wc-p", "wc-p", 3⟩,
    ⟨.rightBracket, "]", 3⟩, ⟨.rightBrace, "\x7d", 3⟩, ⟨.directive .inclusion, "@include", 4⟩,
    ⟨.path "d/e", "d/e ", 4⟩, ⟨.name "m", "m", 5⟩, ⟨.opening, "==", 5⟩, ⟨.closing, "==\n", 6⟩,
    ⟨.name "z", "z", 7⟩, ⟨.equals, "=", 7⟩, ⟨.finish, "", 8⟩]

def endingsDocument : Document where
  nodes := [⟨.comment "# c", 1, ""⟩,
    ⟨.assignment "x" (.object 2
      [("k", .array 3 [.atom 3 (.boolean true), .atom 3 (.component "wc-p")])]), 2, ""⟩,
    ⟨.inclusion "d/e", 4, ""⟩, ⟨.assignment "m" (.atom 5 (.string "")), 5, ""⟩,
    ⟨.assignment "z" (.atom 7 (.string "")), 7, ""⟩]
  notes := [Parser.repeatedKey "k" 3]

/-- The carriage returns go with gaps, with the blanks at the end of a comment and of a path, and
with the lines of the two `==`. -/
theorem ofText_withReturns_endings :
    ofText {} endingsText = .ok endingsDocument ∧
      ofText {} (Text.withReturns endingsText) = .ok endingsDocument := by
  have htokens : Token.ofText? (Options.componentStart {}) endingsText = .ok endingsTokens := by
    decide +kernel
  have hts : ∀ t ∈ endingsTokens, t.OnOneLine := by
    simp [endingsTokens, Token.OnOneLine]
  have hd : ofText {} endingsText = .ok endingsDocument := by
    rw [← ofScannedText_eq_ok_iff, ofScannedText, htokens]
    rfl
  exact ⟨hd, (ofText_withReturns (by decide) (by decide) htokens hts hd).1⟩

end Document

end Courseware
