/-
What no text is refused for.

A parser has errors that only a list of tokens has which no text makes: that a
path is missing behind a directive, and that a value over several lines is not
closed. The scanner finds both first. A parser goes on in a mode that goes with
the mode of the scanner in front of it (`Mode.scan`), and a token that may be
read there leads to modes that go together again (`Parser.fits_step`); so a path
comes where one is expected, lines or their end come in a value, and the text
ends in neither place.

Nor is a text refused because a parser looks at no token, which it never does
(`Document.ofFeed_eq_ofItems`).
-/
import Courseware.Proofs.Document.Feed
import Courseware.Proofs.Token.Modes

namespace Courseware

/-! ## The mode of the scanner in front of a parser -/

/-- Whether a fault is one that the tokens of a text can have: they have a path wherever one is due,
and the end of every value that is open. -/
def SyntaxFault.Possible : SyntaxFault → Prop
  | .missing expected _ => expected ≠ .path ∧ expected ≠ .closing
  | _ => True

/-- Whether an error is one of the scanner, or of a possible fault. -/
inductive Error.Possible : Error → Prop
  | lexical (fault : LexicalFault) (line : Nat) : Possible (fault.error line)
  | syntactic (fault : SyntaxFault) (line : Nat) (h : fault.Possible) : Possible (fault.error line)

/-- The mode of the scanner whose tokens a parser goes on with. -/
def Mode.scan : Mode → ScanMode
  | .file .. => .path
  | .valueFile .. => .path
  | .body .. => .body
  | _ => .initial

theorem Mode.expected_of_scan {m : Mode} (h : m.scan = .initial) :
    m.expected ≠ .path ∧ m.expected ≠ .closing := by
  cases m with
  | file | valueFile | body => cases h
  | array place => cases place <;> simp [Mode.expected]
  | object place => cases place <;> simp [Mode.expected]
  | _ => simp [Mode.expected]

namespace Parser

variable {stripHint : Bool} {p : Parser} {t : Token} {mode : ScanMode}

/-- Whether the outcome of a token fits the mode that the scanner is in behind it: a parser that
goes on goes on from there, and an error is possible. -/
def Fits (mode : ScanMode) : Except Error Parser → Prop
  | .ok q => q.mode.scan = mode
  | .error e => e.Possible

theorem fits_instead {expected : Expected} (h : expected ≠ .path ∧ expected ≠ .closing) :
    Fits mode (.error (expected.instead t)) :=
  Error.Possible.syntactic (.missing expected _) t.line h

theorem fits_fill (p : Parser) (v : Value) (hole : Hole) : Fits .initial (.ok (p.fill v hole)) := by
  cases hole <;> rfl

theorem fits_startValue (hole : Hole) (h : ScanMode.after? .initial t.kind = some mode) :
    Fits mode (p.startValue hole t) := by
  unfold startValue
  cases hkind : t.kind <;> rw [hkind] at h <;> cases h
  case number | boolean | string | name | selector => exact fits_fill p _ hole
  case directive | leftBracket | leftBrace => rfl
  all_goals exact fits_instead (by simp)

/-- Whether what becomes of a token fits the mode that the scanner is in behind it. -/
def MoveFits (mode : ScanMode) : Move → Prop
  | .refuse e => e.Possible
  | .take judged => Fits mode judged

theorem fits_startStatement (h : ScanMode.after? .initial t.kind = some mode) :
    MoveFits mode (p.startStatement t) := by
  have hother : Fits mode (.error (Expected.statement.instead t)) := fits_instead (by simp)
  unfold startStatement
  cases hkind : t.kind <;> rw [hkind] at h
  case directive d =>
    cases h
    cases d
    case inclusion | extension => rfl
    case url | content => exact .syntactic (.misplaced _) t.line trivial
  case name | comment =>
    cases h
    rfl
  all_goals exact hother

theorem fits_startRightSide (key : String) (line equalsLine : Nat)
    (h : ScanMode.after? .initial t.kind = some mode) :
    MoveFits mode (p.startRightSide key line equalsLine t) := by
  unfold startRightSide
  split
  · exact fits_startStatement h
  · split
    · exact fits_startStatement h
    · exact fits_startValue _ h

theorem fits_fileValue (directive : Directive) (line : Nat) (hole : Hole) (path : String) :
    Fits .initial (p.fileValue directive line hole path) := by
  unfold fileValue
  cases directive with
  | inclusion => exact Error.Possible.syntactic .inclusionAsValue line trivial
  | extension | url | content => exact fits_fill p _ hole

/-- A token in a mode that goes with a path or with the lines of a value. -/
theorem fits_advance_of_due (hdue : p.mode.scan ≠ .initial)
    (h : p.mode.scan.after? t.kind = some mode) : Fits mode (p.advance stripHint t) := by
  obtain ⟨nodes, notes, m⟩ := p
  obtain ⟨kind, lexeme, line⟩ := t
  dsimp only at h
  cases m with
  | file =>
    obtain ⟨path, rfl⟩ := (ScanMode.path_iff h).mp rfl
    cases h
    rfl
  | valueFile =>
    obtain ⟨path, rfl⟩ := (ScanMode.path_iff h).mp rfl
    cases h
    exact fits_fileValue _ _ _ path
  | body =>
    rcases (ScanMode.body_iff h).mp rfl with rfl | ⟨more, rfl⟩
    · cases h
      rfl
    · cases h
      rfl
  | _ => exact absurd rfl hdue

theorem fits_advance (h : p.mode.scan.after? t.kind = some mode) :
    Fits mode (p.advance stripHint t) := by
  by_cases hinitial : p.mode.scan = .initial
  · obtain ⟨nodes, notes, m⟩ := p
    obtain ⟨kind, lexeme, line⟩ := t
    dsimp only at h hinitial
    unfold advance
    dsimp only
    split
    case h_6 | h_12 | h_13 => exact fits_startValue _ h
    case h_9 | h_10 | h_15 | h_16 =>
      cases h
      exact fits_fill _ _ _
    case h_21 => exact fits_instead (Mode.expected_of_scan hinitial)
    case h_3 | h_4 | h_5 | h_7 => cases hinitial
    all_goals
      cases h
      rfl
  · exact fits_advance_of_due hinitial h

/-- **What becomes of a token fits the mode that the scanner is in behind it**, if the token may be
read in the mode in front of it. -/
theorem fits_step (h : p.mode.scan.after? t.kind = some mode) :
    MoveFits mode (p.step stripHint t) := by
  unfold step
  cases hmode : p.mode with
  | statement =>
    rw [hmode] at h
    exact fits_startStatement h
  | rightSide key line equalsLine =>
    rw [hmode] at h
    exact fits_startRightSide key line equalsLine h
  | _ => exact fits_advance h

theorem finish_possible {line : Nat} {e : Error} (hinitial : p.mode.scan = .initial)
    (h : p.finish line = .error e) : e.Possible := by
  unfold finish at h
  split at h
  · cases h
  · cases h
  · cases h
    exact .syntactic (.missing _ none) line (Mode.expected_of_scan hinitial)

/-- **Items in order are refused for possible errors only**, by a parser that goes on from the mode
that they start in. -/
theorem run_possible {items : List Item} (horder : Item.InOrder p.mode.scan items) {line : Nat}
    {e : Error} (h : p.run stripHint line items = .error e) : e.Possible := by
  generalize hscan : p.mode.scan = mode at horder
  induction horder generalizing p line with
  | failed =>
    cases h
    exact .lexical _ _
  | finished hkind =>
    rw [run, if_pos hkind] at h
    exact finish_possible hscan h
  | @token mode mode' t items hkind ht hrest ih =>
    subst hscan
    have hfits : MoveFits mode' (p.step stripHint t) := fits_step ht
    rw [run, if_neg hkind] at h
    split at h
    · next e' he =>
      cases h
      rw [he] at hfits
      exact hfits
    · next e' he =>
      cases h
      rw [he] at hfits
      unfold firstError
      cases hrest with
      | failed hfault line => exact .lexical _ line
      | finished | token => exact hfits
    · next q hq =>
      rw [hq] at hfits
      exact ih h hfits

end Parser

/-- Whether an error is one that a parser has of no text: it takes a token and looks at none (code
201), a value over several lines is not closed (209), or a path is missing behind a directive
(202). -/
def Error.Unreached (e : Error) : Prop :=
  e.code? = some 201 ∨ e.code? = some 209 ∨
    ∃ found line, e = (SyntaxFault.missing .path found).error line

/-- A missing colon is not a missing path: the messages differ behind the first word. -/
theorem SyntaxFault.error_colon_ne_path {key : String} {found found' : Option String}
    {line line' : Nat} :
    (missing (.colon key) found).error line ≠ (missing .path found').error line' := by
  intro h
  simp only [error, Error.syntactic.injEq, detail, Detail.mk.injEq] at h
  have hmessage := congrArg String.toList h.2.1
  have hcolon : (Expected.colon key).description = "':' after '" ++ key ++ "'" := rfl
  have hpath : Expected.path.description = "a path" := rfl
  rw [hcolon, hpath] at hmessage
  simp only [String.toList_append, List.append_assoc] at hmessage
  have hhead := congrArg List.head? (List.append_cancel_left hmessage)
  have hquote : "':' after '".toList.head? = some '\x27' := by decide
  have hletter : "a path".toList.head? = some 'a' := by decide
  simp only [List.head?_append, hquote, hletter] at hhead
  cases hhead

theorem Error.Unreached.code {e : Error} (h : e.Unreached) :
    e.code? = some 201 ∨ e.code? = some 209 ∨ e.code? = some 202 := by
  rcases h with h | h | ⟨found, line, rfl⟩
  · exact .inl h
  · exact .inr (.inl h)
  · exact .inr (.inr rfl)

theorem Error.Possible.not_unreached {e : Error} (h : e.Possible) : ¬ e.Unreached := by
  intro hunreached
  cases h with
  | lexical fault line => cases fault <;> rcases hunreached.code with h | h | h <;> cases h
  | syntactic fault line hfault =>
    cases fault with
    | missing expected found =>
      obtain ⟨hpath, hclosing⟩ := hfault
      cases expected with
      | path => exact hpath rfl
      | closing => exact hclosing rfl
      | colon key =>
        -- the one other fault with code 202
        rcases hunreached with h | h | ⟨found', line', h⟩
        · cases h
        · cases h
        · exact SyntaxFault.error_colon_ne_path h
      | _ => rcases hunreached.code with h | h | h <;> cases h
    | misplaced | inclusionAsValue => rcases hunreached.code with h | h | h <;> cases h

namespace Document

variable {options : Options} {text : String} {e : Error}

theorem possible_of_ofText (h : ofText options text = .error e) : e.Possible :=
  Parser.run_possible (p := Parser.start) (Item.inOrder_ofText _ text) h

theorem possible_of_ofScannedText (h : ofScannedText options text = .error e) : e.Possible := by
  rcases ofScannedText_eq_error h with hmem | htext
  · obtain ⟨fault, line, rfl⟩ := (Item.inOrder_ofText _ text).error_of_mem hmem
    exact .lexical fault line
  · exact possible_of_ofText htext

/-- **A text is scanned in modes, and refused for no error that they rule out.** Its items keep to
the modes of the scanner, whatever components start with. A parser that could be without a token to
look at makes the same of them as one that cannot, whether the text is scanned as it is parsed or
before, and in neither case has it an error that only other tokens could have. -/
theorem scanned_in_modes (options : Options) (text : String) :
    Item.KeepsModes (Item.ofText options.componentStart text) ∧
    ofFeed options.stripHint (Item.ofText options.componentStart text) = ofText options text ∧
    (do ofFeed options.stripHint ((← Token.ofText? options.componentStart text).map .ok)) =
      ofScannedText options text ∧
    ∀ e, ofText options text = .error e ∨ ofScannedText options text = .error e →
      ¬ e.Unreached := by
  refine ⟨(Item.inOrder_ofText _ text).keepsModes, ofFeed_eq_ofItems _ _, ?_, ?_⟩
  · simp only [ofFeed_eq_ofItems]
    rfl
  · rintro e (h | h)
    · exact (possible_of_ofText h).not_unreached
    · exact (possible_of_ofScannedText h).not_unreached

/-- A text with a value over several lines, a path, and a directive without one. -/
def cutText : String := "v ==\n k\n==\nx = @copyurl a/b # c\ny = @extends , z"

def cutTokens : List Token :=
  [⟨.name "v", "v", 1⟩, ⟨.opening, "==", 1⟩, ⟨.body " k\n", " k\n", 2⟩, ⟨.closing, "==\n", 3⟩,
    ⟨.name "x", "x", 4⟩, ⟨.equals, "=", 4⟩, ⟨.directive .url, "@copyurl", 4⟩,
    ⟨.path "a/b", "a/b ", 4⟩, ⟨.comment "# c", "# c", 4⟩, ⟨.name "y", "y", 5⟩, ⟨.equals, "=", 5⟩,
    ⟨.directive .extension, "@extends", 5⟩]

/-- Scanning stops behind the last directive, and that is what the text is refused for; the path and
the end of the value stand behind what they belong to. -/
theorem scanned_in_modes_cut :
    Item.ofText "wc-" cutText =
      cutTokens.map .ok ++ [.error (LexicalFault.missingPath.error 5)] ∧
    Item.PathDue ((cutTokens.take 7).map .ok) ∧ Item.BodyOpen ((cutTokens.take 3).map .ok) ∧
    ofText {} cutText = .error (LexicalFault.missingPath.error 5) ∧
    ¬ (LexicalFault.missingPath.error 5).Unreached := by
  have hitems : Item.ofText "wc-" cutText =
      cutTokens.map .ok ++ [.error (LexicalFault.missingPath.error 5)] := by
    decide +kernel
  have herror : ofText {} cutText = .error (LexicalFault.missingPath.error 5) := by
    rw [ofText, hitems]
    rfl
  obtain ⟨hmodes, -, -, hall⟩ := scanned_in_modes {} cutText
  have hpath := hmodes.path ((cutTokens.take 7).map .ok) ⟨.path "a/b", "a/b ", 4⟩ "a/b" _ hitems rfl
  have hbody := hmodes.body ((cutTokens.take 3).map .ok) ⟨.closing, "==\n", 3⟩ _ hitems (.inl rfl)
  exact ⟨hitems, hpath, hbody, herror, hall _ (.inl herror)⟩

end Document

end Courseware
