/-
From the text of a document to its tokens.

A `Scanner` is the text that is left, the line it starts on, and the mode the
next token is read in: the path after a directive and the lines of a value
have rules of their own. `next` reads one token. It may be asked again after
an error, and then goes on where the error left it.

`items` is the whole text: its tokens up to the end, or up to the first error.
-/
import Courseware.Token.Shape

namespace Courseware

/-- Which rules the next token is read by. -/
inductive ScanMode where
  | initial
  /-- After a directive: a path. -/
  | path
  /-- After `==`: the lines of a value. -/
  | body
  deriving DecidableEq, Repr

/-- A document that has been read up to somewhere. -/
structure Scanner where
  /-- The text that is left. -/
  rest : List Char
  /-- The line it starts on. -/
  line : Nat
  mode : ScanMode
  /-- The line of the last `==` that opened a value. -/
  openedAt : Nat

/-- A token, or the error in its place. -/
abbrev Item := Except Error Token

namespace Scanner

/-- A document of which nothing has been read. -/
def ofChars (text : List Char) : Scanner := ⟨text, 1, .initial, 0⟩

/-- A document of which nothing has been read. -/
def ofText (text : String) : Scanner := ofChars text.toList

/-- The next `count` characters. -/
def front (s : Scanner) (count : Nat) : List Char := s.rest.take count

/-- The scanner after the next `count` characters. -/
def advance (s : Scanner) (count : Nat) : Scanner :=
  { s with rest := s.rest.drop count, line := s.line + Text.newlines (s.front count) }

/-- The scanner in another mode. -/
def inMode (s : Scanner) (mode : ScanMode) : Scanner := { s with mode }

/-- The token that the next `count` characters are. -/
def take (s : Scanner) (count : Nat) (kind : TokenKind) : Item × Scanner :=
  (.ok ⟨kind, String.ofList (s.front count), s.line⟩, s.advance count)

/-- An error here, after which the next `count` characters are behind. -/
def fail (s : Scanner) (count : Nat) (fault : LexicalFault) : Item × Scanner :=
  (.error (fault.error s.line), s.advance count)

/-- A comment to the end of the line, without the blanks at its end. -/
def lineComment (s : Scanner) : Item × Scanner :=
  let line := Text.firstLine s.rest
  let text := String.ofList (Text.trimEnd line)
  (.ok ⟨.comment text, text, s.line⟩, s.advance line.length)

/-- A comment between `/*` and `*/`. -/
def blockComment (s : Scanner) : Item × Scanner :=
  match Token.commentTail (s.rest.drop 2) with
  | some tail => s.take (tail + 2) (.comment (String.ofList (s.front (tail + 2))))
  | none => s.fail 0 .unclosedComment

/-- The `==` before the lines of a value, which nothing may follow on its line. -/
def opening (s : Scanner) : Item × Scanner :=
  let line := Text.firstLineWithEnd (s.rest.drop 2)
  match Text.trim line with
  | [] =>
    (.ok ⟨.opening, "==", s.line⟩,
      { s.advance (line.length + 2) with mode := .body, openedAt := s.line })
  | text => s.fail 2 (.textAfterOpening (String.ofList text))

/-- A directive, after which a path is due. -/
def directive (s : Scanner) : Item × Scanner :=
  let count := Token.directiveLength s.rest
  let word := String.ofList (s.front count)
  match Directive.ofKeyword? word with
  | some d => (s.inMode .path).take count (.directive d)
  | none => s.fail 0 (.unknownDirective word)

/-- A string between two quotes. -/
def string (s : Scanner) (quote : Char) : Item × Scanner :=
  match Token.stringTail quote (s.rest.drop 1) with
  | .ok (content, count) => s.take (count + 1) (.string (String.ofList content))
  | .error fault => s.fail s.rest.length fault

/-- A number. -/
def number (s : Scanner) : Item × Scanner :=
  let count := Token.numberLength s.rest
  match Number.ofLiteral? (s.front count) with
  | some n => s.take count (.number n)
  | none => s.fail count (.invalidNumber (String.ofList (s.front count)))

/-- A dotted name, or an error at a character that starts none. -/
def name (s : Scanner) (c : Char) : Item × Scanner :=
  match Token.nameLength s.rest with
  | 0 => s.fail 1 (.unexpectedCharacter c)
  | count => s.take count (Token.nameKind (s.front count))

/-- The name of a component, which starts with `start`; without more, a dotted name. -/
def selector (s : Scanner) (start : List Char) (c : Char) : Item × Scanner :=
  match Token.selectorLength (s.rest.drop start.length) with
  | 0 => s.name c
  | tail =>
    let count := start.length + tail
    s.take count (.selector (String.ofList (s.front count)))

/-- The token at the front of the text, which starts with no space. Components start with
`selectors`, if that is not empty. -/
def token (selectors : List Char) (s : Scanner) : Item × Scanner :=
  match s.rest with
  | [] => s.take 0 .finish
  | '#' :: _ => s.lineComment
  | '/' :: '/' :: _ => s.lineComment
  | '/' :: '*' :: _ => s.blockComment
  | '=' :: '=' :: _ => s.opening
  | '=' :: _ => s.take 1 .equals
  | ':' :: _ => s.take 1 .colon
  | ',' :: _ => s.take 1 .comma
  | '[' :: _ => s.take 1 .leftBracket
  | ']' :: _ => s.take 1 .rightBracket
  | '\x7b' :: _ => s.take 1 .leftBrace
  | '\x7d' :: _ => s.take 1 .rightBrace
  | '@' :: _ => s.directive
  | '"' :: _ => s.string '"'
  | '\x27' :: _ => s.string '\x27'
  | c :: cs =>
    if c.isDigit || ((c = '+' || c = '-') && (cs.head?.any Char.isDigit)) then s.number
    else if selectors ≠ [] ∧ Text.startsWith s.rest selectors then s.selector selectors c
    else s.name c

/-- The scanner behind the characters at the front that satisfy `p`. -/
def skip (s : Scanner) (p : Char → Bool) : Scanner := s.advance (s.rest.takeWhile p).length

/-- The path after a directive. -/
def path (s : Scanner) : Item × Scanner :=
  let count := Token.pathLength true s.rest
  match Text.trim (s.front count) with
  | [] => (s.inMode .initial).fail count .missingPath
  | text => (s.inMode .initial).take count (.path (String.ofList text))

/-- One line of a value, or the `==` that ends it. -/
def bodyLine (s : Scanner) : Item × Scanner :=
  let line := Text.firstLineWithEnd s.rest
  if s.rest = [] then (.error (LexicalFault.unclosedBody.error s.openedAt), s)
  else if Text.trimEnd line = ['=', '='] then (s.inMode .initial).take line.length .closing
  else s.take line.length (.body (String.ofList line))

/-- **The next token.** -/
def next (selectors : List Char) (s : Scanner) : Item × Scanner :=
  match s.mode with
  | .initial => (s.skip Text.isSpace).token selectors
  | .path => (s.skip Text.isGap).path
  | .body => s.bodyLine

/-- Up to `fuel` items: the tokens up to the end of the text or up to the first error. -/
def itemsWithin (selectors : List Char) : (fuel : Nat) → Scanner → List Item
  | 0, _ => []
  | fuel + 1, s =>
    match s.next selectors with
    | (.error e, _) => [.error e]
    | (.ok t, s') => .ok t :: (if t.kind = .finish then [] else itemsWithin selectors fuel s')

end Scanner

/-- **The tokens of a text up to its end, or up to the first error.** Each takes at least one
character, so there is at most one more of them than characters. -/
def Item.ofText (selectors : String) (text : String) : List Item :=
  Scanner.itemsWithin selectors.toList (text.length + 1) (.ofText text)

/-- All tokens of a text, or the first error. -/
def Token.ofText? (selectors : String) (text : String) : Except Error (List Token) :=
  (Item.ofText selectors text).mapM id

end Courseware
