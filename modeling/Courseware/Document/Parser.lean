/-
From the tokens of a document to its statements.

A parser takes one token at a time. What it has read but not finished is its
`Mode`: the innermost construct that is open, and around it the `Hole`s of the
literals that the construct will be part of. When a value is complete it fills
its hole, and the mode is again that of the literal around it.

A parser looks one token ahead. A token is therefore only judged once the next
one has been read, and an error in place of the next one comes first; the
first token of a statement alone is judged on sight. `Document.ofItems` reads
a text as it is scanned and `Document.ofTokens` one that was scanned before,
by the same rules.
-/
import Courseware.Dict
import Courseware.Document.Basic
import Courseware.Document.Fault
import Courseware.Options.Basic
import Courseware.Token.Scanner

namespace Courseware

/-- Where a value goes that is being read. -/
inductive Hole where
  /-- It is assigned to a key. -/
  | assigned (key : String) (line : Nat)
  /-- It is the next item of an array, of which `before` was read, last first. -/
  | item (line : Nat) (before : List Value) (around : Hole)
  /-- It is the value of the next entry of an object. -/
  | entry (line : Nat) (before : Dict Value) (key : String) (keyLine : Nat) (around : Hole)

/-- Where a parser stands in a literal, between two items. -/
inductive Place where
  /-- After the opening bracket. -/
  | opened
  /-- After a comma. -/
  | due
  /-- After an item. -/
  | read
  deriving DecidableEq, Repr

/-- What a parser has read of the construct that is open. -/
inductive Mode where
  /-- Nothing: a statement starts. -/
  | statement
  /-- The key of an assignment. -/
  | key (key : String) (line : Nat)
  /-- The key of an assignment and the `=` after it. -/
  | rightSide (key : String) (line : Nat) (equalsLine : Nat)
  /-- The key of an assignment, the `==` after it, and lines of the value; `first` while there are
  none. -/
  | body (key : String) (line : Nat) (text : String) (first : Bool)
  /-- The directive that a statement starts with. -/
  | file (directive : Directive) (line : Nat)
  /-- Nothing: a value starts. -/
  | value (hole : Hole)
  /-- The directive that a value starts with. -/
  | valueFile (directive : Directive) (line : Nat) (hole : Hole)
  /-- Items of an array, last first. -/
  | array (place : Place) (line : Nat) (before : List Value) (hole : Hole)
  /-- Entries of an object. -/
  | object (place : Place) (line : Nat) (before : Dict Value) (hole : Hole)
  /-- Entries of an object and the key of the next one. -/
  | entry (line : Nat) (before : Dict Value) (key : String) (keyLine : Nat) (hole : Hole)

/-- A document that is being read. -/
structure Parser where
  nodes : List Node
  notes : List Note
  mode : Mode

/-- What becomes of a token. -/
inductive Move where
  /-- It is refused on sight. -/
  | refuse (e : Error)
  /-- It is taken, and judged once the next one is read. -/
  | take (judged : Except Error Parser)

namespace Mode

/-- What a mode goes on with. -/
def expected : Mode → Expected
  | statement => .statement
  | key k _ => .assignment k
  | rightSide .. => .value
  | body .. => .closing
  | file .. => .path
  | value _ => .value
  | valueFile .. => .path
  | array .read .. => .afterItem
  | array .. => .value
  | object .read .. => .afterEntry
  | object .. => .objectKey
  | entry _ _ k _ _ => .colon k

end Mode

namespace Parser

/-- A parser that has read nothing. -/
def start : Parser := ⟨[], [], .statement⟩

/-- The parser in another mode. -/
def inMode (p : Parser) (mode : Mode) : Parser := { p with mode }

/-- The parser after a whole statement. -/
def emit (p : Parser) (statement : Statement) (line : Nat) : Parser :=
  ⟨p.nodes ++ [⟨statement, line, ""⟩], p.notes, .statement⟩

/-- The parser after an assignment without a value, which is one of the empty string. -/
def emitEmpty (p : Parser) (key : String) (line : Nat) : Parser :=
  p.emit (.assignment key (.atom line (.string ""))) line

/-- What a repeated key of an object deserves a warning for. -/
def repeatedKey (key : String) (line : Nat) : Note :=
  ⟨line, "Duplicate key '" ++ key ++ "' in object, the last value is kept"⟩

/-- The parser after a whole value, which fills a hole. -/
def fill (p : Parser) (v : Value) : Hole → Parser
  | .assigned key line => p.emit (.assignment key v) line
  | .item line before around => p.inMode (.array .read line (v :: before) around)
  | .entry line before key keyLine around =>
    let notes := if Dict.hasKey before key then p.notes ++ [repeatedKey key keyLine] else p.notes
    ⟨p.nodes, notes, .object .read line (Dict.insert before key v) around⟩

/-- A token that starts a value. -/
def startValue (p : Parser) (hole : Hole) (t : Token) : Except Error Parser :=
  match t.kind with
  | .number n => .ok (p.fill (.atom t.line (.number n)) hole)
  | .boolean b => .ok (p.fill (.atom t.line (.boolean b)) hole)
  | .string s => .ok (p.fill (.atom t.line (.string s)) hole)
  | .name s => .ok (p.fill (.atom t.line (.reference s)) hole)
  | .selector s => .ok (p.fill (.atom t.line (.component s)) hole)
  | .directive d => .ok (p.inMode (.valueFile d t.line hole))
  | .leftBracket => .ok (p.inMode (.array .opened t.line [] hole))
  | .leftBrace => .ok (p.inMode (.object .opened t.line [] hole))
  | _ => .error (Expected.value.instead t)

/-- A token that starts a statement. -/
def startStatement (p : Parser) (t : Token) : Move :=
  match t.kind with
  | .comment text => .take (.ok (p.emit (.comment text) t.line))
  | .name key => .take (.ok (p.inMode (.key key t.line)))
  | .directive .inclusion => .take (.ok (p.inMode (.file .inclusion t.line)))
  | .directive .extension => .take (.ok (p.inMode (.file .extension t.line)))
  | .directive d => .refuse ((SyntaxFault.misplaced d).error t.line)
  | _ => .refuse (Expected.statement.instead t)

/-- A token after an `=`: a comment, or anything on a later line, leaves the value empty. -/
def startRightSide (p : Parser) (key : String) (line equalsLine : Nat) (t : Token) : Move :=
  match t.kind with
  | .comment _ => (p.emitEmpty key line).startStatement t
  | _ =>
    if equalsLine < t.line then (p.emitEmpty key line).startStatement t
    else .take (p.startValue (.assigned key line) t)

/-- Whether a line only names the language of the lines after it. -/
def isHint (text : String) : Bool :=
  Text.startsWith (Text.trimStart text.toList) "#!lang=".toList

/-- The path of a directive that makes a value. -/
def fileValue (p : Parser) (directive : Directive) (line : Nat) (hole : Hole) (path : String) :
    Except Error Parser :=
  match directive with
  | .inclusion => .error (SyntaxFault.inclusionAsValue.error line)
  | .extension => .ok (p.fill (.atom line (.dictionary path)) hole)
  | .url => .ok (p.fill (.atom line (.url path)) hole)
  | .content => .ok (p.fill (.atom line (.content path)) hole)

/-- The statement of a directive and its path. -/
def fileStatement (directive : Directive) (path : String) : Statement :=
  match directive with
  | .inclusion => .inclusion path
  | _ => .extension path

/-- A token in a mode that takes it. -/
def advance (stripHint : Bool) (p : Parser) (t : Token) : Except Error Parser :=
  match p.mode, t.kind with
  | .key key line, .equals => .ok (p.inMode (.rightSide key line t.line))
  | .key key line, .opening => .ok (p.inMode (.body key line "" true))
  | .body key line text first, .body more =>
    let text := if first && stripHint && isHint more then text else text ++ more
    .ok (p.inMode (.body key line text false))
  | .body key line text _, .closing =>
    .ok (p.emit (.assignment key (.atom line (.string text))) line)
  | .file directive line, .path path => .ok (p.emit (fileStatement directive path) line)
  | .value hole, _ => p.startValue hole t
  | .valueFile directive line hole, .path path => p.fileValue directive line hole path
  | .array _ .., .comment _ => .ok p
  | .array .opened line before hole, .rightBracket =>
    .ok (p.fill (.array line before.reverse) hole)
  | .array .read line before hole, .rightBracket => .ok (p.fill (.array line before.reverse) hole)
  | .array .read line before hole, .comma => .ok (p.inMode (.array .due line before hole))
  | .array .opened line before hole, _ => p.startValue (.item line before hole) t
  | .array .due line before hole, _ => p.startValue (.item line before hole) t
  | .object _ .., .comment _ => .ok p
  | .object .opened line before hole, .rightBrace => .ok (p.fill (.object line before) hole)
  | .object .read line before hole, .rightBrace => .ok (p.fill (.object line before) hole)
  | .object .read line before hole, .comma => .ok (p.inMode (.object .due line before hole))
  | .object .opened line before hole, .name key =>
    .ok (p.inMode (.entry line before key t.line hole))
  | .object .due line before hole, .name key => .ok (p.inMode (.entry line before key t.line hole))
  | .entry line before key keyLine hole, .colon =>
    .ok (p.inMode (.value (.entry line before key keyLine hole)))
  | mode, _ => .error (mode.expected.instead t)

/-- What becomes of the next token. -/
def step (stripHint : Bool) (p : Parser) (t : Token) : Move :=
  match p.mode with
  | .statement => p.startStatement t
  | .rightSide key line equalsLine => p.startRightSide key line equalsLine t
  | _ => .take (p.advance stripHint t)

/-- The document if it ends here. -/
def finish (p : Parser) (line : Nat) : Except Error Document :=
  match p.mode with
  | .statement => .ok ⟨p.nodes, p.notes⟩
  | .rightSide key keyLine _ =>
    let p := p.emitEmpty key keyLine
    .ok ⟨p.nodes, p.notes⟩
  | mode => .error (mode.expected.atEnd line)

/-- The error of a refused token, unless there is an error in place of the next one. -/
def firstError (e : Error) : List Item → Error
  | .error next :: _ => next
  | _ => e

/-- The document that the items make from here on; `line` is that of the token before. -/
def run (stripHint : Bool) : Parser → (line : Nat) → List Item → Except Error Document
  | p, line, [] => p.finish line
  | _, _, .error e :: _ => .error e
  | p, _, .ok t :: items =>
    if t.kind = .finish then p.finish t.line
    else
      match p.step stripHint t with
      | .refuse e => .error e
      | .take (.error e) => .error (firstError e items)
      | .take (.ok p) => run stripHint p t.line items

end Parser

namespace Document

/-- **The document that a list of items makes**, up to its end or its first error. -/
def ofItems (stripHint : Bool) (items : List Item) : Except Error Document :=
  Parser.start.run stripHint 1 items

/-- The document that a list of tokens makes. -/
def ofTokens (stripHint : Bool) (tokens : List Token) : Except Error Document :=
  ofItems stripHint (tokens.map .ok)

/-- **The document of a text**, scanned no further than it parses. -/
def ofText (options : Options) (text : String) : Except Error Document :=
  ofItems options.stripHint (Item.ofText options.componentStart text)

/-- The document of a text, all of which is scanned first. -/
def ofScannedText (options : Options) (text : String) : Except Error Document := do
  ofTokens options.stripHint (← Token.ofText? options.componentStart text)

end Document

end Courseware
