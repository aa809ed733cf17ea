/-
The grammar of documents, as derivations over tokens.

A derivation is a tree: each constructor is a production of the grammar and
holds what its right-hand side is made of. The tokens that a tree derives are
read off it (`tokens`), and so is the document that it denotes (`document`).
A tree keeps of each token everything but its kind, which the production
fixes, so two trees with the same tokens can only differ in their shape.

The productions are

    statement = comment
              | name '='                          where `LeavesEmpty` holds
              | name '=' value                    where it does not
              | name '==' line* '=='
              | (@include | @extends) path
    value     = number | truth value | string | name | selector
              | (@extends | @copyurl | @copycontent) path
              | '[' comment* ']' | '[' item (',' item)* ']'
              | '{' comment* '}' | '{' entry (',' entry)* '}'
    item      = comment* value comment*
    entry     = comment* name ':' value comment*

and a document is a list of statements.
-/
import Courseware.Document.Parser

namespace Courseware.Grammar

/-- Where a token stands: everything about it but its kind. -/
structure Mark where
  lexeme : String
  line : Nat

/-- The token of a kind that stands somewhere. -/
def Mark.token (m : Mark) (kind : TokenKind) : Token := ⟨kind, m.lexeme, m.line⟩

/-- A comment. -/
structure Remark where
  mark : Mark
  text : String

def Remark.token (r : Remark) : Token := r.mark.token (.comment r.text)

/-- A line between `==` and `==`. -/
structure BodyLine where
  mark : Mark
  text : String

def BodyLine.token (l : BodyLine) : Token := l.mark.token (.body l.text)

/-- What a value of a single token is. -/
inductive Literal where
  | number (value : Number)
  | boolean (value : Bool)
  | string (text : String)
  | name (text : String)
  | selector (text : String)

def Literal.kind : Literal → TokenKind
  | number n => .number n
  | boolean b => .boolean b
  | string s => .string s
  | name s => .name s
  | selector s => .selector s

/-- What a literal denotes: a name is a reference. -/
def Literal.atom : Literal → Atom
  | number n => .number n
  | boolean b => .boolean b
  | string s => .string s
  | name s => .reference s
  | selector s => .component s

/-- What a value takes from a file. -/
inductive FileValue where
  | dictionary
  | address
  | content

def FileValue.directive : FileValue → Directive
  | dictionary => .extension
  | address => .url
  | content => .content

def FileValue.atom : FileValue → String → Atom
  | dictionary, path => .dictionary path
  | address, path => .url path
  | content, path => .content path

mutual

/-- A derivation of a value. -/
inductive ValueTree where
  | literal (mark : Mark) (l : Literal)
  | file (mark : Mark) (f : FileValue) (pathMark : Mark) (path : String)
  | emptyArray (opening : Mark) (remarks : List Remark) (closing : Mark)
  | array (opening : Mark) (items : ItemsTree) (closing : Mark)
  | emptyObject (opening : Mark) (remarks : List Remark) (closing : Mark)
  | object (opening : Mark) (entries : EntriesTree) (closing : Mark)

/-- A derivation of the items of an array, with the comments around each of them. -/
inductive ItemsTree where
  | last (before : List Remark) (value : ValueTree) (after : List Remark)
  | more (before : List Remark) (value : ValueTree) (after : List Remark) (comma : Mark)
      (rest : ItemsTree)

/-- A derivation of the entries of an object, with the comments around each of them. -/
inductive EntriesTree where
  | last (before : List Remark) (keyMark : Mark) (key : String) (colon : Mark) (value : ValueTree)
      (after : List Remark)
  | more (before : List Remark) (keyMark : Mark) (key : String) (colon : Mark) (value : ValueTree)
      (after : List Remark) (comma : Mark) (rest : EntriesTree)

end

/-- A derivation of a statement. -/
inductive StatementTree where
  | comment (remark : Remark)
  | empty (mark : Mark) (key : String) (equals : Mark)
  | assigned (mark : Mark) (key : String) (equals : Mark) (value : ValueTree)
  | body (mark : Mark) (key : String) (opening : Mark) (lines : List BodyLine) (closing : Mark)
  | inclusion (mark pathMark : Mark) (path : String)
  | extension (mark pathMark : Mark) (path : String)

/-! ## What a derivation derives -/

mutual

/-- The tokens of a value. -/
def ValueTree.tokens : ValueTree → List Token
  | .literal m l => [m.token l.kind]
  | .file m f pm path => [m.token (.directive f.directive), pm.token (.path path)]
  | .emptyArray o remarks c =>
    o.token .leftBracket :: (remarks.map Remark.token ++ [c.token .rightBracket])
  | .array o items c => o.token .leftBracket :: (items.tokens ++ [c.token .rightBracket])
  | .emptyObject o remarks c =>
    o.token .leftBrace :: (remarks.map Remark.token ++ [c.token .rightBrace])
  | .object o entries c => o.token .leftBrace :: (entries.tokens ++ [c.token .rightBrace])

def ItemsTree.tokens : ItemsTree → List Token
  | .last before v after => before.map Remark.token ++ (v.tokens ++ after.map Remark.token)
  | .more before v after comma rest =>
    before.map Remark.token ++
      (v.tokens ++ (after.map Remark.token ++ comma.token .comma :: rest.tokens))

def EntriesTree.tokens : EntriesTree → List Token
  | .last before m key colon v after =>
    before.map Remark.token ++
      (m.token (.name key) :: colon.token .colon :: (v.tokens ++ after.map Remark.token))
  | .more before m key colon v after comma rest =>
    before.map Remark.token ++
      (m.token (.name key) :: colon.token .colon ::
        (v.tokens ++ (after.map Remark.token ++ comma.token .comma :: rest.tokens)))

end

def StatementTree.tokens : StatementTree → List Token
  | .comment remark => [remark.token]
  | .empty m key equals => [m.token (.name key), equals.token .equals]
  | .assigned m key equals v => m.token (.name key) :: equals.token .equals :: v.tokens
  | .body m key o lines c =>
    m.token (.name key) :: o.token .opening :: (lines.map BodyLine.token ++ [c.token .closing])
  | .inclusion m pm path => [m.token (.directive .inclusion), pm.token (.path path)]
  | .extension m pm path => [m.token (.directive .extension), pm.token (.path path)]

def tokens : List StatementTree → List Token
  | [] => []
  | s :: rest => s.tokens ++ tokens rest

/-- Whether an `=` on a line is left without a value by the tokens after it: there are none, or the
first one is a comment or stands on a later line. -/
def LeavesEmpty (equalsLine : Nat) : List Token → Prop
  | [] => True
  | t :: _ => (∃ text, t.kind = .comment text) ∨ equalsLine < t.line

/-- Whether a statement may be followed by some tokens: its `=` has a value exactly unless what
follows the `=` leaves it empty. -/
def StatementTree.Fits : StatementTree → List Token → Prop
  | .empty _ _ equals, following => LeavesEmpty equals.line following
  | .assigned _ _ equals v, _ => ¬ LeavesEmpty equals.line v.tokens
  | _, _ => True

/-- Statements each of which may be followed by the ones after it. -/
def Admissible : List StatementTree → Prop
  | [] => True
  | s :: rest => s.Fits (tokens rest) ∧ Admissible rest

/-- **The derivations of a list of tokens**: the statements that admissibly make it up. -/
def Derives (g : List StatementTree) (ts : List Token) : Prop := Admissible g ∧ tokens g = ts

/-! ## What a derivation denotes -/

mutual

/-- The value that is denoted. -/
def ValueTree.value : ValueTree → Value
  | .literal m l => .atom m.line l.atom
  | .file m f _ path => .atom m.line (f.atom path)
  | .emptyArray o _ _ => .array o.line []
  | .array o items _ => .array o.line items.values
  | .emptyObject o _ _ => .object o.line []
  | .object o entries _ => .object o.line (entries.insertInto [])

def ItemsTree.values : ItemsTree → List Value
  | .last _ v _ => [v.value]
  | .more _ v _ _ rest => v.value :: rest.values

/-- An ordered dictionary with the entries inserted one after another. -/
def EntriesTree.insertInto : EntriesTree → Dict Value → Dict Value
  | .last _ _ key _ v _, d => Dict.insert d key v.value
  | .more _ _ key _ v _ _ rest, d => rest.insertInto (Dict.insert d key v.value)

end

mutual

/-- What a value deserves warnings for. -/
def ValueTree.notes : ValueTree → List Note
  | .array _ items _ => items.notes
  | .object _ entries _ => entries.notes []
  | _ => []

def ItemsTree.notes : ItemsTree → List Note
  | .last _ v _ => v.notes
  | .more _ v _ _ rest => v.notes ++ rest.notes

/-- What entries deserve warnings for, after entries with the keys `seen`: those of its value come
before that of a repeated key. -/
def EntriesTree.notes : EntriesTree → (seen : List String) → List Note
  | .last _ m key _ v _, seen =>
    v.notes ++ if key ∈ seen then [Parser.repeatedKey key m.line] else []
  | .more _ m key _ v _ _ rest, seen =>
    v.notes ++ (if key ∈ seen then [Parser.repeatedKey key m.line] else []) ++
      rest.notes (key :: seen)

end

/-- Lines without a first one that only names a language, if `stripHint` is on. -/
def keptLines (stripHint : Bool) : List BodyLine → List BodyLine
  | [] => []
  | l :: lines => if stripHint && Parser.isHint l.text then lines else l :: lines

/-- The lines as one text. -/
def joinLines (lines : List BodyLine) : String := lines.foldl (fun text l => text ++ l.text) ""

/-- The statement that is denoted. -/
def StatementTree.statement (stripHint : Bool) : StatementTree → Statement
  | .comment remark => .comment remark.text
  | .empty m key _ => .assignment key (.atom m.line (.string ""))
  | .assigned _ key _ v => .assignment key v.value
  | .body m key _ lines _ =>
    .assignment key (.atom m.line (.string (joinLines (keptLines stripHint lines))))
  | .inclusion _ _ path => .inclusion path
  | .extension _ _ path => .extension path

def StatementTree.line : StatementTree → Nat
  | .comment remark => remark.mark.line
  | .empty m _ _ | .assigned m _ _ _ | .body m _ _ _ _ => m.line
  | .inclusion m _ _ | .extension m _ _ => m.line

/-- What a statement deserves warnings for. -/
def StatementTree.notes : StatementTree → List Note
  | .assigned _ _ _ v => v.notes
  | _ => []

def StatementTree.node (stripHint : Bool) (s : StatementTree) : Node :=
  ⟨s.statement stripHint, s.line, ""⟩

/-- **The document that statements denote.** -/
def document (stripHint : Bool) (g : List StatementTree) : Document :=
  ⟨g.map (·.node stripHint), g.flatMap (·.notes)⟩

end Courseware.Grammar
