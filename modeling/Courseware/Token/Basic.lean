/-
The tokens of a document, and what can be wrong with its text.

A token has a kind, the text it was read from and the line it starts on. The
text of a value over several lines comes as one token for each line between
the opening `==` and the closing one.
-/
import Courseware.Error
import Courseware.Number.Text

namespace Courseware

/-- The words after an `@`, each followed by the path of a file. -/
inductive Directive where
  /-- `@include`: the statements of another file, in place. -/
  | inclusion
  /-- `@extends`: the variables of another file, inherited or bound to a key. -/
  | extension
  /-- `@copyurl`: the address of a file. -/
  | url
  /-- `@copycontent`: the content of a file. -/
  | content
  deriving DecidableEq, Repr

namespace Directive

/-- The word a directive is written with. -/
def keyword : Directive → String
  | .inclusion => "@include"
  | .extension => "@extends"
  | .url => "@copyurl"
  | .content => "@copycontent"

/-- Every directive. -/
def all : List Directive := [.inclusion, .extension, .url, .content]

/-- The directive a word stands for. -/
def ofKeyword? (word : String) : Option Directive := all.find? (·.keyword = word)

end Directive

/-- What a token is. -/
inductive TokenKind where
  /-- A name, or several with dots between them. -/
  | name (text : String)
  | number (value : Number)
  | boolean (value : Bool)
  | string (text : String)
  /-- The name of a component, which starts as the options ask for. -/
  | selector (text : String)
  | directive (which : Directive)
  /-- The path after a directive. -/
  | path (text : String)
  /-- The `==` before the lines of a value. -/
  | opening
  /-- One line of a value, with its newline. -/
  | body (text : String)
  /-- The `==` after the lines of a value. -/
  | closing
  | comment (text : String)
  | equals
  | colon
  | comma
  | leftBracket
  | rightBracket
  | leftBrace
  | rightBrace
  /-- The end of the document. -/
  | finish
  deriving DecidableEq

/-- A token of a document. -/
structure Token where
  kind : TokenKind
  /-- The text it was read from. -/
  lexeme : String
  /-- The line it starts on. -/
  line : Nat
  deriving DecidableEq

/-- What keeps a text from having a token. -/
inductive LexicalFault where
  | invalidNumber (lexeme : String)
  | trailingBackslash
  | unclosedString (quote : Char)
  | unexpectedCharacter (c : Char)
  | unclosedComment
  | unknownDirective (word : String)
  | missingPath
  | unclosedBody
  | textAfterOpening (text : String)
  deriving DecidableEq, Repr

namespace LexicalFault

/-- The message, the hint and the code of a fault. -/
def detail : LexicalFault → Detail
  | invalidNumber lexeme => .coded ("Invalid number '" ++ lexeme ++ "'") 102
  | trailingBackslash => .coded "Trailing backslash in string" 103
  | unclosedString quote =>
    ⟨"String starting with " ++ quote.toString ++ " is never closed",
      some "String literal not closed", some 103⟩
  | unexpectedCharacter c =>
    ⟨"Unexpected character '" ++ c.toString ++ "'", some "Unexpected character in input", some 104⟩
  | unclosedComment =>
    ⟨"Unterminated block comment", some "Close the comment with `*/`", some 105⟩
  | unknownDirective word =>
    ⟨"Unknown directive '" ++ word ++ "'",
      some "Expected one of @include, @extends, @copyurl, @copycontent", some 106⟩
  | missingPath =>
    ⟨"Expected a path after directive",
      some "Directives take a file path, e.g. `@include lib/base.pl`", some 107⟩
  | unclosedBody =>
    ⟨"Unterminated multi-line string",
      some "Close the value with a line containing only `==`", some 108⟩
  | textAfterOpening text =>
    ⟨"Unexpected text '" ++ text ++ "' after '=='",
      some "The body of a multi-line value starts on the next line", some 109⟩

/-- The error of a fault at a line. -/
def error (fault : LexicalFault) (line : Nat) : Error := .lexical line fault.detail

end LexicalFault

end Courseware
