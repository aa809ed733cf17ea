/-
Options as JSON text.

An object gives options by name: names that are not known are passed over
once their values are checked, a known name may come only once, and what is
missing keeps its default. An array gives up to four options in order. The
depth has to be written as an integer of 64 bits.

A mistake is reported at the line where reading stopped, so the functions
below take care where that is: behind a value of the wrong type if it is a
scalar, in front of it if it is in brackets.
-/
import Courseware.Error
import Courseware.Json.Reader
import Courseware.Json.Text
import Courseware.Options.Basic

namespace Courseware.Options

open Json.Reading

/-- Where reading stops at a value of the wrong type. -/
def mismatch (cs : List Char) : Stop :=
  if cs.head? = some '[' ∨ cs.head? = some '\x7b' then cs
  else
    match scalar true cs with
    | .ok (_, rest) => rest
    | .error stop => stop

/-- A depth. -/
def readDepth (cs : List Char) : Except Stop (Nat × List Char) :=
  match skipSpace cs with
  | '-' :: cs => .error (mismatch ('-' :: cs))
  | c :: cs =>
    if c.isDigit then
      match scalar true (c :: cs) with
      | .ok (.int i, rest) => .ok (i.toNat, rest)
      | .ok (_, rest) => .error rest
      | .error stop => .error stop
    else .error (mismatch (c :: cs))
  | [] => .error []

/-- A truth value. -/
def readFlag (cs : List Char) : Except Stop (Bool × List Char) :=
  match skipSpace cs with
  | 't' :: cs => (word "rue".toList cs).map fun rest => (true, rest)
  | 'f' :: cs => (word "alse".toList cs).map fun rest => (false, rest)
  | cs => .error (mismatch cs)

/-- A string. -/
def readString (cs : List Char) : Except Stop (String × List Char) :=
  match skipSpace cs with
  | '"' :: cs => string true .plain [] cs
  | cs => .error (mismatch cs)

/-- The names of the options, in their order. -/
def names : List String := ["max_depth", "strip_lang_hint", "component_prefix", "url_prefix"]

/-- The options with the one of some name read from the text; a name that is not known takes any
value. -/
def readNamed (o : Options) (name : String) (cs : List Char) : Except Stop (Options × List Char) :=
  match names.idxOf? name with
  | some 0 => (readDepth cs).map fun (v, rest) => ({ o with maxDepth := v }, rest)
  | some 1 => (readFlag cs).map fun (v, rest) => ({ o with stripHint := v }, rest)
  | some 2 => (readString cs).map fun (v, rest) => ({ o with componentStart := v }, rest)
  | some 3 => (readString cs).map fun (v, rest) => ({ o with urlStart := v }, rest)
  | _ => (value false cs).map fun (_, rest) => (o, rest)

/-- The rest of an array of options; `due` are the names still to come, and `first` holds in front
of the first item. -/
def readItems (o : Options) (first : Bool) : (due : List String) → List Char →
    Except Stop (Options × List Char)
  | due, cs =>
    match due, skipSpace cs with
    | _, ']' :: cs => .ok (o, cs)
    | [], ',' :: cs => .error (skipSpace cs)
    | [], cs => .error cs
    | name :: due, cs =>
      if first then
        match readNamed o name cs with
        | .ok (o, cs) => readItems o false due cs
        | .error stop => .error stop
      else
        match cs with
        | ',' :: cs =>
          match skipSpace cs with
          | ']' :: cs => .error (']' :: cs)
          | cs =>
            match readNamed o name cs with
            | .ok (o, cs) => readItems o false due cs
            | .error stop => .error stop
        | cs => .error cs

/-- The rest of an object of options from its next key on; `seen` are the known names so far, and
`fuel` bounds how many keys there can be. -/
def readEntries (o : Options) : (fuel : Nat) → (seen : List String) → List Char →
    Except Stop (Options × List Char)
  | 0, _, cs => .error cs
  | fuel + 1, seen, cs =>
    match skipSpace cs with
    | '"' :: cs => do
      let (name, cs) ← string true .plain [] cs
      if name ∈ seen then .error (skipSpace cs)
      else
        match skipSpace cs with
        | ':' :: cs =>
          let (o, cs) ← readNamed o name cs
          match skipSpace cs with
          | ',' :: cs =>
            readEntries o fuel (if name ∈ names then name :: seen else seen) cs
          | '\x7d' :: cs => .ok (o, cs)
          | cs => .error cs
        | cs => .error cs
    | cs => .error cs

/-- Options at the front of the text. -/
def read (cs : List Char) : Except Stop (Options × List Char) :=
  match skipSpace cs with
  | '[' :: cs => readItems {} true names cs
  | '\x7b' :: cs =>
    match skipSpace cs with
    | '\x7d' :: cs => .ok ({}, cs)
    | cs => readEntries {} cs.length [] cs
  | cs => .error (mismatch cs)

/-- The error of a text that stops being options at some line. -/
def invalid (line : Nat) : Error :=
  .syntactic line
    ⟨"Invalid compiler options", some "Options are a JSON object, e.g. \x7b\"max_depth\": 16\x7d",
      some 220⟩

/-- **The options of a JSON text**, or the line where it stops being one. -/
def ofText (text : String) : Except Error Options :=
  let cs := text.toList
  let fail (stop : Stop) : Except Error Options :=
    .error (invalid (Text.newlines cs - Text.newlines stop + 1))
  match read cs with
  | .error stop => fail stop
  | .ok (o, rest) => if skipSpace rest = [] then .ok o else fail (skipSpace rest)

/-- Options as JSON. -/
def toJson (o : Options) : Json :=
  .obj [("max_depth", .int o.maxDepth), ("strip_lang_hint", .bool o.stripHint),
    ("component_prefix", .str o.componentStart), ("url_prefix", .str o.urlStart)]

end Courseware.Options
