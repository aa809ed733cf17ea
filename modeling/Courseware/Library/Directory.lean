/-
A library held in directories.

Files lie below the root of the library, and those at paths that start with
`~/` below the home directory, if it is known which one that is. A path is
normalised before it is looked up, so it cannot lead out of the two. Versions
are recorded and have no effect.

A `Tree` is what is below a directory. Looking up a path in it follows the
rules of a file system: an empty segment and `.` stay in a directory, `..`
leads to its parent, nothing but the end of a path may follow a file, a name
has up to 255 bytes, and none of these is zero.
-/
import Courseware.Library.Basic
import Courseware.Options.Json
import Courseware.Path

namespace Courseware

/-- The files and the empty directories below a directory, each by its segments. -/
structure Tree where
  files : List (List String × ByteArray)
  folders : List (List String)

/-- What is at the end of a path. -/
inductive Entry where
  | file (bytes : ByteArray)
  | folder

/-- Why there is nothing to be had at the end of a path. -/
inductive TreeFault where
  | absent
  | notFolder
  | isFolder
  | notText
  | longName
  | nulInName
  deriving DecidableEq, Repr

/-- The reason, in the words of the operating system. -/
def TreeFault.reason : TreeFault → String
  | absent => "No such file or directory (os error 2)"
  | notFolder => "Not a directory (os error 20)"
  | isFolder => "Is a directory (os error 21)"
  | notText => "stream did not contain valid UTF-8"
  | longName => "File name too long (os error 36)"
  | nulInName => "file name contained an unexpected NUL byte"

namespace Tree

/-- A directory with nothing below it. -/
def empty : Tree := ⟨[], []⟩

/-- The tree of files and empty directories given by relative paths; of two files at one path the
last one is there. -/
def ofPaths (files : List (String × ByteArray)) (folders : List String) : Tree :=
  let segments (path : String) := (Path.segments path.toList).map String.ofList
  ⟨files.reverse.map fun (path, bytes) => (segments path, bytes), folders.map segments⟩

/-- What is at the end of some segments. -/
def entry? (t : Tree) (here : List String) : Option Entry :=
  match t.files.find? fun file => file.1 = here with
  | some (_, bytes) => some (.file bytes)
  | none =>
    if here = [] ∨ (t.files.any fun file => here.isPrefixOf file.1) ∨
        (t.folders.any fun folder => here.isPrefixOf folder) then some .folder
    else none

/-- What is at the end of a path that goes on above the tree: only the directories on the way up are
known. -/
def above (path : List String) : Except TreeFault Entry :=
  if path.all fun segment => segment = "" ∨ segment = "." ∨ segment = ".." then .ok .folder
  else .error .absent

/-- What is at the end of a path that goes on from `here`. -/
def walk (t : Tree) : (here : List String) → (path : List String) → Except TreeFault Entry
  | here, [] => (t.entry? here).elim (.error .absent) .ok
  | here, segment :: path =>
    match t.entry? here with
    | none => .error .absent
    | some (.file _) => .error .notFolder
    | some .folder =>
      if segment = "" ∨ segment = "." then t.walk here path
      else if segment = ".." then
        if here = [] then above path else t.walk here.dropLast path
      else if 255 < segment.utf8ByteSize then .error .longName
      else t.walk (here ++ [segment]) path

/-- What is at the end of a path. -/
def find (t : Tree) (path : List String) : Except TreeFault Entry :=
  if path.any fun segment => '\x00' ∈ segment.toList then .error .nulInName else t.walk [] path

/-- The bytes of the file at the end of a path. -/
def read (t : Tree) (path : List String) : Except TreeFault ByteArray :=
  match t.find path with
  | .ok (.file bytes) => .ok bytes
  | .ok .folder => .error .isFolder
  | .error fault => .error fault

/-- The text of the file at the end of a path. -/
def readText (t : Tree) (path : List String) : Except TreeFault String :=
  match t.read path with
  | .ok bytes =>
    match String.fromUTF8? bytes with
    | some text => .ok text
    | none => .error .notText
  | .error fault => .error fault

end Tree

/-- A directory that a path starts in. -/
inductive Base where
  | root
  | home
  /-- The root of the file system, where an absolute path starts. -/
  | system
  deriving DecidableEq, Repr

/-- A home directory, where it can be determined. -/
abbrev Home := Option Tree

/-- The home directory with the files and empty directories given by relative paths. -/
def Home.ofPaths (files : List (String × ByteArray)) (folders : List String) : Home :=
  some (.ofPaths files folders)

/-- A library of one resource that is held in directories. -/
structure Directory where
  resource : String
  root : Tree
  home : Home

namespace Directory

/-- What is below a base; nothing is below a home directory that is not known. -/
def tree (d : Directory) : Base → Tree
  | .root => d.root
  | .home => d.home.getD .empty
  | .system => .empty

/-- A path below a base; an absolute one starts in the file system instead. -/
def below (base : Base) (path : List Char) : Base × List String :=
  (if path.head? = some '/' then .system else base, Text.parts '/' (String.ofList path))

/-- The path that a file has in the library. -/
def normalPath (path : String) : String :=
  if Path.isHome path.toList then
    String.ofList ('~' :: Path.normalizeChars (path.toList.drop 1))
  else Path.normalize path

/-- **Where the file at a path of the library lies.** -/
def place (path : String) : Base × List String :=
  if Path.isHome path.toList then below .home (path.toList.drop 2)
  else below .root (path.toList.dropWhile (· = '/'))

/-- The place of a path, unless it starts in a home directory that is not known. -/
def reach (d : Directory) (path : String) : Except Error (Base × List String) :=
  if Path.isHome path.toList ∧ d.home.isNone then .error (FileFault.unknownHome.error path)
  else .ok (place path)

/-- The file at a path, of any version. -/
def locate (d : Directory) (path version : String) : Except Error Descriptor :=
  let path := normalPath path
  match d.reach path with
  | .error e => .error e
  | .ok (base, segments) =>
    match (d.tree base).find segments with
    | .ok (.file _) => .ok ⟨d.resource, version, path⟩
    | .ok .folder => .error (FileFault.notRegular.error path)
    | .error fault => .error ((FileFault.unreachable fault.reason).error path)

/-- The bytes of a file. -/
def content (d : Directory) (file : Descriptor) : Except Error ByteArray :=
  match d.reach file.path with
  | .error e => .error e
  | .ok (base, segments) =>
    match (d.tree base).read segments with
    | .ok bytes => .ok bytes
    | .error fault => .error ((FileFault.unreadable fault.reason).error file.path)

/-- The library that reads from directories. -/
def library (d : Directory) : Library := ⟨d.locate, d.content⟩

/-- The options in a file below the root. -/
def options (d : Directory) (path : String) : Except Error Options :=
  let (base, segments) := below .root path.toList
  match (d.tree base).readText segments with
  | .ok text => Options.ofText text
  | .error fault => .error ((FileFault.noOptions fault.reason).error path)

/-- The options in a file, or in another one if the first cannot be read. -/
def optionsOr (d : Directory) (path fallback : String) : Except Error Options :=
  match d.options path with
  | .error (.file _ _) => d.options fallback
  | outcome => outcome

end Directory

end Courseware
