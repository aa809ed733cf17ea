/-
Libraries: where documents and the files they name are read from.

A library locates a file, which gives its `Descriptor`, and hands out the
content of a located file. The two are apart so that the address of a file can
be written down without its content being read.
-/
import Courseware.Error

namespace Courseware

/-- A file at a version, as a library locates it. -/
structure Descriptor where
  /-- The resource that the library holds. -/
  resource : String
  version : String
  path : String
  deriving DecidableEq, Repr

/-- The public address of a file; the slashes that `start` ends in count as one. -/
def Descriptor.url (file : Descriptor) (start : String) : String :=
  let start := String.ofList (start.toList.reverse.dropWhile (· = '/')).reverse
  start ++ "/" ++ file.resource ++ file.path ++ "?version=" ++ file.version

/-- Why a file cannot be had. -/
inductive FileFault where
  /-- A path below the home directory, in a library that has none. -/
  | noHome
  /-- A path below the home directory, when it is not known which one that is. -/
  | unknownHome
  /-- There is no file at a version, nor a latest one. -/
  | absent (version : String)
  /-- A located file has no content. -/
  | vanished
  /-- A path leads to something that is not a file. -/
  | notRegular
  /-- A path leads nowhere. -/
  | unreachable (reason : String)
  /-- A file cannot be read. -/
  | unreadable (reason : String)
  /-- A document is not UTF-8. -/
  | notText
  /-- A file of options cannot be read. -/
  | noOptions (reason : String)
  deriving DecidableEq, Repr

namespace FileFault

/-- The message, the hint and the code of a fault. -/
def detail : FileFault → Detail
  | noHome => .coded "Home paths are not available in memory" 304
  | unknownHome =>
    ⟨"Could not determine home directory for ~ expansion",
      some "Set HOME or use a path inside the repository", some 300⟩
  | absent version => .coded ("No such file at version '" ++ version ++ "'") 302
  | vanished => .coded "File vanished before it could be read" 302
  | notRegular => .coded "Not a regular file" 302
  | unreachable reason =>
    ⟨"Failed to read file: " ++ reason, some "Check that the file exists and is readable", some 302⟩
  | unreadable reason => .coded ("Failed to read file: " ++ reason) 302
  | notText => ⟨"File is not valid UTF-8", some "PL sources must be UTF-8 text", some 303⟩
  | noOptions reason =>
    ⟨"Failed to read file: " ++ reason, some "Check that the file exists and is readable", some 301⟩

/-- The error of a fault at a path. -/
def error (fault : FileFault) (path : String) : Error := .file path fault.detail

end FileFault

/-- Where files are read from. -/
structure Library where
  /-- The file at a path and a version. -/
  locate : (path version : String) → Except Error Descriptor
  /-- The bytes of a located file. -/
  content : Descriptor → Except Error ByteArray

namespace Library

/-- The text of a file's bytes. -/
def decode (file : Descriptor) (bytes : ByteArray) : Except Error String :=
  match String.fromUTF8? bytes with
  | some text => .ok text
  | none => .error (FileFault.notText.error file.path)

/-- A document at a path and a version, with its text. -/
def readText (library : Library) (path version : String) : Except Error (Descriptor × String) := do
  let file ← library.locate path version
  let bytes ← library.content file
  return (file, ← decode file bytes)

end Library

end Courseware
