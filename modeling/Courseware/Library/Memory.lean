/-
A library held in memory.

Every write is kept, the last one first. A file at a version is the last write
at that version, or else the last one at `latest`.
-/
import Courseware.Library.Basic
import Courseware.Path

namespace Courseware

/-- A write to a library. -/
structure Write where
  /-- A normal path. -/
  path : String
  version : String
  bytes : ByteArray

/-- A library of one resource that is held in memory. -/
structure Memory where
  resource : String
  /-- The last write first. -/
  writes : List Write

namespace Memory

/-- The version that stands in for any that a file was not written at. -/
def latest : String := "latest"

/-- A library without files. -/
def empty (resource : String) : Memory := ⟨resource, []⟩

/-- The library after a write. -/
def insert (m : Memory) (path version : String) (bytes : ByteArray) : Memory :=
  { m with writes := ⟨Path.normalize path, version, bytes⟩ :: m.writes }

/-- The bytes of the last write at a normal path and exactly a version. -/
def writtenAt? (m : Memory) (path version : String) : Option ByteArray :=
  (m.writes.find? fun w => w.path = path ∧ w.version = version).map (·.bytes)

/-- **The bytes at a normal path and a version**: those written at the version, or else the latest
ones. -/
def bytes? (m : Memory) (path version : String) : Option ByteArray :=
  (m.writtenAt? path version).or (m.writtenAt? path latest)

/-- Whether there is a file at a path and a version. -/
def contains (m : Memory) (path version : String) : Bool :=
  (m.bytes? (Path.normalize path) version).isSome

/-- The file at a path and a version. -/
def locate (m : Memory) (path version : String) : Except Error Descriptor :=
  if Path.isHome path.toList then .error (FileFault.noHome.error path)
  else
    let path := Path.normalize path
    if (m.bytes? path version).isSome then .ok ⟨m.resource, version, path⟩
    else .error ((FileFault.absent version).error path)

/-- The bytes of a file. -/
def content (m : Memory) (file : Descriptor) : Except Error ByteArray :=
  match m.bytes? file.path file.version with
  | some bytes => .ok bytes
  | none => .error (FileFault.vanished.error file.path)

/-- The library that reads from memory. -/
def library (m : Memory) : Library := ⟨m.locate, m.content⟩

end Memory

end Courseware
