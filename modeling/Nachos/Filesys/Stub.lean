import Nachos.Prelude.Posix
import Nachos.Filesys.Interface

/-!
# The file system as calls to UNIX (filesys/filesys.h, openfile.h with `FILESYS_STUB`, lib/sysdep.cc)

The implementation that is compiled by default.
-/

namespace Nachos

namespace Stub

open Bytes Posix

variable {Entry : Type}

/-! ## sysdep.cc -/

/-- `OpenForWrite`. -/
def openForWrite [DecidableEq Entry] (h : Host Entry) (name : Name) : Except Fault (Nat × Host Entry) :=
  match h.openTruncated name with
  | (none, _) => .error .assertFailed
  | (some fd, h) => .ok (fd, h)

/-- `ReadPartial`. -/
def readPartial (h : Host Entry) (fd : Nat) (numBytes : Int) : Int × Buf × Host Entry := h.read fd numBytes

/-- `WriteFile`. -/
def writeFile (h : Host Entry) (fd : Nat) (src : Buf) (numBytes : Int) : Except Fault (Host Entry) := do
  let (retVal, h) := h.write fd src numBytes
  assert (retVal = numBytes)
  return h

/-- `Lseek`. -/
def lseek (h : Host Entry) (fd : Nat) (offset : Int) (whence : Whence) : Except Fault (Host Entry) := do
  let (retVal, h) := h.lseek fd offset whence
  assert (retVal ≥ 0)
  return h

/-- `Tell`. -/
def tell (h : Host Entry) (fd : Nat) : Int := (h.lseek fd 0 .cur).1

/-- `Close`. -/
def close (h : Host Entry) (fd : Nat) : Except Fault (Host Entry) := do
  let (closed, h) := h.close fd
  assert (closed = true)
  return h

/-! ## class OpenFile -/

/-- `class OpenFile`. -/
structure OpenFile where
  file : Nat
  currentOffset : Int

namespace OpenFile

/-- `OpenFile::OpenFile`. -/
def new (file : Nat) : OpenFile := { file, currentOffset := 0 }

/-- `OpenFile::ReadAt`: the value returned, and the buffer. -/
def readAt (f : OpenFile) (h : Host Entry) (into : Buf) (numBytes position : Int) : Except Fault (Int × Buf × Host Entry) := do
  let h ← lseek h f.file position .set
  let (numRead, bytes, h) := readPartial h f.file numBytes
  return (numRead, copy bytes 0 into 0 numRead.toNat, h)

/-- `OpenFile::WriteAt`. -/
def writeAt (f : OpenFile) (h : Host Entry) (src : Buf) (numBytes position : Int) : Except Fault (Int × Host Entry) := do
  let h ← lseek h f.file position .set
  let h ← writeFile h f.file src numBytes
  return (numBytes, h)

/-- `OpenFile::Read`. -/
def read (f : OpenFile) (h : Host Entry) (into : Buf) (numBytes : Int) : Except Fault (Int × Buf × OpenFile × Host Entry) := do
  let (numRead, into, h) ← f.readAt h into numBytes f.currentOffset
  return (numRead, into, { f with currentOffset := f.currentOffset + numRead }, h)

/-- `OpenFile::Write`. -/
def write (f : OpenFile) (h : Host Entry) (src : Buf) (numBytes : Int) : Except Fault (Int × OpenFile × Host Entry) := do
  let (numWritten, h) ← f.writeAt h src numBytes f.currentOffset
  return (numWritten, { f with currentOffset := f.currentOffset + numWritten }, h)

/-- `OpenFile::Length`. -/
def length (f : OpenFile) (h : Host Entry) : Except Fault (Int × Host Entry) := do
  let h ← lseek h f.file 0 .end
  return (tell h f.file, h)

/-- `OpenFile::GetCurrentPos`: the value returned, and the file. -/
def getCurrentPos (f : OpenFile) (h : Host Entry) : Int × OpenFile := (tell h f.file, { f with currentOffset := tell h f.file })

/-- `OpenFile::Seek`. -/
def seek (f : OpenFile) (h : Host Entry) (pos : Int) : Except Fault (OpenFile × Host Entry) := do
  let h ← lseek h f.file pos .set
  return ({ f with currentOffset := tell h f.file }, h)

end OpenFile

/-! ## class FileSystem -/

variable [DecidableEq Entry]

/-- `FileSystem::Create`; `OpenForWrite` does not return without a descriptor. -/
def create (h : Host Entry) (name : Name) : Except Fault (Bool × Host Entry) := do
  let (fileDescriptor, h) ← openForWrite h name
  let h ← close h fileDescriptor
  return (true, h)

omit [DecidableEq Entry] in
/-- `FileSystem::Open`. -/
def «open» (h : Host Entry) (name : Name) : Option OpenFile × Host Entry :=
  match h.openExisting name with
  | (none, h) => (none, h)
  | (some fileDescriptor, h) => (some (OpenFile.new fileDescriptor), h)

/-- `FileSystem::Remove`. -/
def remove (h : Host Entry) (name : Name) : Bool × Host Entry := h.unlink name

end Stub

/-- The stub. -/
def stub (Entry : Type) [DecidableEq Entry] : FileSystemClass where
  Files := Posix.Host Entry
  OpenFile := Stub.OpenFile
  start h := h.Valid
  create _ h name _ := Stub.create h name
  «open» _ h _ name := .ok (Stub.open h name)
  remove _ h name := .ok (Stub.remove h name)
  close h f := Stub.close h f.file
  read h f := f.read h
  write _ h f := f.write h
  seek h f := f.seek h
  length h f := f.length h

end Nachos
