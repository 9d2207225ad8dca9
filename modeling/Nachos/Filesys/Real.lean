import Nachos.Filesys.FileSysInv
import Nachos.Filesys.Interface

/-!
# The real file system as an implementation of the interface (filesys/filesys.cc, openfile.cc)

`Open`, and the class made of the functions of `FileSystem` and `OpenFile`.
-/

namespace Nachos

open Bytes

/-- The memory behind a pointer to a string. -/
def Name.toBuf (name : Name) : Buf := fun i => name.getD i 0

namespace FileSystem

/-- `FileSystem::Open`: what it returns is what `ListFile` holds at the free slot. -/
def «open» (fs : FileSystem) (junk : Nat → Buf) (listFile : Fin 20 → Option OpenFile) (name : Buf) :
    Except Fault (Option OpenFile) := do
  let freeSlot := findFreeSlot listFile
  let directory ← (Directory.new numDirEntries (junk 0)).fetchFrom fs.directoryFile fs.disk
  let sector := directory.find name
  if sector ≥ 0 then
    let _ ← OpenFile.new fs.disk sector -- name was found in directory
  match freeSlot with
  | none => .error .outOfBounds
  | some i => return listFile i

end FileSystem

/-- The real file system. -/
def real : FileSystemClass where
  Files := FileSystem
  OpenFile := OpenFile
  start fs := fs.Inv
  create junk fs name initialSize := fs.create name.toBuf initialSize junk
  «open» junk fs listFile name := return (← fs.open junk listFile name.toBuf, fs)
  remove junk fs name := fs.remove name.toBuf junk
  close fs _ := .ok fs
  read fs f into numBytes := do
    let (numRead, into, f) ← f.read fs.disk into numBytes
    return (numRead, into, f, fs)
  write junk fs f src numBytes := do
    let (numWritten, disk, f) ← f.write fs.disk src numBytes (junk 0)
    return (numWritten, f, { fs with disk })
  seek fs f position := .ok (f.seek position, fs)
  length fs f := .ok (f.length, fs)

end Nachos
