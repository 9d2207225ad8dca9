import Nachos.Userprog.Console

/-!
# The calls for files (threads/kernel.cc)

Every handler checks its arguments by itself. `ListFile` has entries 0 to 19; a check that lets 20 through leads to an index outside
of it. The messages of the handlers are not part of the state.
-/

namespace Nachos

open Bytes Loop

/-- `INT_MIN`. -/
abbrev intMin : BitVec 32 := 0x80000000

namespace System

variable {C : FileSystemClass}

/-- A string that the kernel has copied, which ends at its first zero byte. -/
def copyName (s : System C) (fresh : Fresh) (limit : BitVec 32) : Except Fault (Name × System C) := do
  let (fileName, machine) ← s.machine.user2System (s.readRegister 4) limit (fresh.heap 0)
  return (← fileName.string, { s with machine })

/-! ## Names -/

/-- The name of `File_Create`. -/
def createName (s : System C) (fresh : Fresh) : Except Fault (Name × System C) := s.copyName fresh (maxFileLength + 1)

/-- The name of `File_Open`. -/
def openName (s : System C) (fresh : Fresh) : Except Fault (Name × System C) := s.copyName fresh 32

/-- The name of `File_Remove`. -/
def removeName (s : System C) (fresh : Fresh) : Except Fault (Name × System C) := s.copyName fresh maxFileLength

/-- `Kernel::File_Create`. -/
def fileCreate (s : System C) (fresh : Fresh) : Except Fault (System C) := do
  let (fileName, s) ← s.createName fresh
  let (created, files) ← C.create fresh.junk s.fileSystem.files fileName 0
  let s := { s with fileSystem := { s.fileSystem with files } }
  if created then return s.writeRegister 2 0 else return s.writeRegister 2 (-1)

/-- `Kernel::File_Open`. -/
def fileOpen (s : System C) (fresh : Fresh) : Except Fault (System C) := do
  let (fileName, s) ← s.openName fresh
  match s.fileSystem.listFile.findName fileName with
  | some i => return s.writeRegister 2 (BitVec.ofNat 32 i)
  | none =>
    match findFreeSlot s.fileSystem.listFile with
    | none => return s.writeRegister 2 (-1) -- no free slot
    | some freeIndex =>
      let fileSystem ← s.fileSystem.openListed fresh.junk freeIndex fileName
      return { s with fileSystem }.writeRegister 2 (BitVec.ofNat 32 freeIndex)

/-- `Kernel::File_Remove`. -/
def fileRemove (s : System C) (fresh : Fresh) : Except Fault (System C) := do
  let (fileName, s) ← s.removeName fresh
  match s.fileSystem.listFile.findName fileName with
  | some _ => return s.writeRegister 2 (-1)
  | none =>
    let (removed, files) ← C.remove fresh.junk s.fileSystem.files fileName
    let s := { s with fileSystem := { s.fileSystem with files } }
    if removed then return s.writeRegister 2 0 else return s.writeRegister 2 (-1)

/-! ## Open files -/

/-- What a call leaves at `ListFile[i]`, and behind the open files. -/
def setSlot (s : System C) (i : Fin 20) (entry : Option (Listed C)) (files : C.Files) : System C :=
  { s with fileSystem := { listFile := Function.update s.fileSystem.listFile i entry, files } }

/-- `Kernel::File_Close`. -/
def fileClose (s : System C) : Except Fault (System C) :=
  let openFileID := (s.readRegister 4).toInt
  if openFileID < 2 ∨ openFileID > 20 then .ok (s.writeRegister 2 (-1))
  else do
    match ← s.fileSystem.listFile.slot openFileID with
    | (_, none) => return s.writeRegister 2 (-1)
    | (i, some entry) =>
      let files ← C.close s.fileSystem.files entry.file
      return (s.setSlot i none files).writeRegister 2 1

/-- `Kernel::File_Read`. -/
def fileRead (s : System C) (fresh : Fresh) : Except Fault (System C) :=
  let virtAdr := s.readRegister 4
  let bufferSize := s.readRegister 5
  let fileID := (s.readRegister 6).toInt
  if fileID < 0 ∨ fileID > 20 then .ok (s.writeRegister 2 (-1))
  else do
    match ← s.fileSystem.listFile.slot fileID with
    | (_, none) => return s.writeRegister 2 (-1)
    | (i, some entry) =>
      if fileID = 0 then .error .wildPointer -- `buffer` is not set
      else
        let (buffer, machine) ← s.machine.user2System virtAdr bufferSize (fresh.heap 0)
        let (n_buf, bytes, file, files) ← C.read s.fileSystem.files entry.file buffer.bytes bufferSize.toInt
        let s := { s with machine }.setSlot i (some { entry with file }) files
        if n_buf > 0 then
          let (_, machine) ← s.machine.system2User virtAdr n_buf { buffer with bytes }
          return { s with machine }.writeRegister 2 (BitVec.ofInt 32 n_buf)
        else return s.writeRegister 2 intMin

/-- `Kernel::File_Write`. -/
def fileWrite (s : System C) (fresh : Fresh) : Except Fault (System C) := do
  let virAddr := s.readRegister 4
  let bufferSize := s.readRegister 5
  let fileID := (s.readRegister 6).toInt
  let _ ← KernelBuffer.new bufferSize.toInt (fresh.heap 0)
  if fileID < 0 ∨ fileID > 20 then return s.writeRegister 2 (-1)
  else
    match ← s.fileSystem.listFile.slot fileID with
    | (_, none) => return s.writeRegister 2 (-1)
    | (i, some entry) =>
      if fileID = 0 then return s.writeRegister 2 (-1) -- stdin
      else
        let (buffer, machine) ← s.machine.user2System virAddr bufferSize (fresh.heap 1)
        let (n_buf, file, files) ← C.write fresh.junk s.fileSystem.files entry.file buffer.bytes bufferSize.toInt
        let s := { s with machine }.setSlot i (some { entry with file }) files
        if n_buf > 0 then return s.writeRegister 2 (BitVec.ofInt 32 n_buf)
        else if fileID = 1 then
          -- stdout
          let text ← buffer.upTo fun c => c = 0 ∨ c = newline
          return (s.printString2Console (text ++ [newline])).writeRegister 2 (BitVec.ofInt 32 (text.length - 1))
        else return s

/-- `Kernel::File_Seek`. -/
def fileSeek (s : System C) : Except Fault (System C) :=
  let pos := (s.readRegister 4).toInt
  let fileID := (s.readRegister 5).toInt
  if fileID < 0 ∨ fileID > 20 then .ok (s.writeRegister 2 (-1))
  else do
    match ← s.fileSystem.listFile.slot fileID with
    | (_, none) => return s.writeRegister 2 (-1)
    | (i, some entry) =>
      if fileID = 0 ∨ fileID = 1 then return s.writeRegister 2 (-1)
      else
        let (pos, files) ← (if pos = -1 then C.length s.fileSystem.files entry.file else .ok (pos, s.fileSystem.files))
        let (length, files) ← C.length files entry.file
        if pos > length ∨ pos < 0 then return (s.setSlot i (some entry) files).writeRegister 2 (-1)
        else
          let (file, files) ← C.seek files entry.file pos
          return (s.setSlot i (some { entry with file }) files).writeRegister 2 (BitVec.ofInt 32 pos)

end System

end Nachos
