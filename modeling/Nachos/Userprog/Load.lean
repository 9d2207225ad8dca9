import Nachos.Coff2noff.Noff
import Nachos.Filesys.StubFile
import Nachos.Machine.Machine

/-!
# Loading a program (userprog/addrspace.cc, with `RDATA` and the stub)

The constructor of `AddrSpace` clears main memory, and `Load` reads the segments into it, each at its own address. On a little-endian
host the header is used as it is in the file.
-/

namespace Nachos

namespace AddrSpace

open Bytes Posix

variable {Entry : Type}

/-- `UserStackSize`. -/
abbrev userStackSize : Int := 1024

/-- Main memory after the constructor `AddrSpace::AddrSpace`. -/
def clearedMemory : Buf := fun _ => 0

/-- `executable->ReadAt(&(mainMemory[virtualAddr]), size, inFileAddr)`, if there is something to read. -/
def loadSegment (executable : Stub.OpenFile) (mainMemory : Buf) (h : Host Entry) (s : Segment) : Except Fault (Buf × Host Entry) :=
  if s.size > 0 then do
    let start := s.virtualAddr.toNat
    let (numRead, into, h) ← executable.readAt h (fun j => mainMemory (start + j)) s.size s.inFileAddr
    if 0 ≤ s.virtualAddr ∧ s.virtualAddr + numRead ≤ memorySize then
      return (fun p => if start ≤ p then into (p - start) else mainMemory p, h)
    else .error .outOfBounds
  else .ok (mainMemory, h)

/-- The size of the address space, in pages; the arithmetic is unsigned. -/
def pages (noffH : NoffHeader) : Nat :=
  let size := ((noffH.code.size + noffH.readonlyData.size + noffH.initData.size + noffH.uninitData.size + userStackSize) % 4294967296).toNat
  size / pageSize + if size % pageSize > 0 then 1 else 0

/-- `AddrSpace::Load`: the number of pages and main memory, or nothing if the file cannot be opened. -/
def load (h : Host Entry) (mainMemory : Buf) (fileName : Name) (junk : Buf) : Except Fault (Option (Nat × Buf) × Host Entry) :=
  match Stub.open h fileName with
  | (none, h) => .ok (none, h)
  | (some executable, h) => do
    let (_, header, h) ← executable.readAt h junk noffHeaderSize 0
    let noffH := NoffHeader.ofBytes header
    assert (noffH.noffMagic = noffMagicNumber)
    let numPages := pages noffH
    assert (numPages ≤ numPhysPages)
    let (mainMemory, h) ← loadSegment executable mainMemory h noffH.code
    let (mainMemory, h) ← loadSegment executable mainMemory h noffH.initData
    let (mainMemory, h) ← loadSegment executable mainMemory h noffH.readonlyData
    let h ← Stub.close h executable.file
    return (some (numPages, mainMemory), h)

end AddrSpace

end Nachos
