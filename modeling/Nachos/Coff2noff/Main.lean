import Nachos.Coff2noff.Noff
import Nachos.Filesys.Interface
import Nachos.Prelude.Loop
import Nachos.Prelude.Posix

/-!
# coff2noff (coff2noff/coff2noff.c, coff.h)

The translator of object files, as it is built: with `RDATA`, for a little-endian host whose `long` has 32 bits. It reads the file header
(20 bytes), the `AOUTHDR` (56 bytes) and the section headers (40 bytes each), copies the raw data of the sections behind the place of the
NOFF header, and writes the header at last. What it prints is left out. A run that ends in `exit(1)` is an error; the file that it has
been writing is then removed.
-/

namespace Nachos

namespace Coff2noff

open Bytes Loop Posix

/-! ## coff.h -/

/-- The `unsigned short` at an offset. -/
def shortAt (b : Buf) (off : Nat) : Nat := (b off).toNat + 256 * (b (off + 1)).toNat

/-- `MIPSELMAGIC`. -/
abbrev mipselMagic : Nat := 0x0162

/-- `OMAGIC`. -/
abbrev oMagic : Nat := 0o407

/-- `sizeof(struct filehdr)`. -/
abbrev filehdrSize : Nat := 20

/-- `sizeof(struct aouthdr)`. -/
abbrev aouthdrSize : Nat := 56

/-- `sizeof(struct scnhdr)`. -/
abbrev scnhdrSize : Nat := 40

/-- `struct scnhdr`. -/
structure Scnhdr where
  s_name : Buf
  s_paddr : Int
  s_size : Int
  s_scnptr : Int

namespace Scnhdr

/-- `sections[i]`, in memory. -/
def ofBytes (b : Buf) (i : Nat) : Scnhdr where
  s_name := fun j => b (scnhdrSize * i + j)
  s_paddr := intAt b (scnhdrSize * i + 8)
  s_size := intAt b (scnhdrSize * i + 16)
  s_scnptr := intAt b (scnhdrSize * i + 20)

/-- `!strcmp(s_name, name)`. -/
def isNamed (s : Scnhdr) (name : String) : Bool :=
  (List.range (ascii name).length).all (fun j => s.s_name j == (ascii name).getD j 0) && s.s_name (ascii name).length == 0

end Scnhdr

/-! ## Files -/

variable {Entry : Type}

/-- `Read`. -/
def read (h : Host Entry) (fd : Nat) (nBytes : Int) : Except Nat (Buf × Host Entry) :=
  let (count, buf, h) := h.read fd nBytes
  if count ≠ nBytes then .error 1 else .ok (buf, h)

/-- `Write`; without a descriptor it fails. -/
def write (h : Host Entry) (fd : Option Nat) (buf : Buf) (nBytes : Int) : Except Nat (Host Entry) :=
  match fd with
  | none => .error 1
  | some fd =>
    let (count, h) := h.write fd buf nBytes
    if count ≠ nBytes then .error 1 else .ok h

/-- `lseek(fd, offset, 0)`, the result of which is not looked at. -/
def lseek (h : Host Entry) (fd : Option Nat) (offset : Int) : Host Entry :=
  match fd with
  | none => h
  | some fd => (h.lseek fd offset .set).2

/-- `close(fd)`. -/
def close (h : Host Entry) (fd : Option Nat) : Host Entry :=
  match fd with
  | none => h
  | some fd => (h.close fd).2

/-! ## main -/

/-- The variables of the loop over the sections. -/
structure Progress (Entry : Type) where
  host : Host Entry
  noffH : NoffHeader
  inNoffFile : Int

/-- The segment of a section. -/
def segment (s : Scnhdr) (inNoffFile : Int) : Segment where
  virtualAddr := s.s_paddr
  inFileAddr := inNoffFile
  size := s.s_size

/-- The raw data of a section is copied. -/
def copyRaw (h : Host Entry) (fdIn : Nat) (fdOut : Option Nat) (s : Scnhdr) : Except Nat (Host Entry) := do
  let h := lseek h (some fdIn) s.s_scnptr
  let (buffer, h) ← read h fdIn s.s_size
  write h fdOut buffer s.s_size

/-- A section that has raw data: `noffH` is the header with its segment. -/
def copySection (p : Progress Entry) (fdIn : Nat) (fdOut : Option Nat) (s : Scnhdr) (noffH : NoffHeader) : Except Nat (Progress Entry) := do
  let host ← copyRaw p.host fdIn fdOut s
  return { host, noffH, inNoffFile := int32 (p.inNoffFile + s.s_size) }

/-- A section of uninitialized data. -/
def bssSection (p : Progress Entry) (s : Scnhdr) : Except Nat (Progress Entry) :=
  let uninitData := p.noffH.uninitData
  if uninitData.size ≠ 0 then
    if s.s_paddr = int32 (uninitData.virtualAddr + uninitData.size) then .error 1 -- both bss and sbss
    else .ok { p with noffH := { p.noffH with uninitData := { uninitData with size := int32 (uninitData.size + s.s_size) } } }
  else .ok { p with noffH := { p.noffH with uninitData := { uninitData with virtualAddr := s.s_paddr, size := s.s_size } } }

/-- The body of the loop over the sections. -/
def convertSection (fdIn : Nat) (fdOut : Option Nat) (p : Progress Entry) (s : Scnhdr) : Except Nat (Progress Entry) :=
  if s.s_size = 0 then .ok p
  else if s.isNamed ".text" then copySection p fdIn fdOut s { p.noffH with code := segment s p.inNoffFile }
  else if s.isNamed ".data" then copySection p fdIn fdOut s { p.noffH with initData := segment s p.inNoffFile }
  else if s.isNamed ".rdata" then copySection p fdIn fdOut s { p.noffH with readonlyData := segment s p.inNoffFile }
  else if s.isNamed ".bss" then bssSection p s
  else .error 1

/-- The header in front of the loop; the fields that are not set hold what was in the memory. -/
def initialHeader (junk : Buf) : NoffHeader :=
  let h := NoffHeader.ofBytes junk
  { noffMagic := noffMagicNumber
    code := { h.code with size := 0 }
    initData := { h.initData with size := 0 }
    readonlyData := { h.readonlyData with size := 0 }
    uninitData := { h.uninitData with size := 0 } }

/-- `main`, once the files are open. -/
def convert (h : Host Entry) (fdIn : Nat) (fdOut : Option Nat) (junk : Buf) : Except Nat (Host Entry) := do
  let (fileh, h) ← read h fdIn filehdrSize
  if shortAt fileh 0 ≠ mipselMagic then .error 1
  else
    let (systemh, h) ← read h fdIn aouthdrSize
    if shortAt systemh 0 ≠ oMagic then .error 1
    else
      let numsections := shortAt fileh 2
      let (sections, h) ← read h fdIn (numsections * scnhdrSize : Nat)
      let p : Progress Entry :=
        { host := lseek h fdOut noffHeaderSize, noffH := initialHeader junk, inNoffFile := noffHeaderSize }
      let p ← forRange (fun i p => convertSection fdIn fdOut p (Scnhdr.ofBytes sections i)) numsections p
      let h := lseek p.host fdOut 0
      let h ← write h fdOut p.noffH.bytes noffHeaderSize
      return close (close h (some fdIn)) fdOut

/-- `main`: the host at `exit(0)`. Only the descriptor of the COFF file is tested. -/
def main [DecidableEq Entry] (h : Host Entry) (coffFileName noffFileName : Name) (junk : Buf) : Except Nat (Host Entry) :=
  match h.openExisting coffFileName with
  | (none, _) => .error 1
  | (some fdIn, h) =>
    let (fdOut, h) := h.openTruncated noffFileName
    convert h fdIn fdOut junk

end Coff2noff

end Nachos
