import Mathlib.Logic.Function.Basic
import Nachos.Fault
import Nachos.Prelude.Loop

/-!
# The disk, one sector at a time

`SynchDisk::ReadSector` and `SynchDisk::WriteSector` (synchdisk.cc) as the file system sees them: the call returns when the
request of disk.cc is done, so what is left is the transfer of one sector between the disk and a buffer of the caller. The
sectors are addressed by the `int` the caller gives; the `ASSERT` of `Disk::ReadRequest` and `Disk::WriteRequest` keeps every
access inside the disk.
-/

namespace Nachos

open Bytes

/-- `SectorSize`: bytes in a sector. -/
@[simp] abbrev sectorSize : Int := 128

/-- `NumSectors`: `SectorsPerTrack * NumTracks`. -/
@[simp] abbrev numSectors : Int := 1024

/-- The contents of the disk. -/
structure Disk where
  sector : Int → Vector UInt8 128

namespace Disk

/-- A sector seen as memory. -/
def bytes (d : Disk) (s : Int) : Buf := fun j => (d.sector s).toArray.getD j 0

/-- `ReadSector(sectorNumber, data)`, with `data` pointing at offset `o` of a buffer. -/
def readSector (d : Disk) (sectorNumber : Int) (data : Buf) (o : Nat) : Except Fault Buf := do
  assert (0 ≤ sectorNumber ∧ sectorNumber < numSectors)
  return copy (d.bytes sectorNumber) 0 data o 128

/-- The sector holds the 128 bytes of `data` from offset `o` on, and nothing else changes. -/
def put (d : Disk) (sectorNumber : Int) (data : Buf) (o : Nat) : Disk :=
  { sector := Function.update d.sector sectorNumber (Vector.ofFn fun j => data (o + j)) }

/-- `WriteSector(sectorNumber, data)`, with `data` pointing at offset `o` of a buffer. -/
def writeSector (d : Disk) (sectorNumber : Int) (data : Buf) (o : Nat) : Except Fault Disk := do
  assert (0 ≤ sectorNumber ∧ sectorNumber < numSectors)
  return d.put sectorNumber data o

theorem readSector_of (d : Disk) {s : Int} (h : 0 ≤ s ∧ s < numSectors) (data : Buf) (o : Nat) :
    d.readSector s data o = .ok (copy (d.bytes s) 0 data o 128) := by
  unfold readSector
  rw [assert_of h]
  rfl

theorem writeSector_of (d : Disk) {s : Int} (h : 0 ≤ s ∧ s < numSectors) (data : Buf) (o : Nat) :
    d.writeSector s data o = .ok (d.put s data o) := by
  unfold writeSector
  rw [assert_of h]
  rfl

/-- What is written to a sector is what it holds. -/
theorem bytes_put_same (d : Disk) (s : Int) (data : Buf) (o : Nat) {j : Nat} (hj : j < 128) :
    (d.put s data o).bytes s j = data (o + j) := by
  simp [bytes, put, hj]

/-- A write to one sector leaves every other as it was. -/
theorem sector_put_other (d : Disk) {s s' : Int} (h : s' ≠ s) (data : Buf) (o : Nat) :
    (d.put s data o).sector s' = d.sector s' := by
  simp [put, Function.update_of_ne h]

theorem bytes_congr {d d' : Disk} {s s' : Int} (h : d.sector s = d'.sector s') : d.bytes s = d'.bytes s' := by
  unfold bytes
  rw [h]

/-- Whether a sector can be read depends on its number alone. -/
theorem readSector_sameFault (d d' : Disk) (s : Int) (b b' : Buf) (o o' : Nat) :
    Loop.SameFault (d.readSector s b o) (d'.readSector s b' o') := by
  unfold readSector
  cases assert (0 ≤ s ∧ s < numSectors) with
  | error e => rfl
  | ok _ => trivial

end Disk

end Nachos
