import Mathlib.Data.List.FinRange
import Nachos.Machine.Machine

/-!
# Address translation and memory accesses (machine/translate.cc)

Virtual addresses are translated by a linear page table or by a TLB. An access sets the use and dirty bits of the entry it goes
through, and nothing else of the table; where a virtual page goes, `frame`, therefore never changes.
-/

namespace Nachos

open Bytes

namespace Machine

/-- Where an entry is kept. -/
inductive Slot where
  | page (vpn : Nat)
  | tlb (i : Fin tlbSize)

/-- The entry at a place. -/
def entryAt (m : Machine) : Slot → Option TranslationEntry
  | .page vpn => m.pageTable.map fun pageTable => pageTable vpn
  | .tlb i => m.tlb.map fun tlb => tlb i

/-- Set the use bit of an entry, and the dirty bit when `writing`. -/
def touch (m : Machine) (slot : Slot) (writing : Bool) : Machine :=
  let mark (e : TranslationEntry) : TranslationEntry := { e with use := true, dirty := e.dirty || writing }
  match slot with
  | .page vpn => { m with pageTable := m.pageTable.map fun pageTable => Function.update pageTable vpn (mark (pageTable vpn)) }
  | .tlb i => { m with tlb := m.tlb.map fun tlb => Function.update tlb i (mark (tlb i)) }

/-- The search of `Translate`: the entry for a virtual page. -/
def lookup (m : Machine) (vpn : BitVec 32) : Except ExceptionType (Slot × TranslationEntry) :=
  match m.tlb, m.pageTable with
  | none, some pageTable =>
    if vpn ≥ m.pageTableSize then .error .addressErrorException
    else if !(pageTable vpn.toNat).valid then .error .pageFaultException
    else .ok (.page vpn.toNat, pageTable vpn.toNat)
  | some tlb, _ =>
    match (List.finRange tlbSize).find? fun i => (tlb i).valid && (tlb i).virtualPage == vpn with
    | some i => .ok (.tlb i, tlb i) -- found
    | none => .error .pageFaultException
  | none, none => .error .pageFaultException -- not reached

/-- `Machine::Translate`: the exception, and the physical address when it is `NoException`. -/
def translate (m : Machine) (virtAddr : BitVec 32) (size : Nat) (writing : Bool) :
    Except Fault (ExceptionType × Nat × Machine) :=
  -- check for alignment errors
  if size = 4 ∧ virtAddr &&& 3 ≠ 0 ∨ size = 2 ∧ virtAddr &&& 1 ≠ 0 then .ok (.addressErrorException, 0, m)
  else do
    -- we must have either a TLB or a page table, but not both
    assert (m.tlb.isNone ∨ m.pageTable.isNone)
    assert (m.tlb.isSome ∨ m.pageTable.isSome)
    match m.lookup (virtAddr / 128) with
    | .error exception => return (exception, 0, m)
    | .ok (slot, entry) =>
      if entry.readOnly && writing then return (.readOnlyException, 0, m)
      -- if the pageFrame is too big, there is something really wrong
      else if entry.physicalPage ≥ 128 then return (.busErrorException, 0, m)
      else
        let physAddr := entry.physicalPage.toNat * pageSize + (virtAddr % 128).toNat
        assert (physAddr + size ≤ memorySize)
        return (.noException, physAddr, m.touch slot writing)

/-- The unsigned 16-bit number at `off`. -/
def shortAt (b : Buf) (off : Nat) : BitVec 32 := ((b (off + 1)).toBitVec ++ (b off).toBitVec).setWidth 32

/-- The 32-bit word at `off`. -/
def wordAt (b : Buf) (off : Nat) : BitVec 32 :=
  (b (off + 3)).toBitVec ++ (b (off + 2)).toBitVec ++ (b (off + 1)).toBitVec ++ (b off).toBitVec

/-- The `size` low bytes of `value`, stored at `off` in little-endian order. -/
def store (b : Buf) (off size : Nat) (value : BitVec 32) : Buf :=
  fun j => if off ≤ j ∧ j < off + size then UInt8.ofBitVec (value.extractLsb' (8 * (j - off)) 8) else b j

/-- `Machine::ReadMem`; memory is an array of `char`, so a single byte is sign-extended. -/
def readMem (m : Machine) (addr : BitVec 32) (size : Nat) : Except Trap (BitVec 32 × Machine) := do
  let (exception, physicalAddress, m) ← liftFault (m.translate addr size false)
  if exception ≠ .noException then m.raiseException exception addr
  else
    match size with
    | 1 => return ((m.mainMemory physicalAddress).toBitVec.signExtend 32, m)
    | 2 => return (shortAt m.mainMemory physicalAddress, m)
    | 4 => return (wordAt m.mainMemory physicalAddress, m)
    | _ => .error (.fault .assertFailed)

/-- `Machine::WriteMem`. -/
def writeMem (m : Machine) (addr : BitVec 32) (size : Nat) (value : BitVec 32) : Except Trap Machine := do
  let (exception, physicalAddress, m) ← liftFault (m.translate addr size true)
  if exception ≠ .noException then m.raiseException exception addr
  else
    match size with
    | 1 | 2 | 4 => return { m with mainMemory := store m.mainMemory physicalAddress size value }
    | _ => .error (.fault .assertFailed)

end Machine

end Nachos
