import Nachos.Userprog.UserMemorySpec

/-!
# Address spaces (userprog/addrspace.cc)

The page table that the constructor sets up maps every page to the frame of the same number, so that a user program finds all of main
memory where it is.
-/

namespace Nachos

open Bytes

namespace AddrSpace

/-- `pageTable[i]`, as the constructor `AddrSpace::AddrSpace` sets it up. -/
def entry (i : Nat) : TranslationEntry where
  virtualPage := .ofNat 32 i -- for now, virt page # = phys page #
  physicalPage := .ofNat 32 i
  valid := true
  readOnly := false
  use := false
  dirty := false

end AddrSpace

namespace Machine

/-- The machine of a user program that has all of the memory. -/
def ofProgram (registers : Reg → BitVec 32) (mainMemory : Buf) : Machine where
  registers
  mainMemory
  tlb := none
  pageTable := some AddrSpace.entry
  pageTableSize := BitVec.ofNat 32 numPhysPages

/-- The registers of a system call. -/
def callRegisters (type arg1 arg2 arg3 : BitVec 32) : Reg → BitVec 32 :=
  fun r => if r = 2 then type else if r = 4 then arg1 else if r = 5 then arg2 else if r = 6 then arg3 else 0

/-! ## The identity page table -/

/-- The page table is the one of the constructor but for the bits that accesses set, and the program has no more pages than it, as `Load`
asserts. -/
structure Identity (m : Machine) : Prop where
  tlb : m.tlb = none
  pageTable : ∃ pageTable, m.pageTable = some pageTable ∧ ∀ i < numPhysPages, (pageTable i).mapping = AddrSpace.entry i
  pageTableSize : m.pageTableSize.toNat ≤ numPhysPages

/-- The address is in a page of the program. -/
def Mapped (m : Machine) (virtAddr : BitVec 32) : Prop := virtAddr.toNat / pageSize < m.pageTableSize.toNat

instance (m : Machine) (virtAddr : BitVec 32) : Decidable (m.Mapped virtAddr) := inferInstanceAs (Decidable (_ < _))

theorem identity_ofProgram (registers : Reg → BitVec 32) (mainMemory : Buf) : (ofProgram registers mainMemory).Identity where
  tlb := rfl
  pageTable := ⟨AddrSpace.entry, rfl, fun _ _ => rfl⟩
  pageTableSize := by
    have hpages : (BitVec.ofNat 32 numPhysPages).toNat = 128 := by decide
    exact hpages.le

/-- All of main memory belongs to the program. -/
theorem mapped_ofProgram {registers : Reg → BitVec 32} {mainMemory : Buf} {virtAddr : BitVec 32} :
    (ofProgram registers mainMemory).Mapped virtAddr ↔ virtAddr.toNat < memorySize := by
  have hpages : (BitVec.ofNat 32 numPhysPages).toNat = 128 := by decide
  unfold Mapped ofProgram
  rw [hpages]
  simp only [pageSize, memorySize, numPhysPages]
  omega

theorem toNat_vpn (virtAddr : BitVec 32) : (virtAddr / 128).toNat = virtAddr.toNat / pageSize := BitVec.toNat_udiv

namespace Identity

variable {m : Machine} {virtAddr : BitVec 32}

theorem oneScheme (h : m.Identity) : m.OneScheme := by
  obtain ⟨pageTable, hpage, -⟩ := h.pageTable
  unfold OneScheme
  simp [h.tlb, hpage]

/-- An address in a page of the program has the entry of its page. -/
theorem hasEntry (h : m.Identity) (ha : m.Mapped virtAddr) :
    ∃ entry, m.HasEntry (virtAddr / 128) (.page (virtAddr / 128).toNat) entry ∧
      entry.mapping = AddrSpace.entry (virtAddr.toNat / pageSize) := by
  obtain ⟨pageTable, hpage, hentries⟩ := h.pageTable
  have hentry := hentries (virtAddr.toNat / pageSize) (Nat.lt_of_lt_of_le ha h.pageTableSize)
  rw [← toNat_vpn] at hentry ⊢
  refine ⟨pageTable (virtAddr / 128).toNat, ?_, hentry⟩
  have hrange : (virtAddr / 128).toNat < m.pageTableSize.toNat := by
    rw [toNat_vpn]
    exact ha
  unfold HasEntry
  rw [h.tlb]
  exact ⟨pageTable, hpage, rfl, rfl, hrange, congrArg TranslationEntry.valid hentry⟩

/-- An address in a page of the program is the physical address. -/
theorem physical_of (h : m.Identity) (ha : m.Mapped virtAddr) (writing : Bool) :
    m.physical virtAddr writing = some virtAddr.toNat := by
  obtain ⟨entry, he, hmapping⟩ := h.hasEntry ha
  have hlt : virtAddr.toNat / pageSize < numPhysPages := Nat.lt_of_lt_of_le ha h.pageTableSize
  have hread : entry.readOnly = false := congrArg TranslationEntry.readOnly hmapping
  have hframe : entry.physicalPage.toNat = virtAddr.toNat / pageSize := by
    have hp : entry.physicalPage = BitVec.ofNat 32 (virtAddr.toNat / pageSize) := congrArg TranslationEntry.physicalPage hmapping
    have hwide : numPhysPages < 2 ^ 32 := by decide
    rw [hp, BitVec.toNat_ofNat, Nat.mod_eq_of_lt (hlt.trans hwide)]
  have hbus : ¬entry.physicalPage ≥ 128 := by
    rw [ge_iff_le, BitVec.le_def, hframe]
    exact Nat.not_le_of_lt hlt
  obtain ⟨-, ht⟩ := translate_of_entry h.oneScheme (.inl rfl) (Nat.mod_one _) he ⟨by simp [hread], frame_lt.1 hbus⟩
  have hoffset : (virtAddr % 128).toNat = virtAddr.toNat % pageSize := BitVec.toNat_umod
  rw [hframe, hoffset, Nat.div_add_mod'] at ht
  exact physical_eq_some.2 ⟨_, ht⟩

/-- Behind the pages of the program there is nothing. -/
theorem mapped_of_physical (h : m.Identity) {writing : Bool} {p : Nat} (hp : m.physical virtAddr writing = some p) :
    m.Mapped virtAddr := by
  obtain ⟨m', ht⟩ := physical_eq_some.1 hp
  obtain ⟨-, -, -, slot, entry, hl, -⟩ := translate_noException.1 ht
  have he := lookup_eq_ok.1 hl
  unfold HasEntry at he
  rw [h.tlb] at he
  obtain ⟨-, -, -, -, hrange, -⟩ := he
  rwa [toNat_vpn] at hrange

/-- A byte is at its address. -/
theorem eq_of_physical (h : m.Identity) {writing : Bool} {p : Nat} (hp : m.physical virtAddr writing = some p) : p = virtAddr.toNat := by
  rw [h.physical_of (h.mapped_of_physical hp)] at hp
  exact (Option.some.inj hp).symm

end Identity

/-- Addresses stay what they are. -/
theorem ofProgram_physical (registers : Reg → BitVec 32) (mainMemory : Buf) {a : Nat} (ha : a < memorySize) (writing : Bool) :
    (ofProgram registers mainMemory).physical (BitVec.ofNat 32 a) writing = some a := by
  have hmem : memorySize < 2 ^ 32 := by decide
  have haddr : (BitVec.ofNat 32 a).toNat = a := by rw [BitVec.toNat_ofNat, Nat.mod_eq_of_lt (ha.trans hmem)]
  have hmapped : (ofProgram registers mainMemory).Mapped (BitVec.ofNat 32 a) := mapped_ofProgram.2 (haddr.symm ▸ ha)
  rw [(identity_ofProgram registers mainMemory).physical_of hmapped, haddr]

theorem ofProgram_userBytes (registers : Reg → BitVec 32) (mainMemory : Buf) {a i : Nat} (h : a + i < memorySize) :
    (ofProgram registers mainMemory).userBytes (BitVec.ofNat 32 a) i = mainMemory (a + i) := by
  unfold userBytes
  rw [← BitVec.ofNat_add, ofProgram_physical registers mainMemory h]
  rfl

end Machine

end Nachos
