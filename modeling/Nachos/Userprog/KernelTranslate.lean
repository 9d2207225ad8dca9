import Nachos.Machine.TranslateSpec
import Nachos.Userprog.AddrSpace

/-!
# Translation by the kernel (AddrSpace::Translate of userprog/addrspace.cc)

The kernel has a copy of the walk through the page table. It does not look at the valid bits, and it compares the frame as a signed
number, so that it agrees with the hardware exactly where neither makes a difference.
-/

namespace Nachos

open Loop

/-- `AddrSpace::Translate`, on the page table and the number of pages of the address space: the exception, the physical address when it
is `NoException`, and the page table. -/
def AddrSpace.translate (pageTable : Nat → TranslationEntry) (numPages vaddr isReadWrite : BitVec 32) :
    Except Fault (ExceptionType × BitVec 32 × (Nat → TranslationEntry)) :=
  let vpn := vaddr / 128
  let offset := vaddr % 128
  if vpn ≥ numPages then .ok (.addressErrorException, 0, pageTable)
  else
    let pte := pageTable vpn.toNat
    if isReadWrite ≠ 0 ∧ pte.readOnly then .ok (.readOnlyException, 0, pageTable)
    else
      let pfn := pte.physicalPage
      -- if the pageFrame is too big, there is something really wrong; `pfn` is an `int`
      if pfn.toInt ≥ numPhysPages then .ok (.busErrorException, 0, pageTable)
      else do
        let pte := { pte with use := true }
        let pte := if isReadWrite ≠ 0 then { pte with dirty := true } else pte
        let paddr := pfn * 128 + offset
        assert (paddr.toNat < memorySize)
        return (.noException, paddr, Function.update pageTable vpn.toNat pte)

/-- The kernel and the hardware give the same exception, the same address if there is none, and the same page table. -/
def Agrees (kernel : Except Fault (ExceptionType × BitVec 32 × (Nat → TranslationEntry)))
    (hardware : Except Fault (ExceptionType × Nat × Machine)) : Prop :=
  ∃ exception paddr pageTable physAddr m', kernel = .ok (exception, paddr, pageTable) ∧ hardware = .ok (exception, physAddr, m') ∧
    (exception = .noException → paddr.toNat = physAddr) ∧ m'.pageTable = some pageTable

/-- The same exception. -/
theorem agrees_of_exception {e : ExceptionType} (he : e ≠ .noException) {paddr : BitVec 32} {pageTable : Nat → TranslationEntry}
    {physAddr : Nat} {m' : Machine} (hpage : m'.pageTable = some pageTable) :
    Agrees (.ok (e, paddr, pageTable)) (.ok (e, physAddr, m')) :=
  ⟨_, _, _, _, _, rfl, rfl, fun h => absurd h he, hpage⟩

/-- Different exceptions. -/
theorem not_agrees {e e' : ExceptionType} (h : e ≠ e') {paddr : BitVec 32} {pageTable : Nat → TranslationEntry} {physAddr : Nat}
    {m' : Machine} : ¬Agrees (.ok (e, paddr, pageTable)) (.ok (e', physAddr, m')) := by
  rintro ⟨_, _, _, _, _, ⟨⟩, ⟨⟩, -⟩
  exact h rfl

/-- The kernel stops or returns without an exception, where the hardware raises one. -/
theorem not_agrees_assert {e' : ExceptionType} (h : .noException ≠ e') {c : Prop} [Decidable c] {paddr : BitVec 32}
    {pageTable : Nat → TranslationEntry} {physAddr : Nat} {m' : Machine} :
    ¬Agrees (assert c >>= fun _ => .ok (.noException, paddr, pageTable)) (.ok (e', physAddr, m')) := by
  by_cases hc : c
  · rw [assert_of hc]
    exact not_agrees h
  · rw [assert_not hc]
    rintro ⟨_, _, _, _, _, ⟨⟩, -⟩

/-- The address that the kernel computes for a frame that exists. -/
theorem frame_address {pfn : BitVec 32} (h : ¬pfn ≥ 128) (vaddr : BitVec 32) :
    (pfn * 128 + vaddr % 128).toNat = pfn.toNat * pageSize + (vaddr % 128).toNat ∧ (pfn * 128 + vaddr % 128).toNat < memorySize := by
  have hlt : pfn.toNat < 128 := by simpa [BitVec.le_def] using h
  have hoffset : (vaddr % 128).toNat < 128 := by
    rw [BitVec.toNat_umod]
    exact Nat.mod_lt _ (by decide)
  have haddr : (pfn * 128 + vaddr % 128).toNat = pfn.toNat * pageSize + (vaddr % 128).toNat := by
    rw [BitVec.toNat_add, BitVec.toNat_mul]
    simp only [pageSize]
    simp
    omega
  refine ⟨haddr, ?_⟩
  simp only [haddr, pageSize, memorySize, numPhysPages]
  omega

/-- The two comparisons of a frame agree if it is not negative. -/
theorem frame_ge_iff {pfn : BitVec 32} (h : 0 ≤ pfn.toInt) : pfn.toInt ≥ numPhysPages ↔ pfn ≥ 128 := by
  rw [← not_iff_not, Machine.frame_lt]
  omega

/-- A negative frame is one that the hardware refuses and the kernel does not. -/
theorem frame_negative {pfn : BitVec 32} (h : ¬0 ≤ pfn.toInt) : pfn ≥ 128 ∧ ¬pfn.toInt ≥ numPhysPages := by
  constructor
  · by_contra hlt
    exact h (Machine.frame_lt.1 hlt).1
  · simp only [numPhysPages]
    omega

namespace Machine

section
variable {m : Machine} {pageTable : Nat → TranslationEntry} (htlb : m.tlb = none) (hpage : m.pageTable = some pageTable)
include htlb hpage

/-- The walk of the hardware through a page table, for one byte. -/
theorem translate_pageTable (vaddr : BitVec 32) (writing : Bool) :
    m.translate vaddr 1 writing =
      if vaddr / 128 ≥ m.pageTableSize then .ok (.addressErrorException, 0, m)
      else if !(pageTable (vaddr / 128).toNat).valid then .ok (.pageFaultException, 0, m)
      else if (pageTable (vaddr / 128).toNat).readOnly && writing then .ok (.readOnlyException, 0, m)
      else if (pageTable (vaddr / 128).toNat).physicalPage ≥ 128 then .ok (.busErrorException, 0, m)
      else .ok (.noException, (pageTable (vaddr / 128).toNat).physicalPage.toNat * pageSize + (vaddr % 128).toNat,
        m.touch (.page (vaddr / 128).toNat) writing) := by
  have hoffset : (vaddr % 128).toNat + 1 ≤ pageSize := offset_add_le (.inl rfl) (Nat.mod_one _)
  unfold translate lookup
  rw [htlb, hpage, if_neg (by simp), assert_of (by simp), assert_of (by simp), ok_bind, ok_bind]
  dsimp only
  by_cases hrange : vaddr / 128 ≥ m.pageTableSize
  · rw [if_pos hrange, if_pos hrange]
    rfl
  rw [if_neg hrange, if_neg hrange]
  by_cases hvalid : (!(pageTable (vaddr / 128).toNat).valid) = true
  · rw [if_pos hvalid, if_pos hvalid]
    rfl
  rw [if_neg hvalid, if_neg hvalid]
  dsimp only
  by_cases hread : ((pageTable (vaddr / 128).toNat).readOnly && writing) = true
  · rw [if_pos hread, if_pos hread]
    rfl
  rw [if_neg hread, if_neg hread]
  by_cases hframe : (pageTable (vaddr / 128).toNat).physicalPage ≥ 128
  · rw [if_pos hframe, if_pos hframe]
    rfl
  have hlt : (pageTable (vaddr / 128).toNat).physicalPage.toNat < 128 := by simpa [BitVec.le_def] using hframe
  rw [if_neg hframe, if_neg hframe, assert_of (by simp only [pageSize, memorySize, numPhysPages] at *; omega)]
  rfl

/-- The kernel and the hardware agree exactly if the page is out of range, or is valid and is refused for a write or has a frame that is
not negative. -/
theorem translations_agree_iff (vaddr isReadWrite : BitVec 32) :
    Agrees (AddrSpace.translate pageTable m.pageTableSize vaddr isReadWrite) (m.translate vaddr 1 (isReadWrite ≠ 0)) ↔
      (vaddr / 128 < m.pageTableSize → (pageTable (vaddr / 128).toNat).valid = true ∧
        ((pageTable (vaddr / 128).toNat).readOnly = true ∧ isReadWrite ≠ 0 ∨
          0 ≤ (pageTable (vaddr / 128).toNat).physicalPage.toInt)) := by
  rw [translate_pageTable htlb hpage]
  unfold AddrSpace.translate
  dsimp only
  by_cases hrange : vaddr / 128 ≥ m.pageTableSize
  · rw [if_pos hrange, if_pos hrange]
    exact iff_of_true (agrees_of_exception (by decide) hpage) fun h => absurd h (BitVec.not_lt.2 hrange)
  rw [if_neg hrange, if_neg hrange]
  simp only [BitVec.not_le.1 hrange, true_implies]
  generalize hpte : pageTable (vaddr / 128).toNat = pte
  cases hvalid : pte.valid with
  | false =>
    -- the hardware raises a page fault, which the kernel does not know
    simp only [Bool.not_false, ↓reduceIte]
    refine iff_of_false ?_ (by simp)
    split
    · exact not_agrees (by decide)
    · split
      · exact not_agrees (by decide)
      · exact not_agrees_assert (by decide)
  | true =>
    simp only [Bool.not_true, Bool.false_eq_true, ↓reduceIte]
    have hwrite : (pte.readOnly && decide (isReadWrite ≠ 0)) = true ↔ isReadWrite ≠ 0 ∧ pte.readOnly = true := by simp [and_comm]
    by_cases hread : isReadWrite ≠ 0 ∧ pte.readOnly = true
    · rw [if_pos hread, if_pos (hwrite.2 hread)]
      exact iff_of_true (agrees_of_exception (by decide) hpage) ⟨trivial, .inl hread.symm⟩
    rw [if_neg hread, if_neg (mt hwrite.1 hread)]
    by_cases hneg : 0 ≤ pte.physicalPage.toInt
    · by_cases hbig : pte.physicalPage ≥ 128
      · rw [if_pos ((frame_ge_iff hneg).2 hbig), if_pos hbig]
        exact iff_of_true (agrees_of_exception (by decide) hpage) ⟨trivial, .inr hneg⟩
      · obtain ⟨haddr, hfits⟩ := frame_address hbig vaddr
        rw [if_neg (mt (frame_ge_iff hneg).1 hbig), if_neg hbig, assert_of hfits]
        refine iff_of_true ⟨_, _, _, _, _, rfl, rfl, fun _ => haddr, ?_⟩ ⟨trivial, .inr hneg⟩
        simp only [touch, hpage, Option.map_some, hpte]
        congr 2
        by_cases hw : isReadWrite = 0#32 <;> simp [hw, hvalid]
    · obtain ⟨hbig, hsmall⟩ := frame_negative hneg
      rw [if_neg hsmall, if_pos hbig]
      refine iff_of_false (not_agrees_assert (by decide)) ?_
      rintro ⟨-, h | h⟩
      · exact hread h.symm
      · exact hneg h

end

/-- The page table of a program whose first page is not in memory. -/
def firstInvalidTable (vpn : Nat) : TranslationEntry := { AddrSpace.entry vpn with valid := vpn ≠ 0 }

/-- A machine with this page table. -/
def firstInvalid : Machine where
  registers _ := 0
  mainMemory _ := 0
  tlb := none
  pageTable := some firstInvalidTable
  pageTableSize := 128

theorem translations_agree_iff_firstInvalid :
    Agrees (AddrSpace.translate firstInvalidTable 128 0x85 1) (firstInvalid.translate 0x85 1 true) ∧
      ¬Agrees (AddrSpace.translate firstInvalidTable 128 5 1) (firstInvalid.translate 5 1 true) := by
  have hagree := translations_agree_iff (m := firstInvalid) rfl (rfl : firstInvalid.pageTable = some firstInvalidTable)
  refine ⟨(hagree 0x85 1).2 fun _ => ⟨rfl, .inr (by decide)⟩, ?_⟩
  intro h
  exact absurd ((hagree 5 1).1 h (by decide)).1 (by decide)

/-- The kernel translates an address in a page that is not in memory. -/
theorem not_translations_agree : ¬∀ (m : Machine) (pageTable : Nat → TranslationEntry) (vaddr isReadWrite : BitVec 32), m.tlb = none →
    m.pageTable = some pageTable →
    Agrees (AddrSpace.translate pageTable m.pageTableSize vaddr isReadWrite) (m.translate vaddr 1 (isReadWrite ≠ 0)) := by
  intro h
  exact not_agrees (by decide) (h firstInvalid _ 5 0 rfl rfl)

end Machine

end Nachos
