import Nachos.Prelude.Words
import Nachos.Machine.TranslateSpec

/-!
# Reading and writing user memory (ReadMem and WriteMem of machine/translate.cc)

An aligned access to several bytes goes where accesses to its single bytes go. Hence what a write of any width leaves can be said byte
by byte, and reads of all widths agree with it.
-/

namespace Nachos

open Bytes Loop

namespace Machine

/-! ## The bytes of an access -/

theorem aligned_add {a : BitVec 32} {size i : Nat} (hs : IsSize size) (ha : a.toNat % size = 0) (hi : i < size) :
    (a + BitVec.ofNat 32 i) / 128 = a / 128 ∧ ((a + BitVec.ofNat 32 i) % 128).toNat = (a % 128).toNat + i := by
  have h := a.isLt
  have hadd : (a + BitVec.ofNat 32 i).toNat = a.toNat + i := by
    rw [BitVec.toNat_add, BitVec.toNat_ofNat]
    rcases hs with rfl | rfl | rfl <;> omega
  refine ⟨BitVec.eq_of_toNat_eq ?_, ?_⟩
  · rw [BitVec.toNat_udiv, BitVec.toNat_udiv, hadd]
    simp
    rcases hs with rfl | rfl | rfl <;> omega
  · rw [BitVec.toNat_umod, BitVec.toNat_umod, hadd]
    simp
    rcases hs with rfl | rfl | rfl <;> omega

/-- An aligned access is let through together with each of its bytes. -/
theorem translate_byte {m m' : Machine} {a : BitVec 32} {size i p : Nat} {writing : Bool} (hs : IsSize size)
    (ha : a.toNat % size = 0) (hi : i < size) :
    m.translate a size writing = .ok (.noException, p, m') ↔
      m.translate (a + BitVec.ofNat 32 i) 1 writing = .ok (.noException, p + i, m') := by
  obtain ⟨hpage, hoffset⟩ := aligned_add hs ha hi
  have hend := offset_add_le hs ha
  rw [translate_noException, translate_noException, hpage, hoffset, misaligned_iff hs, misaligned_iff (.inl rfl)]
  simp only [ha, Nat.mod_one, ne_eq, not_true_eq_false, not_false_eq_true, true_and]
  refine and_congr_right fun _ => and_congr_right fun _ => exists_congr fun slot => exists_congr fun entry => ?_
  refine and_congr_right fun _ => and_congr_right fun _ => and_congr_right fun hframe => ?_
  have hlt : entry.physicalPage.toNat < 128 := by simpa [BitVec.le_def] using hframe
  simp only [pageSize, memorySize, numPhysPages] at *
  constructor
  · rintro ⟨rfl, -, hm⟩
    exact ⟨by omega, by omega, hm⟩
  · rintro ⟨hp, -, hm⟩
    obtain rfl : p = entry.physicalPage.toNat * 128 + (a % 128).toNat := by omega
    exact ⟨rfl, by omega, hm⟩

/-- The bytes of an aligned access stand side by side. -/
theorem physical_add {m : Machine} {a : BitVec 32} {size i p : Nat} {writing : Bool} (hs : IsSize size) (ha : a.toNat % size = 0)
    (hi : i < size) : m.physical (a + BitVec.ofNat 32 i) writing = some (p + i) ↔ m.physical a writing = some p := by
  have h0 : 0 < size := Nat.pos_of_ne_zero (by rintro rfl; omega)
  rw [physical_eq_some, physical_eq_some]
  refine exists_congr fun m' => ?_
  rw [← translate_byte hs ha hi, translate_byte hs ha h0]
  simp

/-- An aligned access is let through if its first byte is. -/
theorem translate_of_physical {m : Machine} {a : BitVec 32} {size p : Nat} {writing : Bool} (hs : IsSize size)
    (ha : a.toNat % size = 0) (h : m.physical a writing = some p) :
    ∃ m', m.translate a size writing = .ok (.noException, p, m') := by
  have h0 : 0 < size := Nat.pos_of_ne_zero (by rintro rfl; omega)
  obtain ⟨m', ht⟩ := physical_eq_some.1 h
  exact ⟨m', (translate_byte hs ha h0).2 (by simpa using ht)⟩

theorem physical_of_translate {m m' : Machine} {a : BitVec 32} {size p : Nat} {writing : Bool} (hs : IsSize size)
    (h : m.translate a size writing = .ok (.noException, p, m')) : a.toNat % size = 0 ∧ m.physical a writing = some p := by
  have ha : a.toNat % size = 0 := not_not.1 (mt (misaligned_iff hs).2 (translate_noException.1 h).1)
  have h0 : 0 < size := Nat.pos_of_ne_zero (by rintro rfl; omega)
  exact ⟨ha, physical_eq_some.2 ⟨m', by simpa using (translate_byte hs ha h0).1 h⟩⟩

/-! ## Refused or carried out -/

/-- What `ReadMem` and `WriteMem` have in common: the access is translated, and refused or carried out. -/
def access {α : Type} (m : Machine) (a : BitVec 32) (size : Nat) (writing : Bool) (carryOut : Nat → Machine → Except Trap α) :
    Except Trap α := do
  let (exception, physicalAddress, m) ← liftFault (m.translate a size writing)
  if exception ≠ .noException then m.raiseException exception a else carryOut physicalAddress m

/-- The ways in which an access ends. -/
theorem access_cases {α : Type} {m : Machine} {a : BitVec 32} {size : Nat} {writing : Bool} {carryOut : Nat → Machine → Except Trap α}
    {x : Except Trap α} (h : m.access a size writing carryOut = x) :
    (∃ f, m.translate a size writing = .error f ∧ x = .error (.fault f)) ∨
      (∃ exception m₁, Touched m m₁ ∧ x = m₁.raiseException exception a) ∨
        ∃ p m₁, m.translate a size writing = .ok (.noException, p, m₁) ∧ Touched m m₁ ∧ x = carryOut p m₁ := by
  subst h
  unfold access
  cases ht : m.translate a size writing with
  | error f => exact .inl ⟨f, rfl, rfl⟩
  | ok r =>
    obtain ⟨exception, p, m₁⟩ := r
    have htouch := translate_touched ht
    rw [liftFault, ok_bind]
    dsimp only
    by_cases he : exception = .noException
    · subst he
      exact .inr (.inr ⟨p, m₁, rfl, htouch, rfl⟩)
    · exact .inr (.inl ⟨exception, m₁, htouch, if_pos he⟩)

/-! ## ReadMem -/

/-- What `ReadMem` finds in memory. -/
def valueAt (b : Buf) (off : Nat) : Nat → BitVec 32
  | 1 => (b off).toBitVec.signExtend 32
  | 2 => shortAt b off
  | _ => wordAt b off

theorem readMem_eq (m : Machine) (a : BitVec 32) (size : Nat) :
    m.readMem a size = m.access a size false fun p m =>
      if IsSize size then .ok (valueAt m.mainMemory p size, m) else .error (.fault .assertFailed) := by
  by_cases hs : IsSize size
  · rcases hs with rfl | rfl | rfl <;> rfl
  · -- the last case of the `match` on the size
    obtain ⟨h1, h2, h4⟩ : size ≠ 1 ∧ size ≠ 2 ∧ size ≠ 4 := by simpa [IsSize] using hs
    unfold readMem access
    simp only [if_neg hs]

/-- A read that is let through. -/
theorem readMem_of {m : Machine} {a : BitVec 32} {size p : Nat} (hs : IsSize size) (ha : a.toNat % size = 0)
    (h : m.physical a false = some p) : ∃ m', m.readMem a size = .ok (valueAt m.mainMemory p size, m') ∧ Touched m m' := by
  obtain ⟨m', ht⟩ := translate_of_physical hs ha h
  have htouch := translate_touched ht
  refine ⟨m', ?_, htouch⟩
  unfold readMem
  rw [ht, ← htouch.mainMemory]
  rcases hs with rfl | rfl | rfl <;> rfl

/-- What a read has done. -/
theorem of_readMem {m m' : Machine} {a value : BitVec 32} {size : Nat} (h : m.readMem a size = .ok (value, m')) :
    IsSize size ∧ a.toNat % size = 0 ∧ Touched m m' ∧
      ∃ p, m.physical a false = some p ∧ value = valueAt m.mainMemory p size := by
  rw [readMem_eq] at h
  obtain ⟨f, -, heq⟩ | ⟨exception, m₁, -, heq⟩ | ⟨p, m₁, ht, htouch, heq⟩ := access_cases h
  · cases heq
  · exact (raiseException_ne_ok heq.symm).elim
  · by_cases hs : IsSize size
    · rw [if_pos hs] at heq
      cases heq
      obtain ⟨ha, hp⟩ := physical_of_translate hs ht
      exact ⟨hs, ha, htouch, p, hp, by rw [htouch.mainMemory]⟩
    · rw [if_neg hs] at heq
      cases heq

/-! ## WriteMem -/

/-- What a write leaves. -/
structure WroteAt (m : Machine) (p size : Nat) (value : BitVec 32) (m' : Machine) : Prop extends SameMapping m m' where
  registers : m'.registers = m.registers
  mainMemory : m'.mainMemory = store m.mainMemory p size value

theorem writeMem_eq (m : Machine) (a : BitVec 32) (size : Nat) (value : BitVec 32) :
    m.writeMem a size value = m.access a size true fun p m =>
      if IsSize size then .ok { m with mainMemory := store m.mainMemory p size value } else .error (.fault .assertFailed) := by
  by_cases hs : IsSize size
  · rcases hs with rfl | rfl | rfl <;> rfl
  · -- the last case of the `match` on the size
    obtain ⟨h1, h2, h4⟩ : size ≠ 1 ∧ size ≠ 2 ∧ size ≠ 4 := by simpa [IsSize] using hs
    unfold writeMem access
    simp only [if_neg hs]

/-- A write that is let through. -/
theorem writeMem_of {m : Machine} {a : BitVec 32} {size p : Nat} (hs : IsSize size) (ha : a.toNat % size = 0)
    (h : m.physical a true = some p) (value : BitVec 32) :
    ∃ m', m.writeMem a size value = .ok m' ∧ WroteAt m p size value m' := by
  obtain ⟨m', ht⟩ := translate_of_physical hs ha h
  have htouch := translate_touched ht
  refine ⟨{ m' with mainMemory := store m'.mainMemory p size value }, ?_,
    ⟨⟨htouch.pageTableSize, htouch.pageTable, htouch.tlb⟩, htouch.registers, by rw [← htouch.mainMemory]⟩⟩
  unfold writeMem
  rw [ht]
  rcases hs with rfl | rfl | rfl <;> rfl

/-- What a write has done. -/
theorem of_writeMem {m m' : Machine} {a value : BitVec 32} {size : Nat} (h : m.writeMem a size value = .ok m') :
    IsSize size ∧ a.toNat % size = 0 ∧ ∃ p, m.physical a true = some p ∧ WroteAt m p size value m' := by
  rw [writeMem_eq] at h
  obtain ⟨f, -, heq⟩ | ⟨exception, m₁, -, heq⟩ | ⟨p, m₁, ht, htouch, heq⟩ := access_cases h
  · cases heq
  · exact (raiseException_ne_ok heq.symm).elim
  · by_cases hs : IsSize size
    · rw [if_pos hs] at heq
      cases heq
      obtain ⟨ha, hp⟩ := physical_of_translate hs ht
      exact ⟨hs, ha, p, hp, ⟨⟨htouch.pageTableSize, htouch.pageTable, htouch.tlb⟩, htouch.registers, by rw [← htouch.mainMemory]⟩⟩
    · rw [if_neg hs] at heq
      cases heq

/-! ## Bytes of memory -/

theorem store_there (b : Buf) (off : Nat) {size i : Nat} (value : BitVec 32) (hi : i < size) :
    store b off size value (off + i) = UInt8.ofBitVec (value.extractLsb' (8 * i) 8) := by
  unfold store
  rw [if_pos (by omega), Nat.add_sub_cancel_left]

theorem store_elsewhere (b : Buf) {off size j : Nat} (value : BitVec 32) (h : ∀ i < size, j ≠ off + i) :
    store b off size value j = b j := by
  unfold store
  rw [if_neg]
  rintro ⟨h1, h2⟩
  exact h (j - off) (by omega) (by omega)

/-- Bit `i` of a word is a bit of its byte `i / 8`. -/
theorem getLsbD_wordAt (b : Buf) (off : Nat) {i : Nat} (hi : i < 32) :
    (wordAt b off).getLsbD i = (b (off + i / 8)).toBitVec.getLsbD (i % 8) := by
  unfold wordAt
  simp only [BitVec.getLsbD_append]
  rcases (by omega : i < 8 ∨ 8 ≤ i ∧ i < 16 ∨ 16 ≤ i ∧ i < 24 ∨ 24 ≤ i) with h | h | h | h
  · rw [show i / 8 = 0 by omega, show i % 8 = i by omega]
    simp [h]
  · rw [show i / 8 = 1 by omega, show i % 8 = i - 8 by omega]
    simp [show ¬i < 8 by omega, show i - 8 < 8 by omega]
  · rw [show i / 8 = 2 by omega, show i % 8 = i - 8 - 8 by omega]
    simp [show ¬i < 8 by omega, show ¬i - 8 < 8 by omega, show i - 8 - 8 < 8 by omega]
  · rw [show i / 8 = 3 by omega, show i % 8 = i - 8 - 8 - 8 by omega]
    simp [show ¬i < 8 by omega, show ¬i - 8 < 8 by omega, show ¬i - 8 - 8 < 8 by omega]

theorem getLsbD_shortAt (b : Buf) (off : Nat) {i : Nat} (hi : i < 16) :
    (shortAt b off).getLsbD i = (b (off + i / 8)).toBitVec.getLsbD (i % 8) := by
  unfold shortAt
  simp only [BitVec.getLsbD_setWidth, BitVec.getLsbD_append]
  rcases (by omega : i < 8 ∨ 8 ≤ i) with h | h
  · rw [show i / 8 = 0 by omega, show i % 8 = i by omega]
    simp [h, show i < 32 by omega]
  · rw [show i / 8 = 1 by omega, show i % 8 = i - 8 by omega]
    simp [show ¬i < 8 by omega, show i < 32 by omega]

/-- Bit `i` of what a read finds, for the bits that it reads. -/
theorem getLsbD_valueAt (b : Buf) (off : Nat) {size i : Nat} (hs : IsSize size) (hi : i < 8 * size) :
    (valueAt b off size).getLsbD i = (b (off + i / 8)).toBitVec.getLsbD (i % 8) := by
  rcases hs with rfl | rfl | rfl
  · rw [show i / 8 = 0 by omega, show i % 8 = i by omega]
    simp [valueAt, BitVec.getElem_signExtend, show i < 8 by omega, show i < 32 by omega]
  · exact getLsbD_shortAt b off (by omega)
  · exact getLsbD_wordAt b off (by omega)

/-- A read of what has been written, by the bits that it reads. -/
theorem valueAt_store (b : Buf) (off : Nat) {size : Nat} (value : BitVec 32) (hs : IsSize size) :
    (valueAt (store b off size value) off size).setWidth (8 * size) = value.setWidth (8 * size) := by
  refine BitVec.eq_of_getLsbD_eq fun i hi => ?_
  simp only [BitVec.getLsbD_setWidth, hi, decide_true, Bool.true_and]
  rw [getLsbD_valueAt _ _ hs hi, store_there _ _ _ (show i / 8 < size by omega)]
  simp [show i % 8 < 8 by omega, Nat.div_add_mod]

/-! ## The load instructions -/

/-- The size that a load instruction reads, and whether it extends the sign. -/
def loadWidth : OpCode → Option (Nat × Bool)
  | .lb => some (1, true)
  | .lbu => some (1, false)
  | .lh => some (2, true)
  | .lhu => some (2, false)
  | .lw => some (4, false)
  | _ => none

/-- The bits read, extended to a word. -/
def extended (size : Nat) (signed : Bool) (value : BitVec 32) : BitVec 32 :=
  if signed then (value.setWidth (8 * size)).signExtend 32 else (value.setWidth (8 * size)).setWidth 32

theorem lb_extends (value : BitVec 32) :
    (if value &&& 0x80 ≠ 0 then value ||| 0xffffff00 else value &&& 0xff) = extended 1 true value := by
  have h : value &&& 0x80 ≠ 0 ↔ value.getLsbD 7 = true := Words.and_twoPow_ne_zero value (i := 7) (by decide)
  simp only [h]
  exact Words.signExtend_by_mask value 7

theorem lh_extends (value : BitVec 32) :
    (if value &&& 0x8000 ≠ 0 then value ||| 0xffff0000 else value &&& 0xffff) = extended 2 true value := by
  have h : value &&& 0x8000 ≠ 0 ↔ value.getLsbD 15 = true := Words.and_twoPow_ne_zero value (i := 15) (by decide)
  simp only [h]
  exact Words.signExtend_by_mask value 15

/-- A load instruction whose bytes are mapped. -/
theorem execute_load {m : Machine} {instr : Instruction} {size : Nat} {signed : Bool} (h : loadWidth instr.opCode = some (size, signed))
    {p : Nat} (ha : (m.gpr instr.rs + instr.extra).toNat % size = 0) (hp : m.physical (m.gpr instr.rs + instr.extra) false = some p) :
    ∃ x, m.execute instr = .ok x ∧ x.nextLoadReg = regNumber instr.rt ∧
      x.nextLoadValue = extended size signed (valueAt m.mainMemory p size) := by
  have halign (hs : IsSize size) := mt (misaligned_iff hs).1 (not_not_intro ha)
  unfold loadWidth at h
  split at h <;> cases h <;> rename_i hop
  · obtain ⟨m', hr, -⟩ := readMem_of (.inl rfl) ha hp
    rw [← lb_extends]
    exact ⟨_, by unfold execute; rw [hop]; dsimp only; rw [hr]; rfl, rfl, rfl⟩
  · obtain ⟨m', hr, -⟩ := readMem_of (.inl rfl) ha hp
    exact ⟨_, by unfold execute; rw [hop]; dsimp only; rw [hr]; rfl, rfl, Words.and_lowMask _ 8⟩
  · obtain ⟨m', hr, -⟩ := readMem_of (.inr (.inl rfl)) ha hp
    rw [← lh_extends]
    exact ⟨_, by unfold execute; rw [hop]; dsimp only; rw [if_neg (by simpa using halign (.inr (.inl rfl))), hr]; rfl, rfl, rfl⟩
  · obtain ⟨m', hr, -⟩ := readMem_of (.inr (.inl rfl)) ha hp
    exact ⟨_, by unfold execute; rw [hop]; dsimp only; rw [if_neg (by simpa using halign (.inr (.inl rfl))), hr]; rfl, rfl,
      Words.and_lowMask _ 16⟩
  · obtain ⟨m', hr, -⟩ := readMem_of (.inr (.inr rfl)) ha hp
    exact ⟨_, by unfold execute; rw [hop]; dsimp only; rw [if_neg (by simpa using halign (.inr (.inr rfl))), hr]; rfl, rfl,
      by simp [extended]⟩

/-! ## Widths -/

/-- Every virtual page has a frame of its own. -/
def DistinctFrames (m : Machine) : Prop :=
  ∀ vpn vpn' slot slot' entry entry', m.HasEntry vpn slot entry → m.HasEntry vpn' slot' entry' →
    entry.physicalPage = entry'.physicalPage → vpn = vpn'

/-- With a frame for every page, every byte of user memory has a place of its own. -/
theorem DistinctFrames.physical_inj {m : Machine} (h : m.DistinctFrames) {a b : BitVec 32} {w w' : Bool} {p : Nat}
    (ha : m.physical a w = some p) (hb : m.physical b w' = some p) : a = b := by
  obtain ⟨m₁, ha⟩ := physical_eq_some.1 ha
  obtain ⟨m₂, hb⟩ := physical_eq_some.1 hb
  obtain ⟨-, -, -, slot, entry, hl, -, hframe, hp, -⟩ := translate_noException.1 ha
  obtain ⟨-, -, -, slot', entry', hl', -, hframe', hp', -⟩ := translate_noException.1 hb
  have hoff : (a % 128).toNat = a.toNat % 128 := BitVec.toNat_umod
  have hoff' : (b % 128).toNat = b.toNat % 128 := BitVec.toNat_umod
  rw [hoff] at hp
  rw [hoff'] at hp'
  simp only [pageSize] at hp hp'
  have hpage : entry.physicalPage = entry'.physicalPage := BitVec.eq_of_toNat_eq (by omega)
  have hvpn := congrArg BitVec.toNat (h _ _ _ _ _ _ (lookup_eq_ok.1 hl) (lookup_eq_ok.1 hl') hpage)
  rw [BitVec.toNat_udiv, BitVec.toNat_udiv] at hvpn
  simp at hvpn
  exact BitVec.eq_of_toNat_eq (by omega)

/-! ### What is refused -/

theorem delayedLoad_mainMemory {m m' : Machine} {nextReg nextValue : BitVec 32} (h : m.delayedLoad nextReg nextValue = .ok m') :
    m'.mainMemory = m.mainMemory := by
  obtain ⟨target, -, h⟩ := of_bind_ok h
  cases h
  rfl

/-- Raising an exception writes no memory. -/
theorem raiseException_mainMemory {α : Type} {m m' : Machine} {which which' : ExceptionType} {badVAddr : BitVec 32}
    (h : (m.raiseException which badVAddr : Except Trap α) = .error (.raise which' m')) : m'.mainMemory = m.mainMemory := by
  unfold raiseException at h
  cases hd : (m.writeRegister Reg.badVAddrReg badVAddr).delayedLoad 0 0 with
  | error f =>
    rw [hd] at h
    cases h
  | ok m₁ =>
    rw [hd] at h
    cases h
    exact delayedLoad_mainMemory (m := m.writeRegister Reg.badVAddrReg badVAddr) hd

/-- An access that raises an exception before it is carried out writes no memory. -/
theorem access_refused {α : Type} {m m' : Machine} {a : BitVec 32} {size : Nat} {writing : Bool} {which : ExceptionType}
    {carryOut : Nat → Machine → Except Trap α} (hcarry : ∀ p m₁, carryOut p m₁ ≠ .error (.raise which m'))
    (h : m.access a size writing carryOut = .error (.raise which m')) : m'.mainMemory = m.mainMemory := by
  obtain ⟨f, -, heq⟩ | ⟨exception, m₁, htouch, heq⟩ | ⟨p, m₁, -, -, heq⟩ := access_cases h
  · cases heq
  · rw [raiseException_mainMemory heq.symm, htouch.mainMemory]
  · exact (hcarry p m₁ heq.symm).elim

theorem readMem_refused {m m' : Machine} {a : BitVec 32} {size : Nat} {which : ExceptionType}
    (h : m.readMem a size = .error (.raise which m')) : m'.mainMemory = m.mainMemory := by
  rw [readMem_eq] at h
  refine access_refused (fun p m₁ => ?_) h
  split <;> simp

theorem writeMem_refused {m m' : Machine} {a value : BitVec 32} {size : Nat} {which : ExceptionType}
    (h : m.writeMem a size value = .error (.raise which m')) : m'.mainMemory = m.mainMemory := by
  rw [writeMem_eq] at h
  refine access_refused (fun p m₁ => ?_) h
  split <;> simp

/-! ### What is written -/

/-- A byte that has been written, read on its own. -/
theorem WroteAt.readMem_byte {m m' : Machine} {a v : BitVec 32} {size p i : Nat} (hs : IsSize size) (ha : a.toNat % size = 0)
    (hp : m.physical a false = some p) (h : WroteAt m p size v m') (hi : i < size) :
    ∃ value m₁, m'.readMem (a + BitVec.ofNat 32 i) 1 = .ok (value, m₁) ∧ value.setWidth 8 = v.extractLsb' (8 * i) 8 := by
  have hpi : m'.physical (a + BitVec.ofNat 32 i) false = some (p + i) := by
    rw [h.physical_eq]
    exact (physical_add hs ha hi).2 hp
  obtain ⟨m₁, hr, -⟩ := readMem_of (.inl rfl) (Nat.mod_one _) hpi
  refine ⟨_, m₁, hr, ?_⟩
  rw [h.mainMemory, valueAt, store_there _ _ _ hi]
  refine BitVec.eq_of_getLsbD_eq fun j hj => ?_
  simp [BitVec.getElem_signExtend, hj, show j < 32 by omega]

/-- A byte that has not been written. -/
theorem WroteAt.readMem_other {m m' : Machine} (hframes : m.DistinctFrames) {a b v value : BitVec 32} {size p : Nat}
    (hs : IsSize size) (ha : a.toNat % size = 0) (hp : m.physical a false = some p) (h : WroteAt m p size v m')
    (hb : ∀ i < size, b ≠ a + BitVec.ofNat 32 i) {m₁ : Machine} (hr : m.readMem b 1 = .ok (value, m₁)) :
    ∃ m₂, m'.readMem b 1 = .ok (value, m₂) := by
  obtain ⟨-, -, -, q, hq, rfl⟩ := of_readMem hr
  obtain ⟨m₂, hr₂, -⟩ := readMem_of (m := m') (.inl rfl) (Nat.mod_one _) (by rw [h.physical_eq]; exact hq)
  refine ⟨m₂, hr₂.trans ?_⟩
  rw [h.mainMemory, valueAt, valueAt, store_elsewhere]
  intro i hi hqi
  subst hqi
  exact hb i hi (hframes.physical_inj hq ((physical_add hs ha hi).2 hp))

/-- What the load instruction of the same width reads back. -/
theorem WroteAt.execute_load {m m' : Machine} {a v : BitVec 32} {size p : Nat} {signed : Bool} (hs : IsSize size)
    (ha : a.toNat % size = 0) (hp : m.physical a false = some p) (h : WroteAt m p size v m') {instr : Instruction}
    (hop : loadWidth instr.opCode = some (size, signed)) (hea : m'.gpr instr.rs + instr.extra = a) :
    ∃ x, m'.execute instr = .ok x ∧ x.nextLoadReg = regNumber instr.rt ∧ x.nextLoadValue = extended size signed v := by
  subst hea
  obtain ⟨x, hx, hreg, hvalue⟩ := Machine.execute_load hop ha (by rw [h.physical_eq]; exact hp)
  refine ⟨x, hx, hreg, hvalue.trans ?_⟩
  unfold extended
  rw [h.mainMemory, valueAt_store _ _ _ hs]

theorem toNat_extended {size : Nat} (hs : IsSize size) (v : BitVec 32) : (extended size false v).toNat = v.toNat % 2 ^ (8 * size) := by
  have h := v.isLt
  rcases hs with rfl | rfl | rfl <;> simp [extended] <;> omega

/-- Accesses of different widths agree: after a write, its bytes can be read one by one, the other bytes are what they were, and the load
instructions of its width give the value back. An access that is refused changes no byte. -/
theorem widths_agree (m : Machine) (hframes : m.DistinctFrames) (addr : BitVec 32) (size : Nat) (hs : IsSize size)
    (ha : addr.toNat % size = 0) (hmapped : (m.physical addr true).isSome) (v : BitVec 32) :
    (∃ m', m.writeMem addr size v = .ok m' ∧
      (∀ i < size, ∃ value m₁, m'.readMem (addr + BitVec.ofNat 32 i) 1 = .ok (value, m₁) ∧
        value.setWidth 8 = v.extractLsb' (8 * i) 8) ∧
      (∀ b, (∀ i < size, b ≠ addr + BitVec.ofNat 32 i) → ∀ value m₁, m.readMem b 1 = .ok (value, m₁) →
        ∃ m₂, m'.readMem b 1 = .ok (value, m₂)) ∧
      ∀ instr signed, loadWidth instr.opCode = some (size, signed) → m'.gpr instr.rs + instr.extra = addr →
        ∃ x, m'.execute instr = .ok x ∧ x.nextLoadReg = regNumber instr.rt ∧
          (signed = false → x.nextLoadValue.toNat = v.toNat % 2 ^ (8 * size)) ∧
          (signed = true → x.nextLoadValue = (v.setWidth (8 * size)).signExtend 32)) ∧
      (∀ a n which m', m.readMem a n = .error (.raise which m') → m'.mainMemory = m.mainMemory) ∧
      ∀ a n value which m', m.writeMem a n value = .error (.raise which m') → m'.mainMemory = m.mainMemory := by
  obtain ⟨p, hw⟩ := Option.isSome_iff_exists.1 hmapped
  have hp := physical_of_writing hw
  obtain ⟨m', hwrite, hwrote⟩ := writeMem_of hs ha hw v
  refine ⟨⟨m', hwrite, fun i hi => hwrote.readMem_byte hs ha hp hi,
    fun b hb value m₁ hr => hwrote.readMem_other hframes hs ha hp hb hr, ?_⟩,
    fun _ _ _ _ => readMem_refused, fun _ _ _ _ _ => writeMem_refused⟩
  intro instr signed hop hea
  obtain ⟨x, hx, hreg, hvalue⟩ := hwrote.execute_load hs ha hp hop hea
  refine ⟨x, hx, hreg, ?_, ?_⟩
  · rintro rfl
    rw [hvalue, toNat_extended hs]
  · rintro rfl
    exact hvalue

theorem distinctFrames_misaligned : misaligned.DistinctFrames := by
  rintro vpn vpn' slot slot' entry entry' ⟨_, ⟨⟩, -, rfl, -⟩ ⟨_, ⟨⟩, -, rfl, -⟩ hpage
  exact BitVec.eq_of_toNat_eq (by simpa using congrArg BitVec.toNat hpage)

theorem widths_agree_misaligned : ∃ m', misaligned.writeMem 8 2 0x18283 = .ok m' ∧
    ∃ x, m'.execute ⟨.lh, 0, 3, 0, 8⟩ = .ok x ∧ x.nextLoadReg = 3 ∧ x.nextLoadValue = 0xffff8283 := by
  obtain ⟨⟨m', hm', -, -, hload⟩, -⟩ :=
    widths_agree misaligned distinctFrames_misaligned 8 2 (.inr (.inl rfl)) rfl rfl 0x18283
  obtain ⟨p, -, hwrote⟩ := (of_writeMem hm').2.2
  obtain ⟨x, hx, hreg, -, hvalue⟩ := hload ⟨.lh, 0, 3, 0, 8⟩ true rfl (by unfold gpr; rw [hwrote.registers]; rfl)
  exact ⟨m', hm', x, hx, hreg, hvalue rfl⟩

end Machine

end Nachos
