import Nachos.Machine.Arithmetic

/-!
# Unaligned accesses (LWL, LWR, SWL and SWR of machine/mipssim.cc)

Each of the four instructions transfers the part of an unaligned word that lies in one aligned word. The two parts make up the word, so
that a pair of instructions transfers it, in either order.
-/

namespace Nachos

open Bytes Loop

namespace Machine

/-! ## The bytes of a word -/

/-- The bytes of a word, the lowest first. -/
def wordByte (v : BitVec 32) (j : Nat) : UInt8 := UInt8.ofBitVec (v.extractLsb' (8 * j) 8)

theorem getLsbD_wordByte (v : BitVec 32) (j : Nat) {i : Nat} (hi : i < 8) : (wordByte v j).toBitVec.getLsbD i = v.getLsbD (8 * j + i) := by
  simp [wordByte, hi]

theorem wordByte_ext {v v' : BitVec 32} (h : ∀ j < 4, wordByte v j = wordByte v' j) : v = v' := by
  refine BitVec.eq_of_getLsbD_eq fun i hi => ?_
  have hbyte := congrArg (fun b => b.toBitVec.getLsbD (i % 8)) (h (i / 8) (by omega))
  simp only [getLsbD_wordByte _ _ (show i % 8 < 8 by omega), Nat.div_add_mod] at hbyte
  exact hbyte

theorem wordByte_wordAt (b : Buf) (off : Nat) {j : Nat} (hj : j < 4) : wordByte (wordAt b off) j = b (off + j) := by
  refine UInt8.toBitVec_inj.1 (BitVec.eq_of_getLsbD_eq fun i hi => ?_)
  rw [getLsbD_wordByte _ _ hi, getLsbD_wordAt _ _ (by omega), show (8 * j + i) / 8 = j by omega, show (8 * j + i) % 8 = i by omega]

theorem wordByte_lowField (x y : BitVec 32) (s : Nat) {j : Nat} (hj : j < 4) :
    wordByte (Words.lowField x y (8 * s)) j = if j + s < 4 then wordByte y (j + s) else wordByte x j := by
  refine UInt8.toBitVec_inj.1 (BitVec.eq_of_getLsbD_eq fun i hi => ?_)
  rw [getLsbD_wordByte _ _ hi, Words.getLsbD_lowField _ _ _ (by omega)]
  by_cases h : j + s < 4
  · rw [if_pos (by omega), if_pos h, getLsbD_wordByte _ _ hi]
    congr 1
    omega
  · rw [if_neg (by omega), if_neg h, getLsbD_wordByte _ _ hi]

theorem wordByte_highField (x y : BitVec 32) (s : Nat) {j : Nat} (hj : j < 4) :
    wordByte (Words.highField x y (8 * s)) j = if j < s then wordByte x j else wordByte y (j - s) := by
  refine UInt8.toBitVec_inj.1 (BitVec.eq_of_getLsbD_eq fun i hi => ?_)
  rw [getLsbD_wordByte _ _ hi, Words.getLsbD_highField _ _ _ (by omega)]
  by_cases h : j < s
  · rw [if_pos (by omega), if_pos h, getLsbD_wordByte _ _ hi]
  · rw [if_neg (by omega), if_neg h, getLsbD_wordByte _ _ hi]
    congr 1
    omega

/-! ## The four merges -/

theorem lwlValue_eq (old value : BitVec 32) {k : Nat} (hk : k < 4) :
    lwlValue old value (3 - k) = Words.highField old value (8 * (3 - k)) := by
  refine wordByte_ext fun j hj => ?_
  obtain rfl | rfl | rfl | rfl : k = 0 ∨ k = 1 ∨ k = 2 ∨ k = 3 := by omega
  · rfl
  · rfl
  · rfl
  · rw [wordByte_highField _ _ _ hj]
    rfl

theorem lwrValue_eq (old value : BitVec 32) {k : Nat} (hk : k < 4) : lwrValue old value (3 - k) = Words.lowField old value (8 * k) := by
  refine wordByte_ext fun j hj => ?_
  obtain rfl | rfl | rfl | rfl : k = 0 ∨ k = 1 ∨ k = 2 ∨ k = 3 := by omega
  · rw [wordByte_lowField _ _ _ hj]
    simp [lwrValue, hj]
  · rfl
  · rfl
  · rfl

theorem swlValue_eq (reg value : BitVec 32) {k : Nat} (hk : k < 4) :
    swlValue reg value (3 - k) = Words.lowField value reg (8 * (3 - k)) := by
  refine wordByte_ext fun j hj => ?_
  obtain rfl | rfl | rfl | rfl : k = 0 ∨ k = 1 ∨ k = 2 ∨ k = 3 := by omega
  · rfl
  · rfl
  · rfl
  · rw [wordByte_lowField _ _ _ hj]
    simp [swlValue, hj]

theorem swrValue_eq (reg value : BitVec 32) {k : Nat} (hk : k < 4) :
    swrValue reg value (3 - k) = Words.highField value reg (8 * k) := by
  refine wordByte_ext fun j hj => ?_
  obtain rfl | rfl | rfl | rfl : k = 0 ∨ k = 1 ∨ k = 2 ∨ k = 3 := by omega
  · rw [wordByte_highField _ _ _ hj]
    simp [swrValue]
  · rfl
  · rfl
  · rfl

/-! ## The two parts of a word -/

/-- The address that is given to an instruction for the word at `a`: `LWR` and `SWR` (`right`) take the lowest byte, `LWL` and `SWL` the
highest. -/
def target (right : Bool) (a : BitVec 32) : BitVec 32 := if right then a else a + 3

/-- The aligned word that is accessed, `tmp - byte`. -/
def alignedWord (right : Bool) (a : BitVec 32) : BitVec 32 := target right a - (target right a &&& 3)

/-- Byte `j` of the word at `a` is in the part that is transferred. -/
def Part : Bool → BitVec 32 → Nat → Prop
  | true, a, j => a.toNat % 4 + j < 4
  | false, a, j => 3 ≤ (a + 3).toNat % 4 + j

instance : ∀ right a j, Decidable (Part right a j)
  | true, _, _ => inferInstanceAs (Decidable (_ < _))
  | false, _, _ => inferInstanceAs (Decidable (_ ≤ _))

/-- Its place in the aligned word. -/
def place : Bool → BitVec 32 → Nat → Nat
  | true, a, j => a.toNat % 4 + j
  | false, a, j => (a + 3).toNat % 4 + j - 3

/-- The two parts make up the word. -/
theorem part_or_part (right : Bool) (a : BitVec 32) {j : Nat} (hj : j < 4) : Part right a j ∨ Part (!right) a j := by
  have hmod : (a + 3).toNat % 4 = (a.toNat + 3) % 4 := by
    rw [BitVec.toNat_add]
    simp
  cases right <;> simp only [Part, hmod, Bool.not_true, Bool.not_false] <;> omega

theorem toNat_and_3 (t : BitVec 32) : (t &&& 3).toNat = t.toNat % 4 := by
  rw [BitVec.toNat_and]
  exact Nat.and_two_pow_sub_one_eq_mod t.toNat 2

theorem toNat_alignedWord (right : Bool) (a : BitVec 32) :
    (alignedWord right a).toNat = (target right a).toNat - (target right a).toNat % 4 := by
  have h := (target right a).isLt
  rw [alignedWord, BitVec.toNat_sub, toNat_and_3]
  omega

theorem alignedWord_mod (right : Bool) (a : BitVec 32) : (alignedWord right a).toNat % 4 = 0 := by
  rw [toNat_alignedWord]
  omega

/-- Where a byte of a part is in its aligned word. -/
theorem Part.address {right : Bool} {a : BitVec 32} {j : Nat} (h : Part right a j) (hj : j < 4) :
    place right a j < 4 ∧ a + BitVec.ofNat 32 j = alignedWord right a + BitVec.ofNat 32 (place right a j) := by
  have hlt := a.isLt
  have halign := toNat_alignedWord right a
  cases right with
  | true =>
    simp only [Part, place, target, if_true] at h halign ⊢
    refine ⟨h, BitVec.eq_of_toNat_eq ?_⟩
    rw [BitVec.toNat_add, BitVec.toNat_add, BitVec.toNat_ofNat, BitVec.toNat_ofNat, halign]
    omega
  | false =>
    simp only [Part, place, target, Bool.false_eq_true, if_false] at h halign ⊢
    refine ⟨by omega, BitVec.eq_of_toNat_eq ?_⟩
    have hadd : (a + 3).toNat = (a.toNat + 3) % 2 ^ 32 := by
      rw [BitVec.toNat_add]
      rfl
    rw [BitVec.toNat_add, BitVec.toNat_add, BitVec.toNat_ofNat, BitVec.toNat_ofNat, halign]
    omega

/-- A byte of a part is mapped together with the aligned word. -/
theorem Part.physical {m : Machine} {right : Bool} {a : BitVec 32} {j : Nat} (h : Part right a j) (hj : j < 4) {writing : Bool}
    {q : Nat} (hq : m.physical (alignedWord right a) writing = some q) :
    m.physical (a + BitVec.ofNat 32 j) writing = some (q + place right a j) := by
  obtain ⟨hplace, haddr⟩ := h.address hj
  rw [haddr]
  exact (physical_add (.inr (.inr rfl)) (alignedWord_mod right a) hplace).2 hq

/-- The offset of a place in its page is that of its address. -/
theorem physical_mod {m : Machine} {a : BitVec 32} {writing : Bool} {p : Nat} (h : m.physical a writing = some p) :
    p % pageSize = a.toNat % pageSize := by
  obtain ⟨m', ht⟩ := physical_eq_some.1 h
  obtain ⟨-, -, -, slot, entry, -, -, -, rfl, -⟩ := translate_noException.1 ht
  have hoff : (a % 128).toNat = a.toNat % 128 := BitVec.toNat_umod
  rw [hoff]
  simp only [pageSize]
  omega

/-- If the word is mapped, so are the aligned words. -/
theorem alignedWord_physical {m : Machine} {a : BitVec 32} {writing : Bool}
    (h : ∀ j < 4, ∃ p, m.physical (a + BitVec.ofNat 32 j) writing = some p) (right : Bool) :
    ∃ q, m.physical (alignedWord right a) writing = some q := by
  obtain ⟨j, hj, hpart⟩ : ∃ j < 4, Part right a j := by
    cases right with
    | true => exact ⟨0, by decide, by simp only [Part]; omega⟩
    | false => exact ⟨3, by decide, by simp only [Part]; omega⟩
  obtain ⟨hplace, haddr⟩ := hpart.address hj
  obtain ⟨p, hp⟩ := h j hj
  have hmod := physical_mod hp
  rw [haddr] at hp hmod
  have halign := alignedWord_mod right a
  have hle : place right a j ≤ p := by
    rw [BitVec.toNat_add, BitVec.toNat_ofNat] at hmod
    simp only [pageSize] at hmod
    have hword := toNat_alignedWord right a
    have hlt := (target right a).isLt
    omega
  refine ⟨p - place right a j, (physical_add (.inr (.inr rfl)) halign hplace).1 ?_⟩
  rw [hp, Nat.sub_add_cancel hle]

/-! ## One instruction -/

/-- What `LWR` and `LWL` make of the old contents of the register and the aligned word. -/
def loadedPart (right : Bool) (a old value : BitVec 32) : BitVec 32 :=
  if right then lwrValue old value (3 - (target right a &&& 3).toNat) else lwlValue old value (3 - (target right a &&& 3).toNat)

/-- What `SWR` and `SWL` make of the register and the aligned word. -/
def storedPart (right : Bool) (a reg value : BitVec 32) : BitVec 32 :=
  if right then swrValue reg value (3 - (target right a &&& 3).toNat) else swlValue reg value (3 - (target right a &&& 3).toNat)

/-- A load takes the part from memory, and keeps the other bytes of the register. -/
theorem wordByte_loadedPart (right : Bool) (a old value : BitVec 32) {j : Nat} (hj : j < 4) :
    wordByte (loadedPart right a old value) j = if Part right a j then wordByte value (place right a j) else wordByte old j := by
  have hk : (target right a).toNat % 4 < 4 := Nat.mod_lt _ (by decide)
  unfold loadedPart
  rw [toNat_and_3]
  cases right with
  | true =>
    rw [if_pos rfl, lwrValue_eq _ _ hk, wordByte_lowField _ _ _ hj, Nat.add_comm]
    by_cases h : Part true a j
    · rw [if_pos h]
      exact if_pos h
    · rw [if_neg h]
      exact if_neg h
  | false =>
    rw [if_neg Bool.false_ne_true, lwlValue_eq _ _ hk, wordByte_highField _ _ _ hj]
    by_cases h : Part false a j
    · rw [if_pos h]
      simp only [Part, place, target, Bool.false_eq_true, if_false] at h hk ⊢
      rw [if_neg (by omega)]
      congr 1
      omega
    · rw [if_neg h]
      simp only [Part, target, Bool.false_eq_true, if_false] at h hk ⊢
      rw [if_pos (by omega)]

/-- A store puts the part of the register in its place. -/
theorem wordByte_storedPart {right : Bool} {a : BitVec 32} (reg value : BitVec 32) {j : Nat} (hj : j < 4) (h : Part right a j) :
    wordByte (storedPart right a reg value) (place right a j) = wordByte reg j := by
  have hk : (target right a).toNat % 4 < 4 := Nat.mod_lt _ (by decide)
  have hplace := (h.address hj).1
  unfold storedPart
  rw [toNat_and_3]
  cases right with
  | true =>
    rw [if_pos rfl, swrValue_eq _ _ hk, wordByte_highField _ _ _ hplace]
    simp only [place, target, if_true]
    rw [if_neg (by omega), Nat.add_sub_cancel_left]
  | false =>
    rw [if_neg Bool.false_ne_true, swlValue_eq _ _ hk, wordByte_lowField _ _ _ hplace]
    simp only [Part, place, target, Bool.false_eq_true, if_false] at h hk ⊢
    rw [if_pos (by omega)]
    congr 1
    omega

/-- It keeps the other bytes of the aligned word. -/
theorem wordByte_storedPart_other {right : Bool} {a : BitVec 32} (reg value : BitVec 32) {i : Nat} (hi : i < 4)
    (h : ∀ j < 4, Part right a j → i ≠ place right a j) : wordByte (storedPart right a reg value) i = wordByte value i := by
  have hk : (target right a).toNat % 4 < 4 := Nat.mod_lt _ (by decide)
  unfold storedPart
  rw [toNat_and_3]
  cases right with
  | true =>
    rw [if_pos rfl, swrValue_eq _ _ hk, wordByte_highField _ _ _ hi, if_pos]
    simp only [Part, place, target, if_true] at h hk ⊢
    by_contra hle
    exact h (i - a.toNat % 4) (by omega) (by omega) (by omega)
  | false =>
    rw [if_neg Bool.false_ne_true, swlValue_eq _ _ hk, wordByte_lowField _ _ _ hi, if_neg]
    simp only [Part, place, target, Bool.false_eq_true, if_false] at h hk ⊢
    intro hlt
    exact h (i + (3 - (a + 3).toNat % 4)) hlt (by omega) (by omega)

/-- `LWR rt, 0(base)` and `LWL rt, 3(base)`. -/
def loadPart (right : Bool) (base rt : Fin 32) : Instruction :=
  if right then { opCode := .lwr, rs := base, rt, rd := 0, extra := 0 } else { opCode := .lwl, rs := base, rt, rd := 0, extra := 3 }

/-- `SWR rt, 0(base)` and `SWL rt, 3(base)`. -/
def storePart (right : Bool) (base rt : Fin 32) : Instruction :=
  if right then { opCode := .swr, rs := base, rt, rd := 0, extra := 0 } else { opCode := .swl, rs := base, rt, rd := 0, extra := 3 }

theorem Touched.pendingGpr_eq {m m' : Machine} (h : Touched m m') (r : Fin 32) : m'.pendingGpr r = m.pendingGpr r := by
  unfold pendingGpr
  rw [h.registers, h.gpr_eq]

theorem execute_loadPart {m : Machine} {base : Fin 32} {a : BitVec 32} (hbase : m.gpr base = a) {right : Bool} {q : Nat}
    (hq : m.physical (alignedWord right a) false = some q) (rt : Fin 32) :
    ∃ x, m.execute (loadPart right base rt) = .ok x ∧ Touched m x.m ∧ x.nextLoadReg = regNumber rt ∧
      x.nextLoadValue = loadedPart right a (m.pendingGpr rt) (wordAt m.mainMemory q) := by
  subst hbase
  obtain ⟨m', hr, htouch⟩ := readMem_of (.inr (.inr rfl)) (alignedWord_mod right _) hq
  rw [← htouch.pendingGpr_eq]
  cases right with
  | true =>
    have hadd : m.gpr base + 0 = m.gpr base := BitVec.add_zero _
    have hr : m.readMem (m.gpr base + 0 - (m.gpr base + 0 &&& 3)) 4 = .ok (wordAt m.mainMemory q, m') := by
      rw [hadd]
      exact hr
    refine ⟨{ m := m', pcAfter := m.registers Reg.nextPCReg + 4, nextLoadReg := regNumber rt, nextLoadValue := _ }, ?_, htouch, rfl, rfl⟩
    unfold execute loadPart
    rw [if_pos rfl]
    dsimp only
    rw [hr, hadd]
    rfl
  | false =>
    have hr : m.readMem (m.gpr base + 3 - (m.gpr base + 3 &&& 3)) 4 = .ok (wordAt m.mainMemory q, m') := hr
    refine ⟨{ m := m', pcAfter := m.registers Reg.nextPCReg + 4, nextLoadReg := regNumber rt, nextLoadValue := _ }, ?_, htouch, rfl, rfl⟩
    unfold execute loadPart
    rw [if_neg Bool.false_ne_true]
    dsimp only
    rw [hr]
    rfl

theorem execute_storePart {m : Machine} {base : Fin 32} {a : BitVec 32} (hbase : m.gpr base = a) {right : Bool} {q : Nat}
    (hq : m.physical (alignedWord right a) true = some q) (rt : Fin 32) :
    ∃ x, m.execute (storePart right base rt) = .ok x ∧ WroteAt m q 4 (storedPart right a (m.gpr rt) (wordAt m.mainMemory q)) x.m := by
  subst hbase
  obtain ⟨m₁, hr, htouch⟩ := readMem_of (.inr (.inr rfl)) (alignedWord_mod right _) (physical_of_writing hq)
  obtain ⟨m₂, hw, hwrote⟩ := writeMem_of (m := m₁) (.inr (.inr rfl)) (alignedWord_mod right _) (by rw [htouch.physical_eq]; exact hq)
    (storedPart right (m.gpr base) (m.gpr rt) (wordAt m.mainMemory q))
  refine ⟨{ m := m₂, pcAfter := m.registers Reg.nextPCReg + 4, nextLoadReg := 0, nextLoadValue := 0 }, ?_, ?_⟩
  · cases right with
    | true =>
      have hr : m.readMem (m.gpr base - (m.gpr base &&& 3)) 4 = .ok (wordAt m.mainMemory q, m₁) := hr
      have hw : m₁.writeMem (m.gpr base - (m.gpr base &&& 3)) 4
        (swrValue (m.gpr rt) (wordAt m.mainMemory q) (3 - (m.gpr base &&& 3).toNat)) = .ok m₂ := hw
      have hadd : m.gpr base + 0 = m.gpr base := BitVec.add_zero _
      unfold execute storePart
      rw [if_pos rfl]
      dsimp only
      rw [hadd, hr, ok_bind]
      dsimp only
      rw [hw]
      rfl
    | false =>
      have hr : m.readMem (m.gpr base + 3 - (m.gpr base + 3 &&& 3)) 4 = .ok (wordAt m.mainMemory q, m₁) := hr
      have hw : m₁.writeMem (m.gpr base + 3 - (m.gpr base + 3 &&& 3)) 4
        (swlValue (m.gpr rt) (wordAt m.mainMemory q) (3 - (m.gpr base + 3 &&& 3).toNat)) = .ok m₂ := hw
      unfold execute storePart
      rw [if_neg Bool.false_ne_true]
      dsimp only
      rw [hr, ok_bind]
      dsimp only
      rw [hw]
      rfl
  · exact ⟨htouch.toSameMapping.trans hwrote.toSameMapping, hwrote.registers.trans htouch.registers,
      by rw [hwrote.mainMemory, htouch.mainMemory]⟩

/-! ## Pairs of instructions -/

/-- The machine fetches an instruction. -/
def Fetches (m : Machine) (instr : Instruction) : Prop := ∃ raw, m.fetched = some raw ∧ decode raw = instr

/-- A register holds a value, also once the pending load is done. -/
def Holds (m : Machine) (r : Fin 32) (value : BitVec 32) : Prop := m.gpr r = value ∧ (m.loaded 0 0).gpr r = value

/-- What an instruction leaves, to the next one or to the kernel. -/
def Leaves (m m' : Machine) : Prop := m.oneInstruction = .ok m' ∨ ∃ which, m.oneInstruction = .error (.raise which m')

/-- The registers that an instruction without a destination leaves. -/
theorem Executed.finished_gpr_of {m : Machine} {x : Executed} (h : x.m.registers = m.registers) (r : Fin 32) :
    x.finished.gpr r = (m.loaded 0 0).gpr r := by
  rw [x.finished_gpr, loaded_gpr]
  unfold pendingGpr gpr
  rw [h]

/-- What is loaded arrives with the next instruction, whatever it is. -/
theorem Leaves.gpr_eq {m m' : Machine} (h : m.Leaves m') (hl : (m.registers Reg.loadReg).toNat < 32) {r : Fin 32} (hr : r ≠ 0)
    (hload : m.registers Reg.loadReg = regNumber r) : m'.gpr r = m.registers Reg.loadValueReg := by
  rcases h with h | ⟨which, h⟩
  · obtain ⟨raw, m₁, x, hf, hx, rfl⟩ := of_oneInstruction hl h
    have htouch := (of_readMem hf).2.2.1
    rw [((m₁.execute_stops _ (decode_ne_rfe raw)).of_ok hx).finished_gpr, if_neg hr, htouch.registers, if_pos hload]
  · have hprecise : Precise m m' := (oneInstruction_ends hl).of_error h
    rw [hprecise.gpr_eq, if_neg hr]
    exact if_pos hload

/-! ### Loads -/

/-- `LWR` or `LWL` leaves its part, merged with what the register held or was to be loaded with, as the pending load. -/
theorem load_step {m : Machine} (hl : (m.registers Reg.loadReg).toNat < 32) {base rt : Fin 32} {a : BitVec 32} (hbase : m.gpr base = a)
    (hmapped : ∀ j < 4, ∃ p, m.physical (a + BitVec.ofNat 32 j) false = some p) {right : Bool}
    (hf : m.Fetches (loadPart right base rt)) :
    ∃ m', m.oneInstruction = .ok m' ∧ SameMapping m m' ∧ m'.mainMemory = m.mainMemory ∧
      (∀ r, m'.gpr r = (m.loaded 0 0).gpr r) ∧ m'.registers Reg.loadReg = regNumber rt ∧
      ∀ j < 4, wordByte (m'.registers Reg.loadValueReg) j = if Part right a j then m.userBytes a j else wordByte (m.pendingGpr rt) j := by
  obtain ⟨raw, hf, hinstr⟩ := hf
  obtain ⟨m₀, hf⟩ := fetched_eq_some.1 hf
  have htouch := (of_readMem hf).2.2.1
  obtain ⟨q, hq⟩ := alignedWord_physical hmapped right
  obtain ⟨x, hx, hxtouch, hreg, hvalue⟩ :=
    execute_loadPart (m := m₀) (by rw [htouch.gpr_eq, hbase]) (by rw [htouch.physical_eq]; exact hq) rt
  have hall := htouch.trans hxtouch
  refine ⟨x.finished, oneInstruction_of hl hf (by rw [hinstr]; exact hx), hall.toSameMapping.trans x.finished_mapping,
    hall.mainMemory, x.finished_gpr_of hall.registers, hreg, ?_⟩
  intro j hj
  rw [x.finished_loadValueReg, hvalue, htouch.pendingGpr_eq, htouch.mainMemory, wordByte_loadedPart _ _ _ _ hj]
  by_cases h : Part right a j
  · rw [if_pos h, if_pos h, wordByte_wordAt _ _ (h.address hj).1, userBytes, h.physical hj hq]
    rfl
  · rw [if_neg h, if_neg h]

/-! ### Stores -/

/-- Some bytes of the word at `a` are those of `v`, and no other byte of memory has changed. -/
structure StoredBytes (part : Nat → Prop) (m : Machine) (a v : BitVec 32) (m' : Machine) : Prop where
  there : ∀ j, part j → ∀ p, m.physical (a + BitVec.ofNat 32 j) true = some p → m'.mainMemory p = wordByte v j
  elsewhere : ∀ p, (∀ j, part j → m.physical (a + BitVec.ofNat 32 j) true ≠ some p) → m'.mainMemory p = m.mainMemory p

/-- `SWR` or `SWL` stores its part. -/
theorem store_step {m : Machine} (hl : (m.registers Reg.loadReg).toNat < 32) {base rt : Fin 32} {a : BitVec 32} (hbase : m.gpr base = a)
    (hmapped : ∀ j < 4, ∃ p, m.physical (a + BitVec.ofNat 32 j) true = some p) {right : Bool}
    (hf : m.Fetches (storePart right base rt)) :
    ∃ m', m.oneInstruction = .ok m' ∧ SameMapping m m' ∧ (∀ r, m'.gpr r = (m.loaded 0 0).gpr r) ∧
      (m'.registers Reg.loadReg).toNat < 32 ∧ StoredBytes (fun j => j < 4 ∧ Part right a j) m a (m.gpr rt) m' := by
  obtain ⟨raw, hf, hinstr⟩ := hf
  obtain ⟨m₀, hf⟩ := fetched_eq_some.1 hf
  have htouch := (of_readMem hf).2.2.1
  obtain ⟨q, hq⟩ := alignedWord_physical hmapped right
  obtain ⟨x, hx, hwrote⟩ := execute_storePart (m := m₀) (by rw [htouch.gpr_eq, hbase]) (by rw [htouch.physical_eq]; exact hq) rt
  rw [htouch.gpr_eq, htouch.mainMemory] at hwrote
  have hmap : SameMapping m x.m := htouch.toSameMapping.trans hwrote.toSameMapping
  have hmemory := hwrote.mainMemory
  rw [htouch.mainMemory] at hmemory
  have hexec := (m₀.execute_stops (decode raw) (decode_ne_rfe raw)).of_ok (by rw [hinstr]; exact hx)
  refine ⟨x.finished, oneInstruction_of hl hf (by rw [hinstr]; exact hx), hmap.trans x.finished_mapping,
    x.finished_gpr_of (hwrote.registers.trans htouch.registers), by rw [x.finished_loadReg]; exact hexec.nextLoadReg, ?_, ?_⟩
  · rintro j ⟨hj, hpart⟩ p hp
    obtain rfl : p = q + place right a j := Option.some.inj (hp.symm.trans (hpart.physical hj hq))
    rw [x.finished_mainMemory, hmemory, store_there _ _ _ (hpart.address hj).1]
    exact wordByte_storedPart _ _ hj hpart
  · intro p hp
    rw [x.finished_mainMemory, hmemory]
    by_cases hin : ∃ i < 4, p = q + i
    · obtain ⟨i, hi, rfl⟩ := hin
      rw [store_there _ _ _ hi]
      refine (wordByte_storedPart_other _ _ hi fun j hj hpart => ?_).trans (wordByte_wordAt _ _ hi)
      rintro rfl
      exact hp j ⟨hj, hpart⟩ (hpart.physical hj hq)
    · exact store_elsewhere _ _ fun i hi heq => hin ⟨i, hi, heq⟩

/-- The bytes of a word have places of their own. -/
theorem physical_word_inj {m : Machine} {a : BitVec 32} {writing : Bool} {j j' p : Nat} (hj : j < 4) (hj' : j' < 4)
    (h : m.physical (a + BitVec.ofNat 32 j) writing = some p) (h' : m.physical (a + BitVec.ofNat 32 j') writing = some p) : j = j' := by
  have hmod := physical_mod h
  have hmod' := physical_mod h'
  rw [BitVec.toNat_add, BitVec.toNat_ofNat] at hmod hmod'
  simp only [pageSize] at hmod hmod'
  omega

/-- Two parts that make up the word. -/
theorem StoredBytes.append {right : Bool} {m m₁ m₂ : Machine} {a v : BitVec 32} (hmap : SameMapping m m₁)
    (h : StoredBytes (fun j => j < 4 ∧ Part right a j) m a v m₁) (h' : StoredBytes (fun j => j < 4 ∧ Part (!right) a j) m₁ a v m₂) :
    StoredBytes (· < 4) m a v m₂ := by
  have hphysical := hmap.physical_eq
  constructor
  · intro j hj p hp
    by_cases hpart : Part (!right) a j
    · exact h'.there j ⟨hj, hpart⟩ p (by rw [hphysical]; exact hp)
    · have hfirst := (part_or_part right a hj).resolve_right hpart
      rw [h'.elsewhere p, h.there j ⟨hj, hfirst⟩ p hp]
      rintro j' ⟨hj', hpart'⟩ hp'
      rw [hphysical] at hp'
      obtain rfl := physical_word_inj hj' hj hp' hp
      exact hpart hpart'
  · intro p hp
    rw [h'.elsewhere p, h.elsewhere p fun j hj => hp j hj.1]
    intro j hj
    rw [hphysical]
    exact hp j hj.1

/-! ### Either order -/

/-- A pair of `LWR` and `LWL` loads a word from any address, and a pair of `SWR` and `SWL` stores one, in either order. -/
theorem unaligned_pairs {m : Machine} (hl : (m.registers Reg.loadReg).toNat < 32) {a : BitVec 32}
    (hmapped : ∀ j < 4, ∃ p, m.physical (a + BitVec.ofNat 32 j) true = some p) {base rt : Fin 32} (hrt : rt ≠ 0)
    (hbase : m.Holds base a) (right : Bool) :
    (m.Fetches (loadPart right base rt) → ∃ m₁, m.oneInstruction = .ok m₁ ∧
      (m₁.Fetches (loadPart (!right) base rt) → ∃ m₂, m₁.oneInstruction = .ok m₂ ∧
        ∀ m₃, m₂.Leaves m₃ → m₃.gpr rt = wordAt (m.userBytes a) 0)) ∧
    ∀ v, m.Holds rt v → m.Fetches (storePart right base rt) → ∃ m₁, m.oneInstruction = .ok m₁ ∧
      (m₁.Fetches (storePart (!right) base rt) → ∃ m₂, m₁.oneInstruction = .ok m₂ ∧ StoredBytes (· < 4) m a v m₂) := by
  constructor
  · intro hf
    have hread j hj := (hmapped j hj).imp fun _ => physical_of_writing
    obtain ⟨m₁, hm₁, hmap, hmemory, hgpr, hload, hvalue⟩ := load_step hl hbase.1 hread hf
    refine ⟨m₁, hm₁, fun hf₁ => ?_⟩
    have hl₁ : (m₁.registers Reg.loadReg).toNat < 32 := by
      rw [hload]
      exact regNumber_lt rt
    obtain ⟨m₂, hm₂, -, -, -, hload₂, hvalue₂⟩ :=
      load_step hl₁ ((hgpr base).trans hbase.2) (by rw [hmap.physical_eq]; exact hread) hf₁
    refine ⟨m₂, hm₂, fun m₃ hm₃ => ?_⟩
    have hl₂ : (m₂.registers Reg.loadReg).toNat < 32 := by
      rw [hload₂]
      exact regNumber_lt rt
    rw [hm₃.gpr_eq hl₂ hrt hload₂]
    refine wordByte_ext fun j hj => ?_
    have hpending : m₁.pendingGpr rt = m₁.registers Reg.loadValueReg := if_pos hload
    have hbytes : m₁.userBytes a = m.userBytes a := by
      unfold userBytes
      rw [hmap.physical_eq, hmemory]
    rw [hvalue₂ j hj, hpending, hvalue j hj, hbytes, wordByte_wordAt _ _ hj, Nat.zero_add]
    by_cases hpart : Part (!right) a j
    · rw [if_pos hpart]
    · rw [if_neg hpart, if_pos ((part_or_part right a hj).resolve_right hpart)]
  · intro v hv hf
    obtain ⟨m₁, hm₁, hmap, hgpr, hl₁, hstored⟩ := store_step hl hbase.1 hmapped hf
    rw [hv.1] at hstored
    refine ⟨m₁, hm₁, fun hf₁ => ?_⟩
    obtain ⟨m₂, hm₂, -, -, -, hstored₂⟩ :=
      store_step hl₁ ((hgpr base).trans hbase.2) (by rw [hmap.physical_eq]; exact hmapped) hf₁
    rw [hgpr, hv.2] at hstored₂
    exact ⟨m₂, hm₂, hstored.append hmap hstored₂⟩

/-- A machine with the instructions `lwr $2, 0($1)` and `lwl $2, 3($1)`, for the address 6. -/
def unalignedLoad : Machine :=
  { misaligned with
    registers := fun r => if r = 1 then 6 else if r = Reg.nextPCReg then 4 else 0
    mainMemory := fun j =>
      if j = 2 then 0x22 else if j = 3 then 0x98 else if j = 4 then 0x03 else if j = 6 then 0x22 else if j = 7 then 0x88 else 0 }

theorem unaligned_pairs_unalignedLoad : ∃ m₁ m₂, unalignedLoad.oneInstruction = .ok m₁ ∧ m₁.oneInstruction = .ok m₂ ∧
    ∀ m₃, m₂.Leaves m₃ → m₃.gpr 2 = 0x8822 := by
  have hmapped : ∀ j < 4, ∃ p, unalignedLoad.physical (6 + BitVec.ofNat 32 j) true = some p := by
    intro j hj
    refine ⟨6 + j, ?_⟩
    obtain rfl | rfl | rfl | rfl : j = 0 ∨ j = 1 ∨ j = 2 ∨ j = 3 := by omega
    all_goals rfl
  have hbase : unalignedLoad.Holds 1 6 := ⟨rfl, rfl⟩
  have hf : unalignedLoad.Fetches (loadPart true 1 2) := ⟨0x98220000, rfl, rfl⟩
  obtain ⟨m₁, hm₁, hnext⟩ := (unaligned_pairs (by decide) hmapped (by decide) hbase true).1 hf
  have hf₁ : m₁.Fetches (loadPart false 1 2) := by
    cases hm₁
    exact ⟨0x88220003, rfl, rfl⟩
  obtain ⟨m₂, hm₂, hvalue⟩ := hnext hf₁
  exact ⟨m₁, m₂, hm₁, hm₂, hvalue⟩

end Machine

end Nachos
