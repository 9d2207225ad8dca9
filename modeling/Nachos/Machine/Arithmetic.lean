import Nachos.Machine.Instructions
import Nachos.Machine.Multiply

/-!
# Arithmetic (OneInstruction of machine/mipssim.cc)

Overflows are found by the signs of the operands and of the wrapped result, which is exact. The shifts are those of C on an `int`:
the two logical shifts to the right go through the variable `tmp`, which is an `int` too.
-/

namespace Nachos

open Bytes Loop

namespace Machine

/-! ## The destination -/

theorem setGpr_self (m : Machine) (r : Fin 32) (value : BitVec 32) : (m.setGpr r value).gpr r = value := writeRegister_self ..

/-- A register after a completed instruction: a pending load of it wins. -/
theorem Executes.finished_gpr {m : Machine} {instr : Instruction} {x : Executed} (h : Executes m instr x) (r : Fin 32) :
    x.finished.gpr r = if r = 0 then 0 else if m.registers Reg.loadReg = regNumber r then m.registers Reg.loadValueReg else x.m.gpr r := by
  rw [x.finished_gpr]
  unfold pendingGpr
  rw [h.sameControl.control _ (by decide), h.sameControl.control _ (by decide)]

/-- A register when the kernel is entered. -/
theorem Precise.gpr_eq {m m' : Machine} (h : Precise m m') (r : Fin 32) : m'.gpr r = if r = 0 then 0 else m.pendingGpr r := by
  rw [← loaded_gpr m 0 0]
  unfold gpr
  rw [h.registers _ (castLE_ne r (by decide))]
  simp only [committed, loaded, castLE_ne r (show 32 ≤ Reg.loadReg.val by decide), castLE_ne r (show 32 ≤ Reg.loadValueReg.val by decide),
    or_false, if_false]

/-! ## Overflow -/

/-- The sign extension of `Decode`. -/
theorem immediate_extends (value : BitVec 32) :
    (if (value &&& 0xffff) &&& 0x8000 ≠ 0 then (value &&& 0xffff) ||| 0xffff0000 else value &&& 0xffff) =
      (value.setWidth 16).signExtend 32 := by
  have h := Words.signExtend_by_mask (value &&& 0xffff) 15
  have hbit : (value &&& 0xffff) &&& 0x8000 ≠ 0 ↔ (value &&& 0xffff).getLsbD 15 = true :=
    Words.and_twoPow_ne_zero _ (i := 15) (by decide)
  have hsame : (value &&& 0xffff) &&& Words.lowMask 32 16 = value &&& 0xffff := by
    rw [BitVec.and_assoc]
    rfl
  have hfield : (value &&& 0xffff).setWidth 16 = value.setWidth 16 := by
    refine BitVec.eq_of_getLsbD_eq fun i hi => ?_
    rw [BitVec.getLsbD_setWidth, BitVec.getLsbD_setWidth,
      show (value &&& 0xffff).getLsbD i = (value.getLsbD i && decide (i < 16)) from Words.getLsbD_and_lowMask value 16 i]
    simp [hi]
  rw [hsame, hfield] at h
  simp only [hbit]
  exact h

/-- The immediate of `ADDI`. -/
theorem decode_addi {value : BitVec 32} (h : (decode value).opCode = .addi) :
    (decode value).extra = (value.setWidth 16).signExtend 32 := by
  have hop : ∀ i, (opTable.get i).1 = .op .addi → (opTable.get i).2 = .ifmt := by decide
  have hspecial : ∀ i, specialTable.get i ≠ .addi := by decide
  have hcases := decode_cases value
  rw [h] at hcases
  obtain hi | ⟨-, i, hi⟩ | hi := hcases
  · have hformat := hop _ hi
    unfold decode
    dsimp only
    rw [hformat]
    exact immediate_extends value
  · exact absurd hi (hspecial i)
  · simp at hi

/-- The formula for sums. -/
theorem add_overflows (x y : BitVec 32) :
    (!signBit (x ^^^ y) && signBit (x ^^^ (x + y))) = true ↔ ¬InRange (x.toInt + y.toInt) := by
  have hformula : (!signBit (x ^^^ y) && signBit (x ^^^ (x + y))) = x.saddOverflow y := by
    rw [BitVec.saddOverflow_eq, signBit_eq_msb, signBit_eq_msb, BitVec.msb_xor, BitVec.msb_xor]
    cases x.msb <;> cases y.msb <;> cases (x + y).msb <;> rfl
  rw [hformula]
  simp [BitVec.saddOverflow, InRange]
  omega

/-- The formula for sums that looks at the second operand. -/
theorem addi_overflows (x y : BitVec 32) :
    (!signBit (x ^^^ y) && signBit (y ^^^ (x + y))) = true ↔ ¬InRange (x.toInt + y.toInt) := by
  rw [← add_overflows]
  simp only [signBit_eq_msb, BitVec.msb_xor]
  cases x.msb <;> cases y.msb <;> simp

/-- The formula for differences. -/
theorem sub_overflows (x y : BitVec 32) :
    (signBit (x ^^^ y) && signBit (x ^^^ (x - y))) = true ↔ ¬InRange (x.toInt - y.toInt) := by
  have hformula : (signBit (x ^^^ y) && signBit (x ^^^ (x - y))) = x.ssubOverflow y := by
    rw [BitVec.ssubOverflow_eq, signBit_eq_msb, signBit_eq_msb, BitVec.msb_xor, BitVec.msb_xor]
    cases x.msb <;> cases y.msb <;> cases (x - y).msb <;> rfl
  rw [hformula]
  simp [BitVec.ssubOverflow, InRange]
  omega

theorem toInt_add_of_inRange {x y : BitVec 32} (h : InRange (x.toInt + y.toInt)) : (x + y).toInt = x.toInt + y.toInt := by
  refine BitVec.toInt_add_of_not_saddOverflow ?_
  simp [BitVec.saddOverflow, InRange] at h ⊢
  omega

theorem toInt_sub_of_inRange {x y : BitVec 32} (h : InRange (x.toInt - y.toInt)) : (x - y).toInt = x.toInt - y.toInt := by
  refine BitVec.toInt_sub_of_not_ssubOverflow ?_
  simp [BitVec.ssubOverflow, InRange] at h ⊢
  omega

/-- The destination and the exact result of `ADD`, `ADDI` and `SUB`. -/
def exactResult (m : Machine) (value : BitVec 32) : Option (Fin 32 × Int) :=
  let instr := decode value
  match instr.opCode with
  | .add => some (instr.rd, (m.gpr instr.rs).toInt + (m.gpr instr.rt).toInt)
  | .addi => some (instr.rt, (m.gpr instr.rs).toInt + (value.setWidth 16).toInt)
  | .sub => some (instr.rd, (m.gpr instr.rs).toInt - (m.gpr instr.rt).toInt)
  | _ => none

/-- The three cases of the `switch`. -/
theorem execute_exact {m : Machine} {value : BitVec 32} {dest : Fin 32} {exact : Int} (h : exactResult m value = some (dest, exact)) :
    (InRange exact → ∃ result x, result.toInt = exact ∧ m.execute (decode value) = .ok x ∧ x.m = m.setGpr dest result) ∧
      (¬InRange exact → m.execute (decode value) = m.raiseException .overflowException 0) := by
  unfold exactResult at h
  dsimp only at h
  unfold execute
  split at h <;> cases h <;> rename_i hop <;> rw [hop] <;> dsimp only
  · refine ⟨fun hr => ?_, fun hr => if_pos ((add_overflows _ _).2 hr)⟩
    rw [if_neg (mt (add_overflows _ _).1 (not_not_intro hr))]
    exact ⟨_, _, toInt_add_of_inRange hr, rfl, rfl⟩
  · have hextra : (decode value).extra.toInt = (value.setWidth 16).toInt := by
      rw [decode_addi hop]
      exact BitVec.toInt_signExtend_of_le (by decide)
    rw [← hextra]
    refine ⟨fun hr => ?_, fun hr => if_pos ((addi_overflows _ _).2 hr)⟩
    rw [if_neg (mt (addi_overflows _ _).1 (not_not_intro hr))]
    exact ⟨_, _, toInt_add_of_inRange hr, rfl, rfl⟩
  · refine ⟨fun hr => ?_, fun hr => if_pos ((sub_overflows _ _).2 hr)⟩
    rw [if_neg (mt (sub_overflows _ _).1 (not_not_intro hr))]
    exact ⟨_, _, toInt_sub_of_inRange hr, rfl, rfl⟩

/-- `ADD`, `ADDI` and `SUB` raise an overflow exception exactly if the exact result is out of range, and then do not write the
destination; otherwise they leave the exact result in it, which a pending load of the same register replaces at the end. -/
theorem overflow_exact {m m₀ : Machine} {value : BitVec 32} (hl : (m.registers Reg.loadReg).toNat < 32)
    (hf : m.readMem (m.registers Reg.pcReg) 4 = .ok (value, m₀)) {dest : Fin 32} {exact : Int}
    (he : exactResult m value = some (dest, exact)) :
    ((∃ m', m.oneInstruction = .error (.raise .overflowException m')) ↔ ¬InRange exact) ∧
      (InRange exact → ∃ x, m₀.execute (decode value) = .ok x ∧ (x.m.gpr dest).toInt = exact ∧ m.oneInstruction = .ok x.finished ∧
        x.finished.gpr dest = if dest = 0 then 0 else if m.registers Reg.loadReg = regNumber dest then m.registers Reg.loadValueReg
          else x.m.gpr dest) ∧
      ∀ m', m.oneInstruction = .error (.raise .overflowException m') → m'.gpr dest = if dest = 0 then 0 else m.pendingGpr dest := by
  have htouch := (of_readMem hf).2.2.1
  have he₀ : exactResult m₀ value = some (dest, exact) := by
    unfold exactResult
    simp only [htouch.gpr_eq]
    exact he
  obtain ⟨hdone, hraise⟩ := execute_exact he₀
  refine ⟨⟨?_, ?_⟩, ?_, ?_⟩
  · rintro ⟨m', hm'⟩ hr
    obtain ⟨result, x, -, hx, -⟩ := hdone hr
    rw [oneInstruction_of hl hf hx] at hm'
    cases hm'
  · intro hr
    refine ⟨_, oneInstruction_error hf ((hraise hr).trans (raiseException_eq ?_ _ _))⟩
    rw [htouch.registers]
    exact hl
  · intro hr
    obtain ⟨result, x, hresult, hx, hxm⟩ := hdone hr
    refine ⟨x, hx, by rw [hxm, setGpr_self, hresult], oneInstruction_of hl hf hx, ?_⟩
    rw [((m₀.execute_stops _ (decode_ne_rfe value)).of_ok hx).finished_gpr, htouch.registers]
  · intro m' hm'
    exact (exceptions_precise hl hm').1.gpr_eq dest

/-- A machine with the instruction `addi $2, $1, -1`, for the least number. -/
def leastMinusOne : Machine :=
  { misaligned with
    registers := fun r => if r = 1 then 0x80000000 else if r = 2 then 7 else 0
    mainMemory := fun j => if j < 2 then 0xff else if j = 2 then 0x22 else if j = 3 then 0x20 else 0 }

theorem overflow_exact_leastMinusOne :
    ∃ m', leastMinusOne.oneInstruction = .error (.raise .overflowException m') ∧ m'.gpr 2 = 7 := by
  have hf : leastMinusOne.readMem 0 4 = .ok (0x2022ffff, _) := rfl
  obtain ⟨hiff, -, hkept⟩ := 
    overflow_exact (by decide) hf (show exactResult leastMinusOne 0x2022ffff = some (2, -2147483649) from rfl)
  obtain ⟨m', hm'⟩ := hiff.2 (by decide)
  exact ⟨m', hm', hkept m' hm'⟩

/-! ## Shifts -/

/-- The kinds of shifts. -/
inductive ShiftKind where
  | left
  | logical
  | arithmetic
  deriving DecidableEq

/-- The result of a shift of `rt` by `s`. -/
def ShiftKind.Gives (rt result : BitVec 32) (s : Nat) : ShiftKind → Prop
  | left => result.toNat = rt.toNat * 2 ^ s % 2 ^ 32
  | logical => result.toNat = rt.toNat / 2 ^ s
  | arithmetic => result.toInt = rt.toInt / 2 ^ s

/-- The kind and the amount of a shift instruction: `shamt`, or the low bits of `rs`. -/
def shiftOf (m : Machine) (value : BitVec 32) : Option (ShiftKind × Nat) :=
  let instr := decode value
  let shamt := (value.extractLsb' 6 5).toNat
  let low := (m.gpr instr.rs).toNat % 32
  match instr.opCode with
  | .sll => some (.left, shamt)
  | .sllv => some (.left, low)
  | .srl => some (.logical, shamt)
  | .srlv => some (.logical, low)
  | .sra => some (.arithmetic, shamt)
  | .srav => some (.arithmetic, low)
  | _ => none

/-- What the `switch` computes for a shift. -/
def ShiftKind.computed (rt : BitVec 32) (s : Nat) : ShiftKind → BitVec 32
  | left => rt <<< s
  | logical | arithmetic => rt.sshiftRight s

/-- The shift to the right of an `int` is the logical one exactly where the sign does not come in. -/
theorem sshiftRight_logical_iff (x : BitVec 32) (s : Nat) : (x.sshiftRight s).toNat = x.toNat / 2 ^ s ↔ ¬(x.toInt < 0 ∧ 0 < s) := by
  by_cases hs : 0 < s
  · have hneg : x.toInt < 0 ↔ x.msb = true := by rw [BitVec.msb_eq_toInt, decide_eq_true_iff]
    rw [hneg]
    cases hx : x.msb with
    | false =>
      rw [BitVec.sshiftRight_eq_of_msb_false hx, BitVec.toNat_ushiftRight, Nat.shiftRight_eq_div_pow]
      simp
    | true =>
      have hmsb : (x.sshiftRight s).msb = true := BitVec.msb_sshiftRight.trans hx
      have hlarge : 2147483648 ≤ (x.sshiftRight s).toNat := by simpa [BitVec.msb_eq_decide] using hmsb
      have hsmall : x.toNat / 2 ^ s < 2147483648 := by
        have h2 : 2 ^ 1 ≤ 2 ^ s := Nat.pow_le_pow_right (by decide) hs
        have h := x.isLt
        exact Nat.div_lt_of_lt_mul (by omega)
      refine iff_of_false (by omega) (by simp [hs])
  · obtain rfl : s = 0 := by omega
    simp

theorem ShiftKind.computed_iff (kind : ShiftKind) (rt : BitVec 32) (s : Nat) :
    kind.Gives rt (kind.computed rt s) s ↔ ¬(kind = .logical ∧ rt.toInt < 0 ∧ 0 < s) := by
  cases kind with
  | left =>
    refine iff_of_true ?_ (by simp)
    simp [Gives, computed, BitVec.toNat_shiftLeft, Nat.shiftLeft_eq]
  | logical => exact (sshiftRight_logical_iff rt s).trans (by simp)
  | arithmetic =>
    refine iff_of_true ?_ (by simp)
    simp [Gives, computed, BitVec.toInt_sshiftRight, Int.shiftRight_eq_div_pow]

theorem toNat_and_31 (x : BitVec 32) : (x &&& 0x1f).toNat = x.toNat % 32 := by
  rw [BitVec.toNat_and]
  exact Nat.and_two_pow_sub_one_eq_mod _ 5

/-- The shift amount that `Decode` finds. -/
theorem decode_shamt {value : BitVec 32} (h : (decode value).opCode ∈ [OpCode.sll, .srl, .sra]) :
    (decode value).extra.toNat = (value.extractLsb' 6 5).toNat := by
  have hop : ∀ i, ∀ opCode ∈ [OpCode.sll, .srl, .sra], (opTable.get i).1 ≠ .op opCode := by decide
  have hspecial : ∀ i, (opTable.get i).1 = .special → (opTable.get i).2 = .rfmt := by decide
  have hbcond : ∀ opCode ∈ [OpCode.sll, .srl, .sra], opCode ∉ [OpCode.bltz, .bgez, .bltzal, .bgezal, .unimp] := by decide
  obtain hi | ⟨hi, -⟩ | hi := decode_cases value
  · exact absurd hi (hop _ _ h)
  · have hformat := hspecial _ hi
    unfold decode
    dsimp only
    rw [hformat]
    dsimp only
    rw [toNat_and_31, BitVec.toNat_ushiftRight, BitVec.extractLsb'_toNat]
  · exact absurd hi (hbcond _ h)

/-- The cases of the `switch` for shifts. -/
theorem execute_shift {m : Machine} {value : BitVec 32} {kind : ShiftKind} {s : Nat} (h : shiftOf m value = some (kind, s)) :
    ∃ x, m.execute (decode value) = .ok x ∧ x.m = m.setGpr (decode value).rd (kind.computed (m.gpr (decode value).rt) s) := by
  unfold shiftOf at h
  dsimp only at h
  split at h <;> cases h <;> rename_i hop <;> refine ⟨_, by unfold execute; rw [hop], ?_⟩
  · rw [← decode_shamt (by simp [hop])]
    rfl
  · rw [← toNat_and_31]
    rfl
  · rw [← decode_shamt (by simp [hop])]
    rfl
  · rw [← toNat_and_31]
    rfl
  · rw [← decode_shamt (by simp [hop])]
    rfl
  · rw [← toNat_and_31]
    rfl

/-- A shift instruction leaves the shifted value in its destination exactly if it is not a logical shift to the right, by at least one
place, of a negative number. -/
theorem shift_exact_iff {m m₀ : Machine} {value : BitVec 32} (hl : (m.registers Reg.loadReg).toNat < 32)
    (hf : m.readMem (m.registers Reg.pcReg) 4 = .ok (value, m₀)) {kind : ShiftKind} {s : Nat} (h : shiftOf m value = some (kind, s)) :
    ∃ x, m₀.execute (decode value) = .ok x ∧
      (kind.Gives (m.gpr (decode value).rt) (x.m.gpr (decode value).rd) s ↔
        ¬(kind = .logical ∧ (m.gpr (decode value).rt).toInt < 0 ∧ 0 < s)) ∧
      m.oneInstruction = .ok x.finished ∧
      x.finished.gpr (decode value).rd = if (decode value).rd = 0 then 0
        else if m.registers Reg.loadReg = regNumber (decode value).rd then m.registers Reg.loadValueReg
        else x.m.gpr (decode value).rd := by
  have htouch := (of_readMem hf).2.2.1
  have h₀ : shiftOf m₀ value = some (kind, s) := by
    unfold shiftOf
    simp only [htouch.gpr_eq]
    exact h
  obtain ⟨x, hx, hxm⟩ := execute_shift h₀
  refine ⟨x, hx, ?_, oneInstruction_of hl hf hx, ?_⟩
  · rw [hxm, setGpr_self, htouch.gpr_eq]
    exact kind.computed_iff _ s
  · rw [((m₀.execute_stops _ (decode_ne_rfe value)).of_ok hx).finished_gpr, htouch.registers]

/-- A machine with the instruction `srl $3, $2, 1`, for -2. -/
def shiftMinusTwo : Machine :=
  { misaligned with
    registers := fun r => if r = 2 then 0xfffffffe else 0
    mainMemory := fun j => if j = 0 then 0x42 else if j = 1 then 0x18 else if j = 2 then 0x02 else 0 }

theorem shift_exact_iff_shiftMinusTwo :
    ∃ x : Executed, shiftMinusTwo.oneInstruction = .ok x.finished ∧ ¬ShiftKind.logical.Gives 0xfffffffe (x.m.gpr 3) 1 := by
  have hf : shiftMinusTwo.readMem 0 4 = .ok (0x00021842, _) := rfl
  obtain ⟨x, -, hiff, hdone, -⟩ :=
    shift_exact_iff (by decide) hf (show shiftOf shiftMinusTwo 0x00021842 = some (.logical, 1) from rfl)
  exact ⟨x, hdone, fun h => hiff.1 h ⟨rfl, by decide, by decide⟩⟩

/-- `SRL` does what `SRA` does. -/
theorem not_shift_exact : ¬∀ (m m₀ : Machine) (value : BitVec 32), (m.registers Reg.loadReg).toNat < 32 →
    m.readMem (m.registers Reg.pcReg) 4 = .ok (value, m₀) → ∀ kind s, shiftOf m value = some (kind, s) →
    ∀ x, m₀.execute (decode value) = .ok x → kind.Gives (m.gpr (decode value).rt) (x.m.gpr (decode value).rd) s := by
  intro h
  have hresult := h shiftMinusTwo _ 0x00021842 (by decide) rfl .logical 1 rfl _ rfl
  exact absurd hresult (by unfold ShiftKind.Gives; decide)

end Machine

end Nachos
