import Mathlib.Logic.Function.Basic
import Nachos.Prelude.Loop
import Nachos.Fault

/-!
# The simulated machine (machine/machine.h, machine.cc, and DelayedLoad of mipssim.cc)

The registers, the main memory, and the page table or the TLB that the kernel has handed to the hardware. Registers hold 32 bits;
whether an operation looks at them as signed or not is said where it is done.
-/

namespace Nachos

open Bytes

/-- `PageSize`. -/
@[simp] abbrev pageSize : Nat := 128

/-- `NumPhysPages`. -/
@[simp] abbrev numPhysPages : Nat := 128

/-- `MemorySize`. -/
@[simp] abbrev memorySize : Nat := numPhysPages * pageSize

/-- `TLBSize`. -/
@[simp] abbrev tlbSize : Nat := 4

/-- `enum ExceptionType`. -/
inductive ExceptionType where
  | noException
  | syscallException
  | pageFaultException
  | readOnlyException
  | busErrorException
  | addressErrorException
  | overflowException
  | illegalInstrException
  | numExceptionTypes
  deriving DecidableEq, Repr

/-- The number of a register: `NumTotalRegs` is 40. -/
abbrev Reg := Fin 40

instance neZero_numTotalRegs : NeZero 40 := ⟨by decide⟩

instance neZero_numGPRegs : NeZero 32 := ⟨by decide⟩

/-- The general purpose registers come first. -/
theorem numGPRegs_le : 32 ≤ 40 := by decide

namespace Reg

/-- `StackReg`. -/
abbrev stackReg : Reg := 29
/-- `RetAddrReg`, which mipssim.h calls `R31`. -/
abbrev retAddrReg : Reg := 31
/-- `HiReg`. -/
abbrev hiReg : Reg := 32
/-- `LoReg`. -/
abbrev loReg : Reg := 33
/-- `PCReg`. -/
abbrev pcReg : Reg := 34
/-- `NextPCReg`. -/
abbrev nextPCReg : Reg := 35
/-- `PrevPCReg`. -/
abbrev prevPCReg : Reg := 36
/-- `LoadReg`. -/
abbrev loadReg : Reg := 37
/-- `LoadValueReg`. -/
abbrev loadValueReg : Reg := 38
/-- `BadVAddrReg`. -/
abbrev badVAddrReg : Reg := 39

end Reg

/-- `class TranslationEntry`. -/
structure TranslationEntry where
  virtualPage : BitVec 32
  physicalPage : BitVec 32
  valid : Bool
  readOnly : Bool
  use : Bool
  dirty : Bool
  deriving DecidableEq

/-- `class Machine`, without the debugger. A table is what lies behind the pointer to it. -/
structure Machine where
  registers : Reg → BitVec 32
  mainMemory : Buf
  tlb : Option (Fin tlbSize → TranslationEntry)
  pageTable : Option (Nat → TranslationEntry)
  pageTableSize : BitVec 32

/-- How an instruction ends before it is done: an exception was raised, and the kernel is entered with this state of the machine, or
the simulator stops. -/
inductive Trap where
  | raise (which : ExceptionType) (m : Machine)
  | fault (f : Fault)

/-- What can stop the simulator, as a part of an instruction. -/
def liftFault {α : Type} : Except Fault α → Except Trap α
  | .ok a => .ok a
  | .error f => .error (.fault f)

namespace Machine

/-- `Machine::WriteRegister`. -/
def writeRegister (m : Machine) (num : Reg) (value : BitVec 32) : Machine :=
  { m with registers := Function.update m.registers num value }

@[simp] theorem writeRegister_self (m : Machine) (r : Reg) (v : BitVec 32) : (m.writeRegister r v).registers r = v :=
  Function.update_self _ _ _

theorem writeRegister_other (m : Machine) {r r' : Reg} (h : r' ≠ r) (v : BitVec 32) :
    (m.writeRegister r v).registers r' = m.registers r' := Function.update_of_ne h _ _

/-- `registers[num]`, when the number comes out of a register. -/
def regIndex (num : BitVec 32) : Except Fault Reg :=
  if h : num.toNat < 40 then .ok ⟨num.toNat, h⟩ else .error .outOfBounds

/-- `Machine::DelayedLoad`. -/
def delayedLoad (m : Machine) (nextReg nextValue : BitVec 32) : Except Fault Machine := do
  let target ← regIndex (m.registers Reg.loadReg)
  let m := m.writeRegister target (m.registers Reg.loadValueReg)
  let m := m.writeRegister Reg.loadReg nextReg
  let m := m.writeRegister Reg.loadValueReg nextValue
  return m.writeRegister 0 0 -- and always make sure R0 stays zero

/-- The machine after a delayed load. -/
def loaded (m : Machine) (nextReg nextValue : BitVec 32) : Machine :=
  { m with
    registers := fun r =>
      if r = 0 then 0
      else if r = Reg.loadReg then nextReg
      else if r = Reg.loadValueReg then nextValue
      else if r.val = (m.registers Reg.loadReg).toNat then m.registers Reg.loadValueReg
      else m.registers r }

/-- A delayed load into a general purpose register. -/
theorem delayedLoad_eq {m : Machine} (h : (m.registers Reg.loadReg).toNat < 32) (nextReg nextValue : BitVec 32) :
    m.delayedLoad nextReg nextValue = .ok (m.loaded nextReg nextValue) := by
  have hi : regIndex (m.registers Reg.loadReg) = .ok ⟨(m.registers Reg.loadReg).toNat, by omega⟩ := dif_pos (by omega)
  unfold delayedLoad
  rw [hi]
  refine congrArg Except.ok (congrArg (fun f => { m with registers := f }) (funext ?_))
  intro r
  simp only [writeRegister, Function.update_apply]
  refine ite_congr rfl (fun _ => rfl) ?_
  intro h0
  by_cases hv : r = Reg.loadValueReg
  · subst hv
    rfl
  · by_cases hr : r = Reg.loadReg
    · subst hr
      rfl
    · rw [if_neg hv, if_neg hr, if_neg hr, if_neg hv]
      exact if_congr (by rw [Fin.ext_iff]) rfl rfl

/-- `Machine::RaiseException`, up to the call of `ExceptionHandler`. -/
def raiseException {α : Type} (m : Machine) (which : ExceptionType) (badVAddr : BitVec 32) : Except Trap α := do
  let m ← liftFault ((m.writeRegister Reg.badVAddrReg badVAddr).delayedLoad 0 0) -- finish anything in progress
  .error (.raise which m)

end Machine

end Nachos
