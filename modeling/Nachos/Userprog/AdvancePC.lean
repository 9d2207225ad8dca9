import Nachos.Machine.Instructions
import Nachos.Userprog.CallSteps

/-!
# System calls in delay slots (IncreasePC of threads/kernel.cc, OneInstruction of machine/mipssim.cc)

A completed instruction takes the next program counter from `NextPCReg`, `IncreasePC` from `PCReg`. They agree unless the system call
stands behind a branch.
-/

namespace Nachos

open Bytes Loop Machine

namespace Machine

/-- The program counters go on as behind an instruction that is no branch. -/
structure Continues (m m' : Machine) : Prop where
  prevPC : m'.registers Reg.prevPCReg = m.registers Reg.pcReg
  pc : m'.registers Reg.pcReg = m.registers Reg.nextPCReg
  nextPC : m'.registers Reg.nextPCReg = m.registers Reg.nextPCReg + 4

/-- An instruction that completes and is no branch. -/
theorem continues_of_oneInstruction {m m' : Machine} (hl : (m.registers Reg.loadReg).toNat < 32) {raw : BitVec 32}
    (hf : m.fetched = some raw) (hbranch : (decode raw).opCode.isBranch = false) (h : m.oneInstruction = .ok m') : Continues m m' := by
  obtain ⟨raw', m₀, x, hf', hx, rfl⟩ := of_oneInstruction hl h
  obtain rfl : raw = raw' := Option.some.inj (hf.symm.trans (fetched_eq_some.2 ⟨m₀, hf'⟩))
  have hexec := (m₀.execute_stops _ (decode_ne_rfe raw)).of_ok hx
  have hregs := (of_readMem hf').2.2.1.registers
  have hcontrol (r : Reg) (hr : 34 ≤ r.val) : x.m.registers r = m.registers r := by rw [hexec.sameControl.control r hr, hregs]
  have hlx : (x.m.registers Reg.loadReg).toNat < 32 := by
    rw [hcontrol _ (by decide)]
    exact hl
  have hloaded (r : Reg) (hr : 34 ≤ r.val) (hreg : r ≠ Reg.loadReg) (hvalue : r ≠ Reg.loadValueReg) :
      (x.m.loaded x.nextLoadReg x.nextLoadValue).registers r = m.registers r :=
    (loaded_control hlx _ _ (by omega) hreg hvalue).trans (hcontrol r hr)
  refine ⟨hloaded Reg.pcReg (by decide) (by decide) (by decide), hloaded Reg.nextPCReg (by decide) (by decide) (by decide), ?_⟩
  exact (hexec.pcAfter hbranch).trans (by rw [hregs])

/-- The kernel finds the program counters as the instruction found them. -/
theorem Precise.programCounters {m m' : Machine} (hl : (m.registers Reg.loadReg).toNat < 32) (h : Precise m m') :
    m'.registers Reg.pcReg = m.registers Reg.pcReg ∧ m'.registers Reg.nextPCReg = m.registers Reg.nextPCReg := by
  have hkept (r : Reg) (hr : 32 ≤ r.val) (hbad : r ≠ Reg.badVAddrReg) (hreg : r ≠ Reg.loadReg) (hvalue : r ≠ Reg.loadValueReg) :
      m'.registers r = m.registers r := by rw [h.registers r hbad, committed_eq, loaded_control hl 0 0 hr hreg hvalue]
  exact ⟨hkept _ (by decide) (by decide) (by decide) (by decide), hkept _ (by decide) (by decide) (by decide) (by decide)⟩

end Machine

namespace System

variable {C : FileSystemClass}

/-- A system call that is handled advances the program counter. -/
theorem advanced_of_exceptionHandler {s s' : System C} {fresh : Fresh} {code : SyscallCode} (hcode : code ∈ SyscallCode.cases)
    (hr : s.readRegister 2 = code.number) (h : s.exceptionHandler .syscallException fresh = .ok s') : Advanced s s' := by
  obtain ⟨-, hsel⟩ | ⟨code', s₁, -, hs₁, rfl⟩ := of_exceptionHandler h
  · exact absurd hr.symm (SyscallCode.select_eq_none.1 hsel code hcode)
  · exact .of_answers ((s.systemCall_answers fresh code').of_ok hs₁) s₁.increasePC_advanced

/-- `IncreasePC` goes on like an instruction exactly if the next instruction is the one behind this one. -/
theorem Advanced.continues_iff {s s' : System C} (h : Advanced s s') :
    Continues s.machine s'.machine ↔ s.readRegister Reg.nextPCReg = s.readRegister Reg.pcReg + 4 := by
  have hnext : s'.readRegister Reg.nextPCReg = s.readRegister Reg.pcReg + 4 + 4 := by rw [h.nextPC, h.pc]
  constructor
  · intro hc
    exact hc.pc.symm.trans h.pc
  · intro hseq
    exact ⟨h.prevPC, h.pc.trans hseq.symm, hnext.trans (congrArg (· + 4) hseq.symm)⟩

/-- A system call that is handled goes on like an instruction exactly if it does not stand in the delay slot of a branch to another
place. -/
theorem syscall_continues_iff {s s' : System C} {fresh : Fresh} {code : SyscallCode} (hcode : code ∈ SyscallCode.cases)
    (hr : s.readRegister 2 = code.number) (h : s.exceptionHandler .syscallException fresh = .ok s') :
    (Continues s.machine s'.machine ↔ s.readRegister Reg.nextPCReg = s.readRegister Reg.pcReg + 4) ∧
      ∀ m : Machine, (m.registers Reg.loadReg).toNat < 32 → m.oneInstruction = .error (.raise .syscallException s.machine) →
        (Continues m s'.machine ↔ m.registers Reg.nextPCReg = m.registers Reg.pcReg + 4) := by
  have hiff := (advanced_of_exceptionHandler hcode hr h).continues_iff
  refine ⟨hiff, fun m hl hraise => ?_⟩
  obtain ⟨hpc, hnext⟩ := Precise.programCounters hl ((oneInstruction_ends hl).of_error hraise)
  have hsame : Continues m s'.machine ↔ Continues s.machine s'.machine := by
    constructor
    · exact fun hc => ⟨hc.prevPC.trans hpc.symm, hc.pc.trans hnext.symm, hc.nextPC.trans (congrArg (· + 4) hnext.symm)⟩
    · exact fun hc => ⟨hc.prevPC.trans hpc, hc.pc.trans hnext, hc.nextPC.trans (congrArg (· + 4) hnext)⟩
  rw [hsame, hiff, readRegister, readRegister, hpc, hnext]

/-- A machine at the instruction `syscall`, with the code of `Add`, where the next instruction is at `nextPC`. -/
def addCall (nextPC : BitVec 32) : Machine :=
  (ofProgram (callRegisters SyscallCode.add.number 1 2 0) fun j => if j = 0 then 0x0c else 0).writeRegister Reg.nextPCReg nextPC

/-- The system when the kernel is entered from it. -/
def addSystem (nextPC : BitVec 32) : System (stub Name) :=
  ⟨(addCall nextPC).loaded 0 0, ⟨fun _ => none, Posix.Host.empty⟩, fun _ => 0, []⟩

theorem syscall_continues_iff_four :
    ∃ s', (addSystem 4).exceptionHandler .syscallException .zero = .ok s' ∧ Continues (addSystem 4).machine s'.machine := by
  have h : (addSystem 4).exceptionHandler .syscallException .zero = .ok _ := rfl
  exact ⟨_, h, (syscall_continues_iff (show SyscallCode.add ∈ SyscallCode.cases by decide) rfl h).1.2 rfl⟩

/-- Behind a branch to 400, the call of `Add` loses the branch. -/
theorem not_syscall_continues : ¬∀ (s s' : System (stub Name)) (fresh : Fresh) (code : SyscallCode), code ∈ SyscallCode.cases →
    s.readRegister 2 = code.number → s.exceptionHandler .syscallException fresh = .ok s' → Continues s.machine s'.machine := by
  intro h
  have hc := h (addSystem 400) _ .zero .add (by decide) rfl rfl
  exact absurd hc.pc (by decide)

end System

end Nachos
