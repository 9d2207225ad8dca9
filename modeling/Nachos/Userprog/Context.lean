import Nachos.Machine.Machine
import Nachos.Threads.Elsewhere

/-!
# The CPU under several threads (threads/scheduler.cc, thread.cc, userprog/addrspace.cc)

The simulated CPU has one set of registers and one pointer to a page table. `Scheduler::Run` saves the registers of a thread with an
address space in front of `SWITCH`, and restores them, with the page table, behind it. The kernel of Threads/ goes on as it does without
a CPU; here each of its steps is given what it does to the CPU.
-/

namespace Nachos

/-- The address spaces, by the identity of their `AddrSpace` object. -/
abbrev SpaceId := Nat

/-- `class AddrSpace`; the page table is a pointer. -/
structure AddrSpace where
  pageTable : Nat
  numPages : BitVec 32

/-- The CPU (machine.h), the address spaces, and the fields of the threads for user programs (thread.h). -/
structure Cpu where
  registers : Reg → BitVec 32
  pageTable : Option Nat
  pageTableSize : BitVec 32
  addrSpace : SpaceId → AddrSpace
  space : Tid → Option SpaceId
  userRegisters : Tid → Reg → BitVec 32

/-- `for (int i = 0; i < NumTotalRegs; i++) to[i] = from[i]`. -/
def copyRegisters (dst src : Reg → BitVec 32) : Reg → BitVec 32 :=
  (List.finRange 40).foldl (fun dst i => Function.update dst i (src i)) dst

namespace Cpu

/-- `Machine::WriteRegister`. -/
def writeRegister (m : Cpu) (num : Reg) (value : BitVec 32) : Cpu := { m with registers := Function.update m.registers num value }

/-! ## Thread -/

/-- `Thread::SaveUserState`. -/
def saveUserState (m : Cpu) (t : Tid) : Cpu :=
  { m with userRegisters := Function.update m.userRegisters t (copyRegisters (m.userRegisters t) m.registers) }

/-- `Thread::RestoreUserState`. -/
def restoreUserState (m : Cpu) (t : Tid) : Cpu := { m with registers := copyRegisters m.registers (m.userRegisters t) }

/-! ## AddrSpace -/

/-- `AddrSpace::AddrSpace`; the page table is new. -/
def newAddrSpace (m : Cpu) (space : SpaceId) (pageTable : Nat) : Cpu :=
  { m with addrSpace := Function.update m.addrSpace space { m.addrSpace space with pageTable } }

/-- `AddrSpace::Load`, of a program of this size. -/
def load (m : Cpu) (space : SpaceId) (numPages : BitVec 32) : Cpu :=
  { m with addrSpace := Function.update m.addrSpace space { m.addrSpace space with numPages } }

/-- `AddrSpace::SaveState`. -/
def saveState (m : Cpu) (_ : SpaceId) : Cpu := m

/-- `AddrSpace::RestoreState`. -/
def restoreState (m : Cpu) (space : SpaceId) : Cpu :=
  { m with pageTable := some (m.addrSpace space).pageTable, pageTableSize := (m.addrSpace space).numPages }

/-- `AddrSpace::InitRegisters`. -/
def initRegisters (m : Cpu) (space : SpaceId) : Cpu :=
  let m := { m with registers := copyRegisters m.registers fun _ => 0 }
  let m := m.writeRegister Reg.pcReg 0
  let m := m.writeRegister Reg.nextPCReg 4
  m.writeRegister Reg.stackReg ((m.addrSpace space).numPages * BitVec.ofNat 32 pageSize - 16)

/-- `AddrSpace::Execute`, up to `Machine::Run`. -/
def execute (m : Cpu) (currentThread : Tid) (space : SpaceId) : Cpu :=
  let m := { m with space := Function.update m.space currentThread (some space) }
  (m.initRegisters space).restoreState space

/-! ## Scheduler -/

/-- `Scheduler::Run` in front of `SWITCH`. -/
def switchOut (m : Cpu) (oldThread : Tid) : Cpu :=
  match m.space oldThread with
  | none => m
  | some space => (m.saveUserState oldThread).saveState space

/-- `Scheduler::Run` behind `SWITCH`. -/
def switchIn (m : Cpu) (oldThread : Tid) : Cpu :=
  match m.space oldThread with
  | none => m
  | some space => (m.restoreUserState oldThread).restoreState space

end Cpu

/-! ## The code of a thread -/

/-- What the code of a thread does to the CPU: a user instruction or a handler of a system call writes a register, and the main program
sets up an address space, loads it and runs in it. -/
inductive Work where
  | writeRegister (num : Reg) (value : BitVec 32)
  | newAddrSpace (space : SpaceId) (pageTable : Nat)
  | load (space : SpaceId) (numPages : BitVec 32)
  | execute (space : SpaceId)

namespace Cpu

/-- Work of the current thread. -/
def work (currentThread : Tid) (m : Cpu) : Work → Cpu
  | .writeRegister num value => m.writeRegister num value
  | .newAddrSpace space pageTable => m.newAddrSpace space pageTable
  | .load space numPages => m.load space numPages
  | .execute space => m.execute currentThread space

/-- `new` returns an object that is not in use, and programs are loaded into an address space before it is executed. -/
def Allowed (m : Cpu) : Work → Prop
  | .newAddrSpace space _ | .load space _ => ∀ t, m.space t ≠ some space
  | .writeRegister _ _ | .execute _ => True

/-- The work is allowed, piece by piece. -/
def AllowedAll (currentThread : Tid) (m : Cpu) : List Work → Prop
  | [] => True
  | w :: ws => m.Allowed w ∧ (m.work currentThread w).AllowedAll currentThread ws

end Cpu

/-! ## Steps -/

/-- The kernel and the CPU. -/
structure Context (c : Client) where
  kernel : Kernel c
  cpu : Cpu

namespace Context

variable {c : Client}

/-- What the current thread does to the CPU up to the next call of `Scheduler::Run`: what its code does, or what the rest of a call of
`Scheduler::Run` does. -/
def worked (x : Context c) (ws : List Work) : Cpu :=
  match x.kernel.stack x.kernel.currentThread with
  | .code _ :: _ => ws.foldl (Cpu.work x.kernel.currentThread) x.cpu
  | .runTail :: _ => x.cpu.switchIn x.kernel.currentThread
  | _ => x.cpu

/-- The current thread goes on. It has called `Scheduler::Run` if it is left inside of it. -/
def step (x : Context c) (ch : Choice c) (ws : List Work) : Except Fault (Context c) := do
  let oldThread := x.kernel.currentThread
  let kernel ← x.kernel.step ch
  let cpu := x.worked ws
  return { kernel, cpu := if kernel.inRun oldThread then cpu.switchOut oldThread else cpu }

/-- A step that the program allows. -/
def Step (x x' : Context c) : Prop :=
  ∃ ch ws, x.kernel.AllowedStep ch ∧ x.cpu.AllowedAll x.kernel.currentThread ws ∧ x.step ch ws = .ok x'

/-- The runs from a start of the client; the constructor of the machine has cleared the registers, and no thread has an address
space. -/
def system (b : Boot c) : Transition.System (Context c) where
  init x := x.kernel = b.kernel ∧ x.cpu.registers = (fun _ => 0) ∧ x.cpu.pageTable = none ∧ ∀ t, x.cpu.space t = none
  step := Step

/-- Every run of the kernel is the kernel of a run with a CPU, and the other way around. -/
theorem kernel_simulation (b : Boot c) : Transition.Simulation (system b) (Kernel.system b) Context.kernel := by
  refine ⟨fun x h => h.1, ?_⟩
  rintro x x' - ⟨ch, ws, hallowed, -, h⟩
  unfold step at h
  obtain ⟨k, hk, h⟩ := Loop.of_bind_ok h
  cases h
  exact .single ⟨ch, hallowed, hk⟩

theorem exists_step {x : Context c} {k : Kernel c} {ch : Choice c} (hallowed : x.kernel.AllowedStep ch)
    (h : x.kernel.step ch = .ok k) : ∃ cpu, Step x ⟨k, cpu⟩ := by
  have hstep : x.step ch [] = .ok ⟨k, if k.inRun x.kernel.currentThread then (x.worked []).switchOut x.kernel.currentThread
      else x.worked []⟩ := by
    unfold step
    rw [h]
    rfl
  exact ⟨_, ch, [], hallowed, trivial, hstep⟩

end Context

end Nachos
