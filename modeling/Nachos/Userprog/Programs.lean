import Nachos.Machine.Mips
import Nachos.Userprog.Context

/-!
# The registers under several user programs (machine/mipssim.cc, machine.cc, interrupt.cc, userprog/exception.cc)

`Machine::Run` of a thread executes instructions, which raise exceptions; the kernel answers a system call in register 2 and advances
the program counter. Interrupts finish a pending load and threads are switched at any time, in the kernel too. What is in memory, and
what the page tables say, is left open.
-/

namespace Nachos

open Machine

/-- Where a thread is in `Machine::Run`: between two instructions, or in `ExceptionHandler`. -/
inductive Phase where
  | user
  | kernel (which : ExceptionType)

/-- The CPU and the threads. `answer` is what the handler of a system call has written to register 2 since the thread executed an
instruction. -/
structure Programs where
  cpu : Cpu
  currentThread : Tid
  phase : Tid → Phase
  answer : Tid → Option (BitVec 32)

/-- `Kernel::IncreasePC`, on the registers. -/
def Cpu.increasePC (m : Cpu) : Cpu :=
  let m := m.writeRegister Reg.prevPCReg (m.registers Reg.pcReg)
  let m := m.writeRegister Reg.pcReg (m.registers Reg.pcReg + 4)
  m.writeRegister Reg.nextPCReg (m.registers Reg.pcReg + 4)

namespace Programs

/-- The current thread executes an instruction next. -/
def Running (x : Programs) : Prop := x.cpu.space x.currentThread ≠ none ∧ x.phase x.currentThread = .user

/-- The current thread is in the handler of a system call. -/
def Handling (x : Programs) : Prop :=
  x.cpu.space x.currentThread ≠ none ∧ x.phase x.currentThread = .kernel .syscallException

/-- The current thread goes on with this CPU, phase and answer. -/
def goesOn (x : Programs) (cpu : Cpu) (phase : Phase) (answer : Option (BitVec 32)) : Programs :=
  { x with
    cpu
    phase := Function.update x.phase x.currentThread phase
    answer := Function.update x.answer x.currentThread answer }

/-- `Scheduler::Run`, from one thread to another. -/
def switch (x : Programs) (nextThread : Tid) : Programs :=
  { x with cpu := (x.cpu.switchOut x.currentThread).switchIn nextThread, currentThread := nextThread }

/-- What can happen. -/
inductive Step : Programs → Programs → Prop
  | execute (x : Programs) (space : SpaceId) : Step x (x.goesOn (x.cpu.execute x.currentThread space) .user none)
  | instruction {x : Programs} {m m' : Machine} (hx : x.Running) (hm : m.registers = x.cpu.registers) (h : m.oneInstruction = .ok m') :
      Step x (x.goesOn { x.cpu with registers := m'.registers } .user none)
  | exception {x : Programs} {m m' : Machine} {which : ExceptionType} (hx : x.Running) (hm : m.registers = x.cpu.registers)
      (h : m.oneInstruction = .error (.raise which m')) :
      Step x (x.goesOn { x.cpu with registers := m'.registers } (.kernel which) none)
  -- a handler writes no other register than register 2, and may do so several times
  | answer {x : Programs} (hx : x.Handling) (value : BitVec 32) :
      Step x (x.goesOn (x.cpu.writeRegister 2 value) (.kernel .syscallException) (some value))
  | returned {x : Programs} (hx : x.Handling) : Step x (x.goesOn x.cpu.increasePC .user (x.answer x.currentThread))
  -- an unexpected system call returns at once
  | unexpected {x : Programs} (hx : x.Handling) : Step x (x.goesOn x.cpu .user (x.answer x.currentThread))
  -- `CheckIfDue`
  | interrupt {x : Programs} {m m' : Machine} (hm : m.registers = x.cpu.registers) (h : m.delayedLoad 0 0 = .ok m') :
      Step x { x with cpu := { x.cpu with registers := m'.registers } }
  | switch (x : Programs) (nextThread : Tid) : Step x (x.switch nextThread)

/-- The runs from the start, where the constructor of the machine has cleared the registers, and no thread has an address space. -/
def system : Transition.System Programs where
  init x := x.cpu.registers = (fun _ => 0) ∧ (∀ t, x.cpu.space t = none) ∧ ∀ t, x.answer t = none
  step := Step

end Programs

end Nachos
