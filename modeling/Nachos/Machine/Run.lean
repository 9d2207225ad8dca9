import Nachos.Threads.LevelSafety

/-!
# Running user programs, and the time they take (machine/mipssim.cc, machine.cc, interrupt.cc)

`Machine::Run` goes back and forth between user instructions and `Interrupt::OneTick`, and an instruction that raises an exception
calls the code of the kernel in between. Here this is a client of the kernel, over any code of the kernel and any instructions: what
is fixed is where the status of the machine is set, and where a tick is called.
-/

namespace Nachos

open Loop Transition

variable {Pc : Type}

/-- The calls that are left to `Machine::Run` and `Machine::RaiseException`. -/
def Call.isMachine : Call Pc → Bool
  | .setStatus _ | .oneTick => true
  | _ => false

/-- What the code of the kernel does next: a call, after which it goes on; or it runs a user program; or it returns. -/
inductive Request (Pc : Type) where
  | call (call : Call Pc) (h : call.isMachine = false) (pc : Pc)
  | run
  | return

/-- The code of the kernel outside of what is modelled here, for example `ExceptionHandler`, and the user instructions. An instruction
changes the shared state, which includes the registers and the memory, and may raise an exception, for which the code of the kernel
is called at the program point given. -/
structure KernelCode where
  Shared : Type
  Pc : Type
  Input : Type
  Device : Type
  code : Tid → Shared → Pc → Input → Except Fault (Shared × Request Pc)
  oneInstruction : Tid → Shared → Input → Except Fault (Shared × Option Pc)
  device : Shared → Device → Shared × List SemId

/-- Where a thread is: in the code of the kernel, called by `ExceptionHandler` or not, or in one of the statements of `Machine::Run`. -/
inductive Point (Pc : Type) where
  | kernel (inHandler : Bool) (pc : Pc)
  | run
  | oneInstruction
  | oneTick

/-- A call, with the program point at which a forked thread starts. -/
def Call.toPoint : Call Pc → Call (Point Pc)
  | .none => .none
  | .p s => .p s
  | .v s => .v s
  | .yield => .yield
  | .fork t pc => .fork t (.kernel false pc)
  | .finish => .finish
  | .newSemaphore s initialValue => .newSemaphore s initialValue
  | .deleteSemaphore s => .deleteSemaphore s
  | .setStatus st => .setStatus st
  | .setLevel now => .setLevel now
  | .oneTick => .oneTick

/-- The machine that runs user programs. -/
def machine (os : KernelCode) : Client where
  Shared := os.Shared
  Pc := Point os.Pc
  Input := os.Input
  Device := os.Device
  code := fun t shared pc input =>
    match pc with
    | .kernel inHandler pc => do
      let (shared, request) ← os.code t shared pc input
      match request with
      | .call call _ pc => return (shared, call.toPoint, .kernel inHandler pc)
      | .run => return (shared, .none, .run)
      | .return =>
        -- back in RaiseException, or in ThreadRoot
        if inHandler then return (shared, .setStatus .user, .oneTick) else return (shared, .finish, .kernel inHandler pc)
    | .run => return (shared, .setStatus .user, .oneInstruction)
    | .oneInstruction => do
      let (shared, exception) ← os.oneInstruction t shared input
      match exception with
      | none => return (shared, .none, .oneTick)
      | some pc => return (shared, .setStatus .system, .kernel true pc) -- RaiseException
    | .oneTick => return (shared, .oneTick, .oneInstruction)
  device := os.device

/-- A start of the machine: the main thread is in the code of the kernel. -/
def KernelCode.boot (os : KernelCode) (shared : os.Shared) (pc : os.Pc) (semaphores : SemId → Option Int) : Boot (machine os) where
  shared := shared
  pc := .kernel false pc
  semaphores := semaphores

/-! ## Iterations -/

/-- A call of `OneTick` by `Machine::Run`. -/
def Call.isOneTick : Option (Call Pc) → Bool
  | some .oneTick => true
  | _ => false

/-- The runs of the machine, with the number of the iterations of the loop of `Machine::Run` that have reached `OneTick`, in all
threads. -/
def iterations {os : KernelCode} (b : Boot (machine os)) : System (Kernel (machine os) × Nat) where
  init := fun x => x.1 = b.kernel ∧ x.2 = 0
  step := fun x y => ∃ ch, x.1.AllowedStep ch ∧ x.1.step ch = .ok y.1 ∧
    y.2 = x.2 + if Call.isOneTick (x.1.nextCall ch) then 1 else 0

/-- Counting does not keep the machine from running. -/
theorem iterations_reachable {os : KernelCode} {b : Boot (machine os)} {k : Kernel (machine os)} :
    (Kernel.system b).Reachable k ↔ ∃ n, (iterations b).Reachable (k, n) := by
  constructor
  · intro hk
    induction hk with
    | init h => exact ⟨0, .init ⟨h, rfl⟩⟩
    | step hk hstep ih =>
      obtain ⟨n, hn⟩ := ih
      obtain ⟨ch, hallowed, hstep⟩ := hstep
      exact ⟨_, hn.step ⟨ch, hallowed, hstep, rfl⟩⟩
  · rintro ⟨n, hn⟩
    generalize hx : (k, n) = x at hn
    obtain rfl : x.1 = k := by rw [← hx]
    clear hx
    induction hn with
    | init h => exact .init h.1
    | step hn hstep ih =>
      obtain ⟨ch, hallowed, hstep, -⟩ := hstep
      exact ih.step ⟨ch, hallowed, hstep⟩

end Nachos
