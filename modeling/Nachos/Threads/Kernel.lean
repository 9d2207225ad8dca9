import Mathlib.Logic.Function.Basic
import Nachos.Fault
import Nachos.Prelude.Transition

/-!
# Threads and the state of the kernel (threads/thread.h, scheduler.h, synch.h, machine/interrupt.h, stats.h)

Kernel code runs without interruption between the places where the interrupt level goes from off to on, because simulated time
advances only there (`Interrupt::OneTick`). So what a thread has left to do is a stack of frames, one for each call it is in, and
a frame stands for the rest of that call after such a place or after a `SWITCH`. `SWITCH` itself is exact: it goes on with the
frames of the other thread.

The code outside the kernel proper (locks, condition variables, drivers, user code) is a parameter, `Client`: what a thread does
between two calls of the kernel, and what the handlers of the devices do.
-/

namespace Nachos

/-- The threads, by the identity of their `Thread` object. -/
abbrev Tid := Nat

/-- The semaphores, by the identity of the `Semaphore` object. -/
abbrev SemId := Nat

/-- `ThreadStatus` (thread.h). -/
inductive ThreadStatus where
  | justCreated
  | running
  | ready
  | blocked
  deriving DecidableEq, Repr

/-- `IntStatus` (interrupt.h). -/
inductive IntStatus where
  | off
  | on
  deriving DecidableEq, Repr

/-- `MachineStatus` (interrupt.h). -/
inductive MachineStatus where
  | idle
  | system
  | user
  deriving DecidableEq, Repr

/-- `UserTick`. -/
abbrev userTick : Int := 1

/-- `SystemTick`. -/
abbrev systemTick : Int := 10

/-- The clock of `class Statistics`, in integers, so that it does not overflow. -/
structure Statistics where
  totalTicks : Int
  idleTicks : Int
  systemTicks : Int
  userTicks : Int
  deriving DecidableEq, Repr

namespace Statistics

/-- `Statistics::Statistics`. -/
def new : Statistics := { totalTicks := 0, idleTicks := 0, systemTicks := 0, userTicks := 0 }

/-- The time of one tick, in `Interrupt::OneTick`. -/
def tick (stats : Statistics) (status : MachineStatus) : Statistics :=
  if status = .system then { stats with totalTicks := stats.totalTicks + systemTick, systemTicks := stats.systemTicks + systemTick }
  else { stats with totalTicks := stats.totalTicks + userTick, userTicks := stats.userTicks + userTick }

/-- The clock is advanced to the next interrupt, in `Interrupt::CheckIfDue`. -/
def advance (stats : Statistics) (when : Int) : Statistics :=
  if when > stats.totalTicks then { stats with idleTicks := stats.idleTicks + (when - stats.totalTicks), totalTicks := when }
  else stats

end Statistics

/-- `class Semaphore`. The value is an `int` there; that it can overflow is left out. The last three fields are history, which no code
reads: the value it was made with and how many calls of `V` and of `P` have changed the value since. -/
structure Semaphore where
  value : Int
  queue : List Tid
  initialValue : Int
  completedV : Nat
  completedP : Nat

/-- `Semaphore::Semaphore`. -/
def Semaphore.new (initialValue : Int) : Semaphore :=
  { value := initialValue, queue := [], initialValue := initialValue, completedV := 0, completedP := 0 }

/-- A call that code of a thread makes into the kernel: on a semaphore, on its own thread, on another thread, on the interrupts
(as `Machine::Run` does between two user instructions), or none. -/
inductive Call (Pc : Type) where
  | none
  | p (s : SemId)
  | v (s : SemId)
  | yield
  | fork (t : Tid) (pc : Pc)
  | finish
  | newSemaphore (s : SemId) (initialValue : Int)
  | deleteSemaphore (s : SemId)
  | setStatus (st : MachineStatus)
  | setLevel (now : IntStatus)
  | oneTick

/-- The code that runs on top of the kernel. A thread is at a program point `Pc`; from there it changes the shared memory and
calls the kernel, in a way that can depend on an input; it can also fail an `ASSERT` of its own. A handler of a device changes
the shared memory and calls `V` on some semaphores. -/
structure Client where
  Shared : Type
  Pc : Type
  Input : Type
  Device : Type
  code : Tid → Shared → Pc → Input → Except Fault (Shared × Call Pc × Pc)
  device : Shared → Device → Shared × List SemId

/-- What a thread does when it goes on with a call. -/
inductive Frame (Pc : Type) where
  /-- The code of the client, from a program point on. -/
  | code (pc : Pc)
  /-- `interrupt->SetLevel(now)`, the last statement of a kernel call. -/
  | setLevel (now : IntStatus)
  /-- The end of `Interrupt::OneTick`, after the yield: `status = oldStatus`. -/
  | restoreStatus (oldStatus : MachineStatus)
  /-- The end of `Scheduler::Run`, after `SWITCH`. -/
  | runTail
  /-- `Thread::Begin`. -/
  | begin
  /-- The loop of `Thread::Sleep`. -/
  | sleep (finishing : Bool)
  /-- The loop of `Semaphore::P`, which will set the level back to `oldLevel`. -/
  | semaphoreP (s : SemId) (oldLevel : IntStatus)

/-- What the scheduler has done, as history. -/
inductive Event where
  | forked (t : Tid)
  | readied (t : Tid)
  | dispatched (t : Tid)
  | finished (t : Tid)
  | deleted (t : Tid)
  deriving DecidableEq

/-- The state of the kernel (kernel.h, and the objects it points to) together with the stacks of the threads. The history, newest
event first, is not read by any code. -/
structure Kernel (c : Client) where
  currentThread : Tid
  readyList : List Tid
  toBeDestroyed : Option Tid
  threadStatus : Tid → ThreadStatus
  stack : Tid → List (Frame c.Pc)
  level : IntStatus
  inHandler : Bool
  yieldOnReturn : Bool
  status : MachineStatus
  stats : Statistics
  semaphore : SemId → Option Semaphore
  shared : c.Shared
  history : List Event

/-- An interrupt that is due: the timer, or a device of the client. -/
inductive Handler (c : Client) where
  | timer
  | device (d : c.Device)

/-- What a step depends on besides the state: the input of the client's code, the interrupts that are due, in order, and for which
time the first of the pending interrupts is scheduled. -/
structure Choice (c : Client) where
  input : c.Input
  due : List (Handler c)
  when : Int := 0

namespace Kernel

variable {c : Client}

/-- The frames of thread `t` become `st`. -/
def setStack (k : Kernel c) (t : Tid) (st : List (Frame c.Pc)) : Kernel c :=
  { k with stack := Function.update k.stack t st }

/-- The frames of the current thread become `st`. -/
def setCurrentStack (k : Kernel c) (st : List (Frame c.Pc)) : Kernel c := k.setStack k.currentThread st

/-- A call: `f` is put on the stack of the current thread. -/
def push (k : Kernel c) (f : Frame c.Pc) : Kernel c := k.setCurrentStack (f :: k.stack k.currentThread)

/-- `thread->setStatus(st)`. -/
def setStatus (k : Kernel c) (t : Tid) (st : ThreadStatus) : Kernel c :=
  { k with threadStatus := Function.update k.threadStatus t st }

/-- `Interrupt::ChangeLevel`. -/
def changeLevel (k : Kernel c) (now : IntStatus) : Kernel c := { k with level := now }

/-- Semaphore `s` becomes `x`. -/
def setSemaphore (k : Kernel c) (s : SemId) (x : Option Semaphore) : Kernel c :=
  { k with semaphore := Function.update k.semaphore s x }

/-- One more event. -/
def record (k : Kernel c) (e : Event) : Kernel c := { k with history := e :: k.history }

/-! ## Scheduler (threads/scheduler.cc) -/

/-- `Scheduler::ReadyToRun`. -/
def readyToRun (k : Kernel c) (thread : Tid) : Except Fault (Kernel c) := do
  assert (k.level = .off)
  let k := k.setStatus thread .ready
  assert (thread ∉ k.readyList) -- the list does not take an item twice
  return { k with readyList := k.readyList ++ [thread] }.record (.readied thread)

/-- `Scheduler::FindNextToRun`. -/
def findNextToRun (k : Kernel c) : Except Fault (Option Tid × Kernel c) := do
  assert (k.level = .off)
  match k.readyList with
  | [] => return (none, k)
  | thread :: rest => return (some thread, { k with readyList := rest })

/-- `Scheduler::Run` up to `SWITCH`; the rest of it stays on the stack of the old thread. -/
def run (k : Kernel c) (nextThread : Tid) (finishing : Bool) : Except Fault (Kernel c) := do
  let oldThread := k.currentThread
  assert (k.level = .off)
  let k ←
    if finishing then do
      assert (k.toBeDestroyed = none)
      pure { k with toBeDestroyed := some oldThread }
    else pure k
  let k := k.setStack oldThread (.runTail :: k.stack oldThread)
  return ({ k with currentThread := nextThread }.setStatus nextThread .running).record (.dispatched nextThread)

/-- `Scheduler::CheckToBeDestroyed`, with the `ASSERT` of `Thread::~Thread`. -/
def checkToBeDestroyed (k : Kernel c) : Except Fault (Kernel c) :=
  match k.toBeDestroyed with
  | none => return k
  | some t => do
    assert (t ≠ k.currentThread)
    return ({ k with toBeDestroyed := none }.setStack t []).record (.deleted t)

/-! ## Semaphores (threads/synch.cc) -/

/-- `Semaphore::V` up to its last statement; the result has the level that is to be set back. -/
def semaphoreV (k : Kernel c) (s : SemId) : Except Fault (IntStatus × Kernel c) :=
  match k.semaphore s with
  | none => .error .nullDereference
  | some x => do
    let oldLevel := k.level
    let k ←
      match x.queue with
      | [] => pure (k.changeLevel .off)
      | thread :: _ => (k.changeLevel .off).readyToRun thread
    let x := { x with value := x.value + 1, queue := x.queue.tail, completedV := x.completedV + 1 }
    return (oldLevel, k.setSemaphore s (some x))

end Kernel

end Nachos
