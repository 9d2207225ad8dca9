import Nachos.Lib.SortedList
import Nachos.Prelude.Outcome
import Nachos.Threads.Kernel

/-!
# The interrupt queue and simulated time (machine/interrupt.h, interrupt.cc, stats.h)

The devices schedule interrupts for a later time; whenever time advances, those that are due fire. What a handler does besides, and
what the kernel does between two calls, is a parameter. Times are integers, so that they do not overflow.
-/

namespace Nachos

open Loop

/-- `IntType`. -/
inductive IntType where
  | timer
  | disk
  | consoleWrite
  | consoleRead
  | networkSend
  | networkRecv
  deriving DecidableEq, Repr

/-- `class PendingInterrupt`. The address tells the objects apart: they are allocated one after the other. -/
structure PendingInterrupt (Obj : Type) where
  addr : Nat
  callOnInterrupt : Obj
  when : Int
  type : IntType
  deriving DecidableEq

/-- `PendingCompare`. -/
def pendingCompare {Obj : Type} (x y : PendingInterrupt Obj) : Int :=
  if x.when < y.when then -1 else if x.when > y.when then 1 else 0

/-- What the call of a handler does: it changes the rest of the world, calls `Schedule` some times, and may call `YieldOnReturn`. -/
structure CallBack (World Obj : Type) where
  world : World
  scheduled : List (Obj × Int × IntType)
  yields : Bool

/-- The objects that can be called on an interrupt. -/
structure Devices (World : Type) where
  Obj : Type
  callBack : Obj → World → CallBack World Obj
  [decEq : DecidableEq Obj]

variable {World : Type}

instance (d : Devices World) : DecidableEq d.Obj := d.decEq

/-- `class Interrupt`, with the clock of `class Statistics`. The last two fields are history: how many interrupts have been
scheduled, and those that have fired, the oldest first, with the time at which they did. -/
structure Interrupt (d : Devices World) where
  level : IntStatus
  pending : List (PendingInterrupt d.Obj)
  inHandler : Bool
  yieldOnReturn : Bool
  status : MachineStatus
  totalTicks : Int
  idleTicks : Int
  systemTicks : Int
  userTicks : Int
  world : World
  allocated : Nat
  fired : List (PendingInterrupt d.Obj × Int)

namespace Interrupt

variable {d : Devices World}

/-- `Interrupt::Interrupt` and `Statistics::Statistics`. -/
def new (world : World) : Interrupt d where
  level := .off
  pending := []
  inHandler := false
  yieldOnReturn := false
  status := .system
  totalTicks := 0
  idleTicks := 0
  systemTicks := 0
  userTicks := 0
  world := world
  allocated := 0
  fired := []

/-- `Interrupt::Schedule`. -/
def schedule (s : Interrupt d) (toCall : d.Obj) (fromNow : Int) (type : IntType) : Except Fault (Interrupt d) := do
  let toOccur := { addr := s.allocated, callOnInterrupt := toCall, when := s.totalTicks + fromNow, type }
  assert (fromNow > 0)
  let pending ← SortedList.insert pendingCompare toOccur s.pending
  return { s with pending, allocated := s.allocated + 1 }

/-- The body of the loop of `CheckIfDue`. -/
def fire (s : Interrupt d) : Except Fault (Interrupt d) :=
  match s.pending with
  | [] => .error .assertFailed -- `RemoveFront`
  | next :: pending =>
    let called := d.callBack next.callOnInterrupt s.world -- call the interrupt handler
    let s := { s with pending, world := called.world, fired := s.fired ++ [(next, s.totalTicks)] }
    let s := { s with yieldOnReturn := s.yieldOnReturn || called.yields }
    called.scheduled.foldlM (fun s (toCall, fromNow, type) => s.schedule toCall fromNow type) s

/-- The loop of `CheckIfDue`, with a bound on its rounds. -/
def drain : Nat → Interrupt d → Except Fault (Interrupt d)
  | 0, s => .ok s
  | n + 1, s => do
    let s ← s.fire
    match s.pending with
    | [] => return s
    | next :: _ => if next.when ≤ s.totalTicks then drain n s else return s

/-- `Interrupt::CheckIfDue`; the loop runs at most once for each entry of the list, since nothing that a handler schedules is due. -/
def checkIfDue (s : Interrupt d) (advanceClock : Bool) : Except Fault (Bool × Interrupt d) := do
  assert (s.level = .off)
  match s.pending with
  | [] => return (false, s) -- no pending interrupts
  | next :: _ =>
    if next.when > s.totalTicks ∧ advanceClock = false then return (false, s) -- not time yet
    else
      -- advance the clock to next interrupt
      let s :=
        if next.when > s.totalTicks then
          { s with idleTicks := s.idleTicks + (next.when - s.totalTicks), totalTicks := next.when }
        else s
      let s ← drain s.pending.length { s with inHandler := true }
      return (true, { s with inHandler := false })

/-- `Interrupt::ChangeLevel`. -/
def changeLevel (s : Interrupt d) (now : IntStatus) : Interrupt d := { s with level := now }

/-- `Interrupt::OneTick`, up to the call of `Yield`; the assignment of the old status after it is left to what comes next. -/
def oneTick (s : Interrupt d) : Except Fault (Interrupt d) := do
  -- advance simulated time
  let s :=
    if s.status = .system then { s with totalTicks := s.totalTicks + systemTick, systemTicks := s.systemTicks + systemTick }
    else { s with totalTicks := s.totalTicks + userTick, userTicks := s.userTicks + userTick }
  let (_, s) ← (s.changeLevel .off).checkIfDue false
  let s := s.changeLevel .on
  if s.yieldOnReturn then return { s with yieldOnReturn := false, status := .system } else return s

/-- `Interrupt::SetLevel`. -/
def setLevel (s : Interrupt d) (now : IntStatus) : Except Fault (Interrupt d) := do
  -- interrupt handlers are prohibited from enabling interrupts
  assert (now = .off ∨ s.inHandler = false)
  if now = .on ∧ s.level = .off then (s.changeLevel now).oneTick else return s.changeLevel now

/-- `Interrupt::Idle`. -/
def idle (s : Interrupt d) : Except Fault (Interrupt d) := do
  let (fired, s) ← { s with status := .idle }.checkIfDue true
  if fired then return { s with status := .system } else .error .halted

/-! ## Runs -/

/-- What happens to the queue from outside: the calls, and the kernel going on in between with another world and status. -/
inductive Operation (d : Devices World) where
  | schedule (toCall : d.Obj) (fromNow : Int) (type : IntType)
  | oneTick
  | setLevel (now : IntStatus)
  | idle
  | resume (world : World) (status : MachineStatus)

/-- One operation. -/
def perform (s : Interrupt d) : Operation d → Except Fault (Interrupt d)
  | .schedule toCall fromNow type => s.schedule toCall fromNow type
  | .oneTick => s.oneTick
  | .setLevel now => s.setLevel now
  | .idle => s.idle
  | .resume world status => .ok { s with world, status }

/-- The runs of the event queue. -/
def system (d : Devices World) : Transition.System (Interrupt d) where
  init s := ∃ world, s = new world
  step s s' := ∃ op, s.perform op = .ok s'

end Interrupt

end Nachos
