import Mathlib.Data.Nat.Pairing
import Nachos.Threads.SynchListSafety

/-!
# Code that uses locks and synchronized lists

A client of the kernel put together from the code of Synch, once for each lock or list, and the code that calls it: a driver, or the
post office. Between two of its statements such code calls the kernel, with semaphores of its own, or an operation of Synch, which it
goes on from when that has returned. The monitors and their semaphores are numbered.
-/

namespace Nachos

/-- A call with other names for its semaphores and for the program point of a forked thread. -/
def Call.rename {P Q : Type} (name : SemId → SemId) (point : P → Q) : Call P → Call Q
  | .none => .none
  | .p s => .p (name s)
  | .v s => .v (name s)
  | .yield => .yield
  | .fork t pc => .fork t (point pc)
  | .finish => .finish
  | .newSemaphore s initialValue => .newSemaphore (name s) initialValue
  | .deleteSemaphore s => .deleteSemaphore (name s)
  | .setStatus st => .setStatus st
  | .setLevel now => .setLevel now
  | .oneTick => .oneTick

namespace Synch

variable {T : Type}

/-- The statement at which an operation begins. -/
def Op.entry : Op T → Pc T
  | .none | .yield | .fork _ | .finish => .user
  | .acquire => .acquireP .user
  | .release => .releaseAssert .user
  | .wait => .waitAssert .user
  | .signal => .signal
  | .broadcast => .broadcast false
  | .append item => .acquireP (.append item)
  | .removeFront => .acquireP .removeFront

end Synch

namespace Guarded

/-- The operations on locks, and those of threads. -/
def lockOps : Synch.Op Empty → Bool
  | .none | .yield | .fork _ | .finish | .acquire | .release => true
  | _ => false

theorem lockOps_fork (t : Tid) : lockOps (.fork t) = true := rfl

theorem lockOps_finish : lockOps .finish = true := rfl

theorem lockOps_acquire : lockOps .acquire = true := rfl

theorem lockOps_release : lockOps .release = true := rfl

/-- What the code does next: a call of the kernel, after which it goes on at `pc`, or an operation on monitor `i`, after which it goes
on at a point that depends on what `RemoveFront` has returned, if it was that. -/
inductive Request (T : Type) (ops : Synch.Op T → Bool) (Pc : Type) where
  | call (call : Call Pc) (pc : Pc)
  | operation (i : Nat) (op : Synch.Op T) (h : ops op = true) (next : Option T → Pc)

/-- The code outside of the monitors, and the handlers of its devices. Both may fail an `ASSERT`. -/
structure Code where
  Item : Type
  items : DecidableEq Item
  ops : Synch.Op Item → Bool
  ops_fork : ∀ t, ops (.fork t) = true
  ops_finish : ops .finish = true
  Shared : Type
  Pc : Type
  Input : Type
  Device : Type
  code : Tid → Shared → Pc → Input → Except Fault (Shared × Request Item ops Pc)
  device : Shared → Device → Except Fault (Shared × List SemId)

attribute [instance] Code.items

/-- Where a thread is: outside of the monitors, or inside an operation, with the item removed by it so far. -/
inductive Point (T Pc : Type) where
  | outside (pc : Pc)
  | inside (i : Nat) (pc : Synch.Pc T) (next : Option T → Pc) (item : Option T)

/-- The memory of the code and of all monitors. A handler that fails an `ASSERT` stops the machine; here that is written down, and
the machine goes on. -/
structure Memory (g : Code) where
  own : g.Shared
  monitor : Nat → Synch.Monitor g.Item
  handlerFailed : Bool

/-- The input of the code, and the address that `new` returns to an operation. -/
structure Input (g : Code) where
  own : g.Input
  fresh : SemId

/-- A semaphore of the code outside of the monitors. -/
def ownSemaphore (s : SemId) : SemId := Nat.pair 0 s

/-- A semaphore of monitor `i`. -/
def semaphoreOf (i : Nat) (s : SemId) : SemId := Nat.pair (i + 1) s

variable {g : Code}

/-- The code, with that of the operations it calls. -/
def code (g : Code) (t : Tid) (m : Memory g) :
    Point g.Item g.Pc → Input g → Except Fault (Memory g × Call (Point g.Item g.Pc) × Point g.Item g.Pc)
  | .outside pc, x => do
    let (own, request) ← g.code t m.own pc x.own
    match request with
    | .call call pc => return ({ m with own }, call.rename ownSemaphore .outside, .outside pc)
    | .operation i op _ next => return ({ m with own }, .none, .inside i op.entry next none)
  | .inside _ .user next item, _ => return (m, .none, .outside (next item))
  | .inside i pc next item, x => do
    let (monitor, call, pc') ← Synch.code g.ops t (m.monitor i) pc { op := .none, fresh := x.fresh }
    return ({ m with monitor := Function.update m.monitor i monitor },
      call.rename (semaphoreOf i) (.inside i · next none), .inside i pc' next ((pc.removes (m.monitor i)).or item))

/-- The handlers, which use the semaphores of the code. -/
def device (g : Code) (m : Memory g) (d : g.Device) : Memory g × List SemId :=
  match g.device m.own d with
  | .ok (own, ss) => ({ m with own }, ss.map ownSemaphore)
  | .error _ => ({ m with handlerFailed := true }, [])

/-- The code together with its monitors, as a client of the kernel. -/
abbrev client (g : Code) : Client where
  Shared := Memory g
  Pc := Point g.Item g.Pc
  Input := Input g
  Device := g.Device
  code := code g
  device := device g

/-- A start: all monitors are new, and the main thread is outside of them. -/
def boot (g : Code) (own : g.Shared) (pc : g.Pc) (semaphores : SemId → Option Int) : Boot (client g) where
  shared := { own, monitor := fun _ => .new, handlerFailed := false }
  pc := .outside pc
  semaphores := fun s =>
    match s.unpair with
    | (0, s) => semaphores s
    | (_, s) => if s = Synch.lockSemaphore then some 1 else none

end Guarded

end Nachos
