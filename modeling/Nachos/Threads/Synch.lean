import Nachos.Threads.Refinement

/-!
# Locks, condition variables and synchronized lists (threads/synch.cc, synchlist.cc)

The code of `Lock`, `Condition` and `SynchList` as a client of the kernel: one lock, one condition used with it, and one list.
A thread is at a statement of one of their functions, with the calls that it has to return from, or in user code, from where it
calls any of them; the operations that user code is granted are a parameter. Statements between which there is no kernel call,
and so no place to lose the processor, can be one step.
-/

namespace Nachos

namespace Synch

variable {T : Type}

/-- The identity of the semaphore of the lock. -/
abbrev lockSemaphore : SemId := 0

/-- The caller of `Condition::Wait`. -/
inductive WaitFrom where
  | user
  | removeFront
  deriving DecidableEq

/-- The caller of `Lock::Acquire`. -/
inductive AcquireFrom (T : Type) where
  | user
  | append (item : T)
  | removeFront
  | wait (waiter : SemId) (f : WaitFrom)

/-- The caller of `Lock::Release`. -/
inductive ReleaseFrom where
  | user
  | append
  | removeFront
  | wait (waiter : SemId) (f : WaitFrom)

/-- The statement a thread is about to execute. The flag of the two loops is history: whether this is not the first round. -/
inductive Pc (T : Type) where
  | user
  /-- `Lock::Acquire`: `semaphore->P()`. -/
  | acquireP (f : AcquireFrom T)
  /-- `Lock::Acquire`: `lockHolder = kernel->currentThread`. -/
  | acquireHolder (f : AcquireFrom T)
  /-- `Lock::Release`: `ASSERT(IsHeldByCurrentThread())`. -/
  | releaseAssert (f : ReleaseFrom)
  /-- `Lock::Release`: `lockHolder = NULL`. -/
  | releaseHolder (f : ReleaseFrom)
  /-- `Lock::Release`: `semaphore->V()`. -/
  | releaseV (f : ReleaseFrom)
  /-- `Condition::Wait`: `ASSERT(conditionLock->IsHeldByCurrentThread())`. -/
  | waitAssert (f : WaitFrom)
  /-- `Condition::Wait`: `waiter = new Semaphore("condition", 0)`. -/
  | waitNew (f : WaitFrom)
  /-- `Condition::Wait`: `waitQueue->Append(waiter)`. -/
  | waitAppend (waiter : SemId) (f : WaitFrom)
  /-- `Condition::Wait`: `waiter->P()`. -/
  | waitP (waiter : SemId) (f : WaitFrom)
  /-- `Condition::Wait`: `delete waiter`. -/
  | waitDelete (waiter : SemId) (f : WaitFrom)
  /-- `Condition::Signal`. -/
  | signal
  /-- `Condition::Broadcast`: a round of its loop, with the `Signal` in it. -/
  | broadcast (again : Bool)
  /-- `SynchList::Append`: `list->Append(item)` and the `Signal` after it. -/
  | append (item : T)
  /-- `SynchList::RemoveFront`: a round of its loop, or `list->RemoveFront()` after it. -/
  | removeFront (again : Bool)

/-- Where `Lock::Acquire` returns to. -/
def AcquireFrom.next : AcquireFrom T → Pc T
  | .user => .user
  | .append item => .append item
  | .removeFront => .removeFront false
  | .wait waiter f => .waitDelete waiter f

/-- Where `Lock::Release` returns to. -/
def ReleaseFrom.next : ReleaseFrom → Pc T
  | .user => .user
  | .append => .user
  | .removeFront => .user
  | .wait waiter f => .waitP waiter f

/-- Where `Condition::Wait` returns to. -/
def WaitFrom.next : WaitFrom → Pc T
  | .user => .user
  | .removeFront => .removeFront true

/-- What has happened on the condition, as history: a thread has put its semaphore on `waitQueue`, a `Signal` has released a
waiter or found none, a `Broadcast` has begun with this queue, which was not empty, or has ended. -/
inductive CondEvent where
  | waits (t : Tid) (waiter : SemId)
  | signals (t : Tid) (waiter : Option SemId)
  | broadcasts (t : Tid) (waitQueue : List SemId)
  | broadcastEnds (t : Tid)

/-- The lock, the condition and the list. The last four fields are history, which no code reads: the threads that have returned from
the assignment in `Acquire` and not come to the `V` in `Release`, what has happened on the condition, newest first, and the items
appended and removed so far, in order. -/
structure Monitor (T : Type) where
  lockHolder : Option Tid
  waitQueue : List SemId
  list : List T
  critical : List Tid
  log : List CondEvent
  appended : List T
  removed : List T

/-- `Lock::Lock`, `Condition::Condition` and `SynchList::SynchList`. -/
def Monitor.new : Monitor T :=
  { lockHolder := none, waitQueue := [], list := [], critical := [], log := [], appended := [], removed := [] }

namespace Monitor

/-- One more event. -/
def record (m : Monitor T) (e : CondEvent) : Monitor T := { m with log := e :: m.log }

/-- `Lock::IsHeldByCurrentThread`. -/
def IsHeldBy (m : Monitor T) (t : Tid) : Prop := m.lockHolder = some t

instance (m : Monitor T) (t : Tid) : Decidable (m.IsHeldBy t) := inferInstanceAs (Decidable (m.lockHolder = some t))

/-- `Condition::Signal`, with the call of `V` that is its last statement. -/
def signal {Pc : Type} (m : Monitor T) (t : Tid) : Except Fault (Monitor T × Call Pc) := do
  assert (m.IsHeldBy t)
  match m.waitQueue with
  | [] => return (m.record (.signals t none), .none)
  | waiter :: rest => return ({ m with waitQueue := rest }.record (.signals t (some waiter)), .v waiter)

/-- `List::Append`. -/
def listAppend [DecidableEq T] (m : Monitor T) (item : T) : Except Fault (Monitor T) := do
  assert (item ∉ m.list)
  return { m with list := m.list ++ [item], appended := m.appended ++ [item] }

/-- `List::RemoveFront`. -/
def listRemoveFront (m : Monitor T) : Except Fault (Monitor T) :=
  match m.list with
  | [] => .error .assertFailed
  | item :: rest => return { m with list := rest, removed := m.removed ++ [item] }

end Monitor

/-- What user code does next. -/
inductive Op (T : Type) where
  | none
  | yield
  | fork (t : Tid)
  | finish
  | acquire
  | release
  | wait
  | signal
  | broadcast
  | append (item : T)
  | removeFront

/-- The input of a step: the operation that user code begins, and the address that `new` returns. -/
structure Input (T : Type) where
  op : Op T
  fresh : SemId

/-- User code begins an operation. -/
def begin (m : Monitor T) : Op T → Monitor T × Call (Pc T) × Pc T
  | .none => (m, .none, .user)
  | .yield => (m, .yield, .user)
  | .fork t => (m, .fork t .user, .user)
  | .finish => (m, .finish, .user)
  | .acquire => (m, .none, .acquireP .user)
  | .release => (m, .none, .releaseAssert .user)
  | .wait => (m, .none, .waitAssert .user)
  | .signal => (m, .none, .signal)
  | .broadcast => (m, .none, .broadcast false)
  | .append item => (m, .none, .acquireP (.append item))
  | .removeFront => (m, .none, .acquireP .removeFront)

/-- The code, from each statement to the next. -/
def code [DecidableEq T] (ops : Op T → Bool) (t : Tid) (m : Monitor T) :
    Pc T → Input T → Except Fault (Monitor T × Call (Pc T) × Pc T)
  | .user, i => if ops i.op then .ok (begin m i.op) else .ok (m, .none, .user)
  | .acquireP f, _ => .ok (m, .p lockSemaphore, .acquireHolder f)
  | .acquireHolder f, _ => .ok ({ m with lockHolder := some t, critical := t :: m.critical }, .none, f.next)
  | .releaseAssert f, _ => do
    assert (m.IsHeldBy t)
    return (m, .none, .releaseHolder f)
  | .releaseHolder f, _ => .ok ({ m with lockHolder := none }, .none, .releaseV f)
  | .releaseV f, _ => .ok ({ m with critical := m.critical.erase t }, .v lockSemaphore, f.next)
  | .waitAssert f, _ => do
    assert (m.IsHeldBy t)
    return (m, .none, .waitNew f)
  | .waitNew f, i => .ok (m, .newSemaphore i.fresh 0, .waitAppend i.fresh f)
  | .waitAppend waiter f, _ => do
    assert (waiter ∉ m.waitQueue) -- the list does not take an item twice
    return ({ m with waitQueue := m.waitQueue ++ [waiter] }.record (.waits t waiter), .none, .releaseAssert (.wait waiter f))
  | .waitP waiter f, _ => .ok (m, .p waiter, .acquireP (.wait waiter f))
  | .waitDelete waiter f, _ => .ok (m, .deleteSemaphore waiter, f.next)
  | .signal, _ => do
    let (m, call) ← m.signal t
    return (m, call, .user)
  | .broadcast again, _ =>
    if m.waitQueue = [] then .ok (if again then m.record (.broadcastEnds t) else m, .none, .user)
    else do
      let (m, call) ← (if again then m else m.record (.broadcasts t m.waitQueue)).signal t
      return (m, call, .broadcast true)
  | .append item, _ => do
    let m ← m.listAppend item
    let (m, call) ← m.signal t
    return (m, call, .releaseAssert .append)
  | .removeFront _, _ =>
    if m.list = [] then .ok (m, .none, .waitAssert .removeFront)
    else do
      let m ← m.listRemoveFront
      return (m, .none, .releaseAssert .removeFront)

/-- The code as a client of the kernel. The handlers of devices do not use locks. -/
abbrev client (T : Type) [DecidableEq T] (ops : Op T → Bool) : Client where
  Shared := Monitor T
  Pc := Pc T
  Input := Input T
  Device := Empty
  code := code ops
  device := nofun

/-- The start: the lock is free, nobody waits, the list is empty, and the main thread is in user code. -/
def boot [DecidableEq T] (ops : Op T → Bool) : Boot (client T ops) where
  shared := Monitor.new
  pc := .user
  semaphores := fun s => if s = lockSemaphore then some 1 else none

end Synch

end Nachos
