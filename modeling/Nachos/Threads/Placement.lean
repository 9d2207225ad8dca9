import Mathlib.Data.List.Nodup
import Nachos.Prelude.Loop
import Nachos.Threads.Thread

/-!
# Every thread is in one place

The invariant of the kernel between two steps. `Placed` says, for one thread, what its stack can be given whether it is the
current thread, where it is queued and what its status is; `Located` ties the places to the lists. A step changes the place of
at most two threads, so for the others nothing has to be shown but that they are not touched.
-/

namespace Nachos

open Loop

variable {c : Client}

/-- Where a thread is queued. -/
inductive Loc where
  | nowhere
  | ready
  | queue (s : SemId)
  deriving DecidableEq

/-- The stack of a thread that is in no kernel call but, maybe, a yield that a tick made on its behalf. -/
inductive Base {Pc : Type} : List (Frame Pc) → Prop where
  | code (pc : Pc) : Base [.code pc]
  | restore (m : MachineStatus) {st : List (Frame Pc)} (h : Base st) : Base (.restoreStatus m :: st)

/-- As before, with the interrupt level to go on with: client code can have disabled interrupts, a tick enables them. -/
inductive BaseAt {Pc : Type} : IntStatus → List (Frame Pc) → Prop where
  | code (l : IntStatus) (pc : Pc) : BaseAt l [.code pc]
  | restore (m : MachineStatus) {st : List (Frame Pc)} (h : BaseAt .on st) : BaseAt .on (.restoreStatus m :: st)

/-- The stack of a thread that has lost the processor: in the loop of `P` on a semaphore, or elsewhere. -/
inductive Parked {Pc : Type} : Option SemId → List (Frame Pc) → Prop where
  | yielded {l : IntStatus} {st : List (Frame Pc)} (h : BaseAt l st) : Parked none (.runTail :: .setLevel l :: st)
  | new {st : List (Frame Pc)} (h : Base st) : Parked none (.begin :: st)
  | inP (s : SemId) {l : IntStatus} {st : List (Frame Pc)} (h : BaseAt l st) : Parked (some s) (.runTail :: .semaphoreP s l :: st)

/-- A thread between two steps: whether it is the current thread, where it is queued, its status and its stack. -/
inductive Placed {Pc : Type} : Bool → Loc → ThreadStatus → List (Frame Pc) → Prop where
  /-- It runs client code. -/
  | user {st : List (Frame Pc)} (h : Base st) : Placed true .nowhere .running st
  /-- It is about to set the level back. -/
  | setLevel {l : IntStatus} {st : List (Frame Pc)} (h : BaseAt l st) : Placed true .nowhere .running (.setLevel l :: st)
  /-- It is in the loop of `P` and about to look at the value. -/
  | retest (s : SemId) {l : IntStatus} {st : List (Frame Pc)} (h : BaseAt l st) : Placed true .nowhere .running (.semaphoreP s l :: st)
  /-- It has just been given the processor. -/
  | dispatched {o : Option SemId} {st : List (Frame Pc)} (h : Parked o st) : Placed true .nowhere .running st
  /-- It is on the ready list. -/
  | ready {o : Option SemId} {st : List (Frame Pc)} (h : Parked o st) : Placed false .ready .ready st
  /-- It waits on a semaphore. -/
  | waiting {s : SemId} {st : List (Frame Pc)} (h : Parked (some s) st) : Placed false (.queue s) .blocked st
  /-- It waits on a semaphore, and still has the processor since nobody else wants it. -/
  | asleep (s : SemId) {l : IntStatus} {st : List (Frame Pc)} (h : BaseAt l st) :
      Placed true (.queue s) .blocked (.sleep false :: .semaphoreP s l :: st)
  /-- As before, but an interrupt has made it ready again. -/
  | awake (s : SemId) {l : IntStatus} {st : List (Frame Pc)} (h : BaseAt l st) :
      Placed true .ready .ready (.sleep false :: .semaphoreP s l :: st)
  /-- It has finished and looks for a thread to give the processor to. -/
  | finishing : Placed true .nowhere .blocked [.sleep true]
  /-- It has finished and waits to be deleted. -/
  | carcass : Placed false .nowhere .blocked [.runTail]
  /-- It was not forked yet, or is deleted. -/
  | absent (ts : ThreadStatus) : Placed false .nowhere ts []

theorem BaseAt.base {Pc : Type} {l : IntStatus} {st : List (Frame Pc)} (h : BaseAt l st) : Base st := by
  induction h with
  | code l pc => exact .code pc
  | restore m h ih => exact .restore m ih

theorem Base.at_on {Pc : Type} {st : List (Frame Pc)} (h : Base st) : BaseAt .on st := by
  induction h with
  | code pc => exact .code .on pc
  | restore m h ih => exact .restore m ih

namespace Kernel

/-- The lists hold the threads that are located there, once. -/
structure Located (k : Kernel c) (loc : Tid → Loc) : Prop where
  ready_nodup : k.readyList.Nodup
  ready_iff : ∀ t, t ∈ k.readyList ↔ loc t = .ready
  queue_nodup : ∀ s x, k.semaphore s = some x → x.queue.Nodup
  queue_iff : ∀ s t, loc t = .queue s ↔ ∃ x, k.semaphore s = some x ∧ t ∈ x.queue

/-- The placement invariant. -/
structure Inv (k : Kernel c) (loc : Tid → Loc) : Prop extends Located k loc where
  placed : ∀ t, Placed (decide (t = k.currentThread)) (loc t) (k.threadStatus t) (k.stack t)
  carcass_iff : ∀ t, k.toBeDestroyed = some t ↔ k.stack t = [.runTail]
  carcass_parked : k.toBeDestroyed ≠ none → ∃ o, Parked o (k.stack k.currentThread)

/-- Between two steps interrupts are disabled, unless client code runs that has not disabled them; and no handler is at work. -/
structure Settled (k : Kernel c) : Prop where
  inHandler : k.inHandler = false
  base : Base (k.stack k.currentThread) → BaseAt k.level (k.stack k.currentThread)
  off : ¬Base (k.stack k.currentThread) → k.level = .off

/-! ## Fields after an update -/

section Fields

variable (k : Kernel c)

@[simp] theorem setStack_stack (t : Tid) (st : List (Frame c.Pc)) : (k.setStack t st).stack = Function.update k.stack t st := rfl
@[simp] theorem setStatus_threadStatus (t : Tid) (ts : ThreadStatus) :
    (k.setStatus t ts).threadStatus = Function.update k.threadStatus t ts := rfl
@[simp] theorem setSemaphore_semaphore (s : SemId) (x : Option Semaphore) :
    (k.setSemaphore s x).semaphore = Function.update k.semaphore s x := rfl

end Fields

end Kernel

end Nachos
