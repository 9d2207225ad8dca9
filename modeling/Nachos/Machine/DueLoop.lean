import Nachos.Machine.Interrupt
import Nachos.Prelude.Bytes

/-!
# Firing what is due, on 32-bit ticks (machine/interrupt.cc)

`Schedule` and `CheckIfDue` once more, now with the `int`s of the source: the time of an interrupt wraps around when it is too late for one.
The loop has a bound on its rounds, and no result when it has not ended within them.
-/

namespace Nachos

namespace IntTicks

open Loop Bytes

variable {World : Type} {d : Devices World}

/-- `Interrupt::Schedule`. -/
def schedule (s : Interrupt d) (toCall : d.Obj) (fromNow : Int) (type : IntType) : Except Fault (Interrupt d) := do
  let toOccur := { addr := s.allocated, callOnInterrupt := toCall, when := int32 (s.totalTicks + fromNow), type }
  assert (fromNow > 0)
  let pending ← SortedList.insert pendingCompare toOccur s.pending
  return { s with pending, allocated := s.allocated + 1 }

/-- What a handler schedules, one after the other. -/
def scheduleAll (requests : List (d.Obj × Int × IntType)) (s : Interrupt d) : Except Fault (Interrupt d) :=
  requests.foldlM (fun s (toCall, fromNow, type) => schedule s toCall fromNow type) s

/-- The body of the loop of `CheckIfDue`. -/
def fire (s : Interrupt d) : Except Fault (Interrupt d) :=
  match s.pending with
  | [] => .error .assertFailed -- `RemoveFront`
  | next :: pending =>
    let called := d.callBack next.callOnInterrupt s.world -- call the interrupt handler
    let s := { s with pending, world := called.world, fired := s.fired ++ [(next, s.totalTicks)] }
    scheduleAll called.scheduled { s with yieldOnReturn := s.yieldOnReturn || called.yields }

/-- The loop of `CheckIfDue`. -/
def loop : Nat → Interrupt d → Except Fault (Option (Interrupt d))
  | 0, _ => .ok none
  | n + 1, s => do
    let s ← fire s
    match s.pending with
    | [] => return some s
    | next :: _ => if next.when ≤ s.totalTicks then loop n s else return some s

/-- `Interrupt::CheckIfDue`. -/
def checkIfDue (n : Nat) (s : Interrupt d) (advanceClock : Bool) : Except Fault (Option (Bool × Interrupt d)) := do
  assert (s.level = .off)
  match s.pending with
  | [] => return some (false, s) -- no pending interrupts
  | next :: _ =>
    if next.when > s.totalTicks ∧ advanceClock = false then return some (false, s) -- not time yet
    else
      -- advance the clock to next interrupt
      let s :=
        if next.when > s.totalTicks then
          { s with idleTicks := int32 (s.idleTicks + int32 (next.when - s.totalTicks)), totalTicks := next.when }
        else s
      let s ← loop n { s with inHandler := true }
      return s.map fun s => (true, { s with inHandler := false })

end IntTicks

end Nachos
