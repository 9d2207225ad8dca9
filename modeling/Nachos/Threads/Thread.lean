import Nachos.Threads.Kernel

/-!
# Thread operations, interrupts, and the steps of the machine (threads/thread.cc, synch.cc, machine/interrupt.cc)

Each function of the source is one function here, up to the first place where the thread can lose the processor; what is left of
it then is put on the stack of the thread as a frame. `Kernel.step` goes on with the frame on top of the current thread's stack.
-/

namespace Nachos

namespace Kernel

variable {c : Client}

/-! ## Thread (threads/thread.cc) -/

/-- `Thread::Yield`. -/
def yield (k : Kernel c) : Except Fault (Kernel c) := do
  let oldLevel := k.level
  let (nextThread, k) ← (k.changeLevel .off).findNextToRun
  let k := k.push (.setLevel oldLevel)
  match nextThread with
  | none => return k
  | some nextThread => do
    let k ← k.readyToRun k.currentThread
    k.run nextThread false

/-- `Thread::Sleep` up to its loop. -/
def sleep (k : Kernel c) (finishing : Bool) : Except Fault (Kernel c) := do
  assert (k.level = .off)
  return (k.setStatus k.currentThread .blocked).push (.sleep finishing)

/-- `Thread::Fork`, with `Thread::StackAllocate`: the thread will run `Begin` and then the function given. -/
def fork (k : Kernel c) (t : Tid) (func : c.Pc) : Except Fault (Kernel c) := do
  let k := (k.setStack t [.begin, .code func]).record (.forked t)
  let oldLevel := k.level
  let k ← (k.changeLevel .off).readyToRun t
  return k.push (.setLevel oldLevel)

/-- `Thread::Begin`; `interrupt->Enable()` is its last statement. -/
def begin (k : Kernel c) : Except Fault (Kernel c) := do
  let k ← k.checkToBeDestroyed
  return k.push (.setLevel .on)

/-- `Thread::Finish`; the thread does not come back. -/
def finish (k : Kernel c) : Except Fault (Kernel c) :=
  (((k.changeLevel .off).setCurrentStack []).record (.finished k.currentThread)).sleep true

/-- The end of `Scheduler::Run`, when the thread that called it runs again. -/
def runTail (k : Kernel c) : Except Fault (Kernel c) := do
  assert (k.level = .off)
  k.checkToBeDestroyed

/-! ## Semaphore::P (threads/synch.cc) -/

/-- One round of the loop of `Semaphore::P`: go to sleep on the queue, or take the value. -/
def semaphorePLoop (k : Kernel c) (s : SemId) (oldLevel : IntStatus) : Except Fault (Kernel c) :=
  match k.semaphore s with
  | none => .error .nullDereference
  | some x =>
    if x.value = 0 then do
      assert (k.currentThread ∉ x.queue) -- the list does not take an item twice
      let k := k.setSemaphore s (some { x with queue := x.queue ++ [k.currentThread] })
      (k.push (.semaphoreP s oldLevel)).sleep false
    else
      let x := { x with value := x.value - 1, completedP := x.completedP + 1 }
      return (k.setSemaphore s (some x)).push (.setLevel oldLevel)

/-- `Semaphore::P`. -/
def semaphoreP (k : Kernel c) (s : SemId) : Except Fault (Kernel c) := (k.changeLevel .off).semaphorePLoop s k.level

/-! ## Interrupts (machine/interrupt.cc) -/

/-- `Semaphore::V` called by a handler: the level is off and stays off. -/
def handlerV (k : Kernel c) (s : SemId) : Except Fault (Kernel c) := do
  let (oldLevel, k) ← k.semaphoreV s
  assert (oldLevel = .off ∨ k.inHandler = false)
  return k.changeLevel oldLevel

/-- The call of a handler. That of the timer is `Alarm::CallBack`. -/
def callBack (k : Kernel c) : Handler c → Except Fault (Kernel c)
  | .timer =>
    if k.status ≠ .idle then do
      assert (k.inHandler = true)
      return { k with yieldOnReturn := true }
    else return k
  | .device d => (c.device k.shared d).2.foldlM handlerV { k with shared := (c.device k.shared d).1 }

/-- `Interrupt::CheckIfDue`, when the interrupts `due` have to be served. -/
def checkIfDue (k : Kernel c) (due : List (Handler c)) : Except Fault (Bool × Kernel c) := do
  assert (k.level = .off)
  if due.isEmpty then return (false, k)
  else
    let k ← due.foldlM callBack { k with inHandler := true }
    return (true, { k with inHandler := false })

/-- `Interrupt::OneTick`. -/
def oneTick (k : Kernel c) (due : List (Handler c)) : Except Fault (Kernel c) := do
  let oldStatus := k.status
  -- advance simulated time
  let (_, k) ← ({ k with stats := k.stats.tick k.status }.changeLevel .off).checkIfDue due
  let k := k.changeLevel .on
  if k.yieldOnReturn then
    -- yield is a kernel routine
    ({ k with yieldOnReturn := false, status := .system }.push (.restoreStatus oldStatus)).yield
  else return k

/-- `Interrupt::SetLevel`. -/
def setLevel (k : Kernel c) (now : IntStatus) (due : List (Handler c)) : Except Fault (Kernel c) := do
  let old := k.level
  -- interrupt handlers are prohibited from enabling interrupts
  assert (now = .off ∨ k.inHandler = false)
  let k := k.changeLevel now
  if now = .on ∧ old = .off then k.oneTick due else return k

/-- `Interrupt::Idle`, when the first of the pending interrupts is for the time `when`. -/
def idle (k : Kernel c) (due : List (Handler c)) (when : Int) : Except Fault (Kernel c) := do
  let stats := if due.isEmpty then k.stats else k.stats.advance when
  let (fired, k) ← { k with status := .idle, stats }.checkIfDue due
  if fired then return { k with status := .system }
  else .error .halted -- no threads ready or runnable, and no pending interrupts

/-- One round of the loop of `Thread::Sleep`: switch to the next thread, or wait for an interrupt. The frames left on the stack
are `rest`. -/
def sleepLoop (k : Kernel c) (finishing : Bool) (rest : List (Frame c.Pc)) (due : List (Handler c))
    (when : Int) : Except Fault (Kernel c) := do
  let (nextThread, k) ← k.findNextToRun
  match nextThread with
  | none => k.idle due when
  | some nextThread => (k.setCurrentStack rest).run nextThread finishing

/-! ## Steps -/

/-- A call from the code of the client. -/
def call (k : Kernel c) (due : List (Handler c)) : Call c.Pc → Except Fault (Kernel c)
  | .none => return k
  | .p s => k.semaphoreP s
  | .v s => do
    let (oldLevel, k) ← k.semaphoreV s
    return k.push (.setLevel oldLevel)
  | .yield => k.yield
  | .fork t pc => k.fork t pc
  | .finish => k.finish
  | .newSemaphore s initialValue => return k.setSemaphore s (some (Semaphore.new initialValue))
  | .deleteSemaphore s => return k.setSemaphore s none
  | .setStatus st => return { k with status := st }
  | .setLevel now => k.setLevel now due
  | .oneTick => k.oneTick due

/-- The current thread goes on with the frame on top of its stack, until the next place where it can lose the processor. -/
def step (k : Kernel c) (ch : Choice c) : Except Fault (Kernel c) :=
  match k.stack k.currentThread with
  | [] => .error .outOfBounds
  | .code pc :: rest => do
    let (shared, call, pc) ← c.code k.currentThread k.shared pc ch.input
    ({ k with shared }.setCurrentStack (.code pc :: rest)).call ch.due call
  | .setLevel now :: rest => (k.setCurrentStack rest).setLevel now ch.due
  | .restoreStatus oldStatus :: rest => return { k.setCurrentStack rest with status := oldStatus }
  | .runTail :: rest => (k.setCurrentStack rest).runTail
  | .begin :: rest => (k.setCurrentStack rest).begin
  | .sleep finishing :: rest => k.sleepLoop finishing rest ch.due ch.when
  | .semaphoreP s oldLevel :: rest => (k.setCurrentStack rest).semaphorePLoop s oldLevel

end Kernel

/-! ## Runs -/

/-- How a client starts: its shared memory, the program point of the main thread, and the semaphores there are. -/
structure Boot (c : Client) where
  shared : c.Shared
  pc : c.Pc
  semaphores : SemId → Option Int

/-- The identity of the main thread. -/
abbrev mainThread : Tid := 0

/-- The kernel at the end of `Kernel::Initialize`, before it enables interrupts. -/
def Boot.kernel {c : Client} (b : Boot c) : Kernel c where
  currentThread := mainThread
  readyList := []
  toBeDestroyed := none
  threadStatus := fun t => if t = mainThread then .running else .justCreated
  stack := fun t => if t = mainThread then [.setLevel .on, .code b.pc] else []
  level := .off
  inHandler := false
  yieldOnReturn := false
  status := .system
  stats := .new
  semaphore := fun s => (b.semaphores s).map Semaphore.new
  shared := b.shared
  history := []

namespace Kernel

variable {c : Client}

/-- What the memory of the program grants a call: `new` returns an object that is not in use, a `Thread` object is forked once,
and a semaphore is deleted when nobody waits on it. -/
def Allowed (k : Kernel c) : Call c.Pc → Prop
  | .fork t _ => k.threadStatus t = .justCreated
  | .newSemaphore s _ => k.semaphore s = none
  | .deleteSemaphore s => ∀ x, k.semaphore s = some x → x.queue = []
  | _ => True

instance (k : Kernel c) (call : Call c.Pc) : Decidable (k.Allowed call) :=
  match call with
  | .fork t _ => inferInstanceAs (Decidable (k.threadStatus t = .justCreated))
  | .newSemaphore s _ => decidable_of_iff ((k.semaphore s).isNone = true) Option.isNone_iff_eq_none
  | .deleteSemaphore s => inferInstanceAs (Decidable (∀ x ∈ k.semaphore s, x.queue = []))
  | .none | .p _ | .v _ | .yield | .finish | .setStatus _ | .setLevel _ | .oneTick => isTrue trivial

/-- The call that the next step makes, if it is one of the client's code. -/
def nextCall (k : Kernel c) (ch : Choice c) : Option (Call c.Pc) :=
  match k.stack k.currentThread with
  | .code pc :: _ =>
    match c.code k.currentThread k.shared pc ch.input with
    | .ok (_, call, _) => some call
    | .error _ => none
  | _ => none

/-- The call that the next step makes is allowed. -/
def AllowedStep (k : Kernel c) (ch : Choice c) : Prop := ∀ call ∈ k.nextCall ch, k.Allowed call

instance (k : Kernel c) (ch : Choice c) : Decidable (k.AllowedStep ch) :=
  inferInstanceAs (Decidable (∀ call ∈ k.nextCall ch, k.Allowed call))

/-- The runs of the machine from a start of the client. -/
def system (b : Boot c) : Transition.System (Kernel c) where
  init := fun k => k = b.kernel
  step := fun k k' => ∃ ch, k.AllowedStep ch ∧ k.step ch = .ok k'

/-- The state after the steps with these choices, if all of them are allowed and go through. -/
def execute (k : Kernel c) : List (Choice c) → Option (Kernel c)
  | [] => some k
  | ch :: chs =>
    if k.AllowedStep ch then
      match k.step ch with
      | .ok k' => k'.execute chs
      | .error _ => none
    else none

/-- Executing leads to reachable states. -/
theorem reachable_of_execute {b : Boot c} {k k' : Kernel c} (hk : (system b).Reachable k) {chs : List (Choice c)}
    (h : k.execute chs = some k') : (system b).Reachable k' := by
  induction chs generalizing k with
  | nil =>
    obtain rfl := Option.some.inj h
    exact hk
  | cons ch chs ih =>
    unfold execute at h
    split at h
    · rename_i hallowed
      cases hstep : k.step ch with
      | error e =>
        rw [hstep] at h
        cases h
      | ok k₁ =>
        rw [hstep] at h
        exact ih (hk.step ⟨ch, hallowed, hstep⟩) h
    · cases h

end Kernel

end Nachos
