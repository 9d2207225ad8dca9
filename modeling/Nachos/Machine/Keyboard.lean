import Nachos.Threads.Guarded

/-!
# Console input (machine/console.cc, userprog/synchconsole.cc)

The keyboard is polled by an interrupt until there is a character, which stays in the device until `GetChar` fetches it and has the
polling go on. `SynchConsoleInput` puts a lock and a semaphore around that. When a poll comes, and whether it finds the host ready, is
left open.
-/

namespace Nachos

namespace Keyboard

/-- `EOF` (stdio.h), as a `char`. -/
def EOF : Int8 := -1

/-- `class ConsoleInput` (machine/console.h), with the number of its interrupts that are scheduled, and what there is to be read from
the host. -/
structure ConsoleInput where
  incoming : Int8
  scheduled : Nat
  file : List UInt8

/-- `ConsoleInput::CallBack`, up to the call of `callWhenAvail`, and whether there is that call. `ready` is what `PollFile` returns. -/
def ConsoleInput.callBack (c : ConsoleInput) (ready : Bool) : Except Fault (ConsoleInput × Bool) := do
  assert (c.incoming = EOF)
  if ready = false then return ({ c with scheduled := c.scheduled + 1 }, false)
  else
    match c.file with
    | [] => return (c, true) -- at end of file nothing is read, and nothing is scheduled
    | b :: file => return ({ c with incoming := b.toInt8, file }, true)

/-- `ConsoleInput::GetChar`. -/
def ConsoleInput.getChar (c : ConsoleInput) : Int8 × ConsoleInput :=
  (c.incoming, { c with incoming := EOF, scheduled := if c.incoming ≠ EOF then c.scheduled + 1 else c.scheduled })

/-- `SynchConsoleInput::lock`. -/
def lock : Nat := 0

/-- `SynchConsoleInput::waitFor`. -/
def waitFor : SemId := 0

/-- The console. The other fields are history, which no code reads: who has got which character from the device, oldest first, and
whether `ReadPartial` has returned 0, which is the end of the console file. -/
structure Console where
  consoleInput : ConsoleInput
  got : List (Tid × Int8)
  endOfFile : Bool

/-- `consoleInput->GetChar()` in thread `t`. -/
def Console.getChar (m : Console) (t : Tid) : Int8 × Console :=
  let (ch, consoleInput) := m.consoleInput.getChar
  (ch, { m with consoleInput, got := m.got ++ [(t, ch)] })

/-- The statement a thread is about to execute, with the character that it has got, and its number. -/
inductive Pc where
  | user
  /-- `waitFor->P()`, after `lock->Acquire()`. -/
  | wait
  /-- `ch = consoleInput->GetChar()`. -/
  | getChar
  /-- `lock->Release()`. -/
  | release (n : Nat) (ch : Int8)
  /-- `return ch`. -/
  | done (n : Nat) (ch : Int8)

/-- What user code does next. -/
inductive Input where
  | none
  | yield
  | fork (t : Tid)
  | finish
  | getChar

/-- `SynchConsoleInput::GetChar`, and the code that calls it. -/
def step (t : Tid) (m : Console) : Pc → Input → Except Fault (Console × Guarded.Request Empty Guarded.lockOps Pc)
  | .user, .none => .ok (m, .call .none .user)
  | .user, .yield => .ok (m, .call .yield .user)
  | .user, .fork t' => .ok (m, .call (.fork t' .user) .user)
  | .user, .finish => .ok (m, .call .finish .user)
  | .user, .getChar => .ok (m, .operation lock .acquire Guarded.lockOps_acquire fun _ => .wait)
  | .wait, _ => .ok (m, .call (.p waitFor) .getChar)
  | .getChar, _ =>
    let (ch, m') := m.getChar t
    .ok (m', .call .none (.release m.got.length ch))
  | .release n ch, _ => .ok (m, .operation lock .release Guarded.lockOps_release fun _ => .done n ch)
  | .done _ _, _ => .ok (m, .call .none .user)

/-- A poll, when one is scheduled: `SynchConsoleInput::CallBack` calls `V`. -/
def poll (m : Console) (ready : Bool) : Except Fault (Console × List SemId) :=
  if m.consoleInput.scheduled = 0 then return (m, [])
  else do
    let (consoleInput, avail) ← { m.consoleInput with scheduled := m.consoleInput.scheduled - 1 }.callBack ready
    let endOfFile := m.endOfFile || avail && m.consoleInput.file.isEmpty
    return ({ m with consoleInput, endOfFile }, if avail then [waitFor] else [])

/-- The console and the code that reads from it. -/
abbrev code : Guarded.Code where
  Item := Empty
  items := inferInstance
  ops := Guarded.lockOps
  ops_fork := Guarded.lockOps_fork
  ops_finish := Guarded.lockOps_finish
  Shared := Console
  Pc := Pc
  Input := Input
  Device := Bool
  code := step
  device := poll

/-- `ConsoleInput::ConsoleInput`, which starts the polling. -/
def Console.new (typed : List UInt8) : Console where
  consoleInput := { incoming := EOF, scheduled := 1, file := typed }
  got := []
  endOfFile := false

/-- The start, when the bytes `typed` will be typed: nothing is buffered, and the main thread is in user code. -/
def boot (typed : List UInt8) : Boot (Guarded.client code) :=
  Guarded.boot code (.new typed) .user fun s => if s = waitFor then some 0 else none

end Keyboard

end Nachos
