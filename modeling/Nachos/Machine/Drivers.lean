import Nachos.Filesys.Disk
import Nachos.Threads.Guarded

/-!
# The synchronous drivers (filesys/synchdisk.cc, userprog/synchconsole.cc, machine/disk.cc, console.cc)

`SynchDisk` and `SynchConsoleOutput` put a lock and a semaphore around a device that takes one request at a time and interrupts when
it has done it. A device does the transfer at once, in the UNIX file that it is simulated with, and schedules its interrupt; when the
interrupt comes is left open.
-/

namespace Nachos

namespace Drivers

/-- `class Disk` (machine/disk.h), with the number of its interrupts that are scheduled. -/
structure DiskDevice where
  active : Bool
  file : Disk
  scheduled : Nat

/-- `class ConsoleOutput` (machine/console.h), with the number of its interrupts that are scheduled. -/
structure ConsoleOutput where
  putBusy : Bool
  file : List UInt8
  scheduled : Nat

/-- `Disk::ReadRequest`, with the data that it has read. -/
def DiskDevice.readRequest (d : DiskDevice) (sectorNumber : Int) : Except Fault (DiskDevice × Vector UInt8 128) := do
  assert (d.active = false)
  assert (0 ≤ sectorNumber ∧ sectorNumber < numSectors)
  return ({ d with active := true, scheduled := d.scheduled + 1 }, d.file.sector sectorNumber)

/-- `Disk::WriteRequest`. -/
def DiskDevice.writeRequest (d : DiskDevice) (sectorNumber : Int) (data : Vector UInt8 128) : Except Fault DiskDevice := do
  assert (d.active = false)
  assert (0 ≤ sectorNumber ∧ sectorNumber < numSectors)
  return { active := true, file := { sector := Function.update d.file.sector sectorNumber data }, scheduled := d.scheduled + 1 }

/-- `Disk::CallBack`, up to the call of `callWhenDone`. -/
def DiskDevice.callBack (d : DiskDevice) : DiskDevice := { d with active := false, scheduled := d.scheduled - 1 }

/-- `ConsoleOutput::PutChar`. -/
def ConsoleOutput.putChar (c : ConsoleOutput) (ch : UInt8) : Except Fault ConsoleOutput := do
  assert (c.putBusy = false)
  return { putBusy := true, file := c.file ++ [ch], scheduled := c.scheduled + 1 }

/-- `ConsoleOutput::CallBack`, up to the call of `callWhenDone`. -/
def ConsoleOutput.callBack (c : ConsoleOutput) : ConsoleOutput := { c with putBusy := false, scheduled := c.scheduled - 1 }

/-- The two drivers. -/
inductive Driver where
  | disk
  | console
  deriving DecidableEq

/-- The number of the lock of a driver: `SynchDisk::lock`, `SynchConsoleOutput::lock`. -/
def Driver.lock : Driver → Nat
  | .disk => 0
  | .console => 1

/-- The semaphore a driver waits on: `SynchDisk::semaphore`, `SynchConsoleOutput::waitFor`. -/
def Driver.semaphore : Driver → SemId
  | .disk => 0
  | .console => 1

/-- The number of a sector, which the callers keep in range. -/
abbrev Sector := { n : Int // 0 ≤ n ∧ n < numSectors }

/-- The calls: `ReadSector`, `WriteSector` and `PutChar`. -/
inductive Op where
  | readSector (sectorNumber : Sector)
  | writeSector (sectorNumber : Sector) (data : Vector UInt8 128)
  | putChar (ch : UInt8)

/-- What a request has transferred. -/
inductive Transfer where
  | read (sectorNumber : Int) (data : Vector UInt8 128)
  | wrote (sectorNumber : Int) (data : Vector UInt8 128)
  | put (ch : UInt8)
  deriving DecidableEq

def Op.driver : Op → Driver
  | .readSector _ | .writeSector _ _ => .disk
  | .putChar _ => .console

def Transfer.driver : Transfer → Driver
  | .read _ _ | .wrote _ _ => .disk
  | .put _ => .console

/-- What has happened on a device, as history: its request number `n` was issued by thread `t`, an interrupt came, and thread `t` has
returned from the `P` that it waited in for its request. -/
inductive Event where
  | issued (n : Nat) (t : Tid) (transfer : Transfer)
  | interrupt
  | returned (n : Nat) (t : Tid) (transfer : Transfer)
  deriving DecidableEq

/-- The devices. The last two fields are history, which no code reads: how many requests a device was given, and what has happened on
it, newest first. -/
structure Devices where
  disk : DiskDevice
  consoleOutput : ConsoleOutput
  requests : Driver → Nat
  log : Driver → List Event

namespace Devices

/-- One more event. -/
def record (m : Devices) (d : Driver) (e : Event) : Devices := { m with log := Function.update m.log d (e :: m.log d) }

theorem record_log_self (m : Devices) (d : Driver) (e : Event) : (m.record d e).log d = e :: m.log d := Function.update_self _ _ _

theorem record_log_other (m : Devices) {d d' : Driver} (h : d' ≠ d) (e : Event) : (m.record d e).log d' = m.log d' :=
  Function.update_of_ne h _ _

/-- The request of a call, and what it has transferred. -/
def request (m : Devices) : Op → Except Fault (Devices × Transfer)
  | .readSector sectorNumber => do
    let (disk, data) ← m.disk.readRequest sectorNumber
    return ({ m with disk }, .read sectorNumber data)
  | .writeSector sectorNumber data => do
    let disk ← m.disk.writeRequest sectorNumber data
    return ({ m with disk }, .wrote sectorNumber data)
  | .putChar ch => do
    let consoleOutput ← m.consoleOutput.putChar ch
    return ({ m with consoleOutput }, .put ch)

/-- Request number `requests d`, by thread `t`. -/
def issue (m : Devices) (d : Driver) (t : Tid) (transfer : Transfer) : Devices :=
  { m with requests := Function.update m.requests d (m.requests d + 1) }.record d (.issued (m.requests d) t transfer)

/-- The interrupts that are scheduled. -/
def scheduled (m : Devices) : Driver → Nat
  | .disk => m.disk.scheduled
  | .console => m.consoleOutput.scheduled

/-- `CallBack` of a device. -/
def callBack (m : Devices) : Driver → Devices
  | .disk => { m with disk := m.disk.callBack }
  | .console => { m with consoleOutput := m.consoleOutput.callBack }

theorem callBack_log (m : Devices) (d : Driver) : (m.callBack d).log = m.log := by cases d <;> rfl

theorem callBack_requests (m : Devices) (d : Driver) : (m.callBack d).requests = m.requests := by cases d <;> rfl

end Devices

/-- The statement a thread is about to execute, with what its request was and has transferred. -/
inductive Pc where
  | user
  /-- `disk->ReadRequest`, `disk->WriteRequest` or `consoleOutput->PutChar`, after `lock->Acquire()`. -/
  | request (op : Op)
  /-- `semaphore->P()` or `waitFor->P()`. -/
  | wait (n : Nat) (transfer : Transfer)
  /-- `lock->Release()`. -/
  | release (n : Nat) (transfer : Transfer)
  /-- The call returns. -/
  | done (n : Nat) (transfer : Transfer)

/-- What user code does next. -/
inductive Input where
  | none
  | yield
  | fork (t : Tid)
  | finish
  | call (op : Op)

/-- `ReadSector`, `WriteSector`, `PutChar`, and the code that calls them. -/
def step (t : Tid) (m : Devices) : Pc → Input → Except Fault (Devices × Guarded.Request Empty Guarded.lockOps Pc)
  | .user, .none => .ok (m, .call .none .user)
  | .user, .yield => .ok (m, .call .yield .user)
  | .user, .fork t' => .ok (m, .call (.fork t' .user) .user)
  | .user, .finish => .ok (m, .call .finish .user)
  | .user, .call op => .ok (m, .operation op.driver.lock .acquire Guarded.lockOps_acquire fun _ => .request op)
  | .request op, _ => do
    let (m', transfer) ← m.request op
    return (m'.issue op.driver t transfer, .call .none (.wait (m.requests op.driver) transfer))
  | .wait n transfer, _ => .ok (m, .call (.p transfer.driver.semaphore) (.release n transfer))
  | .release n transfer, _ =>
    .ok (m.record transfer.driver (.returned n t transfer),
      .operation transfer.driver.lock .release Guarded.lockOps_release fun _ => .done n transfer)
  | .done _ _, _ => .ok (m, .call .none .user)

/-- The interrupt of a device, when one is scheduled: `SynchDisk::CallBack` and `SynchConsoleOutput::CallBack` call `V`. -/
def interrupt (m : Devices) (d : Driver) : Devices × List SemId :=
  if m.scheduled d = 0 then (m, []) else ((m.callBack d).record d .interrupt, [d.semaphore])

/-- The drivers and the code that calls them. -/
abbrev code : Guarded.Code where
  Item := Empty
  items := inferInstance
  ops := Guarded.lockOps
  ops_fork := Guarded.lockOps_fork
  ops_finish := Guarded.lockOps_finish
  Shared := Devices
  Pc := Pc
  Input := Input
  Device := Driver
  code := step
  device := fun m d => .ok (interrupt m d)

/-- The devices at the start, with the disk that there is. -/
def Devices.new (file : Disk) : Devices where
  disk := { active := false, file, scheduled := 0 }
  consoleOutput := { putBusy := false, file := [], scheduled := 0 }
  requests := fun _ => 0
  log := fun _ => []

/-- The start: no request is under way, the semaphores are 0, and the main thread is in user code. -/
def boot (file : Disk) : Boot (Guarded.client code) :=
  Guarded.boot code (.new file) .user fun s => if s = Driver.disk.semaphore ∨ s = Driver.console.semaphore then some 0 else none

end Drivers

end Nachos
