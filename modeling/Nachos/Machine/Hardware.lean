import Nachos.Machine.Drivers
import Nachos.Machine.Interrupt
import Nachos.Machine.Keyboard
import Nachos.Machine.Latency
import Nachos.Network.Wire

/-!
# The devices on the interrupt queue (machine/timer.cc, console.cc, network.cc, disk.cc, threads/alarm.cc, kernel.cc)

Each device has its own model: Keyboard, Drivers, PostOffice, Wire and Latency, where what is scheduled is a number or a time in the
device, and when the interrupt comes is left open. Here all of them are on the queue of `Interrupt`, with the times they ask for. What the
host does is left open: which numbers `RandomNumber` returns, and what is found on the keyboard and the socket.
-/

namespace Nachos

open Bytes

/-- `TimerTicks`. -/
abbrev timerTicks : Int := 100

/-- `ConsoleTime`. -/
abbrev consoleTime : Int := 100

/-- `NetworkTime`. -/
abbrev networkTime : Int := 100

/-- The objects that `Schedule` is called with. -/
inductive Device where
  | timer
  | consoleInput
  | consoleOutput
  | networkInput
  | networkOutput
  | disk
  deriving DecidableEq, Repr

/-- What the host answers: `RandomNumber`, `PollFile` for the keyboard, and the packet on the socket, if there is one. -/
structure Answer where
  random : Nat
  ready : Bool
  packet : Option Buf

/-- The devices of a machine. The disk is there twice, for its data and for its time. A handler that fails an `ASSERT` stops the machine;
here that is written down. -/
structure Hardware where
  /-- `getStatus() == IdleMode`. -/
  idle : Bool
  randomize : Bool
  consoleInput : Keyboard.ConsoleInput
  consoleOutput : Drivers.ConsoleOutput
  networkInput : PostOffice.NetworkInput
  networkOutput : Wire.NetworkOutput
  disk : Drivers.DiskDevice
  latency : Latency.Disk
  hostName : Int
  answers : Nat → Answer
  asked : Nat
  failed : Bool

namespace Hardware

/-- The delay of `Timer::SetInterrupt`. -/
def delay (w : Hardware) (a : Answer) : Int := if w.randomize then 1 + ((a.random % 200 : Nat) : Int) else timerTicks

/-- The call of a handler, up to the `V` of the driver. -/
def callBack (o : Device) (w : Hardware) : CallBack Hardware Device :=
  let a := w.answers w.asked
  let w := { w with asked := w.asked + 1 }
  match o with
  | .timer =>
    -- `Alarm::CallBack`, then `SetInterrupt`; nobody disables the timer
    { world := w, scheduled := [(.timer, w.delay a, .timer)], yields := !w.idle }
  | .consoleInput =>
    match { w.consoleInput with scheduled := w.consoleInput.scheduled - 1 }.callBack a.ready with
    | .error _ => { world := { w with failed := true }, scheduled := [], yields := false }
    | .ok (consoleInput, _) =>
      -- schedule the next time to poll
      { world := { w with consoleInput }
        scheduled := if a.ready = false then [(.consoleInput, consoleTime, .consoleRead)] else []
        yields := false }
  | .consoleOutput => { world := { w with consoleOutput := w.consoleOutput.callBack }, scheduled := [], yields := false }
  | .networkInput =>
    -- schedule the next time to poll for a packet
    let scheduled := [(.networkInput, networkTime, .networkRecv)]
    match w.networkInput.callBack w.hostName a.packet with
    | .error _ => { world := { w with failed := true }, scheduled, yields := false }
    | .ok (networkInput, _) => { world := { w with networkInput }, scheduled, yields := false }
  | .networkOutput => { world := { w with networkOutput := w.networkOutput.callBack }, scheduled := [], yields := false }
  | .disk =>
    { world := { w with disk := w.disk.callBack, latency := w.latency.callBack }, scheduled := [], yields := false }

/-- The devices, as the queue sees them. -/
abbrev devices : Devices Hardware where
  Obj := Device
  callBack := callBack

variable (s : Interrupt devices)

/-- `ConsoleInput::GetChar`. -/
def getChar : Except Fault (Int8 × Interrupt devices) := do
  let (ch, consoleInput) := s.world.consoleInput.getChar
  -- schedule when next char will arrive
  let s ← if s.world.consoleInput.incoming ≠ Keyboard.EOF then s.schedule .consoleInput consoleTime .consoleRead else pure s
  return (ch, { s with world := { s.world with consoleInput } })

/-- `ConsoleOutput::PutChar`. -/
def putChar (ch : UInt8) : Except Fault (Interrupt devices) := do
  let consoleOutput ← s.world.consoleOutput.putChar ch
  let s ← s.schedule .consoleOutput consoleTime .consoleWrite
  return { s with world := { s.world with consoleOutput } }

/-- `NetworkInput::Receive`. -/
def receive (data : Buf) : PostOffice.PacketHeader × Buf × Interrupt devices :=
  let (hdr, data, networkInput) := s.world.networkInput.receive data
  (hdr, data, { s with world := { s.world with networkInput } })

/-- `NetworkOutput::Send`. -/
def send (lost : Bool) (junk : Buf) {size : Nat} (hdr : PostOffice.PacketHeader) (data : Block size) :
    Except Fault (Option Wire.Datagram × Interrupt devices) := do
  let (networkOutput, sent) ← s.world.networkOutput.send s.world.hostName lost junk hdr data
  let s ← s.schedule .networkOutput networkTime .networkSend
  return (sent, { s with world := { s.world with networkOutput } })

/-- The clock that the disk reads. -/
def clock : Latency.Disk := { s.world.latency with totalTicks := s.totalTicks }

/-- `Disk::ReadRequest`, with the data that it has read. -/
def readRequest (sectorNumber : Int) : Except Fault (Vector UInt8 128 × Interrupt devices) := do
  let ticks := (clock s).computeLatency sectorNumber false
  let (disk, data) ← s.world.disk.readRequest sectorNumber
  let latency ← (clock s).readRequest sectorNumber
  let s ← s.schedule .disk ticks .disk
  return (data, { s with world := { s.world with disk, latency } })

/-- `Disk::WriteRequest`. -/
def writeRequest (sectorNumber : Int) (data : Vector UInt8 128) : Except Fault (Interrupt devices) := do
  let ticks := (clock s).computeLatency sectorNumber true
  let disk ← s.world.disk.writeRequest sectorNumber data
  let latency ← (clock s).writeRequest sectorNumber
  let s ← s.schedule .disk ticks .disk
  return { s with world := { s.world with disk, latency } }

/-- `Interrupt::Idle`; the handlers find the machine idle. -/
def idleMachine : Except Fault (Interrupt devices) := do
  let s ← { s with world := { s.world with idle := true } }.idle
  return { s with world := { s.world with idle := false } }

/-! ## Runs -/

/-- How a machine is set up: its arguments, its disk, and what the host has for it. -/
structure Setup where
  randomSlice : Bool
  hostName : Int
  file : Disk
  typed : List UInt8
  junk : PostOffice.NetworkInput
  answers : Nat → Answer

/-- The devices when they have been made. The timer has drawn the first random number. -/
def new (x : Setup) : Hardware where
  idle := false
  randomize := x.randomSlice
  consoleInput := { incoming := Keyboard.EOF, scheduled := 1, file := x.typed }
  consoleOutput := { putBusy := false, file := [], scheduled := 0 }
  networkInput := { x.junk with inHdr := { x.junk.inHdr with length := 0 } }
  networkOutput := Wire.NetworkOutput.new
  disk := { active := false, file := x.file, scheduled := 0 }
  latency := Latency.Disk.new 0
  hostName := x.hostName
  answers := x.answers
  asked := 1
  failed := false

/-- `Kernel::Initialize`: `Timer`, `ConsoleInput` and `NetworkInput` schedule their first interrupt when they are made. With `FILESYS_STUB`,
as it is built, no time goes by between them. -/
def initialize_ (x : Setup) : Except Fault (Interrupt devices) := do
  let w := new x
  let s : Interrupt devices := .new w
  let s ← s.schedule .timer (w.delay (x.answers 0)) .timer
  let s ← s.schedule .consoleInput consoleTime .consoleRead
  s.schedule .networkInput networkTime .networkRecv

/-- What happens: calls of the drivers, and time that goes by, in the kernel, in a user program or with nothing to do. -/
inductive Step : Interrupt devices → Interrupt devices → Prop where
  | getChar {s s' : Interrupt devices} {ch : Int8} (h : getChar s = .ok (ch, s')) : Step s s'
  | putChar {s s' : Interrupt devices} {ch : UInt8} (h : putChar s ch = .ok s') : Step s s'
  | receive (s : Interrupt devices) (data : Buf) : Step s (receive s data).2.2
  | send {s s' : Interrupt devices} {lost : Bool} {junk : Buf} {size : Nat} {hdr : PostOffice.PacketHeader} {data : Block size}
      {sent : Option Wire.Datagram} (h : send s lost junk hdr data = .ok (sent, s')) : Step s s'
  | readRequest {s s' : Interrupt devices} {sectorNumber : Int} {data : Vector UInt8 128}
      (h : readRequest s sectorNumber = .ok (data, s')) : Step s s'
  | writeRequest {s s' : Interrupt devices} {sectorNumber : Int} {data : Vector UInt8 128}
      (h : writeRequest s sectorNumber data = .ok s') : Step s s'
  | setLevel {s s' : Interrupt devices} {now : IntStatus} (h : s.setLevel now = .ok s') : Step s s'
  | oneTick {s s' : Interrupt devices} (h : s.oneTick = .ok s') : Step s s'
  | idle {s s' : Interrupt devices} (h : idleMachine s = .ok s') : Step s s'
  | setStatus (s : Interrupt devices) (status : MachineStatus) : Step s { s with status }

/-- The runs of the devices of a machine. -/
def system (x : Setup) : Transition.System (Interrupt devices) where
  init s := initialize_ x = .ok s
  step := Step

end Hardware

end Nachos
