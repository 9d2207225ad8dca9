import Nachos.Fault
import Nachos.Filesys.Disk
import Nachos.Prelude.Transition

/-!
# How long a disk request takes (machine/disk.h, disk.cc, stats.h)

The disk knows from the clock where its head is: it turns by one sector every `RotationTime` ticks, and a track buffer takes in what passes
under the head. The data are left out here. Times are integers, so that they do not overflow.
-/

namespace Nachos

namespace Latency

/-- `RotationTime`. -/
@[simp] abbrev rotationTime : Int := 500

/-- `SeekTime`. -/
@[simp] abbrev seekTime : Int := 500

/-- `SectorsPerTrack`. -/
@[simp] abbrev sectorsPerTrack : Int := 32

/-- `NumTracks`. -/
@[simp] abbrev numTracks : Int := 32

/-- `class Disk`, as far as its requests take time, with the clock of `class Statistics` and the time of the interrupt that `Schedule` has
put on the list, if there is one. The last field is history: the sector of the request before. -/
structure Disk where
  totalTicks : Int
  active : Bool
  lastSector : Int
  bufferInit : Int
  pending : Option Int
  previous : Option Int

namespace Disk

/-- `Disk::Disk`. -/
def new (totalTicks : Int) : Disk :=
  { totalTicks, active := false, lastSector := 0, bufferInit := 0, pending := none, previous := none }

/-- The track of a sector. -/
def track (sector : Int) : Int := sector.tdiv sectorsPerTrack

/-- `Disk::TimeToSeek`: how long the seek takes, and the rotation until the next sector begins. -/
def timeToSeek (d : Disk) (newSector : Int) : Int × Int :=
  let seek := ((track newSector - track d.lastSector).natAbs : Int) * seekTime
  let over_ := (d.totalTicks + seek).tmod rotationTime
  (seek, if over_ > 0 then rotationTime - over_ else 0)

/-- `Disk::ModuloDiff`. -/
def moduloDiff (to_ from_ : Int) : Int :=
  let toOffset := to_.tmod sectorsPerTrack
  let fromOffset := from_.tmod sectorsPerTrack
  (toOffset - fromOffset + sectorsPerTrack).tmod sectorsPerTrack

/-- When the head has found its track and a sector begins. -/
def timeAfter (d : Disk) (newSector : Int) : Int :=
  let (seek, rotation) := d.timeToSeek newSector
  d.totalTicks + seek + rotation

/-- The test of `ComputeLatency`: the track buffer applies. -/
def Served (d : Disk) (newSector : Int) (writing : Bool) : Prop :=
  writing = false ∧ (d.timeToSeek newSector).1 = 0 ∧
    (d.timeAfter newSector - d.bufferInit).tdiv rotationTime > moduloDiff newSector (d.bufferInit.tdiv rotationTime)

instance (d : Disk) (newSector : Int) (writing : Bool) : Decidable (d.Served newSector writing) :=
  inferInstanceAs (Decidable (_ ∧ _ ∧ _))

/-- `Disk::ComputeLatency`. -/
def computeLatency (d : Disk) (newSector : Int) (writing : Bool) : Int :=
  let (seek, rotation) := d.timeToSeek newSector
  if d.Served newSector writing then rotationTime -- time to transfer sector from the track buffer
  else
    let rotation := rotation + moduloDiff newSector ((d.timeAfter newSector).tdiv rotationTime) * rotationTime
    seek + rotation + rotationTime

/-- `Disk::UpdateLast`. -/
def updateLast (d : Disk) (newSector : Int) : Disk :=
  let (seek, rotate) := d.timeToSeek newSector
  { d with bufferInit := if seek ≠ 0 then d.totalTicks + seek + rotate else d.bufferInit, lastSector := newSector }

/-- `Disk::ReadRequest` and `Disk::WriteRequest`, with the `ASSERT` of `Schedule`. -/
def request (d : Disk) (sectorNumber : Int) (writing : Bool) : Except Fault Disk := do
  let ticks := d.computeLatency sectorNumber writing
  assert (d.active = false) -- only one request at a time
  assert (0 ≤ sectorNumber ∧ sectorNumber < numSectors)
  let d := { d with active := true }.updateLast sectorNumber
  assert (ticks > 0)
  return { d with pending := some (d.totalTicks + ticks), previous := some sectorNumber }

/-- `Disk::ReadRequest`. -/
def readRequest (d : Disk) (sectorNumber : Int) : Except Fault Disk := d.request sectorNumber false

/-- `Disk::WriteRequest`. -/
def writeRequest (d : Disk) (sectorNumber : Int) : Except Fault Disk := d.request sectorNumber true

/-- `Disk::CallBack`, up to the call of `callWhenDone`. -/
def callBack (d : Disk) : Disk := { d with active := false, pending := none }

/-- What happens: requests, the interrupt when it is due, and time that goes by. -/
inductive Step : Disk → Disk → Prop where
  | read {d d' : Disk} (sectorNumber : Int) : d.readRequest sectorNumber = .ok d' → Step d d'
  | write {d d' : Disk} (sectorNumber : Int) : d.writeRequest sectorNumber = .ok d' → Step d d'
  | interrupt {d : Disk} (when : Int) : d.pending = some when → when ≤ d.totalTicks → Step d d.callBack
  | time {d : Disk} (ticks : Nat) : Step d { d with totalTicks := d.totalTicks + ticks }

/-- The runs of the disk. -/
def system : Transition.System Disk where
  init d := ∃ totalTicks, 0 ≤ totalTicks ∧ d = new totalTicks
  step := Step

end Disk

end Latency

end Nachos
