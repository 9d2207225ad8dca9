import Nachos.Filesys.Disk
import Nachos.Filesys.StubFile
import Nachos.Prelude.Blocks
import Nachos.Prelude.Decimal
import Nachos.Prelude.Transition

/-!
# The UNIX file of the disk (machine/disk.cc, disk.h, lib/sysdep.cc)

The contents of the disk are in a file of the host: a magic number, and behind it the sectors, one after the other. The file stays
when the machine is stopped, and is found by its name when it is started again. When the head arrives is in Latency, and when the
interrupt comes in Drivers; here are the transfers.
-/

namespace Nachos

open Bytes Loop Posix Transition

/-- `MagicNumber`. -/
def magicNumber : Int := 0x456789ab

/-- `MagicSize`. -/
@[simp] abbrev magicSize : Int := 4

/-- `DiskSize`. -/
@[simp] abbrev diskSize : Int := magicSize + numSectors * sectorSize

/-- `sprintf(diskname, "DISK_%d", hostName)`. -/
def diskName (hostName : Int) : List UInt8 :=
  ("DISK_".toList.map fun c => UInt8.ofNat c.toNat) ++ (if hostName < 0 then [45] else []) ++ Decimal.digits hostName.natAbs

variable {Entry : Type}

/-- `Read` (lib/sysdep.cc). -/
def readFile (h : Host Entry) (fd : Nat) (numBytes : Int) : Except Fault (Buf × Host Entry) := do
  let (retVal, bytes, h) := h.read fd numBytes
  assert (retVal = numBytes)
  return (bytes, h)

/-- `class Disk`: the descriptor of its file. -/
structure UnixDisk where
  fileno : Nat

namespace UnixDisk

/-- `Disk::Disk`. -/
def new [DecidableEq Entry] (h : Host Entry) (diskname : List UInt8) : Except Fault (UnixDisk × Host Entry) :=
  match h.openExisting diskname with
  | (some fileno, h) => do
    -- file exists, check magic number
    let (magicNum, h) ← readFile h fileno magicSize
    assert (intAt magicNum 0 = magicNumber)
    return ({ fileno }, h)
  | (none, h) => do
    -- file doesn't exist, create it
    let (fileno, h) ← Stub.openForWrite h diskname
    let h ← Stub.writeFile h fileno (byteOf magicNumber) magicSize
    -- need to write at end of file, so that reads will not return EOF
    let h ← Stub.lseek h fileno (diskSize - 4) .set
    let h ← Stub.writeFile h fileno (fun _ => 0) 4
    return ({ fileno }, h)

/-- `Disk::~Disk`. -/
def delete (d : UnixDisk) (h : Host Entry) : Except Fault (Host Entry) := Stub.close h d.fileno

/-- `Disk::ReadRequest`, with `data` pointing at offset `o` of a buffer. -/
def readRequest (d : UnixDisk) (h : Host Entry) (sectorNumber : Int) (data : Buf) (o : Nat) : Except Fault (Buf × Host Entry) := do
  assert (0 ≤ sectorNumber ∧ sectorNumber < numSectors)
  let h ← Stub.lseek h d.fileno (sectorSize * sectorNumber + magicSize) .set
  let (bytes, h) ← readFile h d.fileno sectorSize
  return (copy bytes 0 data o 128, h)

/-- `Disk::WriteRequest`, with `data` pointing at offset `o` of a buffer. -/
def writeRequest (d : UnixDisk) (h : Host Entry) (sectorNumber : Int) (data : Buf) (o : Nat) : Except Fault (Host Entry) := do
  assert (0 ≤ sectorNumber ∧ sectorNumber < numSectors)
  let h ← Stub.lseek h d.fileno (sectorSize * sectorNumber + magicSize) .set
  Stub.writeFile h d.fileno (fun j => data (o + j)) sectorSize

end UnixDisk

/-! ## Runs of the host -/

/-- What happens on the host, with what a request gives: the machine is started and stopped, a sector is read or written, and other
programs, or other parts of this one, do something else. -/
inductive DiskEvent where
  | start
  | stop
  | read (sectorNumber : Int) (data : Buf) (o : Nat) (result : Buf)
  | write (sectorNumber : Int) (data : Buf) (o : Nat)
  | other

/-- The host, and the disk of the machine while it runs. -/
structure Station (Entry : Type) where
  host : Host Entry
  disk : Option UnixDisk

/-- The file of the disk, and the descriptor that the machine has of it, are left alone. -/
structure Elsewhere (diskname : List UInt8) (x : Station Entry) (h : Host Entry) : Prop where
  lookup : h.lookup diskname = x.host.lookup diskname
  contents : ∀ file, x.host.lookup diskname = some file → h.files file = x.host.files file
  descriptor : ∀ u, x.disk = some u → h.descriptors u.fileno = x.host.descriptors u.fileno

/-- The steps of a host. -/
inductive Station.Step [DecidableEq Entry] (diskname : List UInt8) : Station Entry → DiskEvent → Station Entry → Prop where
  | start {h h' : Host Entry} {u : UnixDisk} (hu : UnixDisk.new h diskname = .ok (u, h')) : Step diskname ⟨h, none⟩ .start ⟨h', some u⟩
  | stop {h h' : Host Entry} {u : UnixDisk} (hu : u.delete h = .ok h') : Step diskname ⟨h, some u⟩ .stop ⟨h', none⟩
  | read {h h' : Host Entry} {u : UnixDisk} {s : Int} {data result : Buf} {o : Nat} (hu : u.readRequest h s data o = .ok (result, h')) :
      Step diskname ⟨h, some u⟩ (.read s data o result) ⟨h', some u⟩
  | write {h h' : Host Entry} {u : UnixDisk} {s : Int} {data : Buf} {o : Nat} (hu : u.writeRequest h s data o = .ok h') :
      Step diskname ⟨h, some u⟩ (.write s data o) ⟨h', some u⟩
  | other {x : Station Entry} {h : Host Entry} (he : Elsewhere diskname x h) : Step diskname x .other { x with host := h }

/-- The same events on the disk of the file system, which has no file: reading and writing sectors is all that there is. -/
inductive Disk.Acts : Disk → DiskEvent → Disk → Prop where
  | start (d : Disk) : Acts d .start d
  | stop (d : Disk) : Acts d .stop d
  | read {d : Disk} {s : Int} {data result : Buf} {o : Nat} (h : d.readSector s data o = .ok result) : Acts d (.read s data o result) d
  | write {d d' : Disk} {s : Int} {data : Buf} {o : Nat} (h : d.writeSector s data o = .ok d') : Acts d (.write s data o) d'
  | other (d : Disk) : Acts d .other d

/-! ## The format -/

/-- The file holds the disk. -/
structure IsDisk (f : File) (d : Disk) : Prop where
  size : (f.size : Int) = diskSize
  magic : ∀ j < 4, f.bytes j = byteOf magicNumber j
  sectors : ∀ s : Int, 0 ≤ s → s < numSectors → ∀ j < 128, f.bytes (128 * s.toNat + 4 + j) = d.bytes s j

/-- The machine finds the disk `d`, and has it open while it runs. -/
def Station.Stores (diskname : List UInt8) (x : Station Entry) (d : Disk) : Prop :=
  ∃ file, x.host.lookup diskname = some file ∧ IsDisk (x.host.files file) d ∧ ∀ u, x.disk = some u → Host.Opened x.host u.fileno file

/-- A sector written. -/
theorem IsDisk.write {f : File} {d : Disk} (h : IsDisk f d) {s : Int} (hs : 0 ≤ s ∧ s < numSectors) (data : Buf) (o : Nat) :
    IsDisk (f.write (128 * s.toNat + 4) (fun j => data (o + j)) 128) (d.put s data o) := by
  have hsize := h.size
  simp only [diskSize, magicSize, numSectors, sectorSize] at hsize hs
  refine ⟨?_, ?_, ?_⟩
  · show ((max f.size (128 * s.toNat + 4 + 128) : Nat) : Int) = 131076
    omega
  · intro j hj
    rw [← h.magic j hj]
    unfold File.write
    dsimp only
    rw [if_neg (by omega), if_pos (by omega)]
  · intro t ht0 ht j hj
    simp only [numSectors] at ht
    unfold File.write
    dsimp only
    by_cases hst : t = s
    · subst hst
      rw [if_pos (by omega), Disk.bytes_put_same d t data o hj, Nat.add_sub_cancel_left]
    · rw [if_neg (by omega), if_pos (by omega), h.sectors t ht0 ht j hj, Disk.bytes_congr (Disk.sector_put_other d hst data o)]

/-! ## Transfers -/

section Transfers

variable {h h' : Host Entry} {fd file : Nat}

theorem readFile_of {n c : Int} {bytes : Buf} (hr : h.read fd n = (c, bytes, h')) :
    readFile h fd n = if c = n then .ok (bytes, h') else .error .assertFailed := by
  unfold readFile
  rw [hr]
  show (assert (c = n) >>= fun _ => (.ok (bytes, h') : Except Fault (Buf × Host Entry))) = _
  split <;> rename_i hc
  · rw [assert_of hc]
    rfl
  · rw [assert_not hc]
    rfl

theorem writeFile_of {n : Int} {src : Buf} (hw : h.write fd src n = (n, h')) : Stub.writeFile h fd src n = .ok h' := by
  unfold Stub.writeFile
  rw [hw]
  show (assert (n = n) >>= fun _ => (.ok h' : Except Fault (Host Entry))) = _
  rw [assert_of rfl]
  rfl

theorem lseek_of (ho : Host.Opened h fd file) {p : Int} (h0 : 0 ≤ p) (hmax : p ≤ maxOffset) :
    Stub.lseek h fd p .set = .ok (h.moved fd file p.toNat) := by
  unfold Stub.lseek
  rw [Host.lseek_set_of ho h0 hmax]
  show (assert (p ≥ 0) >>= fun _ => (.ok (h.moved fd file p.toNat) : Except Fault (Host Entry))) = _
  rw [assert_of h0]
  rfl

/-- Bytes of a file, if it has them. -/
theorem read_at {o : Nat} (hd : h.descriptors fd = some ⟨file, o⟩) {x : Int} {n : Nat} (hx : x = n) (hn : 0 < n) :
    readFile h fd x = if o + n ≤ (h.files file).size then .ok (fun j => (h.files file).bytes (o + j), h.moved fd file (o + n))
      else .error .assertFailed := by
  subst hx
  rw [readFile_of (Host.read_eq hd (by omega))]
  by_cases hle : o + n ≤ (h.files file).size
  · have hc : Host.readCount (h.files file) o n = n := by unfold Host.readCount; omega
    rw [if_pos hc, if_pos hle, hc, Int.toNat_natCast]
  · have hc : Host.readCount (h.files file) o n ≠ n := by unfold Host.readCount; omega
    rw [if_neg hc, if_neg hle]

/-- Bytes written to a file. -/
theorem write_at {o : Nat} (hd : h.descriptors fd = some ⟨file, o⟩) (src : Buf) {x : Int} {n : Nat} (hx : x = n) (hn : 0 < n)
    (hmax : ((o + n : Nat) : Int) ≤ maxOffset) : Stub.writeFile h fd src x =
      .ok { h.moved fd file (o + n) with files := Function.update h.files file ((h.files file).write o src n) } := by
  subst hx
  refine writeFile_of ?_
  rw [Host.write_eq hd src (by omega), if_neg (by omega)]
  have hc : min (n : Int) (maxOffset - o) = n := by omega
  rw [hc, Int.toNat_natCast]

/-- `ReadRequest` gives the bytes of the sector, if the file has them. -/
theorem UnixDisk.readRequest_of {u : UnixDisk} (ho : Host.Opened h u.fileno file) {s : Int} (hs : 0 ≤ s ∧ s < numSectors) (data : Buf)
    (o : Nat) : u.readRequest h s data o = if 128 * s.toNat + 4 + 128 ≤ (h.files file).size then
      .ok (copy (fun j => (h.files file).bytes (128 * s.toNat + 4 + j)) 0 data o 128, h.moved u.fileno file (128 * s.toNat + 4 + 128))
      else .error .assertFailed := by
  have hon := hs
  simp only [numSectors] at hs
  have hp : (sectorSize * s + magicSize).toNat = 128 * s.toNat + 4 := by simp only [sectorSize, magicSize]; omega
  have h0 : 0 ≤ sectorSize * s + magicSize := by simp only [sectorSize, magicSize]; omega
  have hmax : sectorSize * s + magicSize ≤ maxOffset := by simp only [sectorSize, magicSize, maxOffset]; omega
  unfold readRequest
  rw [assert_of hon, ok_bind, lseek_of ho h0 hmax,
    ok_bind, hp, read_at (Host.moved_descriptors _ _ _ _) (show sectorSize = (128 : Nat) from rfl) (by decide)]
  by_cases hle : 128 * s.toNat + 4 + 128 ≤ (h.files file).size
  · rw [if_pos hle, if_pos (show 128 * s.toNat + 4 + 128 ≤ ((h.moved u.fileno file (128 * s.toNat + 4)).files file).size from hle),
      ok_bind, Host.moved_moved]
    rfl
  · rw [if_neg hle, if_neg (show ¬128 * s.toNat + 4 + 128 ≤ ((h.moved u.fileno file (128 * s.toNat + 4)).files file).size from hle)]
    rfl

/-- `WriteRequest` writes the bytes of the sector. -/
theorem UnixDisk.writeRequest_of {u : UnixDisk} (ho : Host.Opened h u.fileno file) {s : Int} (hs : 0 ≤ s ∧ s < numSectors) (data : Buf)
    (o : Nat) : u.writeRequest h s data o =
      .ok { h.moved u.fileno file (128 * s.toNat + 4 + 128) with
        files := Function.update h.files file ((h.files file).write (128 * s.toNat + 4) (fun j => data (o + j)) 128) } := by
  have hon := hs
  simp only [numSectors] at hs
  have hp : (sectorSize * s + magicSize).toNat = 128 * s.toNat + 4 := by simp only [sectorSize, magicSize]; omega
  have h0 : 0 ≤ sectorSize * s + magicSize := by simp only [sectorSize, magicSize]; omega
  have hmax : sectorSize * s + magicSize ≤ maxOffset := by simp only [sectorSize, magicSize, maxOffset]; omega
  have hend : ((128 * s.toNat + 4 + 128 : Nat) : Int) ≤ maxOffset := by simp only [maxOffset]; omega
  unfold writeRequest
  rw [assert_of hon, ok_bind, lseek_of ho h0 hmax, ok_bind, hp,
    write_at (Host.moved_descriptors _ _ _ _) _ (show sectorSize = (128 : Nat) from rfl) (by decide) hend, Host.moved_moved]
  rfl

/-- A file is taken for a disk by its first four bytes. -/
theorem UnixDisk.new_of_file [DecidableEq Entry] {diskname : List UInt8} (hl : h.lookup diskname = some file) :
    UnixDisk.new h diskname = if 4 ≤ (h.files file).size ∧ intAt (h.files file).bytes 0 = magicNumber then
      .ok (⟨h.nextDescriptor⟩, (h.describe file).2.moved h.nextDescriptor file 4) else .error .assertFailed := by
  have hopen : h.openExisting diskname = (some h.nextDescriptor, (h.describe file).2) := by
    unfold Host.openExisting
    rw [hl]
    rfl
  have hd : (h.describe file).2.descriptors h.nextDescriptor = some ⟨file, 0⟩ := Function.update_self _ _ _
  have hread := read_at hd (show magicSize = (4 : Nat) from rfl) (by decide)
  rw [Nat.zero_add] at hread
  unfold new
  rw [hopen]
  show (readFile (h.describe file).2 h.nextDescriptor magicSize >>= _) = _
  rw [hread]
  by_cases hsize : 4 ≤ (h.files file).size
  · rw [if_pos (show 4 ≤ ((h.describe file).2.files file).size from hsize), ok_bind]
    dsimp only
    have hbytes : intAt (fun j => ((h.describe file).2.files file).bytes (0 + j)) 0 = intAt (h.files file).bytes 0 :=
      intAt_congr fun k _ => by rw [Nat.zero_add]; rfl
    by_cases hm : intAt (h.files file).bytes 0 = magicNumber
    · rw [assert_of (hbytes.trans hm), if_pos ⟨hsize, hm⟩]
      rfl
    · rw [assert_not (fun e => hm (hbytes.symm.trans e)), if_neg fun h => hm h.2]
      rfl
  · rw [if_neg (show ¬4 ≤ ((h.describe file).2.files file).size from hsize), if_neg fun h => hsize h.1]
    rfl

/-- A disk of zeros. -/
def Disk.zeros : Disk := { sector := fun _ => Vector.replicate 128 0 }

/-- The file that is created: the magic number, and zeros up to the size of the disk. -/
theorem isDisk_created : IsDisk (((⟨0, fun _ => 0⟩ : File).write 0 (byteOf magicNumber) 4).write 131072 (fun _ => 0) 4) .zeros := by
  refine ⟨rfl, ?_, ?_⟩
  · intro j hj
    unfold File.write
    dsimp only
    rw [if_neg (by omega), if_pos (by omega), if_pos (by omega), Nat.sub_zero]
  · intro s h0 hs j hj
    simp only [numSectors] at hs
    have hzero : Disk.bytes .zeros s j = 0 := by simp [Disk.bytes, Disk.zeros, hj]
    rw [hzero]
    unfold File.write
    dsimp only
    split
    · rfl
    · split
      · rw [if_neg (by omega), if_neg (by omega)]
      · rfl

/-- A disk that is created. -/
theorem UnixDisk.new_of_none [DecidableEq Entry] {diskname : List UInt8} {entry : Entry} (hr : h.resolve diskname = some entry)
    (he : h.entries entry = none) :
    ∃ u h', UnixDisk.new h diskname = .ok (u, h') ∧ Station.Stores diskname ⟨h', some u⟩ .zeros := by
  have hopen : h.openExisting diskname = (none, h) := by
    unfold Host.openExisting Host.lookup
    rw [hr, Option.bind_some, he]
  generalize hh : ({ h with
      entries := Function.update h.entries entry (some h.nextFile)
      files := Function.update h.files h.nextFile ⟨0, fun _ => 0⟩
      nextFile := h.nextFile + 1 } : Host Entry) = h₀
  have hfile : h₀.files h.nextFile = ⟨0, fun _ => 0⟩ := by
    rw [← hh]
    exact Function.update_self _ _ _
  have hlookup : h₀.lookup diskname = some h.nextFile := by
    rw [← hh]
    show (h.resolve diskname).bind _ = _
    rw [hr]
    exact Function.update_self _ _ _
  have htrunc : Stub.openForWrite h diskname = .ok (h₀.nextDescriptor, (h₀.describe h.nextFile).2) := by
    unfold Stub.openForWrite Host.openTruncated
    rw [hr]
    dsimp only
    rw [he]
    dsimp only
    rw [hh]
    rfl
  have hd : (h₀.describe h.nextFile).2.descriptors h₀.nextDescriptor = some ⟨h.nextFile, 0⟩ := Function.update_self _ _ _
  have hopened : ∀ files, Host.Opened { (h₀.describe h.nextFile).2.moved h₀.nextDescriptor h.nextFile (0 + 4) with files }
      h₀.nextDescriptor h.nextFile := fun _ => ⟨_, Function.update_self _ _ _⟩
  refine ⟨⟨h₀.nextDescriptor⟩, { (h₀.describe h.nextFile).2.moved h₀.nextDescriptor h.nextFile (131072 + 4) with
    files := Function.update h₀.files h.nextFile (((h₀.files h.nextFile).write 0 (byteOf magicNumber) 4).write 131072 (fun _ => 0) 4) },
    ?_, h.nextFile, hlookup, ?_, ?_⟩
  · unfold new
    rw [hopen]
    show (Stub.openForWrite h diskname >>= _) = _
    rw [htrunc, ok_bind]
    show (Stub.writeFile (h₀.describe h.nextFile).2 h₀.nextDescriptor (byteOf magicNumber) magicSize >>= _) = _
    rw [write_at hd _ (show magicSize = (4 : Nat) from rfl) (by decide) (by decide), ok_bind,
      lseek_of (hopened _) (by decide) (by decide), ok_bind,
      write_at (Host.moved_descriptors _ _ _ _) _ (show (4 : Int) = (4 : Nat) from rfl) (by decide) (by decide), ok_bind]
    refine congrArg Except.ok (Prod.ext rfl ?_)
    simp only [Host.moved, Host.describe, Function.update_idem, Function.update_self]
    rfl
  · dsimp only
    rw [Function.update_self, hfile]
    exact isDisk_created
  · intro u hu
    obtain rfl := Option.some.inj hu
    exact ⟨_, Function.update_self _ _ _⟩

end Transfers

/-! ## The runs -/

section Runs

variable [DecidableEq Entry] {diskname : List UInt8} {x x' : Station Entry} {d : Disk}

/-- A step of the host is a step of the disk. -/
theorem Station.Stores.step (hx : x.Stores diskname d) {e : DiskEvent} (h : Station.Step diskname x e x') :
    ∃ d', d.Acts e d' ∧ x'.Stores diskname d' := by
  obtain ⟨file, hl, hd, ho⟩ := hx
  cases h with
  | @start h h' u hu =>
    rw [UnixDisk.new_of_file hl] at hu
    split at hu
    · cases hu
      exact ⟨d, .start d, file, hl, hd, fun u hu => by cases hu; exact Host.opened_moved _ _ _ _⟩
    · cases hu
  | @stop h h' u hu =>
    unfold UnixDisk.delete at hu
    rw [Stub.close_ok hu]
    exact ⟨d, .stop d, file, hl, hd, nofun⟩
  | @read h h' u s data result o hu =>
    have hs : 0 ≤ s ∧ s < numSectors := (of_assert_bind hu).1
    have hon := hs
    simp only [numSectors] at hs
    have hsize := hd.size
    simp only [diskSize, magicSize, numSectors, sectorSize] at hsize
    rw [UnixDisk.readRequest_of (ho u rfl) hon, if_pos (by dsimp only; omega)] at hu
    cases hu
    refine ⟨d, .read ?_, file, hl, hd, fun u hu => by cases hu; exact Host.opened_moved _ _ _ _⟩
    rw [Disk.readSector_of d hon]
    refine congrArg Except.ok (copy_congr (fun j hj => ?_) data o)
    rw [Nat.zero_add]
    exact (hd.sectors s hon.1 hon.2 j hj).symm
  | @write h h' u s data o hu =>
    have hon : 0 ≤ s ∧ s < numSectors := (of_assert_bind hu).1
    rw [UnixDisk.writeRequest_of (ho u rfl) hon] at hu
    cases hu
    refine ⟨_, .write (Disk.writeSector_of d hon data o), file, hl, ?_, fun u hu => by cases hu; exact ⟨_, Function.update_self _ _ _⟩⟩
    dsimp only
    rw [Function.update_self]
    exact hd.write hon data o
  | other he =>
    refine ⟨d, .other d, file, he.lookup.trans hl, ?_, fun u hu => ?_⟩
    · rw [he.contents file hl]
      exact hd
    · obtain ⟨o, hfd⟩ := ho u hu
      exact ⟨o, (he.descriptor u hu).trans hfd⟩

/-- The machine can be started, and every request for a sector of the disk goes through. -/
structure Station.Ready (diskname : List UInt8) (x : Station Entry) : Prop where
  start : x.disk = none → ∃ r, UnixDisk.new x.host diskname = .ok r
  read : ∀ u, x.disk = some u → ∀ s, 0 ≤ s ∧ s < numSectors → ∀ data o, ∃ r, u.readRequest x.host s data o = .ok r
  write : ∀ u, x.disk = some u → ∀ s, 0 ≤ s ∧ s < numSectors → ∀ data o, ∃ r, u.writeRequest x.host s data o = .ok r

theorem Station.Stores.ready (hx : x.Stores diskname d) : x.Ready diskname := by
  obtain ⟨file, hl, hd, ho⟩ := hx
  have hsize := hd.size
  simp only [diskSize, magicSize, numSectors, sectorSize] at hsize
  refine ⟨fun _ => ?_, fun u hu s hs data o => ?_, fun u hu s hs data o => ?_⟩
  · have hm : intAt (x.host.files file).bytes 0 = magicNumber :=
      intAt_of_bytes (fun k hk => by rw [Nat.zero_add]; exact hd.magic k hk) (by decide)
    rw [UnixDisk.new_of_file hl, if_pos ⟨by omega, hm⟩]
    exact ⟨_, rfl⟩
  · have hon := hs
    simp only [numSectors] at hs
    rw [UnixDisk.readRequest_of (ho u hu) hon, if_pos (by omega)]
    exact ⟨_, rfl⟩
  · rw [UnixDisk.writeRequest_of (ho u hu) hs]
    exact ⟨_, rfl⟩

/-- On a host where the file of the disk does not exist yet, the first start goes through; and in every run from then on, through
requests, stops, further starts, and whatever else happens on the host, the sectors read are those of a disk that was zero and has
changed by the sectors written only, and the next start or request goes through. -/
theorem disk_file_refines {h : Host Entry} {entry : Entry} (hr : h.resolve diskname = some entry) (he : h.entries entry = none) :
    ∃ u h', UnixDisk.new h diskname = .ok (u, h') ∧ ∀ (es : List DiskEvent) (x' : Station Entry),
      Run (Station.Step diskname) ⟨h', some u⟩ es x' → ∃ d', Run Disk.Acts .zeros es d' ∧ x'.Stores diskname d' ∧ x'.Ready diskname := by
  obtain ⟨u, h', hnew, hx⟩ := UnixDisk.new_of_none hr he
  refine ⟨u, h', hnew, fun es x' hrun => ?_⟩
  have hsim (x : Station Entry) (d : Disk) (e : DiskEvent) (x' : Station Entry) (hx : x.Stores diskname d)
      (hs : Station.Step diskname x e x') : ∃ d', d.Acts e d' ∧ x'.Stores diskname d' := hx.step hs
  obtain ⟨d', hrun', hx'⟩ := Run.simulate hsim hx hrun
  exact ⟨d', hrun', hx', hx'.ready⟩

/-- On a host without files, a machine writes a sector and is stopped; the next one reads it. -/
theorem disk_file_refines_empty : ∃ u h', UnixDisk.new Host.empty (diskName 0) = .ok (u, h') ∧ ∃ result x',
    Run (Station.Step (diskName 0)) ⟨h', some u⟩ [.write 3 (fun _ => 7) 0, .stop, .start, .read 3 (fun _ => 0) 0 result] x' ∧
      ∀ j < 128, result j = 7 := by
  have hr : Host.empty.resolve (diskName 0) = some (diskName 0) := rfl
  have hon : 0 ≤ (3 : Int) ∧ (3 : Int) < numSectors := by decide
  obtain ⟨u, h', hnew, hruns⟩ := disk_file_refines hr rfl
  obtain ⟨-, -, -, hready⟩ := hruns [] _ (.nil _)
  obtain ⟨h₁, hwrite⟩ := hready.write u rfl 3 hon (fun _ => 7) 0
  obtain ⟨-, -, ⟨file, -, -, hopened⟩, -⟩ := hruns _ _ (.cons (.write hwrite) (.nil _))
  obtain ⟨h₂, hstop⟩ := Stub.close_of (hopened u rfl)
  obtain ⟨-, -, -, hready⟩ := hruns _ _ (.cons (.write hwrite) (.cons (.stop hstop) (.nil _)))
  obtain ⟨⟨u', h₃⟩, hstart⟩ := hready.start rfl
  obtain ⟨-, -, -, hready⟩ := hruns _ _ (.cons (.write hwrite) (.cons (.stop hstop) (.cons (.start hstart) (.nil _))))
  obtain ⟨⟨result, h₄⟩, hread⟩ := hready.read u' rfl 3 hon (fun _ => 0) 0
  have hrun := Run.cons (Station.Step.write hwrite) (.cons (.stop hstop) (.cons (.start hstart) (.cons (.read hread) (.nil _))))
  refine ⟨u, h', hnew, result, _, hrun, fun j hj => ?_⟩
  -- the disk without a file has gone through the same events
  obtain ⟨_, hacts, -, -⟩ := hruns _ _ hrun
  rcases hacts with - | ⟨hput, - | ⟨hstopped, - | ⟨hstarted, - | ⟨hget, -⟩⟩⟩⟩
  cases hstopped
  cases hstarted
  cases hput with
  | write hput =>
    rw [Disk.writeSector_of _ hon] at hput
    cases hput
    cases hget with
    | read hget =>
      rw [Disk.readSector_of _ hon] at hget
      cases hget
      rw [copy_start _ _ _ _ hj, Nat.zero_add, Disk.bytes_put_same _ _ _ _ hj]

/-- A file that exists is taken for a disk exactly when it begins with the magic number; and then a sector can be read exactly when
the file has all of its bytes. A file of which only the magic number was written is a disk of which no sector can be read. -/
theorem accepted_disk_reads {h : Host Entry} {file : Nat} (hl : h.lookup diskname = some file) :
    ((∃ r, UnixDisk.new h diskname = .ok r) ↔ 4 ≤ (h.files file).size ∧ intAt (h.files file).bytes 0 = magicNumber) ∧
      ∀ u h', UnixDisk.new h diskname = .ok (u, h') → ∀ s, 0 ≤ s ∧ s < numSectors → ∀ data o,
        (∃ r, u.readRequest h' s data o = .ok r) ↔ magicSize + sectorSize * (s + 1) ≤ ((h.files file).size : Int) := by
  rw [UnixDisk.new_of_file hl]
  constructor
  · split <;> rename_i hc
    · exact iff_of_true ⟨_, rfl⟩ hc
    · exact iff_of_false nofun hc
  · intro u h' hnew s hs data o
    split at hnew
    · cases hnew
      have hon := hs
      simp only [numSectors] at hs
      rw [UnixDisk.readRequest_of (Host.opened_moved _ _ _ _) hon]
      simp only [magicSize, sectorSize]
      split <;> rename_i hc
      · refine iff_of_true ⟨_, rfl⟩ ?_
        have hc' : 128 * s.toNat + 4 + 128 ≤ (h.files file).size := hc
        omega
      · refine iff_of_false nofun ?_
        have hc' : ¬128 * s.toNat + 4 + 128 ≤ (h.files file).size := hc
        omega
    · cases hnew

/-- The machine was stopped while it created its disk. -/
theorem accepted_disk_reads_short : ∃ (h : Host (List UInt8)) (u : UnixDisk) (h' : Host (List UInt8)),
    UnixDisk.new h (diskName 0) = .ok (u, h') ∧ ¬∃ r, u.readRequest h' 0 (fun _ => 0) 0 = .ok r := by
  obtain ⟨h, hh⟩ : ∃ h : Host (List UInt8),
      h = { Host.empty with entries := fun _ => some 0, files := fun _ => ⟨4, byteOf magicNumber⟩ } := ⟨_, rfl⟩
  have hl : h.lookup (diskName 0) = some 0 := by
    rw [hh]
    rfl
  have hfile : h.files 0 = ⟨4, byteOf magicNumber⟩ := by rw [hh]
  obtain ⟨hiff, hreads⟩ := accepted_disk_reads hl
  obtain ⟨⟨u, h'⟩, hnew⟩ := hiff.2 (by
    rw [hfile]
    exact ⟨le_refl 4, intAt_of_bytes (fun k _ => by rw [Nat.zero_add]) (by decide)⟩)
  refine ⟨h, u, h', hnew, fun hread => ?_⟩
  have hle := (hreads u h' hnew 0 (by decide) _ _).1 hread
  rw [hfile] at hle
  exact absurd hle (by decide)

end Runs

end Nachos
