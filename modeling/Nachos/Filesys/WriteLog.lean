import Nachos.Filesys.FileSys

/-!
# The sector writes of a call (filesys/filesys.cc, openfile.cc, filehdr.cc, directory.cc, pbitmap.cc)

Every call of the file system again, this time giving the sectors it writes, in the order in which it writes them: `WriteSector`
appends to a list instead of changing the disk. Each call leaves the disk that its list of writes makes of the old one; a machine that
stops in the middle of the call has carried out a part of the list.
-/

namespace Nachos

open Bytes Loop

/-- A sector as `WriteSector` is given it. -/
structure SectorWrite where
  sector : Int
  data : Vector UInt8 128

namespace SectorWrite

/-- The 128 bytes of `data` from offset `o` on. -/
def ofBuf (s : Int) (data : Buf) (o : Nat) : SectorWrite := ⟨s, Vector.ofFn fun j => data (o + j)⟩

end SectorWrite

namespace Disk

/-- The disk after some writes. -/
def apply (d : Disk) (ws : List SectorWrite) : Disk :=
  ws.foldl (fun d w => { sector := Function.update d.sector w.sector w.data }) d

/-- `WriteSector`, recorded. -/
def writeSectorLog (sectorNumber : Int) (data : Buf) (o : Nat) (ws : List SectorWrite) : Except Fault (List SectorWrite) := do
  assert (0 ≤ sectorNumber ∧ sectorNumber < numSectors)
  return ws ++ [.ofBuf sectorNumber data o]

@[simp] theorem apply_nil (d : Disk) : d.apply [] = d := rfl

theorem apply_append (d : Disk) (ws ws' : List SectorWrite) : d.apply (ws ++ ws') = (d.apply ws).apply ws' :=
  List.foldl_append

theorem apply_ofBuf (d : Disk) (s : Int) (data : Buf) (o : Nat) : d.apply [.ofBuf s data o] = d.put s data o := rfl

/-- A sector that is not written. -/
theorem apply_other (d : Disk) {ws : List SectorWrite} {x : Int} (h : ∀ w ∈ ws, w.sector ≠ x) : (d.apply ws).sector x = d.sector x := by
  induction ws generalizing d with
  | nil => rfl
  | cons w ws ih =>
    refine (ih _ fun w' hw => h w' (List.mem_cons_of_mem _ hw)).trans ?_
    exact Function.update_of_ne (h w List.mem_cons_self).symm w.data d.sector

/-- A part of some writes does not reach a sector that none of them goes to. -/
theorem apply_take_notMem (d : Disk) {ws : List SectorWrite} {l : List Int} (h : ∀ w ∈ ws, w.sector ∈ l) {x : Int} (hx : x ∉ l)
    (n : Nat) : (d.apply (ws.take n)).sector x = d.sector x := by
  refine apply_other d fun w hw e => hx ?_
  rw [← e]
  exact h w (List.mem_of_mem_take hw)

/-- A write and its record. -/
theorem writeSector_log (d : Disk) (s : Int) (data : Buf) (o : Nat) (ws : List SectorWrite) :
    (d.apply ws).writeSector s data o = (writeSectorLog s data o ws).map d.apply := by
  unfold writeSector writeSectorLog
  cases assert (0 ≤ s ∧ s < numSectors) with
  | error e => rfl
  | ok _ =>
    show Except.ok _ = Except.ok _
    rw [apply_append, apply_ofBuf]

end Disk

/-- `FileHeader::WriteBack`. -/
def FileHeader.writeBackLog (h : FileHeader) (sector : Int) : Except Fault (List SectorWrite) := Disk.writeSectorLog sector h.toBuf 0 []

namespace OpenFile

/-- One round of the last loop of `WriteAt`. -/
def writeRoundLog (f : OpenFile) (r : Request) (buf : Buf) (i : Nat) (ws : List SectorWrite) : Except Fault (List SectorWrite) := do
  let s ← f.hdr.byteToSector ((r.firstSector + i) * sectorSize)
  Disk.writeSectorLog s buf (i * 128) ws

/-- `OpenFile::WriteAt`. -/
def writeAtLog (f : OpenFile) (d : Disk) (src : Buf) (numBytes position : Int) (junk : Buf) : Except Fault (List SectorWrite) :=
  match request f.hdr.numBytes numBytes position with
  | none => return []
  | some r => do
    let buf ← newChars r.bufSize junk
    let buf ← f.fillBuffer d r src position buf
    forRange (f.writeRoundLog r buf) r.numSectors.toNat []

/-- The write loop and its record. -/
theorem writeLoop_log (f : OpenFile) (d : Disk) (r : Request) (buf : Buf) (k : Nat) :
    forRange (f.writeRound r buf) k d = (forRange (f.writeRoundLog r buf) k []).map d.apply := by
  induction k with
  | zero => rfl
  | succ k ih =>
    rw [forRange_succ, forRange_succ, ih]
    cases forRange (f.writeRoundLog r buf) k [] with
    | error e => rfl
    | ok ws =>
      show f.writeRound r buf k (d.apply ws) = (f.writeRoundLog r buf k ws).map d.apply
      unfold writeRound writeRoundLog
      cases f.hdr.byteToSector ((r.firstSector + k) * sectorSize) with
      | error e => rfl
      | ok s => exact Disk.writeSector_log d s buf (k * 128) ws

/-- `WriteAt` and its record. -/
theorem writeAt_log (f : OpenFile) (d : Disk) (src : Buf) (n p : Int) (junk : Buf) :
    Prod.snd <$> f.writeAt d src n p junk = (f.writeAtLog d src n p junk).map d.apply := by
  unfold writeAt writeAtLog
  cases request f.hdr.numBytes n p with
  | none => rfl
  | some r =>
    simp only
    cases newChars r.bufSize junk with
    | error e => rfl
    | ok buf =>
      simp only [ok_bind]
      cases f.fillBuffer d r src p buf with
      | error e => rfl
      | ok buf =>
        simp only [ok_bind, writeLoop_log f d r buf]
        cases forRange (f.writeRoundLog r buf) r.numSectors.toNat [] <;> rfl

end OpenFile

/-- `Directory::WriteBack`. -/
def Directory.writeBackLog {n : Nat} (dir : Directory n) (file : OpenFile) (d : Disk) (junk : Buf) : Except Fault (List SectorWrite) :=
  file.writeAtLog d dir.toBuf (n * 20) 0 junk

/-- `PersistentBitmap::WriteBack`. -/
def Bitmap.writeBackLog {n : Nat} (b : Bitmap n) (file : OpenFile) (d : Disk) (junk : Buf) : Except Fault (List SectorWrite) :=
  file.writeAtLog d b.toBuf (numWords n * 4) 0 junk

theorem FileHeader.writeBack_log (h : FileHeader) (d : Disk) (sector : Int) :
    h.writeBack d sector = (h.writeBackLog sector).map d.apply := Disk.writeSector_log d sector h.toBuf 0 []

theorem Directory.writeBack_log {n : Nat} (dir : Directory n) (file : OpenFile) (d : Disk) (junk : Buf) :
    dir.writeBack file d junk = (dir.writeBackLog file d junk).map d.apply := by
  refine Eq.trans ?_ (OpenFile.writeAt_log file d dir.toBuf (n * 20) 0 junk)
  unfold writeBack
  cases file.writeAt d dir.toBuf (n * 20) 0 junk <;> rfl

theorem Bitmap.writeBack_log {n : Nat} (b : Bitmap n) (file : OpenFile) (d : Disk) (junk : Buf) :
    b.writeBack file d junk = (b.writeBackLog file d junk).map d.apply := by
  refine Eq.trans ?_ (OpenFile.writeAt_log file d b.toBuf (numWords n * 4) 0 junk)
  unfold writeBack
  cases file.writeAt d b.toBuf (numWords n * 4) 0 junk <;> rfl

namespace FileSystem

/-- The end of `FileSystem::Create`. -/
def createFlushLog (fs : FileSystem) (sector : Int) (hdr : FileHeader) (directory : Directory numDirEntries) (freeMap : FreeMap)
    (junk : Nat → Buf) : Except Fault (List SectorWrite) := do
  let ws₁ ← hdr.writeBackLog sector
  let ws₂ ← directory.writeBackLog fs.directoryFile (fs.disk.apply ws₁) (junk 2)
  let ws₃ ← freeMap.writeBackLog fs.freeMapFile (fs.disk.apply (ws₁ ++ ws₂)) (junk 3)
  return ws₁ ++ ws₂ ++ ws₃

/-- `FileSystem::Create`. -/
def createLog (fs : FileSystem) (name : Buf) (initialSize : Int) (junk : Nat → Buf) : Except Fault (Bool × List SectorWrite) := do
  let directory ← (Directory.new numDirEntries (junk 0)).fetchFrom fs.directoryFile fs.disk
  if directory.find name ≠ -1 then return (false, [])
  else
    let freeMap ← Bitmap.fromFile 1024 fs.freeMapFile fs.disk
    let (sector, freeMap) ← freeMap.findAndSet
    if sector = -1 then return (false, [])
    else
      let (added, directory) := directory.add name sector
      if !added then return (false, [])
      else
        let (allocated, hdr, freeMap) ← (FileHeader.ofBuf (junk 1)).allocate freeMap initialSize
        if !allocated then return (false, [])
        else
          let ws ← fs.createFlushLog sector hdr directory freeMap junk
          return (true, ws)

/-- `FileSystem::Remove`. -/
def removeLog (fs : FileSystem) (name : Buf) (junk : Nat → Buf) : Except Fault (Bool × List SectorWrite) := do
  let directory ← (Directory.new numDirEntries (junk 0)).fetchFrom fs.directoryFile fs.disk
  let sector := directory.find name
  if sector = -1 then return (false, [])
  else
    let fileHdr ← FileHeader.fetchFrom fs.disk sector
    let freeMap ← Bitmap.fromFile 1024 fs.freeMapFile fs.disk
    let freeMap ← fileHdr.deallocate freeMap
    let freeMap ← freeMap.clear sector
    let (_, directory) := directory.remove name
    let ws₁ ← freeMap.writeBackLog fs.freeMapFile fs.disk (junk 1)
    let ws₂ ← directory.writeBackLog fs.directoryFile (fs.disk.apply ws₁) (junk 2)
    return (true, ws₁ ++ ws₂)

/-- The file system after the writes. -/
def applied (fs : FileSystem) (p : Bool × List SectorWrite) : Bool × FileSystem := (p.1, { fs with disk := fs.disk.apply p.2 })

/-- The end of `Create` and its record. -/
theorem createFlush_log (fs : FileSystem) (sector : Int) (hdr : FileHeader) (directory : Directory numDirEntries) (freeMap : FreeMap)
    (junk : Nat → Buf) :
    (do let d ← hdr.writeBack fs.disk sector
        let d ← directory.writeBack fs.directoryFile d (junk 2)
        freeMap.writeBack fs.freeMapFile d (junk 3)) = (fs.createFlushLog sector hdr directory freeMap junk).map fs.disk.apply := by
  unfold createFlushLog
  rw [FileHeader.writeBack_log, bind_of_map, map_bind]
  refine bind_congr fun ws₁ => ?_
  rw [Directory.writeBack_log, bind_of_map, map_bind]
  refine bind_congr fun ws₂ => ?_
  rw [← Disk.apply_append, Bitmap.writeBack_log, map_bind]
  cases freeMap.writeBackLog fs.freeMapFile (fs.disk.apply (ws₁ ++ ws₂)) (junk 3) with
  | error e => rfl
  | ok ws₃ => exact congrArg Except.ok (Disk.apply_append fs.disk (ws₁ ++ ws₂) ws₃).symm

/-- `Create` and its record. -/
theorem create_log (fs : FileSystem) (name : Buf) (size : Int) (junk : Nat → Buf) :
    fs.create name size junk = (fs.createLog name size junk).map fs.applied := by
  unfold create createLog
  rw [map_bind]
  refine bind_congr fun directory => ?_
  split
  · rfl
  rw [map_bind]
  refine bind_congr fun freeMap => ?_
  rw [map_bind]
  refine bind_congr fun p => ?_
  dsimp only
  split
  · rfl
  split
  · rfl
  rw [map_bind]
  refine bind_congr fun q => ?_
  split
  · rfl
  have h := congrArg (· >>= fun d => (Except.ok (true, { fs with disk := d }) : Except Fault (Bool × FileSystem)))
    (createFlush_log fs p.1 q.2.1 (directory.add name p.1).2 q.2.2 junk)
  simp only [bind_assoc, bind_of_map] at h
  rw [map_bind]
  exact h.trans (bind_congr fun ws => rfl)

/-- `Remove` and its record. -/
theorem remove_log (fs : FileSystem) (name : Buf) (junk : Nat → Buf) :
    fs.remove name junk = (fs.removeLog name junk).map fs.applied := by
  unfold remove removeLog
  rw [map_bind]
  refine bind_congr fun directory => ?_
  by_cases h : directory.find name = -1
  · simp only [h, if_true]
    rfl
  simp only [h, if_false, map_bind]
  refine bind_congr fun fileHdr => bind_congr fun freeMap => bind_congr fun freeMap => bind_congr fun freeMap => ?_
  rw [Bitmap.writeBack_log, bind_of_map]
  refine bind_congr fun ws₁ => ?_
  rw [Directory.writeBack_log, bind_of_map]
  refine bind_congr fun ws₂ => ?_
  rw [← Disk.apply_append]
  rfl

end FileSystem

end Nachos
