import Nachos.Filesys.Directory
import Nachos.Filesys.Pbitmap

/-!
# The file system (filesys/filesys.cc)

`Create` and `Remove` read the directory and the free map from their files, work on the copies, and write them back at the end.
The two files stay open from the formatting of the disk on. The memory that `new` returns has arbitrary contents, and some of
it reaches the disk: the parameter `junk` gives these contents, one number for each allocation.
-/

namespace Nachos

open Bytes

/-- `FreeMapSector`. -/
abbrev freeMapSector : Int := 0

/-- `DirectorySector`. -/
abbrev directorySector : Int := 1

/-- `FreeMapFileSize`: `NumSectors / BitsInByte`. -/
@[simp] abbrev freeMapFileSize : Int := 128

/-- `NumDirEntries`. -/
@[simp] abbrev numDirEntries : Nat := 10

/-- `DirectoryFileSize`: `sizeof(DirectoryEntry) * NumDirEntries`. -/
@[simp] abbrev directoryFileSize : Int := 200

/-- A bitmap of `NumSectors` bits. -/
abbrev FreeMap := Bitmap 1024

/-- The disk, and the two files that `class FileSystem` keeps open. -/
structure FileSystem where
  disk : Disk
  freeMapFile : OpenFile
  directoryFile : OpenFile

namespace FileSystem

/-- The formatting branch of `FileSystem::FileSystem`. -/
def format (d : Disk) (junk : Nat → Buf) : Except Fault FileSystem := do
  let freeMap ← Bitmap.new 1024
  let directory := Directory.new numDirEntries (junk 0)
  -- First, allocate space for FileHeaders for the directory and bitmap
  let freeMap ← freeMap.mark freeMapSector
  let freeMap ← freeMap.mark directorySector
  -- Second, allocate space for the data blocks containing the contents of the directory and bitmap files
  let (ok, mapHdr, freeMap) ← (FileHeader.ofBuf (junk 1)).allocate freeMap freeMapFileSize
  assert (ok = true)
  let (ok, dirHdr, freeMap) ← (FileHeader.ofBuf (junk 2)).allocate freeMap directoryFileSize
  assert (ok = true)
  -- Flush the bitmap and directory FileHeaders back to disk
  let d ← mapHdr.writeBack d freeMapSector
  let d ← dirHdr.writeBack d directorySector
  -- OK to open the bitmap and directory files now
  let freeMapFile ← OpenFile.new d freeMapSector
  let directoryFile ← OpenFile.new d directorySector
  let d ← freeMap.writeBack freeMapFile d (junk 3)
  let d ← directory.writeBack directoryFile d (junk 4)
  return { disk := d, freeMapFile, directoryFile }

/-- `FileSystem::Create`; the result is the value returned and the file system. -/
def create (fs : FileSystem) (name : Buf) (initialSize : Int) (junk : Nat → Buf) : Except Fault (Bool × FileSystem) := do
  let directory ← (Directory.new numDirEntries (junk 0)).fetchFrom fs.directoryFile fs.disk
  if directory.find name ≠ -1 then return (false, fs) -- file is already in directory
  else
    let freeMap ← Bitmap.fromFile 1024 fs.freeMapFile fs.disk
    let (sector, freeMap) ← freeMap.findAndSet -- find a sector to hold the file header
    if sector = -1 then return (false, fs) -- no free block for file header
    else
      let (added, directory) := directory.add name sector
      if !added then return (false, fs) -- no space in directory
      else
        let (allocated, hdr, freeMap) ← (FileHeader.ofBuf (junk 1)).allocate freeMap initialSize
        if !allocated then return (false, fs) -- no space on disk for data
        else
          -- everything worked, flush all changes back to disk
          let d ← hdr.writeBack fs.disk sector
          let d ← directory.writeBack fs.directoryFile d (junk 2)
          let d ← freeMap.writeBack fs.freeMapFile d (junk 3)
          return (true, { fs with disk := d })

/-- `FileSystem::Remove`; the result is the value returned and the file system. -/
def remove (fs : FileSystem) (name : Buf) (junk : Nat → Buf) : Except Fault (Bool × FileSystem) := do
  let directory ← (Directory.new numDirEntries (junk 0)).fetchFrom fs.directoryFile fs.disk
  let sector := directory.find name
  if sector = -1 then return (false, fs) -- file not found
  else
    let fileHdr ← FileHeader.fetchFrom fs.disk sector
    let freeMap ← Bitmap.fromFile 1024 fs.freeMapFile fs.disk
    let freeMap ← fileHdr.deallocate freeMap -- remove data blocks
    let freeMap ← freeMap.clear sector -- remove header block
    let (_, directory) := directory.remove name
    let d ← freeMap.writeBack fs.freeMapFile fs.disk (junk 1) -- flush to disk
    let d ← directory.writeBack fs.directoryFile d (junk 2) -- flush to disk
    return (true, { fs with disk := d })

/-! ## What is on the disk -/

/-- The free map on the disk. -/
def freeMap (d : Disk) : FreeMap := Bitmap.inFile 1024 d (FileHeader.atSector d freeMapSector)

/-- The directory on the disk. -/
def directory (d : Disk) : Directory numDirEntries :=
  Directory.inFile numDirEntries d (FileHeader.atSector d directorySector)

/-- Entry `i` of the directory on the disk. -/
def entry (d : Disk) (i : Fin numDirEntries) : DirectoryEntry := (directory d).table[i]

/-- The header of the file in an entry. -/
def header (d : Disk) (e : DirectoryEntry) : FileHeader := FileHeader.atSector d e.sector

/-- The sectors of the file in an entry: its header sector and its data sectors. An unused entry has none. -/
def entrySectors (d : Disk) (e : DirectoryEntry) : List Int :=
  if e.inUse then e.sector :: (header d e).sectors else []

/-- The sectors the file system keeps for itself: the headers of the bitmap and of the directory, and their data sectors. -/
def systemSectors (d : Disk) : List Int :=
  [freeMapSector, directorySector] ++ (FileHeader.atSector d freeMapSector).sectors ++
    (FileHeader.atSector d directorySector).sectors

/-- All sectors in use. -/
def usedSectors (d : Disk) : List Int := systemSectors d ++ (directory d).table.toList.flatMap (entrySectors d)

/-! ## What a call that succeeds has done -/

/-- `Create` has made a file with header sector `s` in entry `k`. -/
structure Created (d : Disk) (name : Buf) (size : Int) (k : Fin numDirEntries) (s : Int) (d' : Disk) : Prop where
  unused : (entry d k).inUse = false
  directory_eq : directory d' = { table := (directory d).table.set k (Directory.newEntry (entry d k) name s) }
  valid : (FileHeader.atSector d' s).Valid
  numBytes : (FileHeader.atSector d' s).numBytes = size
  nodup : (s :: (FileHeader.atSector d' s).sectors).Nodup
  fresh : ∀ x ∈ s :: (FileHeader.atSector d' s).sectors, 0 ≤ x ∧ x < numSectors ∧ (freeMap d).bit x.toNat = false
  bits : ∀ i : Nat, (freeMap d').bit i = (decide ((i : Int) ∈ s :: (FileHeader.atSector d' s).sectors) || (freeMap d).bit i)
  frame : ∀ x, x ≠ s → x ∉ (FileHeader.atSector d freeMapSector).sectors →
    x ∉ (FileHeader.atSector d directorySector).sectors → d'.sector x = d.sector x

/-- `Remove` has taken the file out of entry `k`. -/
structure Removed (d : Disk) (k : Fin numDirEntries) (d' : Disk) : Prop where
  used : (entry d k).inUse = true
  directory_eq : directory d' = { table := (directory d).table.set k { entry d k with inUse := false } }
  bits : ∀ i : Nat, (freeMap d').bit i = (!decide ((i : Int) ∈ entrySectors d (entry d k)) && (freeMap d).bit i)
  frame : ∀ x, x ∉ (FileHeader.atSector d freeMapSector).sectors → x ∉ (FileHeader.atSector d directorySector).sectors →
    d'.sector x = d.sector x

/-! ## Operations in sequence -/

/-- A call that changes the disk: `Create`, `Remove`, or `WriteAt` on an `OpenFile` made for an entry of the directory. -/
inductive Op where
  | create (name : Buf) (initialSize : Int) (junk : Nat → Buf)
  | remove (name : Buf) (junk : Nat → Buf)
  | write (i : Fin numDirEntries) (src : Buf) (numBytes position : Int) (junk : Buf)

/-- The arguments considered: sizes that a header can hold, and requests whose arithmetic stays in the range of `int`. -/
def Op.Valid : Op → Prop
  | .create _ initialSize _ => 0 ≤ initialSize ∧ initialSize ≤ maxFileSize
  | .remove _ _ => True
  | .write _ _ numBytes position _ => OpenFile.Legal numBytes position

/-- `WriteAt` on a file of the directory; on an unused entry there is no file to write to. -/
def write (fs : FileSystem) (i : Fin numDirEntries) (src : Buf) (numBytes position : Int) (junk : Buf) :
    Except Fault FileSystem :=
  if (entry fs.disk i).inUse then do
    let file ← OpenFile.new fs.disk (entry fs.disk i).sector
    let (_, d) ← file.writeAt fs.disk src numBytes position junk
    return { fs with disk := d }
  else .ok fs

/-- One call. -/
def step (fs : FileSystem) : Op → Except Fault FileSystem
  | .create name initialSize junk => Prod.snd <$> fs.create name initialSize junk
  | .remove name junk => Prod.snd <$> fs.remove name junk
  | .write i src numBytes position junk => fs.write i src numBytes position junk

/-- A run of calls on a freshly formatted disk. -/
def run (d : Disk) (junk : Nat → Buf) (ops : List Op) : Except Fault FileSystem := do
  ops.foldlM step (← format d junk)

end FileSystem

end Nachos
