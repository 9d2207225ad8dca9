import Nachos.Filesys.Crash
import Nachos.Filesys.Real

/-!
# Starting again with a disk that is formatted (filesys/filesys.cc)

The other branch of the constructor opens the two system files where `format` has put them. What a running file system keeps in
memory is what this branch finds on the disk, so that it may be started again between any two calls. After a call that was cut off
it finds the directory and the free map that the writes made so far have left, which need not agree.
-/

namespace Nachos

open Bytes Loop

namespace FileSystem

variable {fs : FileSystem} {d d' : Disk}

/-! ## The constructor -/

/-- The branch of `FileSystem::FileSystem` that does not format. -/
def mount (d : Disk) : Except Fault FileSystem := do
  let freeMapFile ← OpenFile.new d freeMapSector
  let directoryFile ← OpenFile.new d directorySector
  return { disk := d, freeMapFile, directoryFile }

/-- The invariant of a file system that the constructor has started: the two files are at their beginnings. -/
structure Mounted (fs : FileSystem) : Prop extends Inv fs where
  mapStart : fs.freeMapFile.seekPosition = 0
  dirStart : fs.directoryFile.seekPosition = 0

/-- The headers of the system files are all that is read. -/
theorem Mounted.mount_of (h : Mounted fs) (h0 : d'.sector freeMapSector = fs.disk.sector freeMapSector)
    (h1 : d'.sector directorySector = fs.disk.sector directorySector) : mount d' = .ok { fs with disk := d' } := by
  have hmap : fs.freeMapFile = { hdr := FileHeader.atSector d' freeMapSector, seekPosition := 0 } := by
    rw [FileHeader.atSector_congr h0, ← h.mapHdr, ← h.mapStart]
  have hdir : fs.directoryFile = { hdr := FileHeader.atSector d' directorySector, seekPosition := 0 } := by
    rw [FileHeader.atSector_congr h1, ← h.dirHdr, ← h.dirStart]
  unfold mount OpenFile.new
  rw [FileHeader.fetchFrom_of (by decide), ok_bind, FileHeader.fetchFrom_of (by decide), hmap, hdir]
  rfl

theorem Mounted.withDisk (h : Mounted fs) (hI : Inv { fs with disk := d' }) : Mounted { fs with disk := d' } :=
  ⟨hI, h.mapStart, h.dirStart⟩

/-! ## The invariant of a disk of which other sectors are written -/

/-- The directory, the free map, the headers of the system and those of the files make up the invariant. -/
theorem DiskInv.congr (h : DiskInv d) (h0 : d'.sector freeMapSector = d.sector freeMapSector)
    (h1 : d'.sector directorySector = d.sector directorySector) (hdir : directory d' = directory d) (hmap : freeMap d' = freeMap d)
    (hfile : ∀ e ∈ (directory d).table.toList, e.inUse = true → d'.sector e.sector = d.sector e.sector) : DiskInv d' := by
  have hused : usedSectors d' = usedSectors d := by
    unfold usedSectors
    rw [systemSectors_congr h0 h1, hdir, List.flatMap_congr fun e he => entrySectors_congr (hfile e he)]
  refine { nodup := hused ▸ h.nodup, onDisk := hused ▸ h.onDisk, marks := ?_, system := h.system.congr h0 h1, headers := ?_ }
  · rw [hmap, hused]
    exact h.marks
  · intro e he hu
    rw [hdir] at he
    have := h.headers e he hu
    unfold header at this ⊢
    rwa [FileHeader.atSector_congr (hfile e he hu)]

/-- A file whose header sector the free map does not mark. -/
theorem not_diskInv_of_unmarked {k : Fin numDirEntries} (hu : (entry d k).inUse = true)
    (hb : (freeMap d).bit (entry d k).sector.toNat = false) : ¬DiskInv d := by
  intro h
  have hm := mem_used_of_entry (entry_mem d k) (header_mem hu)
  exact h.toConsistent.not_used (h.onDisk _ hm).1 hb hm

/-- The sectors of the system files, without their headers. -/
def fileSectors (d : Disk) : List Int := (FileHeader.atSector d freeMapSector).sectors ++ (FileHeader.atSector d directorySector).sectors

theorem SystemFiles.headers_notMem (h : SystemFiles d) : freeMapSector ∉ fileSectors d ∧ directorySector ∉ fileSectors d := by
  obtain ⟨h1, h2, h3, h4, -⟩ := h.disjoint
  simp only [fileSectors, List.mem_append, not_or]
  exact ⟨⟨h1, h3⟩, h2, h4⟩

/-- A file is as it was when its entry is and the writes went to the system files or to sectors that were free. -/
theorem Inv.kept_of_frame (hI : Inv fs) {l : Fin numDirEntries} (hu : (entry fs.disk l).inUse = true) {f : OpenFile}
    (hf : OpenFile.new fs.disk (entry fs.disk l).sector = .ok f) (he : entry d' l = entry fs.disk l)
    (hframe : ∀ x ∈ usedSectors fs.disk, x ∉ fileSectors fs.disk → d'.sector x = fs.disk.sector x) : Kept l f fs.disk d' := by
  refine hI.kept hu hf he fun x hx => ?_
  obtain ⟨h1, h2⟩ := hI.toConsistent.not_file (entry_mem fs.disk l) hx
  exact hframe x (mem_used_of_entry (entry_mem fs.disk l) hx) (by simp [fileSectors, h1, h2])

/-! ## Create -/

/-- The disk after the first `n` sector writes of a call that replaces entry `k` by `e`, as far as the directory and the sectors
that were in use go; `m` of these writes come before those of the directory. -/
structure Replaced (d : Disk) (k : Fin numDirEntries) (e : DirectoryEntry) (m n : Nat) (d' : Disk) : Prop where
  directory_eq : directory d' = (directory d).cut { table := (directory d).table.set k e k.isLt } (n - m)
  frame : ∀ x ∈ usedSectors d, x ∉ fileSectors d → d'.sector x = d.sector x

/-- The write, counted from 1, that carries the flag of entry `k` when the directory is written from write `m + 1` on. -/
def flagWrite (k : Fin numDirEntries) (m : Nat) : Nat := m + 1 + 20 * k / 128

theorem Replaced.entry_eq {k : Fin numDirEntries} {e : DirectoryEntry} {m n : Nat} (h : Replaced d k e m n d') (l : Fin numDirEntries) :
    entry d' l = if l = k then (entry d k).cut e (20 * k) (n - m) else entry d l := by
  unfold entry
  rw [h.directory_eq]
  exact Directory.get_cut_set (directory d) k l e (n - m)

/-- The directory of a disk on which only some of its sectors have been written. -/
theorem SystemFiles.directory_writes (h : SystemFiles d) {f : OpenFile} (hf : f.hdr = FileHeader.atSector d directorySector)
    {dir : Directory numDirEntries} (hr : dir.InRange) (junk : Buf) :
    ∃ ws, dir.writeBackLog f d junk = .ok ws ∧ ws.length = 2 ∧ (∀ w ∈ ws, w.sector ∈ (FileHeader.atSector d directorySector).sectors) ∧
      ∀ j, directory (d.apply (ws.take j)) = (directory d).cut dir j ∧ freeMap (d.apply (ws.take j)) = freeMap d := by
  obtain ⟨h00, h10, h01, h11, hdis⟩ := h.disjoint
  obtain ⟨ws, hlog, hlen, hmem, hdir⟩ := Directory.writeBackLog_of (d := d) (f := f) (hf ▸ h.dirValid) (by rw [hf]; exact h.dirSize) hr junk
  rw [hf] at hmem hdir
  have hother {x : Int} (hx : x ∉ (FileHeader.atSector d directorySector).sectors) (j : Nat) :
      (d.apply (ws.take j)).sector x = d.sector x := Disk.apply_take_notMem d hmem hx j
  refine ⟨ws, hlog, hlen, hmem, fun j => ⟨?_, ?_⟩⟩
  · unfold directory
    rw [FileHeader.atSector_congr (hother h11 j)]
    exact hdir j
  · unfold freeMap
    rw [FileHeader.atSector_congr (hother h01 j)]
    exact Bitmap.inFile_congr (n := 1024) h.mapValid h.mapSize fun x hx => hother (hdis x hx) j

/-- The free map of a disk on which it has been written; the directory is as before. -/
theorem SystemFiles.freeMap_write (h : SystemFiles d) {f : OpenFile} (hf : f.hdr = FileHeader.atSector d freeMapSector) (b : FreeMap)
    (junk : Buf) : ∃ w, b.writeBackLog f d junk = .ok [w] ∧ w.sector ∈ (FileHeader.atSector d freeMapSector).sectors ∧
      freeMap (d.apply [w]) = b ∧ directory (d.apply [w]) = directory d := by
  obtain ⟨h00, h10, h01, h11, hdis⟩ := h.disjoint
  obtain ⟨w, hlog, hmem, hmap⟩ := Bitmap.writeBackLog_of (d := d) (f := f) (hf ▸ h.mapValid) (by rw [hf]; exact h.mapSize) b junk
  rw [hf] at hmem hmap
  have hother {x : Int} (hx : x ∉ (FileHeader.atSector d freeMapSector).sectors) : (d.apply [w]).sector x = d.sector x :=
    Disk.apply_take_notMem d (List.forall_mem_singleton.2 hmem) hx 1
  refine ⟨w, hlog, hmem, ?_, ?_⟩
  · unfold freeMap
    rw [FileHeader.atSector_congr (hother h00)]
    exact hmap
  · unfold directory
    rw [FileHeader.atSector_congr (hother h10)]
    exact Directory.inFile_congr (n := numDirEntries) h.dirValid h.dirSize fun x hx => hother fun hm => hdis x hm hx

/-- The four writes at the end of `Create`. -/
theorem createFlushLog_of (hI : Inv fs) {s : Nat} (hs : s < 1024) (hclear : (freeMap fs.disk).bit s = false) (hdr : FileHeader)
    (k : Fin numDirEntries) {e : DirectoryEntry} (he : InRange e.sector) (b : FreeMap) (junk : Nat → Buf) :
    ∃ ws, fs.createFlushLog s hdr { table := (directory fs.disk).table.set k e k.isLt } b junk = .ok ws ∧ ws.length = 4 ∧
      ∀ n, Replaced fs.disk k e 1 n (fs.disk.apply (ws.take n)) ∧
        (n < 4 → freeMap (fs.disk.apply (ws.take n)) = freeMap fs.disk) := by
  have hon : (0 : Int) ≤ s ∧ (s : Int) < numSectors := by simp only [numSectors]; omega
  have hnot : (s : Int) ∉ usedSectors fs.disk := hI.toConsistent.not_used hon.1 (by simpa using hclear)
  have hsys : ∀ x ∈ systemSectors fs.disk, (fs.disk.apply [.ofBuf s hdr.toBuf 0]).sector x = fs.disk.sector x := fun x hx =>
    Disk.sector_put_other fs.disk (fun e : x = s => hnot (e ▸ List.mem_append_left _ hx)) hdr.toBuf 0
  generalize hw0 : SectorWrite.ofBuf (s : Int) hdr.toBuf 0 = w0 at hsys
  have h0 := hsys _ (freeMapSector_mem fs.disk)
  have h1 := hsys _ (directorySector_mem fs.disk)
  have hS1 := hI.system.congr h0 h1
  have hr : Directory.InRange { table := (directory fs.disk).table.set k e k.isLt } := (Directory.inRange_ofBuf _).set k (e := e) he
  obtain ⟨wd, hwd, hlen, hmemd, hdir⟩ := hS1.directory_writes (f := fs.directoryFile)
    (by rw [FileHeader.atSector_congr h1, hI.dirHdr]) hr (junk 2)
  rw [FileHeader.atSector_congr h1] at hmemd
  have hd2 (n : Nat) {x : Int} (hx : x ∉ (FileHeader.atSector fs.disk directorySector).sectors) :
      ((fs.disk.apply [w0]).apply (wd.take n)).sector x = (fs.disk.apply [w0]).sector x := Disk.apply_take_notMem _ hmemd hx n
  obtain ⟨h00, h10, h01, h11, -⟩ := hI.system.disjoint
  have hS2 (n : Nat) : SystemFiles ((fs.disk.apply [w0]).apply (wd.take n)) := hS1.congr (hd2 n h01) (hd2 n h11)
  have hm2 (n : Nat) : FileHeader.atSector ((fs.disk.apply [w0]).apply (wd.take n)) freeMapSector =
      FileHeader.atSector fs.disk freeMapSector :=
    (FileHeader.atSector_congr (hd2 n h01)).trans (FileHeader.atSector_congr h0)
  obtain ⟨wm, hwm, hmemm, hmap, hdir'⟩ := (hS2 wd.length).freeMap_write (f := fs.freeMapFile) (by rw [hm2, hI.mapHdr]) b (junk 3)
  rw [hm2] at hmemm
  rw [List.take_length] at hwm hmap hdir'
  have htake (m : Nat) : fs.disk.apply (([w0] ++ wd ++ [wm]).take (m + 1)) =
      ((fs.disk.apply [w0]).apply (wd.take m)).apply (if m < 3 then [] else [wm]) := by
    rw [← Disk.apply_append, ← Disk.apply_append]
    congr 1
    split <;> rename_i hm
    · rw [List.append_assoc, List.append_nil, List.singleton_append, List.take_succ_cons, List.take_append_of_le_length (by omega)]
      rfl
    · rw [List.take_of_length_le (by simp [hlen]; omega), List.take_of_length_le (by omega), List.append_assoc]
  refine ⟨[w0] ++ wd ++ [wm], ?_, by simp [hlen], fun n => ⟨⟨?_, ?_⟩, ?_⟩⟩
  · unfold createFlushLog FileHeader.writeBackLog Disk.writeSectorLog
    rw [assert_of hon, ok_bind, List.nil_append, hw0, pure_bind, hwd, ok_bind, Disk.apply_append, hwm]
    rfl
  · cases n with
    | zero => rw [List.take_zero, Directory.cut_zero, Disk.apply_nil]
    | succ m =>
      rw [htake]
      refine Eq.trans ?_ ((hdir m).1.trans (by rw [directory_congr hI.system hsys]; rfl))
      split <;> rename_i hm
      · rfl
      · rw [List.take_of_length_le (by omega), hdir']
  · intro x hx hx'
    refine Disk.apply_take_notMem fs.disk (l := s :: fileSectors fs.disk) ?_ ?_ n
    · intro w hw
      simp only [List.mem_append, List.mem_singleton] at hw
      rcases hw with (rfl | hw) | rfl
      · rw [← hw0]
        exact List.mem_cons_self
      · exact List.mem_cons_of_mem _ (List.mem_append_right _ (hmemd w hw))
      · exact List.mem_cons_of_mem _ (List.mem_append_left _ hmemm)
    · simp only [List.mem_cons, not_or]
      exact ⟨fun e => hnot (e ▸ hx), hx'⟩
  · intro hn
    cases n with
    | zero => rfl
    | succ m =>
      rw [htake, if_pos (by omega)]
      exact (hdir m).2.trans (freeMap_congr hI.system hsys)

/-- A call of `Create` has either written nothing, or found a sector and an entry and written all the rest. -/
theorem createLog_ok {name : Buf} {size : Int} {junk : Nat → Buf} {b : Bool} {ws : List SectorWrite}
    (h : fs.createLog name size junk = .ok (b, ws)) : b = false ∧ ws = [] ∨ b = true ∧ ∃ dir map p hdr map',
      (Directory.new numDirEntries (junk 0)).fetchFrom fs.directoryFile fs.disk = .ok dir ∧ dir.find name = -1 ∧
        Bitmap.fromFile 1024 fs.freeMapFile fs.disk = .ok map ∧ map.findAndSet = .ok p ∧ p.1 ≠ -1 ∧
          (dir.add name p.1).1 = true ∧ fs.createFlushLog p.1 hdr (dir.add name p.1).2 map' junk = .ok ws := by
  unfold createLog at h
  obtain ⟨dir, hdir, h⟩ := of_bind_ok h
  by_cases hfind : dir.find name = -1
  swap
  · rw [if_pos hfind] at h
    cases h
    exact Or.inl ⟨rfl, rfl⟩
  rw [if_neg (not_not_intro hfind)] at h
  obtain ⟨map, hmap, h⟩ := of_bind_ok h
  obtain ⟨p, hp, h⟩ := of_bind_ok h
  by_cases hne : p.1 = -1
  · simp only [hne, if_true] at h
    cases h
    exact Or.inl ⟨rfl, rfl⟩
  simp only [hne, if_false] at h
  by_cases hadd : (dir.add name p.1).1 = true
  swap
  · simp only [hadd, Bool.not_false, if_true] at h
    cases h
    exact Or.inl ⟨rfl, rfl⟩
  simp only [hadd, Bool.not_true, Bool.false_eq_true, if_false] at h
  obtain ⟨q, hq, h⟩ := of_bind_ok h
  by_cases hal : q.1 = true
  swap
  · simp only [hal, Bool.not_false, if_true] at h
    cases h
    exact Or.inl ⟨rfl, rfl⟩
  simp only [hal, Bool.not_true, Bool.false_eq_true, if_false] at h
  obtain ⟨ws', hws, h⟩ := of_bind_ok h
  cases h
  exact Or.inr ⟨rfl, dir, map, p, q.2.1, q.2.2, hdir, hfind, hmap, hp, hne, hadd, hws⟩

/-- `Create` can make the file, and makes it in entry `k`. -/
def MakesEntry (d : Disk) (name : Buf) (size : Int) (k : Fin numDirEntries) : Prop :=
  (directory d).findIndex name = none ∧ 1 + divRoundUp size sectorSize ≤ ((freeMap d).numClear : Int) ∧ (directory d).freeIndex = some k

/-- `Create` by its writes: none, or four, of which the second and the third are those of the directory. -/
theorem createLog_spec (hI : Inv fs) {size : Int} (h0 : 0 ≤ size) (hmax : size ≤ maxFileSize) (name : Buf) (junk : Nat → Buf) :
    (fs.createLog name size junk = .ok (false, []) ∧ ∀ k, ¬MakesEntry fs.disk name size k) ∨
    ∃ (k : Fin numDirEntries) (s : Int) (ws : List SectorWrite), MakesEntry fs.disk name size k ∧
      fs.createLog name size junk = .ok (true, ws) ∧ ws.length = 4 ∧ Created fs.disk name size k s (fs.disk.apply ws) ∧
        (freeMap fs.disk).bit s.toNat = false ∧ (∃ map, (freeMap fs.disk).findAndSet = .ok (s, map)) ∧
        ∀ n, Replaced fs.disk k (Directory.newEntry (entry fs.disk k) name s) 1 n (fs.disk.apply (ws.take n)) ∧
          (n < 4 → freeMap (fs.disk.apply (ws.take n)) = freeMap fs.disk) := by
  have hlog := create_log fs name size junk
  rcases create_spec hI h0 hmax name junk with ⟨hc, hno⟩ | ⟨hfind, hroom, k, s, d', hfree, hc, hcr⟩
  · rw [hc] at hlog
    obtain ⟨⟨b, ws⟩, hl, hb⟩ := of_map_ok hlog.symm
    rcases createLog_ok hl with ⟨rfl, rfl⟩ | ⟨rfl, -⟩
    · refine Or.inl ⟨hl, fun k ⟨h1, h2, h3⟩ => ?_⟩
      rcases hno with hno | hno | hno
      · exact hno h1
      · rw [h3] at hno
        cases hno
      · omega
    · cases hb
  · rw [hc] at hlog
    obtain ⟨⟨b, ws⟩, hl, hb⟩ := of_map_ok hlog.symm
    rcases createLog_ok hl with ⟨rfl, rfl⟩ | ⟨rfl, dir, map, p, hdr, map', hdir, -, hmap, hp, hne, -, hflush⟩
    · cases hb
    rw [hI.fetchDirectory] at hdir
    obtain rfl := Except.ok.inj hdir
    rw [hI.fetchFreeMap] at hmap
    obtain rfl := Except.ok.inj hmap
    have hround := (FileHeader.divRoundUp_bounds h0 hmax).1
    obtain ⟨i, hi, hclear, hset⟩ := Bitmap.findAndSet_of_pos (b := freeMap fs.disk) (by omega)
    rw [hset] at hp
    obtain rfl := Except.ok.inj hp
    rw [Directory.add_of hfind hfree] at hflush
    have hflush' : fs.createFlushLog i hdr { table := (directory fs.disk).table.set k (Directory.newEntry (entry fs.disk k) name i) }
        map' junk = .ok ws := hflush
    obtain ⟨ws', hws', hlen, hcut⟩ := createFlushLog_of hI hi hclear hdr k (e := Directory.newEntry (entry fs.disk k) name i)
      (by unfold Directory.newEntry InRange; simp only; omega) map' junk
    obtain rfl := Except.ok.inj (hws'.symm.trans hflush')
    obtain rfl : fs.disk.apply ws' = d' := congrArg (fun p => p.2.disk) hb
    -- the sector is the one found in the specification
    obtain rfl : s = i := by
      have hall := ((hcut 4).1).entry_eq k
      rw [List.take_of_length_le (by omega), hcr.entry_eq, if_pos rfl] at hall
      have hsec := congrArg DirectoryEntry.sector hall
      have hk : 20 * (k : Nat) / 128 < 4 - 1 := by have := k.isLt; simp only [numDirEntries] at this; omega
      simpa [Directory.newEntry, DirectoryEntry.cut, hk] using hsec
    exact Or.inr ⟨k, i, ws', ⟨hfind, hroom, hfree⟩, hl, hlen, hcr, by simpa using hclear, ⟨_, hset⟩, hcut⟩

/-! ## Remove -/

/-- The writes of `Remove`: the free map, then the two of the directory. -/
theorem removeFlushLog_of (hI : Inv fs) (k : Fin numDirEntries) {e : DirectoryEntry} (he : InRange e.sector) (b : FreeMap)
    (junk : Nat → Buf) :
    ∃ w wd, b.writeBackLog fs.freeMapFile fs.disk (junk 1) = .ok [w] ∧
      Directory.writeBackLog { table := (directory fs.disk).table.set k e k.isLt } fs.directoryFile (fs.disk.apply [w]) (junk 2) = .ok wd ∧
      wd.length = 2 ∧ ∀ n, Replaced fs.disk k e 1 n (fs.disk.apply (([w] ++ wd).take n)) ∧
        (0 < n → freeMap (fs.disk.apply (([w] ++ wd).take n)) = b) ∧
        ∀ x ∉ fileSectors fs.disk, (fs.disk.apply (([w] ++ wd).take n)).sector x = fs.disk.sector x := by
  obtain ⟨h00, h10, h01, h11, -⟩ := hI.system.disjoint
  obtain ⟨w, hw, hmemm, hmap, hdir⟩ := hI.system.freeMap_write hI.mapHdr b (junk 1)
  have hput {x : Int} (hx : x ∉ (FileHeader.atSector fs.disk freeMapSector).sectors) :
      (fs.disk.apply [w]).sector x = fs.disk.sector x :=
    Disk.apply_take_notMem fs.disk (List.forall_mem_singleton.2 hmemm) hx 1
  have hS := hI.system.congr (hput h00) (hput h10)
  have hr : Directory.InRange { table := (directory fs.disk).table.set k e k.isLt } := (Directory.inRange_ofBuf _).set k (e := e) he
  obtain ⟨wd, hwd, hlen, hmemd, hcut⟩ := hS.directory_writes (f := fs.directoryFile)
    (by rw [FileHeader.atSector_congr (hput h10), hI.dirHdr]) hr (junk 2)
  rw [FileHeader.atSector_congr (hput h10)] at hmemd
  have hframe (n : Nat) {x : Int} (hx : x ∉ fileSectors fs.disk) :
      (fs.disk.apply (([w] ++ wd).take n)).sector x = fs.disk.sector x := by
    refine Disk.apply_take_notMem fs.disk (l := fileSectors fs.disk) ?_ hx n
    intro v hv
    rcases List.mem_cons.1 hv with rfl | hv
    · exact List.mem_append_left _ hmemm
    · exact List.mem_append_right _ (hmemd v hv)
  have htake (n : Nat) : fs.disk.apply (([w] ++ wd).take (n + 1)) = (fs.disk.apply [w]).apply (wd.take n) := by
    rw [List.singleton_append, List.take_succ_cons, ← Disk.apply_append]
    rfl
  refine ⟨w, wd, hw, hwd, hlen, fun n => ⟨⟨?_, fun x _ => hframe n⟩, ?_, fun x => hframe n⟩⟩
  · cases n with
    | zero => rw [List.take_zero, Directory.cut_zero, Disk.apply_nil]
    | succ n =>
      rw [htake, (hcut n).1, hdir]
      rfl
  · intro hn
    obtain ⟨n, rfl⟩ : ∃ m, n = m + 1 := ⟨n - 1, by omega⟩
    rw [htake, (hcut n).2, hmap]

/-- `Remove` by its writes: none, or three, of which the last two are those of the directory. -/
theorem removeLog_spec (hI : Inv fs) (name : Buf) (junk : Nat → Buf) :
    ((directory fs.disk).findIndex name = none ∧ fs.removeLog name junk = .ok (false, [])) ∨
    ∃ (k : Fin numDirEntries) (ws : List SectorWrite) (b : FreeMap), (directory fs.disk).findIndex name = some k ∧
      fs.removeLog name junk = .ok (true, ws) ∧ ws.length = 3 ∧ (entry fs.disk k).inUse = true ∧
      (∀ i : Nat, b.bit i = (!decide ((i : Int) ∈ entrySectors fs.disk (entry fs.disk k)) && (freeMap fs.disk).bit i)) ∧
      ∀ n, Replaced fs.disk k { entry fs.disk k with inUse := false } 1 n (fs.disk.apply (ws.take n)) ∧
        (0 < n → freeMap (fs.disk.apply (ws.take n)) = b) ∧
        ∀ x ∉ fileSectors fs.disk, (fs.disk.apply (ws.take n)).sector x = fs.disk.sector x := by
  unfold removeLog
  rw [hI.fetchDirectory, ok_bind]
  cases hfind : (directory fs.disk).findIndex name with
  | none => exact Or.inl ⟨rfl, if_pos (Directory.find_of_none hfind)⟩
  | some k =>
    obtain ⟨hu, heq, hge, hlt⟩ := hI.find_of_some hfind
    obtain ⟨b, b', hdel, hclear, hbits⟩ := remove_clear hI hu
    obtain ⟨w, wd, hw, hwd, hlen, hcut⟩ := removeFlushLog_of hI k (e := { entry fs.disk k with inUse := false })
      (Directory.inRange_ofBuf _ k) b' junk
    refine Or.inr ⟨k, [w] ++ wd, b', rfl, ?_, by simp [hlen], hu, hbits, hcut⟩
    have hne : (entry fs.disk k).sector ≠ -1 := by omega
    unfold entry at hwd
    unfold header at hdel
    rw [heq, if_neg hne, FileHeader.fetchFrom_of ⟨hge, hlt⟩, ok_bind, hI.fetchFreeMap, ok_bind, hdel, ok_bind, hclear, ok_bind,
      Directory.remove_of hfind]
    simp only [hw, hwd, ok_bind]
    rfl

end FileSystem

end Nachos
