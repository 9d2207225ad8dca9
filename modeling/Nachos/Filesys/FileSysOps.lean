import Nachos.Filesys.FileSysInv

/-!
# What Create, Remove and WriteAt do to the disk

One specification for each call, from which the invariant and everything said about runs follows. A call that fails leaves the
disk as it was; `Created` and `Removed` say what a call that succeeds has done.
-/

namespace Nachos

open Bytes Loop

namespace FileSystem

variable {fs : FileSystem} {d d' : Disk}

/-! ## Create -/

/-- Both calls begin with the directory of the disk. -/
theorem Inv.fetchDirectory (hI : Inv fs) (dir : Directory numDirEntries) :
    dir.fetchFrom fs.directoryFile fs.disk = .ok (directory fs.disk) := by
  rw [Directory.fetchFrom_of (hI.dirHdr ▸ hI.system.dirValid) (by rw [hI.dirHdr]; exact hI.system.dirSize), hI.dirHdr]
  rfl

/-- Both calls work on the free map of the disk. -/
theorem Inv.fetchFreeMap (hI : Inv fs) : Bitmap.fromFile 1024 fs.freeMapFile fs.disk = .ok (freeMap fs.disk) := by
  rw [Bitmap.fromFile_of (by decide) (hI.mapHdr ▸ hI.system.mapValid) (by rw [hI.mapHdr]; exact hI.system.mapSize), hI.mapHdr]
  rfl

/-- A name that is in the directory is found, at a sector of the disk. -/
theorem Inv.find_of_some (hI : Inv fs) {name : Buf} {i : Fin numDirEntries} (h : (directory fs.disk).findIndex name = some i) :
    (entry fs.disk i).inUse = true ∧ (directory fs.disk).find name = (entry fs.disk i).sector ∧
      0 ≤ (entry fs.disk i).sector ∧ (entry fs.disk i).sector < numSectors := by
  have hu : (entry fs.disk i).inUse = true := (Directory.findIndex_some h).1
  exact ⟨hu, Directory.find_of_some h, hI.onDisk _ (mem_used_of_entry (entry_mem fs.disk i) (header_mem hu))⟩

/-- The end of a successful `Create`: the header, the directory and the free map are written. -/
theorem create_flush (hI : Inv fs) {k : Fin numDirEntries} (hk : (entry fs.disk k).inUse = false) (name : Buf) {s : Nat}
    (hs : s < 1024) (hclear : (freeMap fs.disk).bit s = false) {size : Int} {hdr : FileHeader} {b : FreeMap}
    (ha : hdr.Allocated size) (hsec : ∀ x ∈ hdr.sectors, x ≠ s ∧ (freeMap fs.disk).bit x.toNat = false)
    (hbits : ∀ i : Nat, b.bit i = (decide ((i : Int) ∈ (s : Int) :: hdr.sectors) || (freeMap fs.disk).bit i))
    (junk junk' : Buf) :
    ∃ d₁ d₂ d₃, hdr.writeBack fs.disk s = .ok d₁ ∧
      Directory.writeBack { table := (directory fs.disk).table.set k (Directory.newEntry (entry fs.disk k) name s) }
        fs.directoryFile d₁ junk = .ok d₂ ∧
      b.writeBack fs.freeMapFile d₂ junk' = .ok d₃ ∧ Created fs.disk name size k s d₃ := by
  have hsys := hI.system
  have hs' : (0 : Int) ≤ s ∧ (s : Int) < numSectors := by simp only [numSectors]; omega
  -- the sector of the header is not in use, so writing it leaves the system files where they are
  have hnot : (s : Int) ∉ systemSectors fs.disk := fun hm =>
    hI.toConsistent.not_used hs'.1 (by simpa using hclear) (List.mem_append_left _ hm)
  have hput : ∀ x ∈ systemSectors fs.disk, (fs.disk.put s hdr.toBuf 0).sector x = fs.disk.sector x :=
    fun x hx => Disk.sector_put_other _ (fun e : x = s => hnot (e ▸ hx)) _ _
  have hz := hput _ (freeMapSector_mem fs.disk)
  have ho := hput _ (directorySector_mem fs.disk)
  have ez := FileHeader.atSector_congr hz
  have eo := FileHeader.atSector_congr ho
  have hr : Directory.InRange { table := (directory fs.disk).table.set k (Directory.newEntry (entry fs.disk k) name s) } :=
    (Directory.inRange_ofBuf _).set k (e := Directory.newEntry (entry fs.disk k) name s)
      (by unfold Directory.newEntry InRange; simp only; omega)
  obtain ⟨d₂, d₃, hw₂, hw₃, hf⟩ := flush_directory_map fs (hsys.congr hz ho) ⟨by rw [ez, hI.mapHdr], by rw [eo, hI.dirHdr]⟩
    hr b junk junk'
  have hframe : ∀ x, x ∉ (FileHeader.atSector fs.disk freeMapSector).sectors →
      x ∉ (FileHeader.atSector fs.disk directorySector).sectors → d₃.sector x = (fs.disk.put s hdr.toBuf 0).sector x :=
    fun x hx hx' => hf.frame x (by rwa [ez]) (by rwa [eo])
  obtain ⟨ha', hsame⟩ := ha.put fs.disk s
  have hs₃ : d₃.sector s = (fs.disk.put s hdr.toBuf 0).sector s :=
    hframe s (fun hm => hnot (mem_systemSectors_map hm)) fun hm => hnot (mem_systemSectors_dir hm)
  rw [← FileHeader.atSector_congr hs₃] at ha' hsame
  refine ⟨_, d₂, d₃, Disk.writeSector_of fs.disk hs' hdr.toBuf 0, hw₂, hw₃, ?_⟩
  refine { unused := hk, directory_eq := hf.directory_eq, valid := ha'.valid, numBytes := ha'.numBytes_eq, nodup := ?_,
           fresh := ?_, bits := ?_, frame := ?_ }
  · rw [hsame, List.nodup_cons]
    exact ⟨fun hm => (hsec _ hm).1 rfl, ha.nodup⟩
  · rw [hsame]
    intro x hx
    rcases List.mem_cons.1 hx with rfl | hx
    · exact ⟨hs'.1, hs'.2, by simpa using hclear⟩
    · exact ⟨(ha.onDisk x hx).1, (ha.onDisk x hx).2, (hsec x hx).2⟩
  · intro i
    rw [hsame, hf.freeMap_eq, hbits]
  · intro x hxs hx hx'
    rw [hframe x hx hx']
    exact Disk.sector_put_other _ hxs _ _

/-- `Create` of a file of an admissible size never stops the program. It fails, and changes nothing, when the name is in the
directory, the directory is full, or there are not enough clear sectors for the header and the data; otherwise it makes the
file. -/
theorem create_spec (hI : Inv fs) {size : Int} (h0 : 0 ≤ size) (hmax : size ≤ maxFileSize) (name : Buf) (junk : Nat → Buf) :
    (fs.create name size junk = .ok (false, fs) ∧
      ((directory fs.disk).findIndex name ≠ none ∨ (directory fs.disk).freeIndex = none ∨
        ((freeMap fs.disk).numClear : Int) < 1 + divRoundUp size sectorSize)) ∨
    ((directory fs.disk).findIndex name = none ∧ 1 + divRoundUp size sectorSize ≤ ((freeMap fs.disk).numClear : Int) ∧
      ∃ k s d', (directory fs.disk).freeIndex = some k ∧ fs.create name size junk = .ok (true, { fs with disk := d' }) ∧
        Created fs.disk name size k s d') := by
  obtain ⟨hround, -⟩ := FileHeader.divRoundUp_bounds h0 hmax
  unfold create
  rw [hI.fetchDirectory, ok_bind]
  cases hfind : (directory fs.disk).findIndex name with
  | some i =>
    -- the name is in the directory
    obtain ⟨-, heq, hge, -⟩ := hI.find_of_some hfind
    rw [if_pos (by omega)]
    exact Or.inl ⟨rfl, Or.inl (Option.some_ne_none i)⟩
  | none =>
    rw [if_neg (not_not_intro (Directory.find_of_none hfind)), hI.fetchFreeMap, ok_bind]
    rcases Nat.eq_zero_or_pos (freeMap fs.disk).numClear with hzero | hpos
    · -- no sector for the header
      rw [Bitmap.findAndSet_of_zero hzero, ok_bind]
      exact Or.inl ⟨if_pos rfl, Or.inr (Or.inr (by omega))⟩
    · obtain ⟨s, hs, hclear, hset⟩ := Bitmap.findAndSet_of_pos hpos
      have hleft := Bitmap.numClear_set hs hclear
      have hne : (s : Int) ≠ -1 := by omega
      rw [hset, ok_bind]
      cases hfree : (directory fs.disk).freeIndex with
      | none =>
        -- no space in the directory
        refine Or.inl ⟨?_, Or.inr (Or.inl rfl)⟩
        simp only [if_neg hne, Directory.add_of_full hfind hfree]
        rfl
      | some k =>
        simp only [if_neg hne, Directory.add_of hfind hfree, Bool.not_true, Bool.false_eq_true, if_false]
        by_cases hlt : (((freeMap fs.disk).set s hs).numClear : Int) < divRoundUp size sectorSize
        · -- no space for the data
          obtain ⟨hdr, hal⟩ := FileHeader.allocate_of_lt (h := FileHeader.ofBuf (junk 1)) hlt
          rw [hal]
          exact Or.inl ⟨rfl, Or.inr (Or.inr (by omega))⟩
        · obtain ⟨hdr, b, hal, hbytes, hnum, hnd, hsec, hbits, -⟩ :=
            FileHeader.allocate_of_le (h := FileHeader.ofBuf (junk 1)) hmax (Int.not_lt.1 hlt)
          have ha : hdr.Allocated size := ⟨h0, hmax, hbytes, hnum, hnd, fun x hx => ⟨(hsec x hx).1, (hsec x hx).2.1⟩⟩
          have hsec' : ∀ x ∈ hdr.sectors, x ≠ s ∧ (freeMap fs.disk).bit x.toNat = false := by
            intro x hx
            obtain ⟨hx0, -, hxb⟩ := hsec x hx
            rw [Bitmap.bit_set] at hxb
            have hx' : x.toNat ≠ s ∧ (freeMap fs.disk).bit x.toNat = false := by simpa using hxb
            exact ⟨by omega, hx'.2⟩
          have hbits' : ∀ i : Nat, b.bit i = (decide ((i : Int) ∈ (s : Int) :: hdr.sectors) || (freeMap fs.disk).bit i) := by
            intro i
            rw [hbits, Bitmap.bit_set]
            simp only [List.mem_cons, Bool.decide_or, Nat.cast_inj]
            rw [← Bool.or_assoc, Bool.or_comm (decide ((i : Int) ∈ hdr.sectors))]
          obtain ⟨d₁, d₂, d₃, hw₁, hw₂, hw₃, hc⟩ := create_flush hI (Directory.freeIndex_some hfree) name hs hclear ha hsec'
            hbits' (junk 2) (junk 3)
          unfold entry at hw₂
          refine Or.inr ⟨trivial, by omega, k, s, d₃, rfl, ?_, hc⟩
          rw [hal, ok_bind]
          simp only [Bool.not_true, Bool.false_eq_true, if_false, hw₁, hw₂, hw₃, ok_bind]
          rfl

/-- `Create` of a new name succeeds while there is an unused entry and room on the disk. -/
theorem create_of_room (hI : Inv fs) (name : Buf) {size : Int} (h0 : 0 ≤ size) (hmax : size ≤ maxFileSize) (junk : Nat → Buf)
    (hname : ∀ i, (entry fs.disk i).inUse = true → CString.strncmp (entry fs.disk i).nameBuf name fileNameMaxLen ≠ 0)
    {i : Fin numDirEntries} (hi : (entry fs.disk i).inUse = false)
    (hc : 1 + divRoundUp size sectorSize ≤ ((freeMap fs.disk).numClear : Int)) :
    ∃ k s d', fs.create name size junk = .ok (true, { fs with disk := d' }) ∧ Created fs.disk name size k s d' := by
  rcases create_spec hI h0 hmax name junk with ⟨-, h | h | h⟩ | ⟨-, -, k, s, d', -, h, hcr⟩
  · exact absurd (Directory.findIndex_none hname) h
  · exact absurd h (Directory.freeIndex_ne_none hi)
  · omega
  · exact ⟨k, s, d', h, hcr⟩

/-- A successful `Create` marks one sector for the header and those of the data. -/
theorem Created.numClear {name : Buf} {size : Int} {k : Fin numDirEntries} {s : Int} (hc : Created d name size k s d') :
    (freeMap d').numClear + (1 + (divRoundUp size sectorSize).toNat) = (freeMap d).numClear := by
  have hlen : (s :: (FileHeader.atSector d' s).sectors).length = 1 + (divRoundUp size sectorSize).toNat := by
    rw [List.length_cons, FileHeader.sectors, List.length_map, List.length_range, hc.valid.numSectors_eq, hc.numBytes,
      Nat.add_comm]
  rw [← hlen]
  exact Bitmap.numClear_of_marked hc.nodup hc.fresh hc.bits

/-! ## Remove -/

/-- Every sector of a file is marked. -/
theorem Inv.marked (hI : Inv fs) {k : Fin numDirEntries} {s : Int} (hs : s ∈ entrySectors fs.disk (entry fs.disk k)) :
    0 ≤ s ∧ s < 1024 ∧ (freeMap fs.disk).bit s.toNat = true := by
  have hm := mem_used_of_entry (entry_mem fs.disk k) hs
  have hon := hI.onDisk s hm
  refine ⟨hon.1, hon.2, (hI.marks s.toNat).2 ?_⟩
  rwa [Int.toNat_of_nonneg hon.1]

/-- The header of a file is valid. -/
theorem Inv.header_valid (hI : Inv fs) {k : Fin numDirEntries} (hu : (entry fs.disk k).inUse = true) :
    (header fs.disk (entry fs.disk k)).Valid := hI.headers _ (entry_mem fs.disk k) hu

/-- The middle of `Remove`: the data sectors and the header sector of the file are cleared, and no other. -/
theorem remove_clear (hI : Inv fs) {k : Fin numDirEntries} (hu : (entry fs.disk k).inUse = true) :
    ∃ b b', (header fs.disk (entry fs.disk k)).deallocate (freeMap fs.disk) = .ok b ∧
      b.clear (entry fs.disk k).sector = .ok b' ∧
      ∀ i : Nat, b'.bit i = (!decide ((i : Int) ∈ entrySectors fs.disk (entry fs.disk k)) && (freeMap fs.disk).bit i) := by
  have hv := hI.header_valid hu
  have hle := FileHeader.divRoundUp_le_numDirect hv.le_max
  rw [← hv.numSectors_eq] at hle
  obtain ⟨b, hb, hbits⟩ := FileHeader.deallocate_of (m := freeMap fs.disk) (by omega) hv.nodup
    (fun s hs => hI.marked (data_mem hu hs))
  obtain ⟨h0, hn, -⟩ := hI.marked (header_mem hu)
  have hcast : ((entry fs.disk k).sector.toNat : Int) = (entry fs.disk k).sector := Int.toNat_of_nonneg h0
  have hclear := Bitmap.clear_of b (i := (entry fs.disk k).sector.toNat) (by omega)
  rw [hcast] at hclear
  refine ⟨b, _, hb, hclear, ?_⟩
  intro i
  have hi : i = (entry fs.disk k).sector.toNat ↔ (i : Int) = (entry fs.disk k).sector := by omega
  rw [Bitmap.bit_reset, hbits, ← Bool.and_assoc]
  unfold entrySectors
  rw [if_pos hu]
  simp only [List.mem_cons, Bool.decide_or, Bool.not_or, hi]

/-- `Remove` never stops the program. It fails, and changes nothing, when the name is not in the directory; otherwise it takes
the file out of the entry with that name. -/
theorem remove_spec (hI : Inv fs) (name : Buf) (junk : Nat → Buf) :
    ((directory fs.disk).findIndex name = none ∧ fs.remove name junk = .ok (false, fs)) ∨
    ∃ k d', (directory fs.disk).findIndex name = some k ∧ fs.remove name junk = .ok (true, { fs with disk := d' }) ∧
      Removed fs.disk k d' := by
  unfold remove
  rw [hI.fetchDirectory, ok_bind]
  cases hfind : (directory fs.disk).findIndex name with
  | none => exact Or.inl ⟨rfl, if_pos (Directory.find_of_none hfind)⟩
  | some k =>
    obtain ⟨hu, heq, hge, hlt⟩ := hI.find_of_some hfind
    obtain ⟨b, b', hdel, hclear, hbits⟩ := remove_clear hI hu
    have hr : Directory.InRange { table := (directory fs.disk).table.set k { entry fs.disk k with inUse := false } } :=
      (Directory.inRange_ofBuf _).set k (e := { entry fs.disk k with inUse := false }) (Directory.inRange_ofBuf _ k)
    obtain ⟨d₁, d₂, hw₁, hw₂, hf⟩ := flush_map_directory fs hI.system ⟨hI.mapHdr, hI.dirHdr⟩ hr b' (junk 1) (junk 2)
    refine Or.inr ⟨k, d₂, rfl, ?_, hu, hf.directory_eq, fun i => by rw [hf.freeMap_eq, hbits], hf.frame⟩
    have hne : (entry fs.disk k).sector ≠ -1 := by omega
    unfold entry at hw₂
    rw [heq, if_neg hne, FileHeader.fetchFrom_of ⟨hge, hlt⟩, ok_bind, hI.fetchFreeMap, ok_bind]
    unfold header at hdel
    rw [hdel, ok_bind, hclear, ok_bind, Directory.remove_of hfind]
    simp only [hw₁, hw₂, ok_bind]
    rfl

/-! ## Writing to a file -/

/-- An `OpenFile` made for an entry has the header of the file. -/
theorem Inv.open_of (hI : Inv fs) {k : Fin numDirEntries} (hu : (entry fs.disk k).inUse = true) :
    OpenFile.new fs.disk (entry fs.disk k).sector = .ok { hdr := header fs.disk (entry fs.disk k), seekPosition := 0 } := by
  obtain ⟨h0, h1, -⟩ := hI.marked (header_mem hu)
  unfold OpenFile.new
  rw [FileHeader.fetchFrom_of ⟨h0, h1⟩, ok_bind]
  rfl

/-- A write to a file never stops the program, and changes at most the data sectors of the file. -/
theorem write_spec (hI : Inv fs) {k : Fin numDirEntries} (hu : (entry fs.disk k).inUse = true) {n p : Int}
    (hl : OpenFile.Legal n p) (src junk : Buf) :
    ∃ d', fs.write k src n p junk = .ok { fs with disk := d' } ∧
      ∀ x, x ∉ (header fs.disk (entry fs.disk k)).sectors → d'.sector x = fs.disk.sector x := by
  obtain ⟨d', hw, -, hframe⟩ := OpenFile.writeAt_of (f := { hdr := header fs.disk (entry fs.disk k), seekPosition := 0 })
    (d := fs.disk) (hI.header_valid hu) hl src junk
  refine ⟨d', ?_, hframe⟩
  unfold write
  rw [if_pos hu, hI.open_of hu, ok_bind, hw, ok_bind]
  rfl

end FileSystem

end Nachos
