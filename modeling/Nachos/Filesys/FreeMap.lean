import Nachos.Filesys.FileSysOps

/-!
# The free map over runs

Formatting establishes the invariant of FileSysInv, and every call keeps it. So every run of calls with admissible arguments
goes through, without a failing `ASSERT`, and ends with a free map that marks exactly the sectors in use.
-/

namespace Nachos

open Bytes Loop

namespace FileSystem

variable {fs : FileSystem} {d d' : Disk}

/-! ## Sectors in use after a change of the directory -/

/-- Changing one entry of the directory exchanges the sectors of the old entry for those of the new one. -/
theorem used_set_perm (hsys : systemSectors d' = systemSectors d) {k : Fin numDirEntries} {new : DirectoryEntry}
    (hdir : directory d' = { table := (directory d).table.set k new k.isLt })
    (hent : ∀ e ∈ (directory d).table.toList, entrySectors d' e = entrySectors d e) :
    (usedSectors d' ++ entrySectors d (entry d k)).Perm (usedSectors d ++ entrySectors d' new) := by
  have hk : (directory d).table.toList[(k : Nat)]? = some (entry d k) := by
    unfold entry
    simp
  have hperm := Lists.flatMap_set_perm (entrySectors d') new hk
  rw [hent _ (entry_mem d k), List.flatMap_congr hent] at hperm
  unfold usedSectors
  rw [hsys, hdir, List.append_assoc, List.append_assoc]
  refine List.Perm.append_left _ ?_
  simpa only [Vector.toList_set] using hperm

/-! ## Each call keeps the invariant -/

/-- The sectors of the entries, and the system sectors outside the two files, are not overwritten when the files are. -/
theorem Consistent.not_file (h : Consistent d) {e : DirectoryEntry} (he : e ∈ (directory d).table.toList) {s : Int}
    (hs : s ∈ entrySectors d e) :
    s ∉ (FileHeader.atSector d freeMapSector).sectors ∧ s ∉ (FileHeader.atSector d directorySector).sectors :=
  ⟨fun hm => h.not_system he hs (mem_systemSectors_map hm), fun hm => h.not_system he hs (mem_systemSectors_dir hm)⟩

/-- The entries of the directory after one of them was replaced: the new one, or one that was there before. -/
theorem mem_table_set {k : Fin numDirEntries} {new e : DirectoryEntry}
    (hdir : directory d' = { table := (directory d).table.set k new k.isLt }) (he : e ∈ (directory d').table.toList) :
    e ∈ (directory d).table.toList ∨ e = new := by
  rw [hdir] at he
  simp only [Vector.toList_set] at he
  exact List.mem_or_eq_of_mem_set he

/-- A successful `Create` keeps the invariant. -/
theorem Created.inv (hI : Inv fs) {name : Buf} {size : Int} {k : Fin numDirEntries} {s : Int} {d' : Disk}
    (hc : Created fs.disk name size k s d') : Inv { fs with disk := d' } := by
  obtain ⟨hs0, -, hsb⟩ := hc.fresh s List.mem_cons_self
  have hnot : s ∉ usedSectors fs.disk := hI.toConsistent.not_used hs0 hsb
  have hsys : ∀ x ∈ systemSectors fs.disk, x ≠ s := fun x hx e => hnot (e ▸ List.mem_append_left _ hx)
  obtain ⟨h00, h10, h01, h11, -⟩ := hI.system.disjoint
  have hz : d'.sector freeMapSector = fs.disk.sector freeMapSector := hc.frame _ (hsys _ (freeMapSector_mem _)) h00 h01
  have ho : d'.sector directorySector = fs.disk.sector directorySector := hc.frame _ (hsys _ (directorySector_mem _)) h10 h11
  have hfile : ∀ e ∈ (directory fs.disk).table.toList, e.inUse = true → d'.sector e.sector = fs.disk.sector e.sector := by
    intro e he hu
    obtain ⟨h1, h2⟩ := hI.toConsistent.not_file he (header_mem hu)
    exact hc.frame _ (fun h => hnot (h ▸ mem_used_of_entry he (header_mem hu))) h1 h2
  have hnew : entrySectors d' (Directory.newEntry (entry fs.disk k) name s) = s :: (FileHeader.atSector d' s).sectors := rfl
  have hperm := used_set_perm (systemSectors_congr hz ho) hc.directory_eq fun e he => entrySectors_congr (hfile e he)
  rw [entrySectors_unused hc.unused, List.append_nil, hnew] at hperm
  refine { nodup := ?_, onDisk := ?_, marks := ?_, system := hI.system.congr hz ho, headers := ?_, mapHdr := ?_, dirHdr := ?_ }
  · rw [hperm.nodup_iff, List.nodup_append]
    refine ⟨hI.nodup, hc.nodup, ?_⟩
    intro x hx y hy e
    obtain ⟨h0, -, hb⟩ := hc.fresh y hy
    exact hI.toConsistent.not_used h0 hb (e ▸ hx)
  · intro x hx
    rcases List.mem_append.1 (hperm.mem_iff.1 hx) with hx | hx
    · exact hI.onDisk x hx
    · exact ⟨(hc.fresh x hx).1, (hc.fresh x hx).2.1⟩
  · intro i
    rw [hc.bits, hperm.mem_iff, List.mem_append, ← hI.marks, Bool.or_eq_true, decide_eq_true_eq, or_comm]
  · intro e he hu
    rcases mem_table_set hc.directory_eq he with he | rfl
    · have := hI.headers e he hu
      unfold header at this ⊢
      rwa [FileHeader.atSector_congr (hfile e he hu)]
    · exact hc.valid
  · exact hI.mapHdr.trans (FileHeader.atSector_congr hz).symm
  · exact hI.dirHdr.trans (FileHeader.atSector_congr ho).symm

/-- A successful `Remove` keeps the invariant. -/
theorem Removed.inv (hI : Inv fs) {k : Fin numDirEntries} {d' : Disk} (hr : Removed fs.disk k d') :
    Inv { fs with disk := d' } := by
  obtain ⟨h00, h10, h01, h11, -⟩ := hI.system.disjoint
  have hz : d'.sector freeMapSector = fs.disk.sector freeMapSector := hr.frame _ h00 h01
  have ho : d'.sector directorySector = fs.disk.sector directorySector := hr.frame _ h10 h11
  have hfile : ∀ e ∈ (directory fs.disk).table.toList, e.inUse = true → d'.sector e.sector = fs.disk.sector e.sector := by
    intro e he hu
    obtain ⟨h1, h2⟩ := hI.toConsistent.not_file he (header_mem hu)
    exact hr.frame _ h1 h2
  have hperm := used_set_perm (systemSectors_congr hz ho) hr.directory_eq fun e he => entrySectors_congr (hfile e he)
  rw [entrySectors_unused (e := { entry fs.disk k with inUse := false }) rfl, List.append_nil] at hperm
  have hnd := hperm.nodup_iff.2 hI.nodup
  rw [List.nodup_append] at hnd
  refine { nodup := hnd.1, onDisk := ?_, marks := ?_, system := hI.system.congr hz ho, headers := ?_, mapHdr := ?_, dirHdr := ?_ }
  · exact fun x hx => hI.onDisk x (hperm.mem_iff.1 (List.mem_append_left _ hx))
  · intro i
    have hmem : (i : Int) ∈ usedSectors fs.disk ↔
        (i : Int) ∈ usedSectors d' ∨ (i : Int) ∈ entrySectors fs.disk (entry fs.disk k) := by
      rw [← hperm.mem_iff, List.mem_append]
    have hdis : (i : Int) ∈ usedSectors d' → (i : Int) ∉ entrySectors fs.disk (entry fs.disk k) :=
      fun hx hy => hnd.2.2 _ hx _ hy rfl
    rw [hr.bits, Bool.and_eq_true, hI.marks, hmem]
    simp only [Bool.not_eq_true', decide_eq_false_iff_not]
    constructor
    · rintro ⟨hno, hx | hy⟩
      · exact hx
      · exact absurd hy hno
    · exact fun hx => ⟨hdis hx, Or.inl hx⟩
  · intro e he hu
    rcases mem_table_set hr.directory_eq he with he | rfl
    · have := hI.headers e he hu
      unfold header at this ⊢
      rwa [FileHeader.atSector_congr (hfile e he hu)]
    · cases hu
  · exact hI.mapHdr.trans (FileHeader.atSector_congr hz).symm
  · exact hI.dirHdr.trans (FileHeader.atSector_congr ho).symm

/-- What stays when only the data sectors of one file are written: the system sectors, and the header of every file. -/
theorem write_frame (hI : Inv fs) {k : Fin numDirEntries} (hu : (entry fs.disk k).inUse = true) {d' : Disk}
    (hw : ∀ x, x ∉ (header fs.disk (entry fs.disk k)).sectors → d'.sector x = fs.disk.sector x) :
    (∀ x ∈ systemSectors fs.disk, d'.sector x = fs.disk.sector x) ∧
      ∀ e ∈ (directory fs.disk).table.toList, e.inUse = true → d'.sector e.sector = fs.disk.sector e.sector := by
  refine ⟨fun x hx => hw x ?_, fun e he hue => hw _ ?_⟩
  · intro hm
    exact hI.toConsistent.not_system (entry_mem fs.disk k) (data_mem hu hm) hx
  · intro hm
    obtain ⟨i, hi, rfl⟩ := List.mem_iff_getElem.1 he
    by_cases hik : i = k
    · -- the header sector of the file itself is not one of its data sectors
      have hn := hI.toConsistent.nodup_entry (entry_mem fs.disk k)
      subst hik
      unfold entrySectors at hn
      rw [if_pos hu, List.nodup_cons] at hn
      exact hn.1 (by simpa [entry] using hm)
    · have hi' : i < numDirEntries := by simpa using hi
      have hne : k ≠ ⟨i, hi'⟩ := fun e => hik (by rw [e])
      refine hI.toConsistent.disjoint hne (data_mem hu hm) ?_
      have := header_mem (d := fs.disk) hue
      simpa [entry] using this

/-- A write to a file keeps the invariant. -/
theorem write_inv (hI : Inv fs) {k : Fin numDirEntries} (hu : (entry fs.disk k).inUse = true) {d' : Disk}
    (hw : ∀ x, x ∉ (header fs.disk (entry fs.disk k)).sectors → d'.sector x = fs.disk.sector x) :
    Inv { fs with disk := d' } := by
  obtain ⟨hsys, hfile⟩ := write_frame hI hu hw
  have hz := hsys _ (freeMapSector_mem _)
  have ho := hsys _ (directorySector_mem _)
  have hdir : directory d' = directory fs.disk := directory_congr hI.system hsys
  have hused : usedSectors d' = usedSectors fs.disk := by
    unfold usedSectors
    rw [systemSectors_congr hz ho, hdir, List.flatMap_congr fun e he => entrySectors_congr (hfile e he)]
  refine { nodup := ?_, onDisk := ?_, marks := ?_, system := hI.system.congr hz ho, headers := ?_, mapHdr := ?_, dirHdr := ?_ }
  · exact hused ▸ hI.nodup
  · exact hused ▸ hI.onDisk
  · rw [freeMap_congr hI.system hsys, hused]
    exact hI.marks
  · intro e he hue
    rw [hdir] at he
    have := hI.headers e he hue
    unfold header at this ⊢
    rwa [FileHeader.atSector_congr (hfile e he hue)]
  · exact hI.mapHdr.trans (FileHeader.atSector_congr hz).symm
  · exact hI.dirHdr.trans (FileHeader.atSector_congr ho).symm

/-! ## Formatting -/

/-- A disk with an empty directory, whose free map marks exactly the system sectors, satisfies the invariant. -/
theorem inv_of_empty (hs : SystemFiles fs.disk) (ho : Opened fs fs.disk)
    (hon : ∀ s ∈ systemSectors fs.disk, 0 ≤ s ∧ s < numSectors)
    (hempty : ∀ e ∈ (directory fs.disk).table.toList, e.inUse = false)
    (hmarks : ∀ i : Nat, (freeMap fs.disk).bit i = decide ((i : Int) ∈ systemSectors fs.disk)) : Inv fs := by
  have hused : usedSectors fs.disk = systemSectors fs.disk := by
    unfold usedSectors
    rw [List.flatMap_eq_nil_iff.2 fun e he => entrySectors_unused (hempty e he), List.append_nil]
  refine { nodup := ?_, onDisk := ?_, marks := ?_, system := hs, headers := ?_, mapHdr := ho.mapHdr, dirHdr := ho.dirHdr }
  · rw [hused]
    exact hs.nodup
  · rw [hused]
    exact hon
  · intro i
    rw [hused, hmarks, decide_eq_true_eq]
  · intro e he hu
    rw [hempty e he] at hu
    cases hu

/-- The bitmap marks the sectors of a list, and no other. -/
def Marks (b : FreeMap) (l : List Int) : Prop := ∀ i : Nat, b.bit i = decide ((i : Int) ∈ l)

/-- Allocating a file adds its sectors to those a bitmap marks. -/
theorem Marks.allocate {b : FreeMap} {l : List Int} (hb : Marks b l) (hl : l.Nodup) (size : Int) (h0 : 0 ≤ size)
    (hmax : size ≤ maxFileSize) (hc : divRoundUp size sectorSize ≤ b.numClear) (h : FileHeader) :
    ∃ h' b', h.allocate b size = .ok (true, h', b') ∧ h'.Allocated size ∧ (l ++ h'.sectors).Nodup ∧
      Marks b' (l ++ h'.sectors) ∧ b'.numClear + (divRoundUp size sectorSize).toNat = b.numClear := by
  obtain ⟨h', b', hal, hbytes, hnum, hnd, hsec, hbits, hleft⟩ := FileHeader.allocate_of_le (h := h) hmax hc
  refine ⟨h', b', hal, ⟨h0, hmax, hbytes, hnum, hnd, fun x hx => ⟨(hsec x hx).1, (hsec x hx).2.1⟩⟩, ?_, ?_, hleft⟩
  · rw [List.nodup_append]
    refine ⟨hl, hnd, ?_⟩
    rintro x hx y hy rfl
    obtain ⟨hx0, -, hxb⟩ := hsec x hy
    rw [hb, Int.toNat_of_nonneg hx0, decide_eq_false_iff_not] at hxb
    exact hxb hx
  · intro i
    rw [hbits, hb, Bool.or_comm]
    simp only [List.mem_append, Bool.decide_or]

/-- The allocations of the formatting: the map marks the two header sectors and the sectors of the two files. -/
theorem format_allocate (h h' : FileHeader) :
    ∃ b₀ b₁ b₂ b₃ b₄ mapHdr dirHdr, Bitmap.new 1024 = .ok b₀ ∧ b₀.mark freeMapSector = .ok b₁ ∧
      b₁.mark directorySector = .ok b₂ ∧ h.allocate b₂ freeMapFileSize = .ok (true, mapHdr, b₃) ∧
      h'.allocate b₃ directoryFileSize = .ok (true, dirHdr, b₄) ∧
      mapHdr.Allocated freeMapFileSize ∧ dirHdr.Allocated directoryFileSize ∧
      ([freeMapSector, directorySector] ++ mapHdr.sectors ++ dirHdr.sectors).Nodup ∧
      Marks b₄ ([freeMapSector, directorySector] ++ mapHdr.sectors ++ dirHdr.sectors) ∧ b₄.numClear = 1019 := by
  obtain ⟨b₀, hnew, hclear⟩ := Bitmap.new_of (n := 1024) (by decide)
  have h0 : 0 < 1024 := by decide
  have h1 : 1 < 1024 := by decide
  have hmark₀ := Bitmap.mark_of b₀ h0
  have hmark₁ := Bitmap.mark_of (b₀.set 0 h0) h1
  have hmarks : Marks ((b₀.set 0 h0).set 1 h1) [freeMapSector, directorySector] := by
    intro i
    rw [Bitmap.bit_set, Bitmap.bit_set, hclear, Bool.or_false, ← Bool.decide_or]
    refine decide_eq_decide.2 ?_
    simp only [List.mem_cons, List.not_mem_nil, or_false, freeMapSector, directorySector]
    omega
  have hc₀ := Bitmap.numClear_of_clear hclear
  have hc₁ := Bitmap.numClear_set h0 (hclear 0)
  have hc₂ := Bitmap.numClear_set (b := b₀.set 0 h0) h1 (by rw [Bitmap.bit_set, hclear]; rfl)
  have e1 : divRoundUp freeMapFileSize sectorSize = 1 := rfl
  have e2 : divRoundUp directoryFileSize sectorSize = 2 := rfl
  obtain ⟨mapHdr, b₃, hal, ha, hnd, hm, hleft⟩ := hmarks.allocate (by decide) freeMapFileSize (by decide) (by decide)
    (by rw [e1]; omega) h
  obtain ⟨dirHdr, b₄, hal', ha', hnd', hm', hleft'⟩ := hm.allocate hnd directoryFileSize (by decide) (by decide)
    (by rw [e1] at hleft; rw [e2]; omega) h'
  rw [e1] at hleft
  rw [e2] at hleft'
  exact ⟨b₀, _, _, b₃, b₄, mapHdr, dirHdr, hnew, hmark₀, hmark₁, hal, hal', ha, ha', hnd', hm', by omega⟩

/-- Formatting any disk goes through, and establishes the invariant: the directory is empty, and all sectors but five are
clear. -/
theorem format_spec (d : Disk) (junk : Nat → Buf) :
    ∃ fs, format d junk = .ok fs ∧ Inv fs ∧ (∀ i, (entry fs.disk i).inUse = false) ∧ (freeMap fs.disk).numClear = 1019 := by
  obtain ⟨b₀, b₁, b₂, b₃, b₄, mapHdr, dirHdr, hnew, hmark₀, hmark₁, hal, hal', ha, ha', hnd, hm, hc⟩ :=
    format_allocate (FileHeader.ofBuf (junk 1)) (FileHeader.ofBuf (junk 2))
  have hz : (0 : Int) ≤ freeMapSector ∧ freeMapSector < numSectors := by decide
  have ho : (0 : Int) ≤ directorySector ∧ directorySector < numSectors := by decide
  -- the two headers as the disk holds them
  obtain ⟨d₁, hd₁⟩ : ∃ d₁, d.put freeMapSector mapHdr.toBuf 0 = d₁ := ⟨_, rfl⟩
  obtain ⟨d₂, hd₂⟩ : ∃ d₂, d₁.put directorySector dirHdr.toBuf 0 = d₂ := ⟨_, rfl⟩
  obtain ⟨hmapA, hmapS⟩ := ha.put d freeMapSector
  obtain ⟨hdirA, hdirS⟩ := ha'.put d₁ directorySector
  have hmap₂ : d₂.sector freeMapSector = d₁.sector freeMapSector := by
    rw [← hd₂]
    exact Disk.sector_put_other d₁ (by decide) _ _
  rw [hd₁, ← FileHeader.atSector_congr hmap₂] at hmapA hmapS
  rw [hd₂] at hdirA hdirS
  have hsys : systemSectors d₂ = [freeMapSector, directorySector] ++ mapHdr.sectors ++ dirHdr.sectors := by
    unfold systemSectors
    rw [hmapS, hdirS]
  have hfiles : SystemFiles d₂ :=
    ⟨hmapA.valid, hmapA.numBytes_eq, hdirA.valid, hdirA.numBytes_eq, by rw [hsys]; exact hnd⟩
  obtain ⟨mapFile, hmapFile⟩ : ∃ f : OpenFile, f = { hdr := FileHeader.atSector d₂ freeMapSector, seekPosition := 0 } := ⟨_, rfl⟩
  obtain ⟨dirFile, hdirFile⟩ : ∃ f : OpenFile, f = { hdr := FileHeader.atSector d₂ directorySector, seekPosition := 0 } :=
    ⟨_, rfl⟩
  have hmapH : mapFile.hdr = FileHeader.atSector d₂ freeMapSector := by rw [hmapFile]
  have hdirH : dirFile.hdr = FileHeader.atSector d₂ directorySector := by rw [hdirFile]
  obtain ⟨d₃, d₄, hw₃, hw₄, hf⟩ := flush_map_directory { disk := d₂, freeMapFile := mapFile, directoryFile := dirFile } hfiles
    ⟨hmapH, hdirH⟩ (Directory.inRange_new (junk 0)) b₄ (junk 3) (junk 4)
  obtain ⟨hsz, hso⟩ := hf.sector_zero hfiles
  have hempty : ∀ e ∈ (directory d₄).table.toList, e.inUse = false := by
    rw [hf.directory_eq]
    intro e he
    simp only [Directory.new, Vector.toList_map, List.mem_map] at he
    obtain ⟨e', -, rfl⟩ := he
    rfl
  refine ⟨{ disk := d₄, freeMapFile := mapFile, directoryFile := dirFile }, ?_, ?_, fun i => hempty _ (entry_mem d₄ i),
    by rw [hf.freeMap_eq, hc]⟩
  · unfold format
    rw [hnew, ok_bind, hmark₀, ok_bind, hmark₁, ok_bind, hal, ok_bind]
    dsimp only
    rw [assert_of rfl, ok_bind, hal', ok_bind]
    dsimp only
    rw [assert_of rfl, ok_bind]
    unfold FileHeader.writeBack OpenFile.new
    rw [Disk.writeSector_of d hz, ok_bind, hd₁, Disk.writeSector_of _ ho, ok_bind, hd₂, FileHeader.fetchFrom_of hz, ok_bind,
      FileHeader.fetchFrom_of ho, ok_bind]
    simp only [pure_bind, ← hmapFile, ← hdirFile, hw₃, hw₄, ok_bind]
    rfl
  · refine inv_of_empty (hfiles.congr hsz hso) ⟨by rw [FileHeader.atSector_congr hsz, hmapH],
      by rw [FileHeader.atSector_congr hso, hdirH]⟩
      ?_ hempty ?_
    · rw [systemSectors_congr hsz hso, hsys]
      intro x hx
      rcases List.mem_append.1 hx with hx | hx
      · rcases List.mem_append.1 hx with hx | hx
        · rcases List.mem_cons.1 hx with rfl | hx
          · exact hz
          · rw [List.mem_singleton.1 hx]
            exact ho
        · exact ha.onDisk x hx
      · exact ha'.onDisk x hx
    · intro i
      show (freeMap d₄).bit i = _
      rw [hf.freeMap_eq, hm, systemSectors_congr hsz hso, hsys]

/-- Every call with admissible arguments goes through and keeps the invariant. -/
theorem step_inv (hI : Inv fs) {op : Op} (hv : op.Valid) : ∃ fs', fs.step op = .ok fs' ∧ Inv fs' := by
  cases op with
  | create name size junk =>
    rcases create_spec hI hv.1 hv.2 name junk with ⟨h, -⟩ | ⟨-, -, k, s, d', -, h, hc⟩
    · exact ⟨fs, by rw [step, h]; rfl, hI⟩
    · exact ⟨_, by rw [step, h]; rfl, hc.inv hI⟩
  | remove name junk =>
    rcases remove_spec hI name junk with ⟨-, h⟩ | ⟨k, d', -, h, hr⟩
    · exact ⟨fs, by rw [step, h]; rfl, hI⟩
    · exact ⟨_, by rw [step, h]; rfl, hr.inv hI⟩
  | write i src n p junk =>
    by_cases hu : (entry fs.disk i).inUse = true
    · obtain ⟨d', h, hw⟩ := write_spec hI hu hv src junk
      exact ⟨_, h, write_inv hI hu hw⟩
    · exact ⟨fs, if_neg hu, hI⟩

/-- A run of calls with admissible arguments from any state with the invariant goes through and keeps it. -/
theorem steps_inv (hI : Inv fs) {ops : List Op} (hv : ∀ op ∈ ops, op.Valid) : ∃ fs', ops.foldlM step fs = .ok fs' ∧ Inv fs' := by
  induction ops generalizing fs with
  | nil => exact ⟨fs, rfl, hI⟩
  | cons op ops ih =>
    obtain ⟨fs₁, h₁, hI₁⟩ := step_inv hI (hv op List.mem_cons_self)
    obtain ⟨fs', h', hI'⟩ := ih hI₁ fun o ho => hv o (List.mem_cons_of_mem _ ho)
    refine ⟨fs', ?_, hI'⟩
    rw [List.foldlM_cons, h₁, ok_bind]
    exact h'

/-- Every run of calls with admissible arguments on a formatted disk goes through and ends with the invariant. -/
theorem run_inv (d : Disk) (junk : Nat → Buf) {ops : List Op} (hv : ∀ op ∈ ops, op.Valid) :
    ∃ fs, run d junk ops = .ok fs ∧ Inv fs := by
  obtain ⟨fs₀, h₀, hI₀, -⟩ := format_spec d junk
  obtain ⟨fs, h, hI⟩ := steps_inv hI₀ hv
  refine ⟨fs, ?_, hI⟩
  unfold run
  rw [h₀, ok_bind]
  exact h

/-- After any run of calls on a formatted disk, none of which stops the program, the free map on the disk marks exactly the
sectors of the system and those of the files in the directory, all distinct and on the disk. -/
theorem freeMap_exact (d : Disk) (junk : Nat → Buf) (ops : List Op) (hv : ∀ op ∈ ops, op.Valid) :
    ∃ fs, run d junk ops = .ok fs ∧ Consistent fs.disk := by
  obtain ⟨fs, h, hI⟩ := run_inv d junk hv
  exact ⟨fs, h, hI.toConsistent⟩

/-- A file created, written and removed. -/
theorem freeMap_exact_create_remove :
    ∃ fs, run { sector := fun _ => Vector.replicate 128 0 } (fun _ _ => 0)
      [.create (fun _ => 97) 200 (fun _ _ => 0), .write 0 (fun _ => 7) 100 50 (fun _ => 0),
        .remove (fun _ => 97) (fun _ _ => 0)] = .ok fs ∧ Consistent fs.disk := by
  refine freeMap_exact _ _ _ ?_
  intro op hop
  simp only [List.mem_cons, List.not_mem_nil, or_false] at hop
  rcases hop with rfl | rfl | rfl
  · exact ⟨by decide, by decide⟩
  · exact ⟨by decide, by decide, by decide⟩
  · trivial

end FileSystem

end Nachos
