import Mathlib.Data.List.Perm.Lattice
import Nachos.Filesys.FileSys
import Nachos.Prelude.Lists

/-!
# The free map invariant

`Consistent d`: the free map on the disk marks exactly the sectors in use, which are distinct. `Inv fs` adds what the operations
rely on: the headers kept in memory are those on the disk, and every header in use is one that `Allocate` made. Each operation is
described once, by `Created`, `Removed` or `Written`, which say what it did to the disk; the invariant follows from these.
-/

namespace Nachos

open Bytes

namespace FileSystem

/-- The free map marks exactly the sectors in use; they are pairwise distinct and lie on the disk. -/
structure Consistent (d : Disk) : Prop where
  nodup : (usedSectors d).Nodup
  onDisk : ∀ s ∈ usedSectors d, 0 ≤ s ∧ s < numSectors
  marks : ∀ i : Nat, (freeMap d).bit i = true ↔ (i : Int) ∈ usedSectors d

/-- The headers of the bitmap and of the directory are valid, and have the sizes of the two files. -/
structure SystemFiles (d : Disk) : Prop where
  mapValid : (FileHeader.atSector d freeMapSector).Valid
  mapSize : (FileHeader.atSector d freeMapSector).numBytes = freeMapFileSize
  dirValid : (FileHeader.atSector d directorySector).Valid
  dirSize : (FileHeader.atSector d directorySector).numBytes = directoryFileSize
  nodup : (systemSectors d).Nodup

/-- The invariant of a disk between two calls. -/
structure DiskInv (d : Disk) : Prop extends Consistent d where
  system : SystemFiles d
  headers : ∀ e ∈ (directory d).table.toList, e.inUse = true → (header d e).Valid

/-- The invariant of the file system between two calls. -/
structure Inv (fs : FileSystem) : Prop extends DiskInv fs.disk where
  mapHdr : fs.freeMapFile.hdr = FileHeader.atSector fs.disk freeMapSector
  dirHdr : fs.directoryFile.hdr = FileHeader.atSector fs.disk directorySector

/-! ## Sectors of the system -/

section System

variable {d d' : Disk}

/-- The two files of the system do not share sectors, and do not use the sectors of the headers. -/
theorem SystemFiles.disjoint (h : SystemFiles d) :
    freeMapSector ∉ (FileHeader.atSector d freeMapSector).sectors ∧
      directorySector ∉ (FileHeader.atSector d freeMapSector).sectors ∧
      freeMapSector ∉ (FileHeader.atSector d directorySector).sectors ∧
      directorySector ∉ (FileHeader.atSector d directorySector).sectors ∧
      ∀ s ∈ (FileHeader.atSector d freeMapSector).sectors, s ∉ (FileHeader.atSector d directorySector).sectors := by
  have hn := h.nodup
  unfold systemSectors at hn
  rw [List.nodup_append, List.nodup_append] at hn
  obtain ⟨⟨-, -, h1⟩, -, h2⟩ := hn
  refine ⟨fun hm => h1 freeMapSector (by simp) _ hm rfl, fun hm => h1 directorySector (by simp) _ hm rfl,
    fun hm => h2 freeMapSector (by simp) _ hm rfl, fun hm => h2 directorySector (by simp) _ hm rfl,
    fun s hs hm => h2 s (List.mem_append_right _ hs) _ hm rfl⟩

/-- What is written over the data sectors of the two files does not change where the files are. -/
theorem systemSectors_congr (h0 : d'.sector freeMapSector = d.sector freeMapSector)
    (h1 : d'.sector directorySector = d.sector directorySector) : systemSectors d' = systemSectors d := by
  unfold systemSectors
  rw [FileHeader.atSector_congr h0, FileHeader.atSector_congr h1]

theorem SystemFiles.congr (h : SystemFiles d) (h0 : d'.sector freeMapSector = d.sector freeMapSector)
    (h1 : d'.sector directorySector = d.sector directorySector) : SystemFiles d' := by
  have e0 := FileHeader.atSector_congr h0
  have e1 := FileHeader.atSector_congr h1
  refine ⟨?_, ?_, ?_, ?_, ?_⟩
  · rw [e0]; exact h.mapValid
  · rw [e0]; exact h.mapSize
  · rw [e1]; exact h.dirValid
  · rw [e1]; exact h.dirSize
  · rw [systemSectors_congr h0 h1]; exact h.nodup

theorem freeMapSector_mem (d : Disk) : freeMapSector ∈ systemSectors d :=
  List.mem_append_left _ (List.mem_append_left _ List.mem_cons_self)

theorem directorySector_mem (d : Disk) : directorySector ∈ systemSectors d :=
  List.mem_append_left _ (List.mem_append_left _ (List.mem_cons_of_mem _ List.mem_cons_self))

theorem mem_systemSectors_map {s : Int} (h : s ∈ (FileHeader.atSector d freeMapSector).sectors) : s ∈ systemSectors d :=
  List.mem_append_left _ (List.mem_append_right _ h)

theorem mem_systemSectors_dir {s : Int} (h : s ∈ (FileHeader.atSector d directorySector).sectors) : s ∈ systemSectors d :=
  List.mem_append_right _ h

/-- The directory and the free map are read from system sectors. -/
theorem directory_congr (h : SystemFiles d) (hs : ∀ s ∈ systemSectors d, d'.sector s = d.sector s) :
    directory d' = directory d := by
  unfold directory
  rw [FileHeader.atSector_congr (hs _ (directorySector_mem d))]
  exact Directory.inFile_congr (n := numDirEntries) h.dirValid h.dirSize fun s hm => hs s (mem_systemSectors_dir hm)

theorem freeMap_congr (h : SystemFiles d) (hs : ∀ s ∈ systemSectors d, d'.sector s = d.sector s) : freeMap d' = freeMap d := by
  unfold freeMap
  rw [FileHeader.atSector_congr (hs _ (freeMapSector_mem d))]
  exact Bitmap.inFile_congr (n := 1024) h.mapValid h.mapSize fun s hm => hs s (mem_systemSectors_map hm)

end System

/-! ## Writing the directory and the free map back -/

section Flush

variable {d d' : Disk}

/-- The result of writing `dir` and `b` back: the disk holds both, and nothing else has changed. -/
structure Flushed (d : Disk) (dir : Directory numDirEntries) (b : FreeMap) (d' : Disk) : Prop where
  directory_eq : directory d' = dir
  freeMap_eq : freeMap d' = b
  frame : ∀ s, s ∉ (FileHeader.atSector d freeMapSector).sectors → s ∉ (FileHeader.atSector d directorySector).sectors →
    d'.sector s = d.sector s

/-- The two files open in memory are those of the disk `d`. -/
structure Opened (fs : FileSystem) (d : Disk) : Prop where
  mapHdr : fs.freeMapFile.hdr = FileHeader.atSector d freeMapSector
  dirHdr : fs.directoryFile.hdr = FileHeader.atSector d directorySector

theorem Flushed.sector_zero (h : SystemFiles d) {dir : Directory numDirEntries} {b : FreeMap} (hf : Flushed d dir b d') :
    d'.sector freeMapSector = d.sector freeMapSector ∧ d'.sector directorySector = d.sector directorySector := by
  obtain ⟨h1, h2, h3, h4, -⟩ := h.disjoint
  exact ⟨hf.frame _ h1 h3, hf.frame _ h2 h4⟩

/-- First the directory, then the free map (`Create`). -/
theorem flush_directory_map (fs : FileSystem) (h : SystemFiles d) (ho : Opened fs d) {dir : Directory numDirEntries} (hr : dir.InRange)
    (b : FreeMap) (junk junk' : Buf) :
    ∃ d₁ d₂, dir.writeBack fs.directoryFile d junk = .ok d₁ ∧ b.writeBack fs.freeMapFile d₁ junk' = .ok d₂ ∧
      Flushed d dir b d₂ := by
  obtain ⟨h00, h10, h01, h11, hdis⟩ := h.disjoint
  obtain ⟨d₁, hw₁, hin₁, hout₁⟩ := Directory.writeBack_of (d := d) (f := fs.directoryFile) (ho.dirHdr ▸ h.dirValid)
    (by rw [ho.dirHdr]; exact h.dirSize) hr junk
  obtain ⟨d₂, hw₂, hin₂, hout₂⟩ := Bitmap.writeBack_of (d := d₁) (f := fs.freeMapFile) (ho.mapHdr ▸ h.mapValid)
    (by rw [ho.mapHdr]; exact h.mapSize) b junk'
  rw [ho.dirHdr] at hin₁ hout₁
  rw [ho.mapHdr] at hin₂ hout₂
  have hframe : ∀ s, s ∉ (FileHeader.atSector d freeMapSector).sectors →
      s ∉ (FileHeader.atSector d directorySector).sectors → d₂.sector s = d.sector s :=
    fun s hs hs' => (hout₂ s hs).trans (hout₁ s hs')
  refine ⟨d₁, d₂, hw₁, hw₂, ?_, ?_, hframe⟩
  · unfold directory
    rw [FileHeader.atSector_congr (hframe directorySector h10 h11), ← hin₁]
    exact Directory.inFile_congr (n := numDirEntries) h.dirValid h.dirSize fun s hs => hout₂ s fun hm => hdis s hm hs
  · unfold freeMap
    rw [FileHeader.atSector_congr (hframe freeMapSector h00 h01)]
    exact hin₂

/-- First the free map, then the directory (`Remove`, and the formatting). -/
theorem flush_map_directory (fs : FileSystem) (h : SystemFiles d) (ho : Opened fs d) {dir : Directory numDirEntries} (hr : dir.InRange)
    (b : FreeMap) (junk junk' : Buf) :
    ∃ d₁ d₂, b.writeBack fs.freeMapFile d junk = .ok d₁ ∧ dir.writeBack fs.directoryFile d₁ junk' = .ok d₂ ∧
      Flushed d dir b d₂ := by
  obtain ⟨h00, h10, h01, h11, hdis⟩ := h.disjoint
  obtain ⟨d₁, hw₁, hin₁, hout₁⟩ := Bitmap.writeBack_of (d := d) (f := fs.freeMapFile) (ho.mapHdr ▸ h.mapValid)
    (by rw [ho.mapHdr]; exact h.mapSize) b junk
  obtain ⟨d₂, hw₂, hin₂, hout₂⟩ := Directory.writeBack_of (d := d₁) (f := fs.directoryFile) (ho.dirHdr ▸ h.dirValid)
    (by rw [ho.dirHdr]; exact h.dirSize) hr junk'
  rw [ho.mapHdr] at hin₁ hout₁
  rw [ho.dirHdr] at hin₂ hout₂
  have hframe : ∀ s, s ∉ (FileHeader.atSector d freeMapSector).sectors →
      s ∉ (FileHeader.atSector d directorySector).sectors → d₂.sector s = d.sector s :=
    fun s hs hs' => (hout₂ s hs').trans (hout₁ s hs)
  refine ⟨d₁, d₂, hw₁, hw₂, ?_, ?_, hframe⟩
  · unfold directory
    rw [FileHeader.atSector_congr (hframe directorySector h10 h11)]
    exact hin₂
  · unfold freeMap
    rw [FileHeader.atSector_congr (hframe freeMapSector h00 h01), ← hin₁]
    exact Bitmap.inFile_congr (n := 1024) h.mapValid h.mapSize fun s hs => hout₂ s fun hm => hdis s hs hm

end Flush

/-! ## Sectors of the files -/

section Files

variable {d d' : Disk}

theorem entry_mem (d : Disk) (i : Fin numDirEntries) : entry d i ∈ (directory d).table.toList := by
  unfold entry
  simp

theorem mem_used_of_entry {e : DirectoryEntry} (he : e ∈ (directory d).table.toList) {s : Int} (hs : s ∈ entrySectors d e) :
    s ∈ usedSectors d :=
  List.mem_append_right _ (List.mem_flatMap.2 ⟨e, he, hs⟩)

theorem header_mem {e : DirectoryEntry} (hu : e.inUse = true) : e.sector ∈ entrySectors d e := by
  unfold entrySectors
  rw [if_pos hu]
  exact List.mem_cons_self

theorem data_mem {e : DirectoryEntry} (hu : e.inUse = true) {s : Int} (hs : s ∈ (header d e).sectors) :
    s ∈ entrySectors d e := by
  unfold entrySectors
  rw [if_pos hu]
  exact List.mem_cons_of_mem _ hs

theorem entrySectors_unused {e : DirectoryEntry} (hu : e.inUse = false) : entrySectors d e = [] := by
  unfold entrySectors
  rw [hu]
  rfl

/-- The sectors of a file are not system sectors. -/
theorem Consistent.not_system (h : Consistent d) {e : DirectoryEntry} (he : e ∈ (directory d).table.toList) {s : Int}
    (hs : s ∈ entrySectors d e) : s ∉ systemSectors d := by
  have hn := h.nodup
  unfold usedSectors at hn
  exact fun hm => (List.nodup_append.1 hn).2.2 s hm s (List.mem_flatMap.2 ⟨e, he, hs⟩) rfl

/-- The sectors of a file are distinct. -/
theorem Consistent.nodup_entry (h : Consistent d) {e : DirectoryEntry} (he : e ∈ (directory d).table.toList) :
    (entrySectors d e).Nodup := by
  have hn := h.nodup
  unfold usedSectors at hn
  exact (List.nodup_flatMap.1 (List.nodup_append.1 hn).2.1).1 e he

/-- Two entries of the directory do not share a sector. -/
theorem Consistent.disjoint (h : Consistent d) {i j : Fin numDirEntries} (hij : i ≠ j) {s : Int}
    (hi : s ∈ entrySectors d (entry d i)) : s ∉ entrySectors d (entry d j) := by
  have hn := h.nodup
  unfold usedSectors at hn
  have hp := List.pairwise_iff_getElem.1 (List.nodup_flatMap.1 (List.nodup_append.1 hn).2.1).2
  intro hj
  rcases Nat.lt_or_gt_of_ne (fun e => hij (Fin.ext e)) with hlt | hlt
  · exact hp i j (by simp) (by simp) hlt (by simpa [entry] using hi) (by simpa [entry] using hj)
  · exact hp j i (by simp) (by simp) hlt (by simpa [entry] using hj) (by simpa [entry] using hi)

/-- A sector that the free map does not mark is not in use. -/
theorem Consistent.not_used (h : Consistent d) {s : Int} (h0 : 0 ≤ s) (hs : (freeMap d).bit s.toNat = false) :
    s ∉ usedSectors d := by
  intro hm
  rw [← Int.toNat_of_nonneg h0, ← h.marks, hs] at hm
  cases hm

/-- The sectors of an entry depend on its header sector. -/
theorem entrySectors_congr {e : DirectoryEntry} (h : e.inUse = true → d'.sector e.sector = d.sector e.sector) :
    entrySectors d' e = entrySectors d e := by
  unfold entrySectors header
  by_cases hu : e.inUse = true
  · rw [if_pos hu, if_pos hu, FileHeader.atSector_congr (h hu)]
  · rw [if_neg hu, if_neg hu]

end Files

end FileSystem

end Nachos
