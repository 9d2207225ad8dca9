import Nachos.Filesys.Disk
import Nachos.Lib.Bitmap

/-!
# File headers (filesys/filehdr.cc)

A header is the size of a file, its number of data sectors and the table of their numbers; it fills one sector. The table has
`NumDirect` places, and an access past them is a fault; the places past `numSectors` hold whatever the memory held.
-/

namespace Nachos

open Bytes Loop

/-- `NumDirect`: `(SectorSize - 2 * sizeof(int)) / sizeof(int)`. -/
@[simp] abbrev numDirect : Nat := 30

/-- `MaxFileSize`: `NumDirect * SectorSize`. -/
@[simp] abbrev maxFileSize : Int := 3840

/-- `class FileHeader`. -/
structure FileHeader where
  numBytes : Int
  numSectors : Int
  dataSectors : Nat → Int

namespace FileHeader

variable {n : Nat}

/-- The data sectors of a file, in the order of the file. -/
def sectors (h : FileHeader) : List Int := (List.range h.numSectors.toNat).map h.dataSectors

/-- The value of `dataSectors[i]`. -/
def dataSector (h : FileHeader) (i : Int) : Except Fault Int :=
  if 0 ≤ i ∧ i < numDirect then .ok (h.dataSectors i.toNat) else .error .outOfBounds

/-- `dataSectors[i] = s`. -/
def setDataSector (h : FileHeader) (i : Nat) (s : Int) : Except Fault FileHeader :=
  if i < numDirect then .ok { h with dataSectors := Function.update h.dataSectors i s } else .error .outOfBounds

/-- The body of the loop of `Allocate`: find a sector and record it as data sector `i`. -/
def allocateSector (i : Nat) (p : FileHeader × Bitmap n) : Except Fault (FileHeader × Bitmap n) := do
  let (s, freeMap) ← p.2.findAndSet
  let h ← p.1.setDataSector i s
  assert (0 ≤ s) -- since we checked that there was enough free space, we expect this to succeed
  return (h, freeMap)

/-- `FileHeader::Allocate`; the result is the value returned, the header and the free map. -/
def allocate (h : FileHeader) (freeMap : Bitmap n) (fileSize : Int) : Except Fault (Bool × FileHeader × Bitmap n) :=
  let h := { h with numBytes := fileSize, numSectors := divRoundUp fileSize sectorSize }
  if (freeMap.numClear : Int) < h.numSectors then
    return (false, h, freeMap) -- not enough space
  else do
    let (h, freeMap) ← forRange allocateSector h.numSectors.toNat (h, freeMap)
    return (true, h, freeMap)

/-- The body of the loop of `Deallocate`: clear data sector `i`. -/
def deallocateSector (h : FileHeader) (i : Nat) (freeMap : Bitmap n) : Except Fault (Bitmap n) := do
  let s ← h.dataSector i
  assert ((← freeMap.test s) = true) -- ought to be marked!
  freeMap.clear s

/-- `FileHeader::Deallocate`. -/
def deallocate (h : FileHeader) (freeMap : Bitmap n) : Except Fault (Bitmap n) :=
  forRange h.deallocateSector h.numSectors.toNat freeMap

/-- `FileHeader::ByteToSector`. -/
def byteToSector (h : FileHeader) (offset : Int) : Except Fault Int := h.dataSector (offset.tdiv sectorSize)

/-! ## A header on disk -/

/-- Word `k` of a header in memory: the two counts, then the table. -/
def word (h : FileHeader) : Nat → Int
  | 0 => h.numBytes
  | 1 => h.numSectors
  | k + 2 => h.dataSectors k

/-- A header as it lies in memory. -/
def toBuf (h : FileHeader) : Buf := fun j => byteOf (h.word (j / 4)) (j % 4)

/-- The header at a place in memory. -/
def ofBuf (m : Buf) : FileHeader :=
  { numBytes := intAt m 0
    numSectors := intAt m 4
    dataSectors := fun i => if i < numDirect then intAt m (8 + 4 * i) else 0 }

/-- `FileHeader::FetchFrom`. -/
def fetchFrom (d : Disk) (sector : Int) : Except Fault FileHeader := do
  return ofBuf (← d.readSector sector (fun _ => 0) 0)

/-- `FileHeader::WriteBack`. -/
def writeBack (h : FileHeader) (d : Disk) (sector : Int) : Except Fault Disk := d.writeSector sector h.toBuf 0

/-- The header a sector of the disk holds. -/
def atSector (d : Disk) (s : Int) : FileHeader := ofBuf (d.bytes s)

/-- The headers `Allocate` makes: as many sectors as the size needs, distinct and on the disk. The size may be negative, and
then the file has no sector. -/
structure Valid (h : FileHeader) : Prop where
  inRange : InRange h.numBytes
  le_max : h.numBytes ≤ maxFileSize
  numSectors_eq : h.numSectors = divRoundUp h.numBytes sectorSize
  nodup : h.sectors.Nodup
  onDisk : ∀ s ∈ h.sectors, 0 ≤ s ∧ s < Nachos.numSectors

/-! ## Headers survive the disk -/

theorem toBuf_word (h : FileHeader) (w : Nat) : ∀ k < 4, h.toBuf (4 * w + k) = byteOf (h.word w) k := by
  intro k hk
  have h1 : (4 * w + k) / 4 = w := by omega
  have h2 : (4 * w + k) % 4 = k := by omega
  unfold toBuf
  rw [h1, h2]

/-- A header stored and read back, as far as its counts and its data sectors go. -/
theorem ofBuf_of_agree {h : FileHeader} {m : Buf} (hm : ∀ j < 128, m j = h.toBuf j) (hb : InRange h.numBytes)
    (hn : 0 ≤ h.numSectors → h.numSectors ≤ numDirect) (hnr : InRange h.numSectors)
    (hs : ∀ s ∈ h.sectors, InRange s) :
    (ofBuf m).numBytes = h.numBytes ∧ (ofBuf m).numSectors = h.numSectors ∧ (ofBuf m).sectors = h.sectors := by
  have hword : ∀ w < 32, InRange (h.word w) → intAt m (4 * w) = h.word w := by
    intro w hw hr
    refine intAt_of_bytes ?_ hr
    intro k hk
    rw [hm (4 * w + k) (by omega), toBuf_word h w k hk]
  have h1 : intAt m 0 = h.numBytes := hword 0 (by omega) (by rw [word]; exact hb)
  have h2 : intAt m 4 = h.numSectors := hword 1 (by omega) (by rw [word]; exact hnr)
  refine ⟨by rw [ofBuf, h1], by rw [ofBuf, h2], ?_⟩
  unfold sectors
  rw [show (ofBuf m).numSectors = h.numSectors by rw [ofBuf, h2]]
  refine List.map_congr_left ?_
  intro i hi
  have hi' := List.mem_range.1 hi
  have hd : i < numDirect := by
    simp only [numDirect] at hn ⊢
    omega
  have hr : InRange (h.word (i + 2)) := hs _ (List.mem_map_of_mem hi)
  have := hword (i + 2) (by simp only [numDirect] at hd; omega) hr
  simp only [ofBuf, if_pos hd]
  rw [show 8 + 4 * i = 4 * (i + 2) by omega, this]
  rfl

/-- Headers read from memory that agrees are equal. -/
theorem ofBuf_congr {m m' : Buf} (h : ∀ j < 128, m j = m' j) : ofBuf m = ofBuf m' := by
  rw [ofBuf, ofBuf, mk.injEq]
  refine ⟨intAt_congr fun k hk => h _ (by omega), intAt_congr fun k hk => h _ (by omega), ?_⟩
  funext i
  by_cases hi : i < numDirect
  · rw [if_pos hi, if_pos hi]
    simp only [numDirect] at hi
    exact intAt_congr fun k hk => h _ (by omega)
  · rw [if_neg hi, if_neg hi]

/-- `FetchFrom` a sector of the disk gives the header it holds. -/
theorem fetchFrom_of {d : Disk} {s : Int} (h : 0 ≤ s ∧ s < Nachos.numSectors) : fetchFrom d s = .ok (atSector d s) := by
  unfold fetchFrom atSector
  rw [Disk.readSector_of d h]
  show Except.ok _ = Except.ok _
  congr 1
  exact ofBuf_congr fun j hj => by simpa using copy_inside (d.bytes s) (fun _ => 0) 0 0 128 hj

/-- The header in a sector depends on that sector alone. -/
theorem atSector_congr {d d' : Disk} {s : Int} (h : d'.sector s = d.sector s) : atSector d' s = atSector d s := by
  unfold atSector
  rw [Disk.bytes_congr h]

/-- The number of sectors of a file of an admissible size fits the table. -/
theorem divRoundUp_le_numDirect {size : Int} (h : size ≤ maxFileSize) : (divRoundUp size sectorSize).toNat ≤ numDirect := by
  simp only [maxFileSize, sectorSize, numDirect] at h ⊢
  by_cases h0 : 0 ≤ size
  · rw [divRoundUp_of_nonneg h0 (by decide)]
    omega
  · have := divRoundUp_nonpos (n := size) (s := 128) (by omega) (by decide)
    omega

theorem divRoundUp_bounds {size : Int} (h0 : 0 ≤ size) (h : size ≤ maxFileSize) :
    0 ≤ divRoundUp size sectorSize ∧ divRoundUp size sectorSize ≤ numDirect := by
  simp only [maxFileSize, sectorSize, numDirect] at h ⊢
  rw [divRoundUp_of_nonneg h0 (by decide)]
  omega

/-! ## Allocated headers -/

/-- The header is one that `Allocate` has made for a file of `size` bytes. -/
structure Allocated (h : FileHeader) (size : Int) : Prop where
  nonneg : 0 ≤ size
  le_max : size ≤ maxFileSize
  numBytes_eq : h.numBytes = size
  numSectors_eq : h.numSectors = divRoundUp size sectorSize
  nodup : h.sectors.Nodup
  onDisk : ∀ s ∈ h.sectors, 0 ≤ s ∧ s < Nachos.numSectors

/-- An allocated header written back is the one the sector holds, as far as its counts and its data sectors go. -/
theorem Allocated.put {h : FileHeader} {size : Int} (ha : h.Allocated size) (d : Disk) (s : Int) :
    (atSector (d.put s h.toBuf 0) s).Allocated size ∧ (atSector (d.put s h.toBuf 0) s).sectors = h.sectors := by
  obtain ⟨hr0, hr1⟩ := divRoundUp_bounds ha.nonneg ha.le_max
  have hmax := ha.le_max
  have h0 := ha.nonneg
  simp only [maxFileSize, numDirect] at hmax hr1
  obtain ⟨a1, a2, a3⟩ := ofBuf_of_agree (h := h) (m := (d.put s h.toBuf 0).bytes s)
    (fun j hj => by rw [Disk.bytes_put_same d s _ 0 hj, Nat.zero_add])
    (by rw [ha.numBytes_eq]; unfold InRange; omega) (fun _ => by rw [ha.numSectors_eq]; exact hr1)
    (by rw [ha.numSectors_eq]; unfold InRange; omega)
    (fun x hx => by have := ha.onDisk x hx; simp only [Nachos.numSectors] at this; unfold InRange; omega)
  exact ⟨⟨h0, ha.le_max, a1.trans ha.numBytes_eq, a2.trans ha.numSectors_eq, a3 ▸ ha.nodup, a3 ▸ ha.onDisk⟩, a3⟩

theorem Allocated.valid {h : FileHeader} {size : Int} (ha : h.Allocated size) : h.Valid := by
  have hmax := ha.le_max
  have h0 := ha.nonneg
  simp only [maxFileSize] at hmax
  refine ⟨?_, ha.numBytes_eq ▸ ha.le_max, by rw [ha.numBytes_eq, ha.numSectors_eq], ha.nodup, ha.onDisk⟩
  rw [ha.numBytes_eq]
  unfold InRange
  omega

/-! ## Allocating and deallocating -/

/-- Changing place `k` of the table changes nothing before it. -/
theorem range_map_update (f : Nat → Int) (k : Nat) (s : Int) :
    (List.range (k + 1)).map (Function.update f k s) = (List.range k).map f ++ [s] := by
  rw [List.range_succ, List.map_append]
  congr 1
  · refine List.map_congr_left ?_
    intro i hi
    exact Function.update_of_ne (by have := List.mem_range.1 hi; omega) _ _
  · simp

/-- What the loop of `Allocate` has done after `k` rounds: the first `k` places hold distinct sectors that were clear in
`m₀`, and those are now marked. -/
structure AllocateInv (h₀ : FileHeader) (m₀ : Bitmap n) (k : Nat) (p : FileHeader × Bitmap n) : Prop where
  numBytes : p.1.numBytes = h₀.numBytes
  numSectors : p.1.numSectors = h₀.numSectors
  nodup : ((List.range k).map p.1.dataSectors).Nodup
  clear : ∀ s ∈ (List.range k).map p.1.dataSectors, 0 ≤ s ∧ s < n ∧ m₀.bit s.toNat = false
  bits : ∀ i, p.2.bit i = (decide ((i : Int) ∈ (List.range k).map p.1.dataSectors) || m₀.bit i)
  left : p.2.numClear + k = m₀.numClear

/-- One round of the loop finds one more sector, while there are places and clear sectors left. -/
theorem allocateSector_spec {h₀ : FileHeader} {m₀ : Bitmap n} {k : Nat} {p : FileHeader × Bitmap n} (hk : k < numDirect)
    (hc : k < m₀.numClear) (hI : AllocateInv h₀ m₀ k p) :
    ∃ p', allocateSector k p = .ok p' ∧ AllocateInv h₀ m₀ (k + 1) p' := by
  obtain ⟨h, m⟩ := p
  obtain ⟨hb, hs, hnd, hcl, hbits, hleft⟩ := hI
  simp only at hb hs hnd hcl hbits hleft
  obtain ⟨i, hi, hclear, hfind⟩ := Bitmap.findAndSet_of_pos (b := m) (by omega)
  have hset : h.setDataSector k i = .ok { h with dataSectors := Function.update h.dataSectors k i } := if_pos hk
  have hnot := hbits i
  rw [hclear] at hnot
  have hnot' : (i : Int) ∉ (List.range k).map h.dataSectors ∧ m₀.bit i = false := by simpa using hnot.symm
  refine ⟨({ h with dataSectors := Function.update h.dataSectors k i }, m.set i hi), ?_, hb, hs, ?_, ?_, ?_, ?_⟩
  · unfold allocateSector
    simp only [hfind, hset, assert_of (Int.natCast_nonneg i), Bind.bind, Except.bind, Pure.pure, Except.pure]
  · simp only [range_map_update]
    rw [List.nodup_append]
    refine ⟨hnd, List.nodup_singleton _, ?_⟩
    intro a ha b hb' hab
    rw [List.mem_singleton] at hb'
    exact hnot'.1 (hb' ▸ hab ▸ ha)
  · intro s hs'
    simp only [range_map_update, List.mem_append, List.mem_singleton] at hs'
    rcases hs' with hs' | rfl
    · exact hcl s hs'
    · exact ⟨Int.natCast_nonneg i, by omega, by simpa using hnot'.2⟩
  · intro j
    simp only [range_map_update, Bitmap.bit_set, hbits, List.mem_append, List.mem_singleton, Nat.cast_inj]
    rw [Bool.decide_or, ← Bool.or_assoc, Bool.or_comm (decide (j = i))]
  · have := Bitmap.numClear_set hi hclear
    simp only
    omega

/-- Without enough clear sectors `Allocate` returns `FALSE` and the free map is as it was. -/
theorem allocate_of_lt {h : FileHeader} {m : Bitmap n} {size : Int} (hs : (m.numClear : Int) < divRoundUp size sectorSize) :
    ∃ h', allocate h m size = .ok (false, h', m) := by
  unfold allocate
  rw [if_pos hs]
  exact ⟨_, rfl⟩

/-- With enough clear sectors, `Allocate` of an admissible size returns `TRUE`: the header lists distinct sectors that were
clear, and the free map marks these and what it marked before. -/
theorem allocate_of_le {h : FileHeader} {m : Bitmap n} {size : Int} (hmax : size ≤ maxFileSize)
    (hs : divRoundUp size sectorSize ≤ m.numClear) :
    ∃ h' m', allocate h m size = .ok (true, h', m') ∧ h'.numBytes = size ∧ h'.numSectors = divRoundUp size sectorSize ∧
      h'.sectors.Nodup ∧ (∀ s ∈ h'.sectors, 0 ≤ s ∧ s < n ∧ m.bit s.toNat = false) ∧
      (∀ i, m'.bit i = (decide ((i : Int) ∈ h'.sectors) || m.bit i)) ∧
      m'.numClear + (divRoundUp size sectorSize).toNat = m.numClear := by
  have hle := divRoundUp_le_numDirect hmax
  let h₀ : FileHeader := { h with numBytes := size, numSectors := divRoundUp size sectorSize }
  have hround : ∀ k < h₀.numSectors.toNat, ∀ p, AllocateInv h₀ m k p →
      ∃ p', allocateSector k p = .ok p' ∧ AllocateInv h₀ m (k + 1) p' := by
    intro k hk p hI
    change k < (divRoundUp size sectorSize).toNat at hk
    exact allocateSector_spec (by omega) (by omega) hI
  have hstart : AllocateInv h₀ m 0 (h₀, m) := ⟨rfl, rfl, by simp, by simp, by simp, by simp⟩
  obtain ⟨⟨h', m'⟩, hrun, hI⟩ := forRange_ok (AllocateInv h₀ m) hstart hround
  have hsec : h'.sectors = (List.range h₀.numSectors.toNat).map h'.dataSectors := by
    unfold sectors
    rw [hI.numSectors]
  refine ⟨h', m', ?_, hI.numBytes, hI.numSectors, hsec ▸ hI.nodup, hsec ▸ hI.clear, hsec ▸ hI.bits, hI.left⟩
  unfold allocate
  rw [if_neg (by simp only; omega)]
  show (forRange allocateSector h₀.numSectors.toNat (h₀, m) >>= _) = _
  rw [hrun]
  rfl

/-- `Deallocate` clears the data sectors of the file, when they are distinct sectors that the free map marks. -/
theorem deallocate_of {h : FileHeader} {m : Bitmap n} (hle : h.numSectors ≤ numDirect) (hnd : h.sectors.Nodup)
    (hs : ∀ s ∈ h.sectors, 0 ≤ s ∧ s < n ∧ m.bit s.toNat = true) :
    ∃ m', h.deallocate m = .ok m' ∧ ∀ i, m'.bit i = (!decide ((i : Int) ∈ h.sectors) && m.bit i) := by
  -- after `k` rounds the first `k` data sectors are clear and the rest of the map is as it was
  have hstep : ∀ k < h.numSectors.toNat, ∀ m₁ : Bitmap n,
      (∀ i, m₁.bit i = (!decide ((i : Int) ∈ (List.range k).map h.dataSectors) && m.bit i)) →
      ∃ m₂, h.deallocateSector k m₁ = .ok m₂ ∧
        ∀ i, m₂.bit i = (!decide ((i : Int) ∈ (List.range (k + 1)).map h.dataSectors) && m.bit i) := by
    intro k hk m₁ hI
    have hmem : h.dataSectors k ∈ h.sectors := List.mem_map_of_mem (List.mem_range.2 hk)
    obtain ⟨h0, hn, hbit⟩ := hs _ hmem
    have hnew : h.dataSectors k ∉ (List.range k).map h.dataSectors := by
      intro hin
      obtain ⟨j, hj, hjk⟩ := List.mem_map.1 hin
      have hj' := List.mem_range.1 hj
      have := List.inj_on_of_nodup_map hnd (List.mem_range.2 (by omega : j < h.numSectors.toNat)) (List.mem_range.2 hk) hjk
      omega
    have hcast : ((h.dataSectors k).toNat : Int) = h.dataSectors k := Int.toNat_of_nonneg h0
    have hlt : (h.dataSectors k).toNat < n := by omega
    have htest : m₁.bit (h.dataSectors k).toNat = true := by
      rw [hI, hcast, hbit]
      simpa using hnew
    have hds : h.dataSector k = .ok (h.dataSectors k) := by
      have : (0 : Int) ≤ k ∧ (k : Int) < numDirect := by simp only [numDirect] at hle ⊢; omega
      unfold dataSector
      rw [if_pos this, Int.toNat_natCast]
    refine ⟨m₁.reset _ hlt, ?_, ?_⟩
    · unfold deallocateSector
      rw [hds]
      simp only [Bind.bind, Except.bind, Bitmap.test_of m₁ ⟨h0, hn⟩, assert_of htest]
      rw [← Bitmap.clear_of m₁ hlt, hcast]
    · intro i
      have hii : i = (h.dataSectors k).toNat ↔ (i : Int) = h.dataSectors k := by omega
      rw [Bitmap.bit_reset, hI, List.range_succ, List.map_append, ← Bool.and_assoc]
      congr 1
      simp only [List.map_cons, List.map_nil, List.mem_append, List.mem_singleton, Bool.decide_or, Bool.not_or, hii]
      rw [Bool.and_comm]
  exact forRange_ok (fun k (m' : Bitmap n) => ∀ i, m'.bit i =
    (!decide ((i : Int) ∈ (List.range k).map h.dataSectors) && m.bit i)) (by simp) hstep

end FileHeader

end Nachos
