import Nachos.Filesys.FileHdr

/-!
# Open files (filesys/openfile.cc)

`ReadAt` and `WriteAt` of the real file system move whole sectors. Both begin by cutting the request to the length of the
file and by computing the sectors it touches (`OpenFile.request`), in 32-bit arithmetic. Seen from outside, a file is the
sequence of bytes `OpenFile.content`, and the two specifications `readAt_of` and `writeAt_of` are stated on it.
-/

namespace Nachos

open Bytes Loop

/-- `class OpenFile`: the header, which stays in memory while the file is open, and the current position. -/
structure OpenFile where
  hdr : FileHeader
  seekPosition : Int

namespace OpenFile

/-- `OpenFile::OpenFile`. -/
def new (d : Disk) (sector : Int) : Except Fault OpenFile := do
  return { hdr := ← FileHeader.fetchFrom d sector, seekPosition := 0 }

/-- What `ReadAt` and `WriteAt` compute from their arguments: the number of bytes to transfer, the first and the last sector
of the file they lie in, and how many sectors these are. -/
structure Request where
  numBytes : Int
  firstSector : Int
  lastSector : Int
  numSectors : Int

/-- The check of the request, and the request cut to the length of the file. With no request there is nothing to transfer. -/
def request (fileLength numBytes position : Int) : Option Request :=
  if numBytes ≤ 0 ∨ position ≥ fileLength then none
  else
    let numBytes := if int32 (position + numBytes) > fileLength then int32 (fileLength - position) else numBytes
    let firstSector := divRoundDown position sectorSize
    let lastSector := divRoundDown (int32 (int32 (position + numBytes) - 1)) sectorSize
    some { numBytes, firstSector, lastSector, numSectors := 1 + lastSector - firstSector }

/-- The size of the buffer for the sectors of a request. -/
def Request.bufSize (r : Request) : Int := int32 (r.numSectors * sectorSize)

/-- Where in the buffer the bytes of a request begin. -/
def Request.start (r : Request) (position : Int) : Int := position - r.firstSector * sectorSize

/-- One round of the loop of `ReadAt`: the sector number `firstSector + i` of the file is read to its place in the buffer. -/
def readRound (f : OpenFile) (d : Disk) (r : Request) (i : Nat) (buf : Buf) : Except Fault Buf := do
  let s ← f.hdr.byteToSector ((r.firstSector + i) * sectorSize)
  d.readSector s buf (i * 128)

/-- `OpenFile::ReadAt`, with `into` pointing at offset `o` of a buffer; the result is the value returned and the buffer. The
memory of the buffer for the sectors counts as 0: every byte of it that is copied has been read in before. -/
def readAt (f : OpenFile) (d : Disk) (into : Buf) (o : Nat) (numBytes position : Int) : Except Fault (Int × Buf) :=
  match request f.hdr.numBytes numBytes position with
  | none => return (0, into)
  | some r => do
    -- read in all the full and partial sectors that we need
    let buf ← newChars r.bufSize (fun _ => 0)
    let buf ← forRange (f.readRound d r) r.numSectors.toNat buf
    -- copy the part we want
    if r.start position < 0 then .error .outOfBounds
    else return (r.numBytes, copy buf (r.start position).toNat into o r.numBytes.toNat)

/-- One round of the last loop of `WriteAt`: the sector number `firstSector + i` of the file is written from its place in the
buffer. -/
def writeRound (f : OpenFile) (r : Request) (buf : Buf) (i : Nat) (d : Disk) : Except Fault Disk := do
  let s ← f.hdr.byteToSector ((r.firstSector + i) * sectorSize)
  d.writeSector s buf (i * 128)

/-- The part of `WriteAt` that reads in the first sector, if it is to be partially modified. -/
def readFirst (f : OpenFile) (d : Disk) (r : Request) (position : Int) (buf : Buf) : Except Fault Buf :=
  let firstAligned := position == r.firstSector * sectorSize
  if !firstAligned then Prod.snd <$> f.readAt d buf 0 sectorSize (r.firstSector * sectorSize) else .ok buf

/-- The part of `WriteAt` that reads in the last sector, if it is to be partially modified and is not in the buffer yet. -/
def readLast (f : OpenFile) (d : Disk) (r : Request) (position : Int) (buf : Buf) : Except Fault Buf :=
  let firstAligned := position == r.firstSector * sectorSize
  let lastAligned := position + r.numBytes == (r.lastSector + 1) * sectorSize
  if !lastAligned && ((r.firstSector != r.lastSector) || firstAligned) then
    Prod.snd <$> f.readAt d buf ((r.lastSector - r.firstSector) * sectorSize).toNat sectorSize (r.lastSector * sectorSize)
  else .ok buf

/-- The buffer of `WriteAt` before it is written back: the old bytes of the sectors that are partially modified, and over them
the bytes to change. -/
def fillBuffer (f : OpenFile) (d : Disk) (r : Request) (src : Buf) (position : Int) (buf : Buf) : Except Fault Buf := do
  let buf ← f.readFirst d r position buf
  let buf ← f.readLast d r position buf
  -- copy in the bytes we want to change
  if r.start position < 0 then .error .outOfBounds
  else return copy src 0 buf (r.start position).toNat r.numBytes.toNat

/-- `OpenFile::WriteAt`; `junk` is what the memory of the new buffer holds. The result is the value returned and the disk. -/
def writeAt (f : OpenFile) (d : Disk) (src : Buf) (numBytes position : Int) (junk : Buf) : Except Fault (Int × Disk) :=
  match request f.hdr.numBytes numBytes position with
  | none => return (0, d)
  | some r => do
    let buf ← newChars r.bufSize junk
    let buf ← f.fillBuffer d r src position buf
    -- write modified sectors back
    let d ← forRange (f.writeRound r buf) r.numSectors.toNat d
    return (r.numBytes, d)

/-- `OpenFile::Length`. -/
def length (f : OpenFile) : Int := f.hdr.numBytes

/-- `OpenFile::Seek`. -/
def seek (f : OpenFile) (position : Int) : OpenFile := { f with seekPosition := position }

/-- `OpenFile::Read`. -/
def read (f : OpenFile) (d : Disk) (into : Buf) (numBytes : Int) : Except Fault (Int × Buf × OpenFile) := do
  let (result, into) ← f.readAt d into 0 numBytes f.seekPosition
  return (result, into, f.seek (int32 (f.seekPosition + result)))

/-- `OpenFile::Write`. -/
def write (f : OpenFile) (d : Disk) (src : Buf) (numBytes : Int) (junk : Buf) : Except Fault (Int × Disk × OpenFile) := do
  let (result, d) ← f.writeAt d src numBytes f.seekPosition junk
  return (result, d, f.seek (int32 (f.seekPosition + result)))

/-- The bytes of a file, by offset: byte `k` lies in data sector `k / SectorSize`. -/
def content (d : Disk) (h : FileHeader) : Buf := fun k => d.bytes (h.dataSectors (k / 128)) (k % 128)

/-- How many bytes a request transfers. -/
def clamp (fileLength numBytes position : Int) : Int := max 0 (min numBytes (fileLength - position))

/-! ## The request -/

/-- A position and a size whose sum an `int` can hold. -/
structure Legal (numBytes position : Int) : Prop where
  size_inRange : InRange numBytes
  position_nonneg : 0 ≤ position
  sum_le : position + numBytes ≤ 2147483647

theorem request_none {L n p : Int} (h : n ≤ 0 ∨ p ≥ L) : request L n p = none := if_pos h

/-- In the range, the request is cut exactly: it transfers `clamp L n p` bytes, and its sectors are those the bytes lie in. -/
theorem request_some {L n p : Int} (hL : L ≤ maxFileSize) (hl : Legal n p) (h : ¬(n ≤ 0 ∨ p ≥ L)) :
    ∃ r, request L n p = some r ∧ r.numBytes = clamp L n p ∧ 0 < r.numBytes ∧ p + r.numBytes ≤ L ∧
      r.firstSector = p / 128 ∧ r.lastSector = (p + r.numBytes - 1) / 128 ∧
      r.numSectors = 1 + r.lastSector - r.firstSector := by
  obtain ⟨⟨hn1, hn2⟩, hp, hsum⟩ := hl
  simp only [maxFileSize] at hL
  have e1 : int32 (p + n) = p + n := int32_of_inRange (by unfold InRange; omega)
  have e2 : int32 (L - p) = L - p := int32_of_inRange (by unfold InRange; omega)
  have key : ∀ m : Int, 0 < m → p + m ≤ L →
      divRoundDown (int32 (int32 (p + m) - 1)) sectorSize = (p + m - 1) / 128 := by
    intro m hm hml
    rw [int32_of_inRange (by unfold InRange; omega : InRange (p + m)),
      int32_of_inRange (by unfold InRange; omega : InRange (p + m - 1)), divRoundDown_of_nonneg (by omega)]
  refine ⟨_, if_neg h, ?_⟩
  simp only [e1, e2, divRoundDown_of_nonneg hp]
  unfold clamp
  by_cases hc : p + n > L
  · simp only [hc, if_true, key (L - p) (by omega) (by omega)]
    refine ⟨by omega, by omega, by omega, trivial, trivial, trivial⟩
  · simp only [hc, if_false, key n (by omega) (by omega)]
    refine ⟨by omega, by omega, by omega, trivial, trivial, trivial⟩

/-! ## Reading -/

variable {f : OpenFile} {d : Disk}

/-- Sector number `i` of a valid file is in the table, and on the disk. -/
theorem sector_of_lt {h : FileHeader} (hv : h.Valid) {i : Nat} (hi : (i : Int) * 128 < h.numBytes) :
    i < numDirect ∧ h.dataSectors i ∈ h.sectors ∧ h.byteToSector (i * sectorSize) = .ok (h.dataSectors i) := by
  have hmax := hv.le_max
  have hn := hv.numSectors_eq
  rw [divRoundUp_of_nonneg (by omega) (by decide)] at hn
  simp only [maxFileSize, sectorSize, numDirect] at hmax hn ⊢
  have hlt : i < 30 := by omega
  refine ⟨hlt, List.mem_map_of_mem (List.mem_range.2 (by omega)), ?_⟩
  have hi : (0 : Int) ≤ i ∧ (i : Int) < numDirect := by simp only [numDirect]; omega
  unfold FileHeader.byteToSector FileHeader.dataSector
  rw [Int.mul_tdiv_cancel _ (by decide), if_pos hi, Int.toNat_natCast]

/-- Two places of a valid file lie in the same sector of the disk only if they are in the same sector of the file. -/
theorem dataSectors_inj {h : FileHeader} (hv : h.Valid) {i j : Nat} (hi : (i : Int) * 128 < h.numBytes)
    (hj : (j : Int) * 128 < h.numBytes) (e : h.dataSectors i = h.dataSectors j) : i = j := by
  have hn := hv.numSectors_eq
  rw [divRoundUp_of_nonneg (by omega) (by decide)] at hn
  simp only [sectorSize] at hn
  exact List.inj_on_of_nodup_map hv.nodup (List.mem_range.2 (by omega)) (List.mem_range.2 (by omega)) e

/-- The read loop has copied the sectors of its first `k` rounds to the front of the buffer. -/
theorem readLoop_of (hv : f.hdr.Valid) {r : Request} {a : Nat} (ha : r.firstSector = a) {k : Nat}
    (hk : k = 0 ∨ ((a + k - 1 : Nat) : Int) * 128 < f.hdr.numBytes) (buf : Buf) :
    ∃ buf', forRange (f.readRound d r) k buf = .ok buf' ∧ (∀ j < 128 * k, buf' j = content d f.hdr (128 * a + j)) := by
  refine forRange_ok (fun k (buf' : Buf) => ∀ j < 128 * k, buf' j = content d f.hdr (128 * a + j)) (by simp) ?_
  intro i hi buf₁ hI
  obtain ⟨-, hmem, hb⟩ := sector_of_lt hv (i := a + i) (by omega)
  have hon := hv.onDisk _ hmem
  refine ⟨copy (d.bytes (f.hdr.dataSectors (a + i))) 0 buf₁ (i * 128) 128, ?_, ?_⟩
  · unfold readRound
    rw [ha, show ((a : Int) + i) = ((a + i : Nat) : Int) by push_cast; rfl, hb]
    exact Disk.readSector_of d hon buf₁ (i * 128)
  · intro j hj
    by_cases hlt : j < 128 * i
    · rw [copy_outside _ _ _ _ _ (by omega), hI j hlt]
    · obtain ⟨t, rfl⟩ : ∃ t, j = i * 128 + t := ⟨j - i * 128, by omega⟩
      rw [copy_inside _ _ _ _ _ (by omega)]
      unfold content
      congr 2 <;> omega

/-- The buffer of a request is as large as its sectors. -/
theorem bufSize_nonneg {L p : Int} (hL : L ≤ maxFileSize) {r : Request} (hp : 0 ≤ p) (h0 : 0 < r.numBytes)
    (hle : p + r.numBytes ≤ L) (hf : r.firstSector = p / 128) (hla : r.lastSector = (p + r.numBytes - 1) / 128)
    (hns : r.numSectors = 1 + r.lastSector - r.firstSector) : 0 ≤ r.bufSize := by
  simp only [maxFileSize] at hL
  unfold Request.bufSize
  simp only [sectorSize]
  rw [int32_of_inRange (by unfold InRange; omega)]
  omega

/-- `ReadAt` on a valid file returns the number of bytes of the request that the file has, and copies exactly these. -/
theorem readAt_of (hv : f.hdr.Valid) {n p : Int} (hl : Legal n p) (into : Buf) (o : Nat) :
    f.readAt d into o n p = .ok (clamp f.hdr.numBytes n p,
      copy (content d f.hdr) p.toNat into o (clamp f.hdr.numBytes n p).toNat) := by
  have hL := hv.le_max
  by_cases hnone : n ≤ 0 ∨ p ≥ f.hdr.numBytes
  · have hc : clamp f.hdr.numBytes n p = 0 := by unfold clamp; omega
    unfold readAt
    rw [request_none hnone, hc, Int.toNat_zero, copy_zero]
    rfl
  · obtain ⟨r, hr, hnum, h0, hle, hf, hla, hns⟩ := request_some hL hl hnone
    have hp := hl.position_nonneg
    have ha : r.firstSector = (p.toNat / 128 : Nat) := by omega
    obtain ⟨buf, hbuf, hcont⟩ := readLoop_of (d := d) hv (r := r) ha (k := r.numSectors.toNat)
      (Or.inr (by omega)) (fun _ => 0)
    have hstart : r.start p = (p.toNat % 128 : Nat) := by
      unfold Request.start
      simp only [sectorSize]
      omega
    unfold readAt
    rw [hr]
    simp only [newChars_of (bufSize_nonneg hL hp h0 hle hf hla hns), Bind.bind, Except.bind, hbuf, hstart,
      Int.toNat_natCast]
    rw [if_neg (by omega), ← hnum]
    simp only [Pure.pure, Except.pure]
    congr 2
    funext j
    by_cases hj : o ≤ j ∧ j < o + r.numBytes.toNat
    · obtain ⟨t, rfl⟩ : ∃ t, j = o + t := ⟨j - o, by omega⟩
      rw [copy_inside _ _ _ _ _ (by omega), copy_inside _ _ _ _ _ (by omega), hcont _ (by omega)]
      congr 1
      omega
    · rw [copy_outside _ _ _ _ _ (by omega), copy_outside _ _ _ _ _ (by omega)]

/-! ## Writing -/

/-- Sector number `i` of the file, or what the file has of it, read to offset `o` of a buffer. -/
theorem readAt_sector (hv : f.hdr.Valid) {i : Nat} (hi : (i : Int) * 128 < f.hdr.numBytes) (buf : Buf) (o : Nat) :
    ∃ n buf', f.readAt d buf o sectorSize (i * sectorSize) = .ok (n, buf') ∧
      (∀ t < 128, ((128 * i + t : Nat) : Int) < f.hdr.numBytes → buf' (o + t) = content d f.hdr (128 * i + t)) ∧
      ∀ j, j < o ∨ o + 128 ≤ j → buf' j = buf j := by
  have hL := hv.le_max
  simp only [maxFileSize] at hL
  have hl : Legal sectorSize (i * sectorSize) := by
    simp only [sectorSize]
    exact ⟨by decide, by omega, by omega⟩
  refine ⟨_, _, readAt_of hv hl buf o, ?_, ?_⟩
  · intro t ht htL
    simp only [clamp, sectorSize]
    rw [copy_inside _ _ _ _ _ (by omega)]
    congr 1
    omega
  · intro j hj
    simp only [clamp, sectorSize]
    exact copy_outside _ _ _ _ _ (by omega)

/-- The bytes of the first sector that come before the request are read in. -/
theorem readFirst_of (hv : f.hdr.Valid) {r : Request} {p a : Nat} (hf : r.firstSector = a)
    (ha : ((a * 128 : Nat) : Int) < f.hdr.numBytes) (buf : Buf) :
    ∃ buf', f.readFirst d r p buf = .ok buf' ∧
      (p ≠ a * 128 → ∀ t < 128, ((128 * a + t : Nat) : Int) < f.hdr.numBytes → buf' t = content d f.hdr (128 * a + t)) := by
  unfold readFirst
  by_cases hal : p = a * 128
  · refine ⟨buf, ?_, fun h => absurd hal h⟩
    rw [if_neg (by simp [hf, hal])]
  · obtain ⟨n, buf', hread, hin, -⟩ := readAt_sector (d := d) hv (i := a) (by omega) buf 0
    refine ⟨buf', ?_, fun _ t ht htL => by simpa using hin t ht htL⟩
    rw [if_pos (by simp only [hf, sectorSize, Bool.not_eq_true', beq_eq_false_iff_ne, ne_eq]; omega), hf, hread]
    rfl

/-- The bytes of the last sector that come after the request are read in, unless the first sector, already in the buffer, is
the last one. -/
theorem readLast_of (hv : f.hdr.Valid) {r : Request} {p a b m : Nat} (hf : r.firstSector = a) (hla : r.lastSector = b)
    (hm : r.numBytes = m) (hab : a ≤ b) (hb : ((b * 128 : Nat) : Int) < f.hdr.numBytes) (buf : Buf) :
    ∃ buf', f.readLast d r p buf = .ok buf' ∧
      (p + m ≠ (b + 1) * 128 → a ≠ b ∨ p = a * 128 → ∀ t < 128, ((128 * b + t : Nat) : Int) < f.hdr.numBytes →
        buf' (128 * (b - a) + t) = content d f.hdr (128 * b + t)) ∧
      (∀ j < 128, a ≠ b ∨ p ≠ a * 128 → buf' j = buf j) := by
  have hcond : (!((p : Int) + r.numBytes == (r.lastSector + 1) * sectorSize) &&
      ((r.firstSector != r.lastSector) || ((p : Int) == r.firstSector * sectorSize))) = true ↔
      p + m ≠ (b + 1) * 128 ∧ (a ≠ b ∨ p = a * 128) := by
    simp only [hf, hla, hm, sectorSize, Bool.and_eq_true, Bool.not_eq_true', beq_eq_false_iff_ne, ne_eq, Bool.or_eq_true,
      bne_iff_ne, beq_iff_eq]
    omega
  unfold readLast
  by_cases hc : p + m ≠ (b + 1) * 128 ∧ (a ≠ b ∨ p = a * 128)
  · obtain ⟨n, buf', hread, hin, hout⟩ := readAt_sector (d := d) hv (i := b) (by omega) buf (128 * (b - a))
    refine ⟨buf', ?_, fun _ _ t ht htL => hin t ht htL, fun j hj hor => hout j (by omega)⟩
    have ho : ((r.lastSector - r.firstSector) * sectorSize).toNat = 128 * (b - a) := by
      simp only [hf, hla, sectorSize]
      omega
    rw [if_pos (hcond.2 hc), ho, hla, hread]
    rfl
  · refine ⟨buf, ?_, fun h1 h2 => absurd ⟨h1, h2⟩ hc, fun _ _ _ => rfl⟩
    rw [if_neg (fun h => hc (hcond.1 h))]

/-- The buffer of `WriteAt` when the write loop starts: inside the file it holds the data given where the request lies and the
old bytes of the file elsewhere. -/
theorem fillBuffer_of (hv : f.hdr.Valid) {r : Request} {p a b m : Nat} (hf : r.firstSector = a) (hla : r.lastSector = b)
    (hm : r.numBytes = m) (h0 : 0 < m) (ha : a = p / 128) (hb : b = (p + m - 1) / 128)
    (hle : ((p + m : Nat) : Int) ≤ f.hdr.numBytes) (src junk : Buf) :
    ∃ buf, f.fillBuffer d r src p junk = .ok buf ∧
      ∀ j < 128 * (b + 1 - a), ((128 * a + j : Nat) : Int) < f.hdr.numBytes →
        buf j = if p ≤ 128 * a + j ∧ 128 * a + j < p + m then src (128 * a + j - p) else content d f.hdr (128 * a + j) := by
  have ha' : 128 * a ≤ p ∧ p < 128 * a + 128 := by omega
  have hb' : 128 * b ≤ p + m - 1 ∧ p + m - 1 < 128 * b + 128 := by omega
  obtain ⟨buf₁, hbuf₁, hfirst⟩ := readFirst_of (d := d) hv (p := p) hf (by omega) junk
  obtain ⟨buf₂, hbuf₂, hlast, hkeep⟩ := readLast_of (d := d) hv (p := p) hf hla hm (by omega) (by omega) buf₁
  have hstart : r.start p = (p % 128 : Nat) := by
    simp only [Request.start, hf, sectorSize]
    omega
  refine ⟨copy src 0 buf₂ (p % 128) m, ?_, ?_⟩
  · unfold fillBuffer
    simp only [hbuf₁, hbuf₂, hstart, hm, Bind.bind, Except.bind, Int.toNat_natCast]
    rw [if_neg (by omega)]
    rfl
  · intro j hj hjL
    by_cases hin : p ≤ 128 * a + j ∧ 128 * a + j < p + m
    · obtain ⟨t, rfl⟩ : ∃ t, j = p % 128 + t := ⟨j - p % 128, by omega⟩
      rw [if_pos hin, copy_inside _ _ _ _ _ (by omega)]
      congr 1
      omega
    · rw [if_neg hin, copy_outside _ _ _ _ _ (by omega)]
      by_cases hafter : 128 * a + j ≥ p + m ∧ (a ≠ b ∨ p = a * 128)
      · obtain ⟨t, rfl⟩ : ∃ t, j = 128 * (b - a) + t := ⟨j - 128 * (b - a), by omega⟩
        have e : 128 * a + (128 * (b - a) + t) = 128 * b + t := by omega
        rw [hlast (by omega) hafter.2 t (by omega) (e ▸ hjL), e]
      · rw [hkeep j (by omega) (by omega), hfirst (by omega) j (by omega) hjL]

/-- After the write loop each sector of the request holds its part of the buffer, and every other sector is unchanged. -/
theorem writeLoop_of (hv : f.hdr.Valid) {r : Request} {a : Nat} (ha : r.firstSector = a) {k : Nat}
    (hk : k = 0 ∨ ((a + k - 1 : Nat) : Int) * 128 < f.hdr.numBytes) (buf : Buf) :
    ∃ d', forRange (f.writeRound r buf) k d = .ok d' ∧
      (∀ i < k, ∀ t < 128, d'.bytes (f.hdr.dataSectors (a + i)) t = buf (i * 128 + t)) ∧
      ∀ s, (∀ i < k, s ≠ f.hdr.dataSectors (a + i)) → d'.sector s = d.sector s := by
  refine forRange_ok (fun k (d' : Disk) => (∀ i < k, ∀ t < 128, d'.bytes (f.hdr.dataSectors (a + i)) t = buf (i * 128 + t)) ∧
      ∀ s, (∀ i < k, s ≠ f.hdr.dataSectors (a + i)) → d'.sector s = d.sector s) (by simp) ?_
  rintro i hi d₁ ⟨hsame, hother⟩
  obtain ⟨-, hmem, hb⟩ := sector_of_lt hv (i := a + i) (by omega)
  have hon := hv.onDisk _ hmem
  refine ⟨d₁.put (f.hdr.dataSectors (a + i)) buf (i * 128), ?_, ?_, ?_⟩
  · unfold writeRound
    rw [ha, show ((a : Int) + i) = ((a + i : Nat) : Int) by push_cast; rfl, hb]
    exact Disk.writeSector_of d₁ hon buf (i * 128)
  · intro i' hi' t ht
    rcases Nat.lt_succ_iff_lt_or_eq.1 hi' with hlt | rfl
    · -- a sector written before is not written again: the data sectors are distinct
      have hne : f.hdr.dataSectors (a + i') ≠ f.hdr.dataSectors (a + i) := by
        intro e
        obtain ⟨_, hmem', -⟩ := sector_of_lt hv (i := a + i') (by omega)
        have := dataSectors_inj hv (by omega) (by omega) e
        omega
      rw [Disk.bytes_congr (Disk.sector_put_other d₁ hne buf (i * 128)), hsame i' hlt t ht]
    · exact Disk.bytes_put_same d₁ _ buf _ ht
  · intro s hs
    rw [Disk.sector_put_other d₁ (hs i (Nat.lt_succ_self i)), hother s fun i' hi' => hs i' (Nat.lt_succ_of_lt hi')]

/-- The contents of a file are read from its own sectors. -/
theorem content_congr {h : FileHeader} (hv : h.Valid) {d d' : Disk} (hs : ∀ s ∈ h.sectors, d'.sector s = d.sector s) {k : Nat}
    (hk : (k : Int) < h.numBytes) : content d' h k = content d h k := by
  obtain ⟨-, hmem, -⟩ := sector_of_lt hv (i := k / 128) (by omega)
  unfold content
  rw [Disk.bytes_congr (hs _ hmem)]

/-- `WriteAt` on a valid file returns the number of bytes of the request that lie in the file; these become the bytes given,
the rest of the file is as before, and so is every sector that is not a data sector of the file. -/
theorem writeAt_of (hv : f.hdr.Valid) {n p : Int} (hl : Legal n p) (src junk : Buf) :
    ∃ d', f.writeAt d src n p junk = .ok (clamp f.hdr.numBytes n p, d') ∧
      (∀ k : Nat, (k : Int) < f.hdr.numBytes → content d' f.hdr k =
        if p ≤ k ∧ k < p + clamp f.hdr.numBytes n p then src (k - p.toNat) else content d f.hdr k) ∧
      ∀ s, s ∉ f.hdr.sectors → d'.sector s = d.sector s := by
  have hL := hv.le_max
  by_cases hnone : n ≤ 0 ∨ p ≥ f.hdr.numBytes
  · have hc : clamp f.hdr.numBytes n p = 0 := by unfold clamp; omega
    refine ⟨d, ?_, ?_, fun _ _ => rfl⟩
    · unfold writeAt
      rw [request_none hnone, hc]
      rfl
    · intro k hk
      rw [hc, if_neg (by omega)]
  · obtain ⟨r, hr, hnum, h0, hle, hf, hla, hns⟩ := request_some hL hl hnone
    have hp := hl.position_nonneg
    obtain ⟨q, rfl⟩ : ∃ q : Nat, p = q := ⟨p.toNat, by omega⟩
    obtain ⟨m, hm⟩ : ∃ m : Nat, r.numBytes = m := ⟨r.numBytes.toNat, by omega⟩
    obtain ⟨a, ha⟩ : ∃ a, a = q / 128 := ⟨_, rfl⟩
    obtain ⟨b, hb⟩ : ∃ b, b = (q + m - 1) / 128 := ⟨_, rfl⟩
    have hfa : r.firstSector = a := by omega
    have hlb : r.lastSector = b := by omega
    obtain ⟨buf, hbuf, hcont⟩ := fillBuffer_of (d := d) hv hfa hlb hm (by omega) ha hb (by omega) src junk
    obtain ⟨d', hloop, hsame, hother⟩ := writeLoop_of (d := d) hv hfa (k := b + 1 - a) (Or.inr (by omega)) buf
    refine ⟨d', ?_, ?_, ?_⟩
    · have hk : r.numSectors.toNat = b + 1 - a := by omega
      unfold writeAt
      rw [hr]
      simp only [newChars_of (bufSize_nonneg hL hp h0 hle hf hla hns), Bind.bind, Except.bind, hbuf, hk, hloop, hnum]
      rfl
    · intro k hk
      rw [← hnum, hm, Int.toNat_natCast]
      by_cases hin : a ≤ k / 128 ∧ k / 128 < b + 1
      · -- the byte lies in a sector that is written: it comes from the buffer
        obtain ⟨i, hi⟩ : ∃ i, k / 128 = a + i := ⟨k / 128 - a, by omega⟩
        have hj : i * 128 + k % 128 = k - 128 * a := by omega
        have hk' : 128 * a + (k - 128 * a) = k := by omega
        unfold content
        rw [hi, hsame i (by omega) (k % 128) (by omega), hj, hcont _ (by omega) (by omega), hk']
        unfold content
        rw [← hi]
        split <;> split <;> first | rfl | omega
      · rw [if_neg (by omega)]
        unfold content
        obtain ⟨-, hmem, -⟩ := sector_of_lt hv (i := k / 128) (by omega)
        rw [Disk.bytes_congr (hother _ fun i hi e => ?_)]
        have := dataSectors_inj hv (by omega) (by omega) e
        omega
    · intro s hs
      refine hother s fun i hi e => hs ?_
      obtain ⟨-, hmem, -⟩ := sector_of_lt hv (i := a + i) (by omega)
      rw [e]
      exact hmem

/-! ## Whole files -/

theorem legal_whole {n : Nat} (hn : n ≤ 3840) : Legal n 0 := ⟨by unfold InRange; omega, le_refl _, by omega⟩

theorem clamp_whole (n : Nat) : clamp n n 0 = n := by
  unfold clamp
  omega

/-- Reading a file of `n` bytes from its beginning reads all of it. -/
theorem readWhole_of (hv : f.hdr.Valid) {n : Nat} (hb : f.hdr.numBytes = n) (into : Buf) :
    ∃ m, f.readAt d into 0 n 0 = .ok ((n : Int), m) ∧ ∀ j < n, m j = content d f.hdr j := by
  have hmax := hv.le_max
  simp only [maxFileSize, hb] at hmax
  refine ⟨copy (content d f.hdr) 0 into 0 n, ?_, ?_⟩
  · rw [readAt_of hv (legal_whole (by omega)), hb, clamp_whole]
    rfl
  · intro j hj
    simpa using copy_inside (content d f.hdr) into 0 0 n hj

/-- Writing `n` bytes at the beginning of a file of `n` bytes replaces all of it. -/
theorem writeWhole_of (hv : f.hdr.Valid) {n : Nat} (hb : f.hdr.numBytes = n) (src junk : Buf) :
    ∃ d', f.writeAt d src n 0 junk = .ok ((n : Int), d') ∧ (∀ j < n, content d' f.hdr j = src j) ∧
      ∀ s, s ∉ f.hdr.sectors → d'.sector s = d.sector s := by
  have hmax := hv.le_max
  simp only [maxFileSize, hb] at hmax
  obtain ⟨d', hw, hin, hout⟩ := writeAt_of (d := d) hv (legal_whole (n := n) (by omega)) src junk
  rw [hb, clamp_whole] at hw hin
  refine ⟨d', hw, ?_, hout⟩
  intro j hj
  rw [hin j (by omega), if_pos (by omega)]
  rfl

/-! ## What a read depends on -/

/-- A round of the read loop past the table of the header, or before it, fails. -/
theorem readRound_fails {r : Request} {i : Nat} (h : r.firstSector + i < 0 ∨ numDirect ≤ r.firstSector + i) (buf : Buf) :
    f.readRound d r i buf = .error .outOfBounds := by
  unfold readRound FileHeader.byteToSector FileHeader.dataSector
  rw [Int.mul_tdiv_cancel _ (by decide), if_neg (by omega)]
  rfl

theorem readRound_sameFault (d d' : Disk) (r : Request) (i : Nat) (buf buf' : Buf) :
    SameFault (f.readRound d r i buf) (f.readRound d' r i buf') := by
  unfold readRound
  cases f.hdr.byteToSector ((r.firstSector + i) * sectorSize) with
  | error e => rfl
  | ok s => exact Disk.readSector_sameFault d d' s buf buf' _ _

/-- A request for which `int` overflows, or with a negative position, runs no round of the loop, a round outside the table, or
ends by copying from before the buffer. -/
theorem request_illegal {L n p : Int} (hL : L ≤ maxFileSize) (hn : InRange n) (hp : InRange p) (hl : ¬Legal n p) {r : Request}
    (hr : request L n p = some r) :
    r.start p < 0 ∨ r.numSectors.toNat = 0 ∨
      ∃ i : Nat, i < r.numSectors.toNat ∧ (r.firstSector + i < 0 ∨ numDirect ≤ r.firstSector + i) := by
  simp only [maxFileSize] at hL
  obtain ⟨hn1, hn2⟩ := id hn
  obtain ⟨hp1, hp2⟩ := id hp
  unfold request at hr
  split at hr
  · cases hr
  · rename_i hc
    by_cases h0 : p < 0
    · -- the position is negative: the first sector is, too, or the copy begins before the buffer
      obtain rfl := Option.some.inj hr
      simp only [Request.start, divRoundDown, sectorSize]
      by_cases hs : p - p.tdiv 128 * 128 < 0
      · exact Or.inl hs
      · have hneg : p.tdiv 128 < 0 := by omega
        refine Or.inr ((Nat.eq_zero_or_pos _).imp id fun hpos => ⟨0, hpos, Or.inl (by simpa using hneg)⟩)
    · -- the sum overflows
      have hsum : 2147483647 < p + n := by
        by_contra hle
        exact hl ⟨hn, by omega, by omega⟩
      have e1 : int32 (p + n) = p + n - 4294967296 := int32_of_gt hsum (by omega)
      rw [e1, if_neg (by omega)] at hr
      obtain rfl := Option.some.inj hr
      right
      simp only [e1, divRoundDown_of_nonneg (by omega : (0 : Int) ≤ p)]
      by_cases heq : p + n = 2147483648
      · have e2 : int32 (p + n - 4294967296 - 1) = 2147483647 := by
          rw [heq]
          unfold int32
          decide
        rw [e2, show divRoundDown 2147483647 sectorSize = 16777215 by decide]
        refine Or.inr ⟨numDirect, ?_, Or.inr ?_⟩ <;> simp only [numDirect, sectorSize] <;> omega
      · have e2 : int32 (p + n - 4294967296 - 1) = -(4294967297 - p - n) := by
          rw [int32_of_inRange (by unfold InRange; omega)]
          omega
        have e3 : (4294967297 - p - n).tdiv 128 = (4294967297 - p - n) / 128 := Int.tdiv_eq_ediv_of_nonneg (by omega)
        rw [e2]
        left
        simp only [divRoundDown, sectorSize, Int.neg_tdiv, e3]
        omega

/-- `ReadAt` depends on the disk only through the data sectors of the file, whatever the arguments. -/
theorem readAt_congr (hv : f.hdr.Valid) {d d' : Disk} (hs : ∀ s ∈ f.hdr.sectors, d'.sector s = d.sector s) {n p : Int}
    (hn : InRange n) (hp : InRange p) (into : Buf) (o : Nat) : f.readAt d' into o n p = f.readAt d into o n p := by
  by_cases hl : Legal n p
  · rw [readAt_of hv hl, readAt_of hv hl]
    congr 2
    funext j
    have hp0 := hl.position_nonneg
    by_cases hj : o ≤ j ∧ j < o + (clamp f.hdr.numBytes n p).toNat
    · obtain ⟨t, rfl⟩ : ∃ t, j = o + t := ⟨j - o, by omega⟩
      rw [copy_inside _ _ _ _ _ (by omega), copy_inside _ _ _ _ _ (by omega)]
      refine content_congr hv hs ?_
      unfold clamp at hj
      omega
    · rw [copy_outside _ _ _ _ _ (by omega), copy_outside _ _ _ _ _ (by omega)]
  · unfold readAt
    cases hr : request f.hdr.numBytes n p with
    | none => rfl
    | some r =>
      simp only
      cases newChars r.bufSize (fun _ => 0) with
      | error e => rfl
      | ok buf =>
        have hsame := forRange_sameFault (n := r.numSectors.toNat)
          (fun i _ b b' => readRound_sameFault (f := f) d' d r i b b') buf buf
        rcases request_illegal hv.le_max hn hp hl hr with h | h | ⟨i, hi, hout⟩
        · show (forRange _ _ _ >>= _) = (forRange _ _ _ >>= _)
          simp only [if_pos h]
          refine SameFault.eq_of_error (hsame.bind fun _ _ => (rfl : Fault.outOfBounds = Fault.outOfBounds)) ?_
          cases forRange (f.readRound d' r) r.numSectors.toNat buf with
          | error e => exact ⟨e, rfl⟩
          | ok b => exact ⟨.outOfBounds, rfl⟩
        · rw [h]
          rfl
        · show (forRange _ _ _ >>= _) = (forRange _ _ _ >>= _)
          have hfail : ∀ b, ∃ e, f.readRound d' r i b = .error e := fun b => ⟨_, readRound_fails hout b⟩
          obtain ⟨e, he⟩ := forRange_fails hi hfail buf
          rw [he, (hsame.error_iff e).1 he]

end OpenFile

end Nachos
