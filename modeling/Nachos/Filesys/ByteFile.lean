import Nachos.Filesys.OpenFile
import Nachos.Prelude.FixedFile

/-!
# A file is an array of bytes (filesys/openfile.cc)

How `ReadAt` and `WriteAt` cut a request, for all arguments, and that on requests that do not overflow they are reading and writing in a
sequence of bytes of fixed length.
-/

namespace Nachos

open Bytes Loop

namespace OpenFile

/-! ## The request -/

/-- The request is cut to what the file has, and no number in it is negative or leaves the file. -/
def Clamped (fileLength numBytes position : Int) : Prop :=
  match request fileLength numBytes position with
  | none => clamp fileLength numBytes position = 0
  | some r => r.numBytes = clamp fileLength numBytes position ∧ 0 ≤ r.firstSector ∧ 0 ≤ r.lastSector ∧ 0 ≤ r.numSectors ∧
      0 ≤ r.bufSize ∧ (0 < r.numBytes → r.firstSector ≤ r.lastSector ∧ r.lastSector < divRoundUp fileLength sectorSize)

instance (fileLength numBytes position : Int) : Decidable (Clamped fileLength numBytes position) := by
  unfold Clamped
  cases request fileLength numBytes position <;> exact inferInstance

theorem clamped_of_legal {L n p : Int} (hL : L ≤ maxFileSize) (hl : Legal n p) : Clamped L n p := by
  unfold Clamped
  by_cases h : n ≤ 0 ∨ p ≥ L
  · rw [request_none h]
    dsimp only
    unfold clamp
    omega
  · obtain ⟨r, hr, hnum, hpos, hle, hfirst, hlast, hsectors⟩ := request_some hL hl h
    have hp := hl.position_nonneg
    rw [hr]
    dsimp only
    refine ⟨hnum, by omega, by omega, by omega, bufSize_nonneg hL hp hpos hle hfirst hlast hsectors, fun _ => ⟨by omega, ?_⟩⟩
    rw [divRoundUp_of_nonneg (by omega) (by decide), hlast]
    simp only [sectorSize]
    omega

/-- When the sum overflows, the request is not cut. -/
theorem request_overflow {L n p : Int} (hL : 0 ≤ L) (hp : 0 ≤ p) (hpL : p < L) (hmax : L ≤ maxFileSize) (hn : InRange n)
    (hsum : 2147483647 < p + n) : ∃ r, request L n p = some r ∧ r.numBytes = n := by
  obtain ⟨-, hn⟩ := hn
  simp only [maxFileSize] at hmax
  unfold request
  rw [if_neg (by omega), int32_of_gt hsum (by omega), if_neg (by omega)]
  exact ⟨_, rfl, rfl⟩

/-- At positions up to the end of the file, requests are cut exactly unless the sum of position and size overflows in front of the
end. -/
theorem clamped_iff {L n p : Int} (hL : 0 ≤ L) (hmax : L ≤ maxFileSize) (hp : 0 ≤ p) (hpL : p ≤ L) (hn : InRange n) :
    Clamped L n p ↔ p + n ≤ 2147483647 ∨ p = L := by
  constructor
  · intro hc
    by_contra hnot
    push Not at hnot
    obtain ⟨r, hr, hnum⟩ := request_overflow hL hp (by omega) hmax hn hnot.1
    unfold Clamped at hc
    rw [hr] at hc
    have h := hnum.symm.trans hc.1
    have hle := hn.2
    simp only [maxFileSize] at hmax
    unfold clamp at h
    omega
  · rintro (hsum | rfl)
    · exact clamped_of_legal hmax ⟨hn, hp, hsum⟩
    · unfold Clamped
      rw [request_none (Or.inr (le_refl _))]
      dsimp only
      unfold clamp
      omega

theorem clamped_iff_middle : Clamped 3840 5000 100 ↔ (100 : Int) + 5000 ≤ 2147483647 ∨ (100 : Int) = 3840 :=
  clamped_iff (by decide) (by decide) (by decide) (by decide) (by decide)

/-- From position 1 of a file of ten bytes, the largest request is not cut. -/
theorem not_clamped_ten : ¬Clamped 10 2147483647 1 := by
  rw [clamped_iff (by decide) (by decide) (by decide) (by decide) (by decide)]
  decide

/-! ## The bytes of a file -/

/-- The bytes of a file. -/
def fileBytes (d : Disk) (h : FileHeader) : List UInt8 := slice (content d h) 0 h.numBytes.toNat

variable {f : OpenFile} {d d' : Disk} {L n p : Int}

theorem length_fileBytes (d : Disk) (h : FileHeader) : (fileBytes d h).length = h.numBytes.toNat := length_slice _ _ _

theorem getElem?_fileBytes (d : Disk) (h : FileHeader) {k : Nat} (hk : (k : Int) < h.numBytes) :
    (fileBytes d h)[k]? = some (content d h k) := by
  unfold fileBytes
  rw [getElem?_slice _ _ (by omega), Nat.zero_add]

/-- The size of a transfer is the number of bytes read. -/
theorem length_read (hL : 0 ≤ f.hdr.numBytes) (hp : 0 ≤ p) (d : Disk) (n : Int) :
    ((FixedFile.read (fileBytes d f.hdr) p.toNat n.toNat).length : Int) = clamp f.hdr.numBytes n p := by
  rw [FixedFile.length_read, length_fileBytes]
  unfold clamp
  omega

/-- `ReadAt` reads in the bytes of the file. -/
theorem readAt_bytes (hv : f.hdr.Valid) (hL : 0 ≤ f.hdr.numBytes) (hl : Legal n p) (into : Buf) (o : Nat) :
    ∃ into', f.readAt d into o n p = .ok (((FixedFile.read (fileBytes d f.hdr) p.toNat n.toNat).length : Int), into') ∧
      slice into' o (FixedFile.read (fileBytes d f.hdr) p.toNat n.toNat).length = FixedFile.read (fileBytes d f.hdr) p.toNat n.toNat ∧
      ∀ j, j < o ∨ o + (FixedFile.read (fileBytes d f.hdr) p.toNat n.toNat).length ≤ j → into' j = into j := by
  have hp := hl.position_nonneg
  have hlen := length_read hL hp d n
  refine ⟨copy (content d f.hdr) p.toNat into o (FixedFile.read (fileBytes d f.hdr) p.toNat n.toNat).length, ?_, ?_,
    fun j hj => copy_outside _ _ _ _ _ hj⟩
  · rw [readAt_of hv hl, ← hlen, Int.toNat_natCast]
  · refine List.ext_getElem? ?_
    intro j
    by_cases hj : j < (FixedFile.read (fileBytes d f.hdr) p.toNat n.toNat).length
    · rw [getElem?_slice _ _ hj, copy_inside _ _ _ _ _ hj]
      unfold clamp at hlen
      rw [FixedFile.getElem?_read _ _ _ (by omega), getElem?_fileBytes d f.hdr (by omega)]
    · rw [List.getElem?_eq_none (by rw [length_slice]; omega), List.getElem?_eq_none (by omega)]

/-- `WriteAt` writes over the bytes of the file. -/
theorem writeAt_bytes (hv : f.hdr.Valid) (hL : 0 ≤ f.hdr.numBytes) (hl : Legal n p) (src junk : Buf) :
    ∃ d', f.writeAt d src n p junk = .ok (((FixedFile.read (fileBytes d f.hdr) p.toNat n.toNat).length : Int), d') ∧
      fileBytes d' f.hdr = FixedFile.write (fileBytes d f.hdr) p.toNat (slice src 0 n.toNat) ∧
      ∀ s, s ∉ f.hdr.sectors → d'.sector s = d.sector s := by
  have hp := hl.position_nonneg
  obtain ⟨d', hw, hcontent, hframe⟩ := writeAt_of (d := d) hv hl src junk
  refine ⟨d', by rw [hw, length_read hL hp], List.ext_getElem? ?_, hframe⟩
  intro k
  by_cases hk : (k : Int) < f.hdr.numBytes
  · rw [getElem?_fileBytes d' f.hdr hk, hcontent k hk, FixedFile.getElem?_write _ _ _ (by rw [length_fileBytes]; omega), length_slice,
      getElem?_fileBytes d f.hdr hk]
    unfold clamp
    by_cases hin : p.toNat ≤ k ∧ k < p.toNat + n.toNat
    · rw [if_pos (by omega), if_pos hin, getElem?_slice _ _ (by omega), Nat.zero_add]
    · rw [if_neg (by omega), if_neg hin]
  · rw [List.getElem?_eq_none (by rw [length_fileBytes]; omega),
      List.getElem?_eq_none (by rw [FixedFile.length_write, length_fileBytes]; omega)]

/-! ## Sequences of requests -/

/-- A request. -/
inductive Access where
  | readAt (numBytes position : Int)
  | writeAt (src : Buf) (numBytes position : Int) (junk : Buf)

/-- The sum of position and size is an `int`. -/
def Access.Legal : Access → Prop
  | .readAt numBytes position => OpenFile.Legal numBytes position
  | .writeAt _ numBytes position _ => OpenFile.Legal numBytes position

/-- A request on a file: the value returned and the bytes read, and the disk. -/
def access (f : OpenFile) (d : Disk) : Access → Except Fault ((Int × List UInt8) × Disk)
  | .readAt numBytes position => do
    let (result, into) ← f.readAt d (fun _ => 0) 0 numBytes position
    return ((result, slice into 0 result.toNat), d)
  | .writeAt src numBytes position junk => do
    let (result, d) ← f.writeAt d src numBytes position junk
    return ((result, []), d)

/-- The requests one after the other, with what each gave. -/
def accesses (f : OpenFile) : Disk → List Access → Except Fault (List (Int × List UInt8) × Disk)
  | d, [] => .ok ([], d)
  | d, a :: as => do
    let (r, d) ← f.access d a
    let (rs, d) ← f.accesses d as
    return (r :: rs, d)

/-- The same request on an array of bytes. -/
def Access.onBytes (bytes : List UInt8) : Access → (Int × List UInt8) × List UInt8
  | .readAt numBytes position =>
    (((FixedFile.read bytes position.toNat numBytes.toNat).length, FixedFile.read bytes position.toNat numBytes.toNat), bytes)
  | .writeAt src numBytes position _ =>
    (((FixedFile.read bytes position.toNat numBytes.toNat).length, []),
      FixedFile.write bytes position.toNat (slice src 0 numBytes.toNat))

/-- The requests on an array of bytes. -/
def Access.allOnBytes : List UInt8 → List Access → List (Int × List UInt8) × List UInt8
  | bytes, [] => ([], bytes)
  | bytes, a :: as =>
    let (r, bytes) := a.onBytes bytes
    let (rs, bytes) := allOnBytes bytes as
    (r :: rs, bytes)

/-- One request on a file is one on its bytes. -/
theorem access_bytes (hv : f.hdr.Valid) (hL : 0 ≤ f.hdr.numBytes) (d : Disk) {a : Access} (ha : a.Legal) :
    ∃ d', f.access d a = .ok ((a.onBytes (fileBytes d f.hdr)).1, d') ∧ fileBytes d' f.hdr = (a.onBytes (fileBytes d f.hdr)).2 ∧
      ∀ s, s ∉ f.hdr.sectors → d'.sector s = d.sector s := by
  cases a with
  | readAt n p =>
    obtain ⟨into, hr, hin, -⟩ := readAt_bytes (d := d) hv hL ha (fun _ => 0) 0
    refine ⟨d, ?_, rfl, fun _ _ => rfl⟩
    unfold access
    dsimp only
    rw [hr, ok_bind]
    dsimp only
    rw [Int.toNat_natCast, hin]
    rfl
  | writeAt src n p junk =>
    obtain ⟨d', hw, hbytes, hframe⟩ := writeAt_bytes (d := d) hv hL ha src junk
    refine ⟨d', ?_, hbytes, hframe⟩
    unfold access
    dsimp only
    rw [hw, ok_bind]
    rfl

theorem accesses_bytes (hv : f.hdr.Valid) (hL : 0 ≤ f.hdr.numBytes) {as : List Access} (has : ∀ a ∈ as, a.Legal) (d : Disk) :
    ∃ d', f.accesses d as = .ok ((Access.allOnBytes (fileBytes d f.hdr) as).1, d') ∧
      fileBytes d' f.hdr = (Access.allOnBytes (fileBytes d f.hdr) as).2 ∧ ∀ s, s ∉ f.hdr.sectors → d'.sector s = d.sector s := by
  induction as generalizing d with
  | nil => exact ⟨d, rfl, rfl, fun _ _ => rfl⟩
  | cons a as ih =>
    obtain ⟨d₁, h₁, hbytes₁, hframe₁⟩ := access_bytes hv hL d (has a (List.mem_cons_self ..))
    obtain ⟨d₂, h₂, hbytes₂, hframe₂⟩ := ih (fun a ha => has a (List.mem_cons_of_mem _ ha)) d₁
    rw [hbytes₁] at h₂ hbytes₂
    refine ⟨d₂, ?_, hbytes₂, fun s hs => (hframe₂ s hs).trans (hframe₁ s hs)⟩
    unfold accesses
    rw [h₁, ok_bind]
    dsimp only
    rw [h₂, ok_bind]
    rfl

/-- `OpenFile` is an array of bytes of fixed length. -/
structure IsBytes (f : OpenFile) : Prop where
  readAt : ∀ (d : Disk) (into : Buf) (o : Nat) (n p : Int), Legal n p →
    ∃ into', f.readAt d into o n p = .ok (clamp f.hdr.numBytes n p, into') ∧
      slice into' o (clamp f.hdr.numBytes n p).toNat = FixedFile.read (fileBytes d f.hdr) p.toNat n.toNat ∧
      ∀ j, j < o ∨ o + (clamp f.hdr.numBytes n p).toNat ≤ j → into' j = into j
  writeAt : ∀ (d : Disk) (src junk : Buf) (n p : Int), Legal n p →
    ∃ d', f.writeAt d src n p junk = .ok (clamp f.hdr.numBytes n p, d') ∧
      fileBytes d' f.hdr = FixedFile.write (fileBytes d f.hdr) p.toNat (slice src 0 n.toNat) ∧
      ∀ s, s ∉ f.hdr.sectors → d'.sector s = d.sector s
  accesses : ∀ (d : Disk) (as : List Access), (∀ a ∈ as, a.Legal) →
    ∃ d', f.accesses d as = .ok ((Access.allOnBytes (fileBytes d f.hdr) as).1, d') ∧
      fileBytes d' f.hdr = (Access.allOnBytes (fileBytes d f.hdr) as).2

/-- Every file with an allocated header is an array of bytes. -/
theorem isBytes_of_allocated (ha : f.hdr.Allocated L) : f.IsBytes := by
  have hL : 0 ≤ f.hdr.numBytes := by
    rw [ha.numBytes_eq]
    exact ha.nonneg
  refine ⟨?_, ?_, ?_⟩
  · intro d into o n p hl
    obtain ⟨into', hr, hin, hout⟩ := readAt_bytes (d := d) ha.valid hL hl into o
    have hlen := length_read hL hl.position_nonneg d n
    rw [← hlen, Int.toNat_natCast]
    exact ⟨into', hr, hin, hout⟩
  · intro d src junk n p hl
    obtain ⟨d', hw, hbytes, hframe⟩ := writeAt_bytes (d := d) ha.valid hL hl src junk
    rw [length_read hL hl.position_nonneg] at hw
    exact ⟨d', hw, hbytes, hframe⟩
  · intro d as has
    obtain ⟨d', h, hbytes, -⟩ := accesses_bytes ha.valid hL has d
    exact ⟨d', h, hbytes⟩

/-- A file of 130 bytes in the sectors 7 and 5. -/
theorem isBytes_of_allocated_two :
    IsBytes { hdr := { numBytes := 130, numSectors := 2, dataSectors := fun i => if i = 0 then 7 else 5 }, seekPosition := 0 } :=
  isBytes_of_allocated (L := 130) ⟨by decide, by decide, rfl, rfl, by decide, by decide⟩

end OpenFile

end Nachos
