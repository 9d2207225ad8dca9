import Nachos.Filesys.CreateOpen

/-!
# The capacity of a header (filesys/filehdr.cc)

`Allocate` looks at the free sectors of the disk and not at its own table. A file of more than `NumDirect` sectors is refused as long as
the disk is too full for it; otherwise the loop stores past the end of `dataSectors`.
-/

namespace Nachos

open Bytes Loop

namespace FileHeader

variable {n : Nat} {h : FileHeader} {m m' : Bitmap n} {size : Int}

/-- The header describes a file of `size` bytes whose sectors were clear in `m`; `m'` marks them besides what `m` marks. -/
structure Holds (h : FileHeader) (m : Bitmap n) (size : Int) (m' : Bitmap n) : Prop where
  numBytes : h.numBytes = size
  count : (h.sectors.length : Int) = divRoundUp size sectorSize
  fits : h.sectors.length ≤ numDirect
  nodup : h.sectors.Nodup
  clear : ∀ s ∈ h.sectors, 0 ≤ s ∧ s < n ∧ m.bit s.toNat = false
  bits : ∀ i, m'.bit i = (decide ((i : Int) ∈ h.sectors) || m.bit i)
  byteToSector : ∀ offset, 0 ≤ offset → offset < size → ∃ s ∈ h.sectors, h.byteToSector offset = .ok s

/-- There is room for `size` bytes in the table of a header and among the clear sectors of the map. -/
def HasRoom (m : Bitmap n) (size : Int) : Prop :=
  divRoundUp size sectorSize ≤ numDirect ∧ divRoundUp size sectorSize ≤ m.numClear

/-- `Allocate` keeps to the capacity of the header: with room it returns `TRUE` and the header holds the file, and without it returns
`FALSE` and leaves the free map alone. In both cases it stores inside of the table. -/
def AllocatesRight (h : FileHeader) (m : Bitmap n) (size : Int) : Prop :=
  (HasRoom m size → ∃ h' m', allocate h m size = .ok (true, h', m') ∧ h'.Holds m size m') ∧
    (¬HasRoom m size → ∃ h', allocate h m size = .ok (false, h', m))

/-! ## A header that holds a file -/

theorem length_sectors (h : FileHeader) : h.sectors.length = h.numSectors.toNat := by simp [sectors]

/-- Every offset of a file lies in one of the sectors that its header lists. -/
theorem byteToSector_mem (h : FileHeader) {size offset : Int} (hcount : h.numSectors = divRoundUp size sectorSize)
    (hfit : h.numSectors ≤ numDirect) (h0 : 0 ≤ offset) (hlt : offset < size) :
    ∃ s ∈ h.sectors, h.byteToSector offset = .ok s := by
  have hround := divRoundUp_of_nonneg (n := size) (s := sectorSize) (by omega) (by decide)
  simp only [sectorSize] at hround hcount
  simp only [numDirect] at hfit
  have hdiv : offset.tdiv 128 = offset / 128 := Int.tdiv_eq_ediv_of_nonneg h0
  refine ⟨h.dataSectors (offset / 128).toNat, ?_, ?_⟩
  · exact List.mem_map_of_mem (List.mem_range.2 (by omega))
  · have hin : 0 ≤ offset / 128 ∧ offset / 128 < (numDirect : Int) := by
      simp only [numDirect]
      omega
    unfold byteToSector dataSector
    rw [sectorSize, hdiv, if_pos hin]

/-- With room, `Allocate` returns `TRUE` and the header holds the file. -/
theorem allocate_of_room (h : FileHeader) (h0 : 0 ≤ size) (hroom : HasRoom m size) :
    ∃ h' m', allocate h m size = .ok (true, h', m') ∧ h'.Holds m size m' := by
  obtain ⟨hfit, hclear⟩ := hroom
  have hround := divRoundUp_of_nonneg (n := size) (s := sectorSize) h0 (by decide)
  have hmax : size ≤ maxFileSize := by
    simp only [maxFileSize, sectorSize, numDirect] at *
    omega
  obtain ⟨hpos, -⟩ := divRoundUp_bounds h0 hmax
  obtain ⟨h', m', hal, hbytes, hnum, hnd, hsec, hbits, -⟩ := allocate_of_le (h := h) hmax hclear
  have hlen := length_sectors h'
  rw [hnum] at hlen
  refine ⟨h', m', hal, hbytes, by omega, by omega, hnd, hsec, hbits, ?_⟩
  intro offset hge hlt
  exact byteToSector_mem h' hnum (by omega) hge hlt

/-! ## A file that does not fit -/

/-- With enough clear sectors for more data than the table can list, the loop of `Allocate` stores past the end of `dataSectors`. -/
theorem allocate_overruns (h : FileHeader) (hlong : (numDirect : Int) < divRoundUp size sectorSize)
    (hclear : divRoundUp size sectorSize ≤ m.numClear) : allocate h m size = .error .outOfBounds := by
  let h₀ : FileHeader := { h with numBytes := size, numSectors := divRoundUp size sectorSize }
  have hround : ∀ k < numDirect, ∀ p, AllocateInv h₀ m k p → ∃ p', allocateSector k p = .ok p' ∧ AllocateInv h₀ m (k + 1) p' :=
    fun k hk p hI => allocateSector_spec hk (by omega) hI
  have hstart : AllocateInv h₀ m 0 (h₀, m) := ⟨rfl, rfl, by simp, by simp, by simp, by simp⟩
  -- the round after the last place finds a sector, and has nowhere to put it
  have hlast : ∀ p, AllocateInv h₀ m numDirect p → allocateSector numDirect p = .error .outOfBounds := by
    intro p hI
    have hleft := hI.left
    obtain ⟨i, hi, -, hfind⟩ := Bitmap.findAndSet_of_pos (b := p.2) (by omega)
    unfold allocateSector
    rw [hfind]
    rfl
  have hloop : forRange allocateSector h₀.numSectors.toNat (h₀, m) = .error .outOfBounds := by
    refine forRange_error (AllocateInv h₀ m) ?_ hstart hround hlast
    change numDirect < (divRoundUp size sectorSize).toNat
    omega
  unfold allocate
  rw [if_neg (by simp only; omega)]
  show (forRange allocateSector h₀.numSectors.toNat (h₀, m) >>= _) = _
  rw [hloop]
  rfl

/-- `Allocate` keeps to the capacity of the header exactly when the table can list the sectors that the file needs, or the disk does not
have so many. -/
theorem allocatesRight_iff (h : FileHeader) (m : Bitmap n) (h0 : 0 ≤ size) :
    AllocatesRight h m size ↔ divRoundUp size sectorSize ≤ numDirect ∨ (m.numClear : Int) < divRoundUp size sectorSize := by
  constructor
  · rintro ⟨-, hno⟩
    by_contra hover
    have hlong : (numDirect : Int) < divRoundUp size sectorSize := by omega
    obtain ⟨h', hret⟩ := hno fun hroom => absurd hroom.1 (by omega)
    rw [allocate_overruns h hlong (by omega)] at hret
    cases hret
  · intro hcond
    refine ⟨allocate_of_room h h0, ?_⟩
    intro hno
    have hlt : (m.numClear : Int) < divRoundUp size sectorSize := by
      rcases hcond with hfit | hlt
      · exact Int.not_le.1 fun hle => hno ⟨hfit, hle⟩
      · exact hlt
    exact allocate_of_lt hlt

/-- A map of 64 clear sectors has more of them than the table of a header has places. -/
theorem not_allocatesRight : ¬∀ (n : Nat) (h : FileHeader) (m : Bitmap n) (size : Int), 0 ≤ size → AllocatesRight h m size := by
  intro hall
  obtain ⟨-, hno⟩ := hall 64 (ofBuf fun _ => 0) (Bitmap.zero 64) 3968 (by decide)
  obtain ⟨h', hret⟩ := hno fun hroom => absurd hroom.1 (by decide)
  have hclear : (Bitmap.zero 64).numClear = 64 := Bitmap.numClear_of_clear Bitmap.bit_zero
  rw [allocate_overruns _ (by decide) (by rw [hclear]; decide)] at hret
  cases hret

end FileHeader

/-! ## Create of a file that does not fit -/

namespace FileSystem

variable {fs : FileSystem}

/-- `Create` of a file that no header can hold returns `FALSE` when it is refused for another reason, and otherwise stores past the end
of the new header. -/
theorem create_oversized (hI : Inv fs) {size : Int} (hmax : maxFileSize < size) (name : Buf) (junk : Nat → Buf) :
    (fs.create name size junk = .ok (false, fs) ∧ ¬Room fs.disk name size) ∨
      (fs.create name size junk = .error .outOfBounds ∧ Room fs.disk name size) := by
  have hround := divRoundUp_of_nonneg (n := size) (s := sectorSize) (by simp only [maxFileSize] at hmax; omega) (by decide)
  have hlong : (numDirect : Int) < divRoundUp size sectorSize := by
    simp only [maxFileSize, sectorSize, numDirect] at *
    omega
  unfold create
  rw [hI.fetchDirectory, ok_bind]
  cases hfind : (directory fs.disk).findIndex name with
  | some i =>
    -- the name is in the directory
    obtain ⟨-, heq, hge, -⟩ := hI.find_of_some hfind
    rw [if_pos (by omega)]
    refine Or.inl ⟨rfl, ?_⟩
    intro hroom
    rw [Directory.findIndex_none hroom.name] at hfind
    cases hfind
  | none =>
    rw [if_neg (not_not_intro (Directory.find_of_none hfind)), hI.fetchFreeMap, ok_bind]
    rcases Nat.eq_zero_or_pos (freeMap fs.disk).numClear with hzero | hpos
    · -- no sector for the header
      rw [Bitmap.findAndSet_of_zero hzero, ok_bind]
      refine Or.inl ⟨if_pos rfl, ?_⟩
      intro hroom
      have := hroom.sectors
      omega
    · obtain ⟨s, hs, hclear, hset⟩ := Bitmap.findAndSet_of_pos hpos
      have hleft := Bitmap.numClear_set hs hclear
      have hne : (s : Int) ≠ -1 := by omega
      rw [hset, ok_bind]
      cases hfree : (directory fs.disk).freeIndex with
      | none =>
        -- no space in the directory
        refine Or.inl ⟨?_, ?_⟩
        · simp only [if_neg hne, Directory.add_of_full hfind hfree]
          rfl
        · intro hroom
          obtain ⟨i, hi⟩ := hroom.entry
          exact Directory.freeIndex_ne_none hi hfree
      | some k =>
        simp only [if_neg hne, Directory.add_of hfind hfree, Bool.not_true, Bool.false_eq_true, if_false]
        by_cases hlt : (((freeMap fs.disk).set s hs).numClear : Int) < divRoundUp size sectorSize
        · -- no space for the data
          obtain ⟨hdr, hal⟩ := FileHeader.allocate_of_lt (h := FileHeader.ofBuf (junk 1)) hlt
          rw [hal]
          refine Or.inl ⟨rfl, ?_⟩
          intro hroom
          have := hroom.sectors
          omega
        · rw [FileHeader.allocate_overruns _ hlong (by omega)]
          exact Or.inr ⟨rfl, (Directory.findIndex_eq_none_iff _ _).1 hfind, ⟨k, Directory.freeIndex_some hfree⟩, by omega⟩

/-- `Allocate` keeps to the capacity of the header exactly when the table can list the sectors that the file needs, or the map does not
have so many clear ones; and in every state that a run of calls on a formatted disk reaches, `Create` of a file that is too large fails
cleanly exactly when there would be no room for it on the disk either. -/
theorem capacity_iff {size : Int} (h0 : 0 ≤ size) :
    (∀ (n : Nat) (h : FileHeader) (m : Bitmap n), FileHeader.AllocatesRight h m size ↔
      divRoundUp size sectorSize ≤ numDirect ∨ (m.numClear : Int) < divRoundUp size sectorSize) ∧
    ∀ (d : Disk) (junk : Nat → Buf) (ops : List Op) (fs : FileSystem), (∀ op ∈ ops, op.Valid) → run d junk ops = .ok fs →
      maxFileSize < size → ∀ (name : Buf) (junk' : Nat → Buf),
        fs.create name size junk' = .ok (false, fs) ↔ ¬Room fs.disk name size := by
  refine ⟨fun n h m => FileHeader.allocatesRight_iff h m h0, ?_⟩
  intro d junk ops fs hv hrun hmax name junk'
  obtain ⟨fs', h', hI⟩ := run_inv d junk hv
  obtain rfl : fs' = fs := Except.ok.inj (h'.symm.trans hrun)
  rcases create_oversized hI hmax name junk' with ⟨hret, hno⟩ | ⟨hret, hroom⟩
  · exact iff_of_true hret hno
  · refine iff_of_false ?_ (not_not_intro hroom)
    rw [hret]
    nofun

/-- There is room for a file of any size on a formatted disk that has enough clear sectors. -/
theorem room_format (name : Buf) {size : Int} (hsize : divRoundUp size sectorSize ≤ 1018) :
    ∃ fs, run zeroDisk (fun _ _ => 0) [] = .ok fs ∧ Room fs.disk name size := by
  obtain ⟨fs, hformat, -, hempty, hclear⟩ := format_spec zeroDisk (fun _ _ => 0)
  refine ⟨fs, ?_, ?_, ⟨0, hempty 0⟩, ?_⟩
  · unfold run
    rw [hformat]
    rfl
  · intro i hi
    rw [hempty i] at hi
    cases hi
  · rw [hclear]
    omega

/-- A file of 31 sectors does not fit in a header, and there is room for it in a map of 64 clear sectors and on a new disk. -/
theorem capacity_thirtyOne : ¬FileHeader.AllocatesRight (FileHeader.ofBuf fun _ => 0) (Bitmap.zero 64) 3968 ∧
    ∃ fs, run zeroDisk (fun _ _ => 0) [] = .ok fs ∧ fs.create (letter 97) 3968 (fun _ _ => 0) ≠ .ok (false, fs) := by
  have hclear : (Bitmap.zero 64).numClear = 64 := Bitmap.numClear_of_clear Bitmap.bit_zero
  obtain ⟨halloc, hcreate⟩ := capacity_iff (by decide : (0 : Int) ≤ 3968)
  obtain ⟨fs, hrun, hroom⟩ := room_format (letter 97) (by decide : divRoundUp 3968 sectorSize ≤ 1018)
  refine ⟨?_, fs, hrun, ?_⟩
  · rw [halloc 64, hclear]
    decide
  · rw [Ne, hcreate _ _ [] fs nofun hrun (by decide), not_not]
    exact hroom

end FileSystem

end Nachos
