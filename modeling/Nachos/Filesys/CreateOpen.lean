import Nachos.Filesys.Isolation
import Nachos.Filesys.Real

/-!
# When Create succeeds, and what Open returns (filesys/filesys.cc)

`Create` does all that it has to do or nothing. `Open` returns what it finds in the table of open files, which is never the file that it
has opened.
-/

namespace Nachos

open Bytes Loop

namespace FileSystem

variable {fs : FileSystem}

/-! ## Create -/

/-- The name is new, an entry is not in use, and there are clear sectors for the header and the data. -/
structure Room (d : Disk) (name : Buf) (size : Int) : Prop where
  name : ∀ i, (entry d i).inUse = true → CString.strncmp (entry d i).nameBuf name fileNameMaxLen ≠ 0
  entry : ∃ i, (entry d i).inUse = false
  sectors : 1 + divRoundUp size sectorSize ≤ ((freeMap d).numClear : Int)

/-- Exactly `count` sectors that were clear have been marked. -/
def Marked (d : Disk) (count : Int) (d' : Disk) : Prop :=
  ∃ marked : List Int, marked.Nodup ∧ (marked.length : Int) = count ∧
    (∀ s ∈ marked, 0 ≤ s ∧ s < numSectors ∧ (freeMap d).bit s.toNat = false) ∧
      ∀ i : Nat, (freeMap d').bit i = (decide ((i : Int) ∈ marked) || (freeMap d).bit i)

theorem Created.marked {d d' : Disk} {name : Buf} {size : Int} {k : Fin numDirEntries} {s : Int} (hc : Created d name size k s d')
    (h0 : 0 ≤ size) (hmax : size ≤ maxFileSize) : Marked d (1 + divRoundUp size sectorSize) d' := by
  have hround := (FileHeader.divRoundUp_bounds h0 hmax).1
  refine ⟨s :: (FileHeader.atSector d' s).sectors, hc.nodup, ?_, hc.fresh, hc.bits⟩
  rw [List.length_cons, FileHeader.sectors, List.length_map, List.length_range, hc.valid.numSectors_eq, hc.numBytes]
  omega

/-- In every state that a run of calls on a formatted disk reaches, `Create` of a file of an admissible size succeeds if and only if
there is room; it changes nothing when it fails, and marks as many sectors as it needs when it succeeds. -/
theorem create_all_or_nothing (d : Disk) (junk : Nat → Buf) (ops : List Op) (hv : ∀ op ∈ ops, op.Valid) (hrun : run d junk ops = .ok fs)
    (name : Buf) {size : Int} (h0 : 0 ≤ size) (hmax : size ≤ maxFileSize) (junk' : Nat → Buf) :
    ∃ success fs', fs.create name size junk' = .ok (success, fs') ∧ (success = true ↔ Room fs.disk name size) ∧
      (success = false → fs' = fs) ∧ (success = true → Marked fs.disk (1 + divRoundUp size sectorSize) fs'.disk) := by
  obtain ⟨fs', h', hI⟩ := run_inv d junk hv
  obtain rfl : fs' = fs := Except.ok.inj (h'.symm.trans hrun)
  rcases create_spec hI h0 hmax name junk' with ⟨h, hno⟩ | ⟨hfind, hsectors, k, s, d', hfree, h, hc⟩
  · refine ⟨false, fs', h, ?_, fun _ => rfl, nofun⟩
    refine iff_of_false nofun fun hroom => ?_
    rcases hno with hno | hno | hno
    · exact hno ((Directory.findIndex_eq_none_iff _ _).2 hroom.name)
    · obtain ⟨i, hi⟩ := hroom.entry
      have hu : (entry fs'.disk i).inUse = true := (Directory.freeIndex_eq_none_iff _).1 hno i
      rw [hi] at hu
      cases hu
    · have := hroom.sectors
      omega
  · refine ⟨true, _, h, ?_, nofun, fun _ => hc.marked h0 hmax⟩
    exact iff_of_true rfl ⟨(Directory.findIndex_eq_none_iff _ _).1 hfind, ⟨k, hc.unused⟩, hsectors⟩

/-- A disk of zeros. -/
def zeroDisk : Disk := { sector := fun _ => Vector.replicate 128 0 }

theorem valid_create_ten : ∀ op ∈ [Op.create (letter 97) 10 (fun _ _ => 0)], op.Valid := by
  intro op hop
  rw [List.mem_singleton.1 hop]
  exact ⟨by decide, by decide⟩

/-- The largest file after another one has been created. -/
theorem create_all_or_nothing_largest : ∃ fs success fs',
    run zeroDisk (fun _ _ => 0) [.create (letter 97) 10 (fun _ _ => 0)] = .ok fs ∧
    fs.create (letter 98) maxFileSize (fun _ _ => 0) = .ok (success, fs') ∧ (success = true ↔ Room fs.disk (letter 98) maxFileSize) := by
  obtain ⟨fs, hrun, -⟩ := run_inv zeroDisk (fun _ _ => 0) valid_create_ten
  obtain ⟨success, fs', h, hiff, -⟩ := create_all_or_nothing _ _ _ valid_create_ten hrun (letter 98)
    (by decide : 0 ≤ maxFileSize) (le_refl _) (fun _ _ => 0)
  exact ⟨fs, success, fs', hrun, h, hiff⟩

/-! ## Open -/

/-- `Open` returns an open file for the header of the entry with this name, or `NULL` if there is none. -/
def OpensRight (fs : FileSystem) (junk : Nat → Buf) (listFile : Fin 20 → Option OpenFile) (name : Buf) : Prop :=
  match (directory fs.disk).findIndex name with
  | some i => ∃ file, OpenFile.new fs.disk (entry fs.disk i).sector = .ok file ∧ fs.open junk listFile name = .ok (some file)
  | none => fs.open junk listFile name = .ok none

/-- `Open` returns what is in the slot that `FindFreeSlot` has found free. -/
theorem open_of (hI : Inv fs) (junk : Nat → Buf) (listFile : Fin 20 → Option OpenFile) (name : Buf) :
    fs.open junk listFile name = match findFreeSlot listFile with
      | none => .error .outOfBounds
      | some _ => .ok none := by
  have htail : (match findFreeSlot listFile with
      | none => .error .outOfBounds
      | some i => .ok (listFile i) : Except Fault (Option OpenFile)) = match findFreeSlot listFile with
      | none => .error .outOfBounds
      | some _ => .ok none := by
    cases hfree : findFreeSlot listFile with
    | none => rfl
    | some i =>
      have hnone : (listFile i).isNone = true := List.find?_some (p := fun i => (listFile i).isNone) hfree
      exact congrArg Except.ok (Option.isNone_iff_eq_none.1 hnone)
  unfold FileSystem.open
  rw [hI.fetchDirectory, ok_bind]
  cases hfind : (directory fs.disk).findIndex name with
  | none =>
    rw [Directory.find_of_none hfind, if_neg (by decide)]
    exact htail
  | some i =>
    obtain ⟨hu, hsector, h0, -⟩ := hI.find_of_some hfind
    rw [hsector, if_pos h0, hI.open_of hu, ok_bind]
    exact htail

/-- In every state that a run of calls on a formatted disk reaches, for every table, `Open` is right exactly for names that are not
in the directory, while a slot is free. -/
theorem opens_right_iff (d : Disk) (junk : Nat → Buf) (ops : List Op) (hv : ∀ op ∈ ops, op.Valid) (hrun : run d junk ops = .ok fs)
    (junk' : Nat → Buf) (listFile : Fin 20 → Option OpenFile) (name : Buf) : OpensRight fs junk' listFile name ↔
      (∀ i, (entry fs.disk i).inUse = true → CString.strncmp (entry fs.disk i).nameBuf name fileNameMaxLen ≠ 0) ∧
        ∃ i : Fin 20, 2 ≤ i.val ∧ listFile i = none := by
  obtain ⟨fs', h', hI⟩ := run_inv d junk hv
  obtain rfl : fs' = fs := Except.ok.inj (h'.symm.trans hrun)
  refine Iff.trans ?_ (and_congr_left' (Directory.findIndex_eq_none_iff (directory fs'.disk) name))
  unfold OpensRight
  rw [open_of hI]
  cases hfind : (directory fs'.disk).findIndex name with
  | some i =>
    refine iff_of_false ?_ fun h => Option.some_ne_none i h.1
    rintro ⟨file, -, hopen⟩
    cases hfree : findFreeSlot listFile with
    | none =>
      rw [hfree] at hopen
      cases hopen
    | some j =>
      rw [hfree] at hopen
      cases hopen
  | none =>
    dsimp only
    rw [and_iff_right rfl]
    cases hfree : findFreeSlot listFile with
    | none =>
      refine iff_of_false nofun ?_
      rintro ⟨i, hi, hnone⟩
      exact find_userSlots_none.1 hfree i hi (by rw [hnone]; rfl)
    | some i =>
      refine iff_of_true rfl ⟨i, (mem_userSlots i).1 (List.mem_of_find?_eq_some hfree), ?_⟩
      have hnone : (listFile i).isNone = true := List.find?_some (p := fun i => (listFile i).isNone) hfree
      exact Option.isNone_iff_eq_none.1 hnone

/-- A file is created, and its name found. -/
theorem Created.findIndex_ne_none {d d' : Disk} {name : Buf} {size : Int} {k : Fin numDirEntries} {s : Int}
    (hc : Created d name size k s d') : (directory d').findIndex name ≠ none := by
  rw [Ne, Directory.findIndex_eq_none_iff]
  intro h
  have hentry : (directory d').table[k] = Directory.newEntry (entry d k) name s := hc.entry_eq
  refine h k (by rw [hentry]; rfl) ?_
  rw [hentry]
  exact CString.strncmp_of_padded fun j hj => Directory.nameBuf_newEntry _ _ _ hj

/-- When one file has been created in an empty directory, no other name is in use. -/
theorem strncmp_of_single {d d' : Disk} {k : Fin numDirEntries} {s : Int} (hempty : ∀ i, (entry d i).inUse = false)
    (hdir : directory d' = { table := (directory d).table.set k (Directory.newEntry (entry d k) (letter 97) s) k.isLt })
    {i : Fin numDirEntries} (hi : (entry d' i).inUse = true) : CString.strncmp (entry d' i).nameBuf (letter 98) fileNameMaxLen ≠ 0 := by
  by_cases hik : i = k
  · subst hik
    have hentry : entry d' i = Directory.newEntry (entry d i) (letter 97) s := by
      unfold entry
      rw [hdir]
      exact (Directory.getElem_table_set (directory d) i i _).trans (if_pos rfl)
    rw [hentry]
    refine CString.strncmp_ne_zero ?_ 8
    rw [Directory.nameBuf_newEntry _ _ _ (by decide), CString.padded_zero]
    decide
  · rw [entry_of_set hik hdir, hempty] at hi
    cases hi

/-- The disk after a file of ten bytes has been created. -/
theorem run_create_ten : ∃ fs, run zeroDisk (fun _ _ => 0) [.create (letter 97) 10 (fun _ _ => 0)] = .ok fs ∧
    (directory fs.disk).findIndex (letter 97) ≠ none ∧
      ∀ i, (entry fs.disk i).inUse = true → CString.strncmp (entry fs.disk i).nameBuf (letter 98) fileNameMaxLen ≠ 0 := by
  obtain ⟨fs₀, hrun₀, hI₀, hempty, hclear⟩ := format_spec zeroDisk (fun _ _ => 0)
  obtain ⟨k, s, d₁, h₁, hc⟩ := create_of_room hI₀ (letter 97) (by decide : (0 : Int) ≤ 10) (by decide) (fun _ _ => 0)
    (fun i hi => by rw [hempty] at hi; cases hi) (hempty 0) (by rw [hclear]; decide)
  refine ⟨{ fs₀ with disk := d₁ }, ?_, hc.findIndex_ne_none, fun i hi => strncmp_of_single hempty hc.directory_eq hi⟩
  unfold run
  rw [hrun₀, ok_bind, List.foldlM_cons, step, h₁]
  rfl

/-- After a file has been created, `Open` is right for another name and wrong for its own. -/
theorem opens_right_iff_ten : ∃ fs, run zeroDisk (fun _ _ => 0) [.create (letter 97) 10 (fun _ _ => 0)] = .ok fs ∧
    OpensRight fs (fun _ _ => 0) (fun _ => none) (letter 98) ∧ ¬OpensRight fs (fun _ _ => 0) (fun _ => none) (letter 97) := by
  obtain ⟨fs, hrun, hfound, hother⟩ := run_create_ten
  have hiff := opens_right_iff _ _ _ valid_create_ten hrun (fun _ _ => 0) fun _ => none
  refine ⟨fs, hrun, (hiff (letter 98)).2 ⟨hother, 2, by decide, rfl⟩, ?_⟩
  intro hright
  exact hfound ((Directory.findIndex_eq_none_iff (directory fs.disk) (letter 97)).2 ((hiff (letter 97)).1 hright).1)

/-- The file that has been created is not opened. -/
theorem not_opened_ten : ∃ fs, run zeroDisk (fun _ _ => 0) [.create (letter 97) 10 (fun _ _ => 0)] = .ok fs ∧
    fs.open (fun _ _ => 0) (fun _ => none) (letter 97) = .ok none ∧ ¬OpensRight fs (fun _ _ => 0) (fun _ => none) (letter 97) := by
  obtain ⟨fs, hrun, hfound, -⟩ := run_create_ten
  obtain ⟨fs', h', hI⟩ := run_inv zeroDisk (fun _ _ => 0) valid_create_ten
  obtain rfl : fs' = fs := Except.ok.inj (h'.symm.trans hrun)
  have hopen : fs'.open (fun _ _ => 0) (fun _ => none) (letter 97) = .ok none := by
    rw [open_of hI]
    rfl
  refine ⟨fs', hrun, hopen, ?_⟩
  unfold OpensRight
  rw [hopen]
  cases hfind : (directory fs'.disk).findIndex (letter 97) with
  | none => exact absurd hfind hfound
  | some i => exact fun ⟨_, _, h⟩ => by cases h

end FileSystem

end Nachos
