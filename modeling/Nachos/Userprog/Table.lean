import Nachos.Prelude.Transition
import Nachos.Userprog.Progress

/-!
# The table of the open files

What the system calls do to `ListFile`, for any implementation of the file system: a file is put into a free slot under a name that no
other slot has, or a slot is emptied, or the file in a slot is used. The invariant of the table follows from that.
-/

namespace Nachos

open Bytes Loop Relation

/-! ## The searches -/

theorem userSlots_sorted : userSlots.Pairwise (· < ·) := by decide

/-- A search finds the least slot. -/
theorem find_userSlots {p : Fin 20 → Bool} {i : Fin 20} :
    userSlots.find? p = some i ↔ 2 ≤ i.val ∧ p i ∧ ∀ j : Fin 20, 2 ≤ j.val → j < i → ¬p j := by
  rw [List.find?_eq_some_iff_append]
  constructor
  · rintro ⟨hp, before, after, heq, hbefore⟩
    have hsorted := userSlots_sorted
    rw [heq, List.pairwise_append] at hsorted
    refine ⟨(mem_userSlots i).1 (by rw [heq]; simp), hp, ?_⟩
    intro j h2 hj
    have hmem := (mem_userSlots j).2 h2
    rw [heq, List.mem_append, List.mem_cons] at hmem
    rcases hmem with hmem | rfl | hmem
    · simpa using hbefore j hmem
    · exact absurd hj (lt_irrefl _)
    · exact absurd hj (lt_asymm (List.rel_of_pairwise_cons hsorted.2.1 hmem))
  · rintro ⟨h2, hp, hleast⟩
    obtain ⟨before, after, heq⟩ := List.append_of_mem ((mem_userSlots i).2 h2)
    refine ⟨hp, before, after, heq, ?_⟩
    intro j hj
    have hsorted := userSlots_sorted
    rw [heq, List.pairwise_append] at hsorted
    have h2j : 2 ≤ j.val := (mem_userSlots j).1 (by rw [heq]; exact List.mem_append_left _ hj)
    simpa using hleast j h2j (hsorted.2.2 j hj i List.mem_cons_self)

/-- `FindFreeSlot` gives the least free slot. -/
theorem findFreeSlot_eq_some {α : Type} {listFile : Fin 20 → Option α} {i : Fin 20} :
    findFreeSlot listFile = some i ↔ 2 ≤ i.val ∧ listFile i = none ∧ ∀ j : Fin 20, 2 ≤ j.val → j < i → (listFile j).isSome := by
  unfold findFreeSlot
  rw [find_userSlots]
  simp only [Option.isNone_iff_eq_none]
  refine and_congr_right fun _ => and_congr_right fun _ => forall_congr' ?_
  intro j
  rw [Option.isSome_iff_ne_none]

/-- `FindFreeSlot` fails when all slots are used. -/
theorem findFreeSlot_eq_none {α : Type} {listFile : Fin 20 → Option α} :
    findFreeSlot listFile = none ↔ ∀ i : Fin 20, 2 ≤ i.val → (listFile i).isSome := by
  unfold findFreeSlot
  rw [find_userSlots_none]
  simp only [Option.isNone_iff_eq_none, Option.isSome_iff_ne_none]

namespace FileTable

variable {C : FileSystemClass} {listFile : FileTable C} {name : Name} {i : Fin 20}

theorem of_findName (h : listFile.findName name = some i) :
    2 ≤ i.val ∧ ∃ entry, listFile i = some entry ∧ entry.fileName = name := by
  obtain ⟨h2, hi, -⟩ := find_userSlots.1 h
  exact ⟨h2, by simpa [Option.any_eq_true] using hi⟩

theorem findName_eq_none :
    listFile.findName name = none ↔ ∀ i : Fin 20, 2 ≤ i.val → ∀ entry, listFile i = some entry → entry.fileName ≠ name := by
  unfold findName
  rw [find_userSlots_none]
  simp [Option.any_eq_true]

/-- Indices from 0 to 19 are looked up. -/
theorem slot_of (i : Fin 20) : listFile.slot i = .ok (i, listFile i) := by
  unfold slot
  rw [dif_pos ⟨by omega, by have := i.isLt; omega⟩]
  rfl

theorem exists_index {id : Int} (h0 : 0 ≤ id) (h : id < 20) : ∃ i : Fin 20, (i.val : Int) = id := by
  obtain ⟨n, rfl⟩ := Int.eq_ofNat_of_zero_le h0
  exact ⟨⟨n, by omega⟩, rfl⟩

theorem of_slot {id : Int} {r : Fin 20 × Option (Listed C)} (h : listFile.slot id = .ok r) :
    (r.1.val : Int) = id ∧ r.2 = listFile r.1 := by
  unfold slot at h
  split at h
  · cases h
    exact ⟨by dsimp only; omega, rfl⟩
  · cases h

end FileTable

/-! ## Steps -/

namespace FileSystemObject

variable {C : FileSystemClass}

/-- The file at a slot is used: read, written, measured or positioned. -/
inductive Use (i : Fin 20) (fs : FileSystemObject C) : FileSystemObject C → Prop where
  | read {entry : Listed C} {into bytes : Buf} {numBytes numRead : Int} {file : C.OpenFile} {files : C.Files} (hi : 1 ≤ i.val)
      (he : fs.listFile i = some entry) (h : C.read fs.files entry.file into numBytes = .ok (numRead, bytes, file, files)) :
      Use i fs ⟨Function.update fs.listFile i (some { entry with file }), files⟩
  | written {entry : Listed C} {junk : Nat → Buf} {src : Buf} {numBytes numWritten : Int} {file : C.OpenFile} {files : C.Files}
      (hi : 1 ≤ i.val) (he : fs.listFile i = some entry)
      (h : C.write junk fs.files entry.file src numBytes = .ok (numWritten, file, files)) :
      Use i fs ⟨Function.update fs.listFile i (some { entry with file }), files⟩
  | measured {entry : Listed C} {length : Int} {files : C.Files} (hi : 2 ≤ i.val) (he : fs.listFile i = some entry)
      (h : C.length fs.files entry.file = .ok (length, files)) : Use i fs { fs with files }
  | sought {entry : Listed C} {position : Int} {file : C.OpenFile} {files : C.Files} (hi : 2 ≤ i.val)
      (he : fs.listFile i = some entry) (h : C.seek fs.files entry.file position = .ok (file, files)) :
      Use i fs ⟨Function.update fs.listFile i (some { entry with file }), files⟩

/-- One step of a system call on the file system. -/
inductive Step (fs : FileSystemObject C) : FileSystemObject C → Prop where
  | created {junk : Nat → Buf} {name : Name} {initialSize : Int} {created : Bool} {files : C.Files}
      (h : C.create junk fs.files name initialSize = .ok (created, files)) : Step fs { fs with files }
  | removed {junk : Nat → Buf} {name : Name} {removed : Bool} {files : C.Files} (hname : fs.listFile.findName name = none)
      (h : C.remove junk fs.files name = .ok (removed, files)) : Step fs { fs with files }
  | opened {junk : Nat → Buf} {name : Name} {i : Fin 20} {file : C.OpenFile} {files : C.Files}
      (hname : fs.listFile.findName name = none) (hi : findFreeSlot fs.listFile = some i)
      (h : C.open junk fs.files fs.listFile.files name = .ok (some file, files)) :
      Step fs ⟨Function.update fs.listFile i (some ⟨file, name⟩), files⟩
  | closed {i : Fin 20} {entry : Listed C} {files : C.Files} (hi : 2 ≤ i.val) (he : fs.listFile i = some entry)
      (h : C.close fs.files entry.file = .ok files) : Step fs ⟨Function.update fs.listFile i none, files⟩
  | used {i : Fin 20} {fs' : FileSystemObject C} (h : Use i fs fs') : Step fs fs'

/-- Use of a file leaves the other slots alone, and the name of the file. -/
theorem Use.frame {i : Fin 20} {fs fs' : FileSystemObject C} (h : Use i fs fs') :
    (∀ j, j ≠ i → fs'.listFile j = fs.listFile j) ∧
      ∃ entry entry', fs.listFile i = some entry ∧ fs'.listFile i = some entry' ∧ entry'.fileName = entry.fileName := by
  cases h with
  | read _ he _ | written _ he _ | sought _ he _ =>
    exact ⟨fun j hj => Function.update_of_ne hj _ _, _, _, he, Function.update_self _ _ _, rfl⟩
  | measured _ he _ => exact ⟨fun _ _ => rfl, _, _, he, he, rfl⟩

/-- An open that succeeds. -/
theorem of_openListed {fs fs' : FileSystemObject C} {junk : Nat → Buf} {i : Fin 20} {name : Name}
    (h : fs.openListed junk i name = .ok fs') :
    ∃ file files, C.open junk fs.files fs.listFile.files name = .ok (some file, files) ∧
      fs' = ⟨Function.update fs.listFile i (some ⟨file, name⟩), files⟩ := by
  unfold openListed at h
  obtain ⟨⟨opened, files⟩, ho, h⟩ := of_bind_ok h
  cases opened with
  | none => cases h
  | some file =>
    cases h
    exact ⟨file, files, ho, rfl⟩

/-- The start of the kernel, and the steps of the system calls. -/
def steps (C : FileSystemClass) : Transition.System (FileSystemObject C) where
  init fs := ∃ files junk, C.start files ∧ new C files junk = .ok fs
  step := Step

end FileSystemObject

end Nachos
