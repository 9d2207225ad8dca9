import Nachos.Prelude.Loop
import Nachos.Fault

/-!
# The interface of the file system (filesys/filesys.h, openfile.h)

`class FileSystem` and `class OpenFile` have two implementations, one of which is compiled. The kernel uses them through the members
that both have; `ListFile`, the table of the open files, is the same in both.
-/

namespace Nachos

open Bytes Loop

/-- A file name, as the value of a string. -/
abbrev Name := List UInt8

/-- The bytes of a string literal. -/
def ascii (s : String) : Name := s.toList.map fun c => UInt8.ofNat c.toNat

/-- The members of `FileSystem` and `OpenFile`. `Files` is what lies behind them, and `start` what holds of it before the kernel starts;
`junk` is what newly allocated memory holds. `open` is given the table as well, which is a member of the class. -/
structure FileSystemClass where
  Files : Type
  OpenFile : Type
  start : Files → Prop
  create (junk : Nat → Buf) (files : Files) (name : Name) (initialSize : Int) : Except Fault (Bool × Files)
  «open» (junk : Nat → Buf) (files : Files) (listFile : Fin 20 → Option OpenFile) (name : Name) :
    Except Fault (Option OpenFile × Files)
  remove (junk : Nat → Buf) (files : Files) (name : Name) : Except Fault (Bool × Files)
  close (files : Files) (file : OpenFile) : Except Fault Files
  read (files : Files) (file : OpenFile) (into : Buf) (numBytes : Int) : Except Fault (Int × Buf × OpenFile × Files)
  write (junk : Nat → Buf) (files : Files) (file : OpenFile) (src : Buf) (numBytes : Int) : Except Fault (Int × OpenFile × Files)
  seek (files : Files) (file : OpenFile) (position : Int) : Except Fault (OpenFile × Files)
  length (files : Files) (file : OpenFile) : Except Fault (Int × Files)

/-- An open file, with the name that the kernel has given it. -/
structure Listed (C : FileSystemClass) where
  file : C.OpenFile
  fileName : Name

/-- The entries of `ListFile`; `none` is `NULL`. -/
abbrev FileTable (C : FileSystemClass) := Fin 20 → Option (Listed C)

instance neZero_listFile : NeZero 20 := ⟨by decide⟩

/-- The slots for the files of user programs, in the order in which they are searched. -/
def userSlots : List (Fin 20) := (List.finRange 20).drop 2

/-- `FileSystem::FindFreeSlot`, on the pointers of `ListFile`; `none` is -1. -/
def findFreeSlot {α : Type} (listFile : Fin 20 → Option α) : Option (Fin 20) := userSlots.find? fun i => (listFile i).isNone

theorem mem_userSlots (i : Fin 20) : i ∈ userSlots ↔ 2 ≤ i.val := by revert i; decide

theorem find_userSlots_none {p : Fin 20 → Bool} : userSlots.find? p = none ↔ ∀ i : Fin 20, 2 ≤ i.val → ¬p i := by
  rw [List.find?_eq_none]
  exact ⟨fun h i hi => h i ((mem_userSlots i).2 hi), fun h i hi => h i ((mem_userSlots i).1 hi)⟩

namespace FileTable

variable {C : FileSystemClass}

/-- The open files of a table. -/
def files (listFile : FileTable C) : Fin 20 → Option C.OpenFile := fun i => (listFile i).map Listed.file

/-- The loop of `File_Open` and `File_Remove`: a slot that holds an open file of this name. -/
def findName (listFile : FileTable C) (name : Name) : Option (Fin 20) :=
  userSlots.find? fun i => (listFile i).any fun entry => entry.fileName = name

/-- `ListFile[id]`. -/
def slot (listFile : FileTable C) (id : Int) : Except Fault (Fin 20 × Option (Listed C)) :=
  if h : 0 ≤ id ∧ id < 20 then .ok (⟨id.toNat, by omega⟩, listFile ⟨id.toNat, by omega⟩) else .error .outOfBounds

end FileTable

/-- An object of class `FileSystem`. -/
structure FileSystemObject (C : FileSystemClass) where
  listFile : FileTable C
  files : C.Files

namespace FileSystemObject

variable {C : FileSystemClass}

/-- `ListFile[i] = Open(name)`, and the name given to the file. -/
def openListed (fs : FileSystemObject C) (junk : Nat → Buf) (i : Fin 20) (name : Name) : Except Fault (FileSystemObject C) := do
  let (opened, files) ← C.open junk fs.files fs.listFile.files name
  match opened with
  | none => .error .nullDereference -- `ListFile[i]->fileName`
  | some file => return { listFile := Function.update fs.listFile i (some { file, fileName := name }), files }

/-- What the constructors `FileSystem::FileSystem` of both implementations do last. -/
def new (C : FileSystemClass) (files : C.Files) (junk : Nat → Nat → Buf) : Except Fault (FileSystemObject C) := do
  let (_, files) ← C.create (junk 0) files (ascii "stdin") 0
  let (_, files) ← C.create (junk 1) files (ascii "stdout") 0
  let fs ← openListed { listFile := fun _ => none, files } (junk 2) 0 (ascii "stdin")
  openListed fs (junk 3) 1 (ascii "stdout")

end FileSystemObject

end Nachos
