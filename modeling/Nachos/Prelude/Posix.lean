import Mathlib.Logic.Function.Basic
import Nachos.Prelude.Bytes

/-!
# Regular files of a POSIX host

A name resolves to an entry of a directory, an entry refers to a file, and a descriptor to a file and an offset. Entries come and go
by `open` and `unlink`; how names resolve does not change. Offsets have 32 bits. A descriptor is not used again after `close`.
-/

namespace Posix

open Bytes

/-- The greatest offset. -/
abbrev maxOffset : Int := 2147483647

/-- A regular file: its bytes are those below the size. -/
structure File where
  size : Nat
  bytes : Buf

/-- A file after `n` bytes of `src` have been written at `offset`; a gap before them reads as zeros. -/
def File.write (f : File) (offset : Nat) (src : Buf) (n : Nat) : File where
  size := max f.size (offset + n)
  bytes := fun j => if offset ≤ j ∧ j < offset + n then src (j - offset) else if j < f.size then f.bytes j else 0

/-- What a descriptor refers to. -/
structure Description where
  file : Nat
  offset : Nat

/-- The files of the host, and the descriptors of the process. -/
structure Host (Entry : Type) where
  resolve : List UInt8 → Option Entry
  entries : Entry → Option Nat
  files : Nat → File
  nextFile : Nat
  descriptors : Nat → Option Description
  nextDescriptor : Nat

/-- No file is greater than the greatest offset. -/
def Host.Sized {Entry : Type} (h : Host Entry) : Prop := ∀ file, ((h.files file).size : Int) ≤ maxOffset

/-- Numbers that have not been given out yet are free, and the files are not too large for this process. -/
structure Host.Valid {Entry : Type} (h : Host Entry) : Prop where
  descriptors : ∀ fd, h.nextDescriptor ≤ fd → h.descriptors fd = none
  sized : h.Sized

/-- A host without files, on which every name stands for itself. -/
def Host.empty : Host (List UInt8) where
  resolve := some
  entries _ := none
  files _ := ⟨0, fun _ => 0⟩
  nextFile := 0
  descriptors _ := none
  nextDescriptor := 0

/-- The base of an offset given to `lseek`. -/
inductive Whence where
  | set
  | cur
  | «end»

namespace Host

variable {Entry : Type}

/-- The file that a name refers to. -/
def lookup (h : Host Entry) (name : List UInt8) : Option Nat := (h.resolve name).bind h.entries

/-- A new descriptor for a file. -/
def describe (h : Host Entry) (file : Nat) : Option Nat × Host Entry :=
  (some h.nextDescriptor,
    { h with
      descriptors := Function.update h.descriptors h.nextDescriptor (some ⟨file, 0⟩)
      nextDescriptor := h.nextDescriptor + 1 })

/-- `open(name, O_RDWR)`; with no descriptor it has failed. -/
def openExisting (h : Host Entry) (name : List UInt8) : Option Nat × Host Entry :=
  match h.lookup name with
  | none => (none, h)
  | some file => h.describe file

/-- `open(name, O_RDWR | O_CREAT | O_TRUNC)`. -/
def openTruncated [DecidableEq Entry] (h : Host Entry) (name : List UInt8) : Option Nat × Host Entry :=
  match h.resolve name with
  | none => (none, h)
  | some entry =>
    match h.entries entry with
    | none =>
      { h with
        entries := Function.update h.entries entry (some h.nextFile)
        files := Function.update h.files h.nextFile ⟨0, fun _ => 0⟩
        nextFile := h.nextFile + 1 }.describe h.nextFile
    | some file => { h with files := Function.update h.files file ⟨0, (h.files file).bytes⟩ }.describe file

/-- `close`; false is failure. -/
def close (h : Host Entry) (fd : Nat) : Bool × Host Entry :=
  ((h.descriptors fd).isSome, { h with descriptors := Function.update h.descriptors fd none })

/-- `lseek`. -/
def lseek (h : Host Entry) (fd : Nat) (offset : Int) (whence : Whence) : Int × Host Entry :=
  match h.descriptors fd with
  | none => (-1, h)
  | some d =>
    let offset :=
      match whence with
      | .set => offset
      | .cur => d.offset + offset
      | .end => (h.files d.file).size + offset
    if offset < 0 ∨ maxOffset < offset then (-1, h)
    else (offset, { h with descriptors := Function.update h.descriptors fd (some { d with offset := offset.toNat }) })

/-- `read`: the number of bytes read, and the bytes. A size that is negative as an `int` is more than can be read. -/
def read (h : Host Entry) (fd : Nat) (numBytes : Int) : Int × Buf × Host Entry :=
  match h.descriptors fd with
  | none => (-1, fun _ => 0, h)
  | some d =>
    if numBytes < 0 then (-1, fun _ => 0, h)
    else
      let count := min numBytes (max 0 ((h.files d.file).size - d.offset))
      (count, fun j => (h.files d.file).bytes (d.offset + j),
        { h with descriptors := Function.update h.descriptors fd (some { d with offset := d.offset + count.toNat }) })

/-- `write`: the number of bytes written, as many as there is room for below the greatest offset. -/
def write (h : Host Entry) (fd : Nat) (src : Buf) (numBytes : Int) : Int × Host Entry :=
  match h.descriptors fd with
  | none => (-1, h)
  | some d =>
    if numBytes < 0 then (-1, h)
    else if numBytes = 0 then (0, h)
    else if maxOffset ≤ d.offset then (-1, h)
    else
      let count := min numBytes (maxOffset - d.offset)
      (count,
        { h with
          files := Function.update h.files d.file ((h.files d.file).write d.offset src count.toNat)
          descriptors := Function.update h.descriptors fd (some { d with offset := d.offset + count.toNat }) })

/-- `unlink`; false is failure. The file stays for those who have it open. -/
def unlink [DecidableEq Entry] (h : Host Entry) (name : List UInt8) : Bool × Host Entry :=
  match h.resolve name with
  | none => (false, h)
  | some entry =>
    match h.entries entry with
    | none => (false, h)
    | some _ => (true, { h with entries := Function.update h.entries entry none })

end Host

end Posix
