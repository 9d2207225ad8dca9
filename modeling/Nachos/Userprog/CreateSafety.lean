import Nachos.Filesys.FileSysOps
import Nachos.Userprog.FileSafety

/-!
# Creating a file that exists (filesys/filesys.h, filesys/filesys.cc)

The two implementations of `FileSystem::Create` disagree: the real one refuses, and the stub opens the file of the host for writing,
which empties it.
-/

namespace Nachos

open Loop Posix FileSystemObject

/-- The implementation that is compiled: with `FILESYS_STUB`, on some host, or without. -/
inductive Build where
  | stub (Entry : Type) (dec : DecidableEq Entry)
  | real

namespace Build

/-- The classes of a build. -/
def fileSystemClass : Build → FileSystemClass
  | stub Entry _ => Nachos.stub Entry
  | real => Nachos.real

/-- The state of the file system is one that can occur. -/
def WellFormed : (b : Build) → b.fileSystemClass.Files → Prop
  | stub _ _, _ => True
  | real, fs => FileSystem.Inv fs

/-- There is a file of this name. -/
def Names : (b : Build) → b.fileSystemClass.Files → Name → Prop
  | stub _ _, (h : Host _), name => (h.lookup name).isSome
  | real, (fs : FileSystem), name => (FileSystem.directory fs.disk).find name.toBuf ≠ -1

end Build

namespace Stub

variable {Entry : Type} [DecidableEq Entry]

/-- With the stub, creating a file succeeds whenever the name stands for an entry of a directory. -/
theorem create_of_resolve {h : Host Entry} {name : Name} (hr : (h.resolve name).isSome) : ∃ h', create h name = .ok (true, h') := by
  obtain ⟨entry, hresolve⟩ := Option.isSome_iff_exists.1 hr
  unfold create openForWrite Host.openTruncated
  rw [hresolve]
  dsimp only
  unfold Host.describe close Host.close
  cases h.entries entry with
  | none =>
    dsimp only
    rw [ok_bind, assert_of (by simp)]
    exact ⟨_, rfl⟩
  | some file =>
    dsimp only
    rw [ok_bind, assert_of (by simp)]
    exact ⟨_, rfl⟩

/-- With the stub, creating a file that exists succeeds. -/
theorem create_of_lookup {h : Host Entry} {name : Name} (hl : (h.lookup name).isSome) : ∃ h', create h name = .ok (true, h') := by
  obtain ⟨file, hfile⟩ := Option.isSome_iff_exists.1 hl
  obtain ⟨entry, hresolve, -⟩ := Option.bind_eq_some_iff.1 hfile
  exact create_of_resolve (by rw [hresolve]; rfl)

end Stub

/-- The real file system refuses to create a file that exists. -/
theorem FileSystem.create_of_find {fs : FileSystem} (hI : Inv fs) {name : Bytes.Buf} (hname : (directory fs.disk).find name ≠ -1)
    (initialSize : Int) (junk : Nat → Bytes.Buf) : fs.create name initialSize junk = .ok (false, fs) := by
  unfold create
  rw [hI.fetchDirectory, ok_bind, if_pos hname]
  rfl

namespace System

/-- The call answers -1 and has left the file system as it was. -/
def Refused {C : FileSystemClass} (s : System C) (x : Except Fault (System C)) : Prop :=
  ∃ s', x = .ok s' ∧ s'.readRegister 2 = -1 ∧ s'.fileSystem = s.fileSystem

/-- `Create` with a name whose file exists is refused, and everything left as it was, exactly in the build with the real file system. -/
theorem create_existing (b : Build) {s s₁ : System b.fileSystemClass} {fresh : Fresh} {name : Name}
    (hwf : b.WellFormed s.fileSystem.files) (hr : s.readRegister 2 = SyscallCode.create.number)
    (hname : s.createName fresh = .ok (name, s₁)) (hexists : b.Names s.fileSystem.files name) :
    Refused s (s.exceptionHandler .syscallException fresh) ↔ b = .real := by
  have hfs := copyName_fileSystem hname
  have hcall (created : Bool) (files : b.fileSystemClass.Files)
      (hcreate : b.fileSystemClass.create fresh.junk s.fileSystem.files name 0 = .ok (created, files)) :
      ∃ s', s.exceptionHandler .syscallException fresh = .ok s' ∧ s'.readRegister 2 = (if created then 0 else -1) ∧
        s'.fileSystem = { s.fileSystem with files } := by
    rw [exceptionHandler_of (by decide) hr]
    change ∃ s', (s.fileCreate fresh).map increasePC = .ok s' ∧ _
    unfold fileCreate
    rw [hname, ok_bind]
    dsimp only
    rw [hfs, hcreate, ok_bind]
    cases created <;> exact ⟨_, rfl, rfl, rfl⟩
  cases b with
  | stub Entry dec =>
    obtain ⟨files, hcreate⟩ := Stub.create_of_lookup hexists
    obtain ⟨s', hs', hanswer, -⟩ := hcall true files hcreate
    refine iff_of_false ?_ (by rintro ⟨⟩)
    rintro ⟨s'', hs'', hneg, -⟩
    rw [hs'] at hs''
    cases hs''
    rw [hanswer] at hneg
    exact absurd hneg (by decide)
  | real =>
    obtain ⟨s', hs', hanswer, hfs'⟩ := hcall false s.fileSystem.files (FileSystem.create_of_find hwf hexists 0 fresh.junk)
    exact iff_of_true ⟨s', hs', hanswer, hfs'⟩ rfl

/-- The file named stdin, which the kernel creates when it starts. -/
theorem create_existing_stdin :
    ¬Refused (withName 4 (ascii "stdin")) ((withName 4 (ascii "stdin")).exceptionHandler .syscallException .zero) := by
  obtain ⟨s₁, hname⟩ := copyName_of (s := withName 4 (ascii "stdin")) (Machine.ofProgram_stringAt _ (by decide) (by decide)) .zero
    (show ¬Machine.BadLimit (maxFileLength + 1) by decide) (by decide)
  exact fun h => nomatch (create_existing (.stub Name inferInstance) trivial rfl hname rfl).1 h

/-- A host with a file of three bytes, named a. -/
def threeBytes : Host Name :=
  { Host.empty with
    entries := fun name => if name = ascii "a" then some 0 else none
    files := fun _ => ⟨3, fun _ => 7⟩
    nextFile := 1 }

/-- With the stub, `Create` of that file succeeds and leaves nothing of it. -/
theorem create_empties : (threeBytes.files 0).size = 3 ∧ ∃ s',
    ({ withName 4 (ascii "a") with fileSystem := ⟨fun _ => none, threeBytes⟩ } : System (stub Name)).exceptionHandler
      .syscallException .zero = .ok s' ∧ s'.readRegister 2 = 0 ∧ s'.fileSystem.files.lookup (ascii "a") = some 0 ∧
      (s'.fileSystem.files.files 0).size = 0 :=
  ⟨rfl, _, rfl, rfl, rfl, rfl⟩

end System

end Nachos
