import Nachos.Filesys.CreateOpen
import Nachos.Userprog.CreateSafety
import Nachos.Userprog.RoundTrip

/-!
# The cursor of an open file

The stub keeps the cursor of an open file beside the offset of the descriptor of the host, which every operation moves. `Seek` measures
the file once or twice, and neither that nor a failing call shows in what the next transfer does.
-/

namespace Nachos

open Bytes Loop Posix FileSystemObject

/-! ## The stub -/

namespace Stub

variable {Entry : Type} {h h' h'' : Host Entry} {f : OpenFile} {fd file : Nat}

/-- The descriptor may have been moved, and nothing else has been done. -/
def Aside (h : Host Entry) (fd : Nat) (h' : Host Entry) : Prop := ∃ file offset, h.Opened fd file ∧ h' = h.moved fd file offset

/-- The size of the file of a descriptor. -/
def sizeOf (h : Host Entry) (fd : Nat) : Int := ((h.descriptors fd).map fun d => (h.files d.file).size).getD 0

theorem sizeOf_opened (ho : h.Opened fd file) : sizeOf h fd = (h.files file).size := by
  obtain ⟨offset, hd⟩ := ho
  unfold sizeOf
  rw [hd]
  rfl

theorem Aside.of_moved (ho : h.Opened fd file) (offset : Nat) : Aside h fd (h.moved fd file offset) := ⟨file, offset, ho, rfl⟩

theorem Aside.refl (ho : h.Opened fd file) : Aside h fd h := by
  obtain ⟨offset, hd⟩ := ho
  refine ⟨file, offset, ⟨offset, hd⟩, ?_⟩
  unfold Host.moved
  rw [← hd, Function.update_eq_self]

theorem Aside.opened (ha : Aside h fd h') : ∃ file, h'.Opened fd file := by
  obtain ⟨file, offset, -, rfl⟩ := ha
  exact ⟨file, Host.opened_moved _ _ _ _⟩

theorem Aside.files_eq (ha : Aside h fd h') : h'.files = h.files := by
  obtain ⟨file, offset, -, rfl⟩ := ha
  rfl

theorem Aside.sizeOf_eq (ha : Aside h fd h') : sizeOf h' fd = sizeOf h fd := by
  obtain ⟨file, offset, ho, rfl⟩ := ha
  rw [sizeOf_opened ho, sizeOf_opened (Host.opened_moved _ _ _ _)]
  rfl

theorem Aside.trans (ha : Aside h fd h') (ha' : Aside h' fd h'') : Aside h fd h'' := by
  obtain ⟨file, offset, ho, rfl⟩ := ha
  obtain ⟨file', offset', ⟨o, hd⟩, rfl⟩ := ha'
  rw [Host.moved_descriptors] at hd
  cases hd
  exact ⟨file, offset', ho, Host.moved_moved _ _ _ _ _ _⟩

/-- Where a descriptor has been does not matter to `Lseek` from the start of the file. -/
theorem Aside.lseek_eq (ha : Aside h fd h') (p : Int) : lseek h' fd p .set = lseek h fd p .set := by
  obtain ⟨file, offset, ho, rfl⟩ := ha
  by_cases hp : 0 ≤ p ∧ p ≤ maxOffset
  · unfold lseek
    rw [Host.lseek_set_of ho hp.1 hp.2, Host.lseek_set_of (Host.opened_moved _ _ _ _) hp.1 hp.2, Host.moved_moved]
  · rw [lseek_not _ _ hp, lseek_not _ _ hp]

/-- Transfers begin with `Lseek`. -/
theorem Aside.read_eq (ha : Aside h f.file h') (into : Buf) (n : Int) : f.read h' into n = f.read h into n := by
  unfold OpenFile.read OpenFile.readAt
  rw [ha.lseek_eq]

theorem Aside.write_eq (ha : Aside h f.file h') (src : Buf) (n : Int) : f.write h' src n = f.write h src n := by
  unfold OpenFile.write OpenFile.writeAt
  rw [ha.lseek_eq]

end Stub

/-! ## Both builds -/

namespace Build

/-- The cursor: `currentOffset` or `seekPosition`. -/
def position : (b : Build) → b.fileSystemClass.OpenFile → Int
  | stub _ _, (f : Stub.OpenFile) => f.currentOffset
  | real, (f : OpenFile) => f.seekPosition

/-- The open file with its cursor somewhere else. -/
def goto : (b : Build) → b.fileSystemClass.OpenFile → Int → b.fileSystemClass.OpenFile
  | stub _ _, (f : Stub.OpenFile), p => { f with currentOffset := p }
  | real, (f : OpenFile), p => f.seek p

/-- The length of the file. -/
def length : (b : Build) → b.fileSystemClass.Files → b.fileSystemClass.OpenFile → Int
  | stub _ _, h, (f : Stub.OpenFile) => Stub.sizeOf h f.file
  | real, _, (f : OpenFile) => f.hdr.numBytes

/-- A file that is open: its descriptor is, or its header is one of a file. -/
def Usable : (b : Build) → b.fileSystemClass.Files → b.fileSystemClass.OpenFile → Prop
  | stub _ _, (h : Host _), (f : Stub.OpenFile) => (∃ file, h.Opened f.file file) ∧ h.Sized
  | real, _, (f : OpenFile) => f.hdr.Valid ∧ 0 ≤ f.hdr.numBytes ∧ 0 ≤ f.seekPosition ∧ InRange f.seekPosition

/-- The tables of open files. The kernel of the build with the real file system does not get through its start, and there all tables count
whose entries are open files. -/
def Table : (b : Build) → FileSystemObject b.fileSystemClass → Prop
  | stub Entry dec, fs => (calls (@Nachos.stub Entry dec)).Reachable fs
  | real, fs => ∀ i entry, fs.listFile i = some entry → real.Usable fs.files entry.file

/-- The files are as they were, but for the offset of the descriptor of this one. -/
def Aside : (b : Build) → b.fileSystemClass.Files → b.fileSystemClass.OpenFile → b.fileSystemClass.Files → Prop
  | stub _ _, h, (f : Stub.OpenFile), h' => Stub.Aside h f.file h'
  | real, fs, _, fs' => fs' = fs

section

variable (b : Build)

@[simp] theorem goto_position (f : b.fileSystemClass.OpenFile) : b.goto f (b.position f) = f := by cases b <;> rfl

end

variable {b : Build} {files files' files'' : b.fileSystemClass.Files} {f : b.fileSystemClass.OpenFile}

/-- The files of a table are open. -/
theorem Table.usable {fs : FileSystemObject b.fileSystemClass} (ht : b.Table fs) {i : Fin 20} {entry : Listed b.fileSystemClass}
    (he : fs.listFile i = some entry) : b.Usable fs.files entry.file := by
  cases b with
  | stub Entry dec =>
    have hd := Stub.descriptors_of_reachable ht
    have hfd : Stub.fds fs i = some entry.file.file := by
      unfold Stub.fds
      rw [he]
      rfl
    obtain ⟨d, hdesc⟩ := Option.isSome_iff_exists.1 (hd.opened i _ hfd)
    exact ⟨⟨d.file, d.offset, hdesc⟩, hd.sized⟩
  | real => exact ht i entry he

theorem Usable.length_range (hu : b.Usable files f) : 0 ≤ b.length files f ∧ b.length files f ≤ 2147483647 := by
  cases b with
  | stub Entry dec =>
    obtain ⟨⟨file, ho⟩, hsized⟩ := hu
    have hlength : length (stub Entry dec) files f = _ := Stub.sizeOf_opened ho
    rw [hlength]
    exact ⟨Int.natCast_nonneg _, hsized file⟩
  | real => exact ⟨hu.2.1, hu.1.inRange.2⟩

theorem Usable.aside_refl (hu : b.Usable files f) : b.Aside files f files := by
  cases b with
  | stub Entry dec =>
    obtain ⟨⟨file, ho⟩, -⟩ := hu
    exact Stub.Aside.refl ho
  | real => rfl

theorem Aside.trans (ha : b.Aside files f files') (ha' : b.Aside files' f files'') : b.Aside files f files'' := by
  cases b with
  | stub Entry dec => exact Stub.Aside.trans ha ha'
  | real => exact Eq.trans ha' ha

theorem Aside.usable (ha : b.Aside files f files') (hu : b.Usable files f) : b.Usable files' f := by
  cases b with
  | stub Entry dec =>
    refine ⟨Stub.Aside.opened ha, ?_⟩
    unfold Host.Sized
    rw [Stub.Aside.files_eq ha]
    exact hu.2
  | real => exact hu

theorem Aside.length_eq (ha : b.Aside files f files') : b.length files' f = b.length files f := by
  cases b with
  | stub Entry dec => exact Stub.Aside.sizeOf_eq ha
  | real => rfl

/-- The next `Read` from any position does what it would have done. -/
theorem Aside.read_eq (ha : b.Aside files f files') (p : Int) (into : Buf) (n : Int) :
    b.fileSystemClass.read files' (b.goto f p) into n = b.fileSystemClass.read files (b.goto f p) into n := by
  cases b with
  | stub Entry dec => exact Stub.Aside.read_eq (f := { f with currentOffset := p }) ha into n
  | real =>
    cases ha
    rfl

/-- The next `Write` from any position does what it would have done. -/
theorem Aside.write_eq (ha : b.Aside files f files') (p : Int) (junk : Nat → Buf) (src : Buf) (n : Int) :
    b.fileSystemClass.write junk files' (b.goto f p) src n = b.fileSystemClass.write junk files (b.goto f p) src n := by
  cases b with
  | stub Entry dec => exact Stub.Aside.write_eq (f := { f with currentOffset := p }) ha src n
  | real =>
    cases ha
    rfl

/-- `Length` returns the length. -/
theorem Usable.length_of (hu : b.Usable files f) :
    ∃ files', b.fileSystemClass.length files f = .ok (b.length files f, files') ∧ b.Aside files f files' := by
  cases b with
  | stub Entry dec =>
    obtain ⟨⟨file, ho⟩, hsized⟩ := hu
    have hlength := Stub.OpenFile.length_of ho hsized
    rw [← Stub.sizeOf_opened ho] at hlength
    exact ⟨_, hlength, Stub.Aside.of_moved ho _⟩
  | real => exact ⟨files, rfl, rfl⟩

/-- `Seek` to a position of the file puts the cursor there. -/
theorem Usable.seek_of (hu : b.Usable files f) {p : Int} (h0 : 0 ≤ p) (hp : p ≤ b.length files f) :
    ∃ files', b.fileSystemClass.seek files f p = .ok (b.goto f p, files') ∧ b.Aside files f files' := by
  have hmax := hu.length_range.2
  cases b with
  | stub Entry dec =>
    obtain ⟨⟨file, ho⟩, hsized⟩ := hu
    exact ⟨_, Stub.OpenFile.seek_of ho h0 (by show p ≤ 2147483647; omega), .of_moved ho _⟩
  | real => exact ⟨files, rfl, rfl⟩

end Build

/-! ## Seek -/

namespace System

variable {b : Build} {s : System b.fileSystemClass} {i : Fin 20} {entry : Listed b.fileSystemClass}

/-- `Seek` has answered, the cursor of the file is at `start`, and the next transfer begins there as if nothing else had been done. The
other entries of the table and the files are as they were, but for the offset of the descriptor. -/
structure Sought (s : System b.fileSystemClass) (i : Fin 20) (entry : Listed b.fileSystemClass) (answer start : Int)
    (s' : System b.fileSystemClass) : Prop where
  answer : (s'.readRegister 2).toInt = answer
  listFile : s'.fileSystem.listFile = Function.update s.fileSystem.listFile i (some { entry with file := b.goto entry.file start })
  files : b.Aside s.fileSystem.files entry.file s'.fileSystem.files
  next_read : ∀ into n, b.fileSystemClass.read s'.fileSystem.files (b.goto entry.file start) into n =
    b.fileSystemClass.read s.fileSystem.files (b.goto entry.file start) into n
  next_write : ∀ junk src n, b.fileSystemClass.write junk s'.fileSystem.files (b.goto entry.file start) src n =
    b.fileSystemClass.write junk s.fileSystem.files (b.goto entry.file start) src n

theorem Sought.of_aside {files : b.fileSystemClass.Files} {answer start : Int} (ha : b.Aside s.fileSystem.files entry.file files)
    (hr : InRange answer) :
    Sought s i entry answer start
      ((s.setSlot i (some { entry with file := b.goto entry.file start }) files).writeRegister 2 (BitVec.ofInt 32 answer)) := by
  refine ⟨?_, rfl, ha, ha.read_eq start, ha.write_eq start⟩
  rw [writeRegister_readRegister]
  exact BitVec.toInt_ofInt_eq_self (by decide) (by have := hr.1; omega) (by have := hr.2; omega)

/-- The position that `Seek` is asked for, if it is one of the file. -/
def seekTarget (length pos : Int) : Option Int :=
  if pos = -1 then some length else if 0 ≤ pos ∧ pos ≤ length then some pos else none

/-- `Seek` in a file that is open. -/
theorem fileSeek_sought (hu : b.Usable s.fileSystem.files entry.file) (he : s.fileSystem.listFile i = some entry) (h2 : 2 ≤ i.val)
    (hi : (s.readRegister 5).toInt = i.val) :
    ∃ s', s.fileSeek = .ok s' ∧
      s.Sought i entry ((seekTarget (b.length s.fileSystem.files entry.file) (s.readRegister 4).toInt).getD (-1))
        ((seekTarget (b.length s.fileSystem.files entry.file) (s.readRegister 4).toInt).getD (b.position entry.file)) s' := by
  obtain ⟨hL0, hL⟩ := hu.length_range
  have hposition : { entry with file := b.goto entry.file (b.position entry.file) } = entry := by rw [Build.goto_position]
  generalize hpos : (s.readRegister 4).toInt = pos
  generalize hlen : b.length s.fileSystem.files entry.file = L at hL0 hL ⊢
  -- the position asked for, or the end of the file
  obtain ⟨files₁, hend, ha₁⟩ : ∃ files₁, (if pos = -1 then b.fileSystemClass.length s.fileSystem.files entry.file
      else .ok (pos, s.fileSystem.files)) = .ok (if pos = -1 then L else pos, files₁) ∧
      b.Aside s.fileSystem.files entry.file files₁ := by
    by_cases hp : pos = -1
    · obtain ⟨files₁, hlength, ha⟩ := hu.length_of
      rw [if_pos hp, if_pos hp, hlength, hlen]
      exact ⟨files₁, rfl, ha⟩
    · rw [if_neg hp, if_neg hp]
      exact ⟨_, rfl, hu.aside_refl⟩
  have hu₁ := ha₁.usable hu
  have hlen₁ := ha₁.length_eq.trans hlen
  obtain ⟨files₂, hlength, ha₂⟩ := hu₁.length_of
  rw [hlen₁] at hlength
  have hu₂ := ha₂.usable hu₁
  have hlen₂ := ha₂.length_eq.trans hlen₁
  unfold fileSeek
  simp only [hi, hpos]
  rw [if_neg (by omega), FileTable.slot_of, he]
  have h01 : ¬((i.val : Int) = 0 ∨ (i.val : Int) = 1) := by omega
  simp only [if_neg h01, ok_bind, hend, hlength]
  unfold seekTarget
  by_cases hin : (if pos = -1 then L else pos) > L ∨ (if pos = -1 then L else pos) < 0
  · -- the position is not in the file
    have hp : ¬pos = -1 := by
      intro hp
      rw [if_pos hp] at hin
      omega
    rw [if_neg hp] at hin
    rw [if_neg hp, if_neg hp, if_pos hin, if_neg (by omega)]
    have hfail : s.Sought i entry (-1) (b.position entry.file) _ := .of_aside (ha₁.trans ha₂) (by decide)
    rw [hposition] at hfail
    exact ⟨_, rfl, hfail⟩
  · obtain ⟨files₃, hseek, ha₃⟩ := hu₂.seek_of (p := if pos = -1 then L else pos) (by omega) (by omega)
    have htarget : (if pos = -1 then some L else if 0 ≤ pos ∧ pos ≤ L then some pos else none) =
        some (if pos = -1 then L else pos) := by
      by_cases hp : pos = -1
      · rw [if_pos hp, if_pos hp]
      · rw [if_neg hp] at hin
        rw [if_neg hp, if_neg hp, if_pos (by omega)]
    rw [if_neg hin, hseek, htarget]
    exact ⟨_, rfl, .of_aside ((ha₁.trans ha₂).trans ha₃) (by rw [Option.getD_some]; unfold InRange; omega)⟩

/-- In both builds, for every open file of a table and every position: `Seek` to a position of the file, or to its end with -1, returns
the position and puts the cursor there; to any other it returns -1, and the next transfer begins where it would have begun. Nothing else
has changed. -/
theorem seek_positions (b : Build) {s : System b.fileSystemClass} {fresh : Fresh} {i : Fin 20} {entry : Listed b.fileSystemClass}
    (ht : b.Table s.fileSystem) (he : s.fileSystem.listFile i = some entry) (h2 : 2 ≤ i.val)
    (hr : s.readRegister 2 = SyscallCode.seek.number) (hi : (s.readRegister 5).toInt = i.val) :
    ∃ s', s.exceptionHandler .syscallException fresh = .ok s' ∧
      s.Sought i entry ((seekTarget (b.length s.fileSystem.files entry.file) (s.readRegister 4).toInt).getD (-1))
        ((seekTarget (b.length s.fileSystem.files entry.file) (s.readRegister 4).toInt).getD (b.position entry.file)) s' := by
  obtain ⟨s', hcall, hsought⟩ := fileSeek_sought (ht.usable he) he h2 hi
  refine ⟨s'.increasePC, ?_, hsought.answer, hsought.listFile, hsought.files, hsought.next_read, hsought.next_write⟩
  rw [exceptionHandler_of (show SyscallCode.seek ∈ SyscallCode.cases by decide) hr]
  exact congrArg (Except.map increasePC) hcall

end System

/-! ## A file in each build -/

/-- The header of a file of 200 bytes. -/
def twoSectors : FileHeader where
  numBytes := 200
  numSectors := 2
  dataSectors i := 5 + i

theorem valid_twoSectors : twoSectors.Valid := ⟨by decide, by decide, rfl, by decide, by decide⟩

/-- The real file system with one file open, and its cursor at 100. -/
def realOpened : FileSystemObject real where
  listFile i := if i = 2 then some ⟨⟨twoSectors, 100⟩, ascii "a"⟩ else none
  files := ⟨FileSystem.zeroDisk, ⟨twoSectors, 0⟩, ⟨twoSectors, 0⟩⟩

theorem table_realOpened : Build.real.Table realOpened := by
  intro i entry he
  have hentry : (if i = 2 then some ⟨⟨twoSectors, 100⟩, ascii "a"⟩ else none : Option (Listed real)) = some entry := he
  split at hentry
  · cases hentry
    exact ⟨valid_twoSectors, by decide, by decide, by decide⟩
  · cases hentry

/-- A program that makes a call with the real file system. -/
def realCall (code : SyscallCode) (arg1 arg2 arg3 : BitVec 32) : System real :=
  System.call ⟨Stub.stdinOpened.machine, realOpened, fun _ => 0, []⟩ (fun _ => 0) code arg1 arg2 arg3

namespace System

/-- `Seek` to the end of an empty file with the stub, and past the end of the file with the real file system. -/
theorem seek_positions_both :
    (∃ s', (Stub.stdinOpened.call (fun _ => 0) .seek (-1) 2 0).exceptionHandler .syscallException .zero = .ok s' ∧
      Sought (b := .stub Name inferInstance) (Stub.stdinOpened.call (fun _ => 0) .seek (-1) 2 0) 2 ⟨⟨4, 0⟩, ascii "stdin"⟩ 0 0 s') ∧
    ∃ s', (realCall .seek 201 2 0).exceptionHandler .syscallException .zero = .ok s' ∧
      Sought (b := .real) (realCall .seek 201 2 0) 2 ⟨⟨twoSectors, 100⟩, ascii "a"⟩ (-1) 100 s' :=
  ⟨seek_positions (.stub Name inferInstance) (s := Stub.stdinOpened.call (fun _ => 0) .seek (-1) 2 0) (i := 2)
      Stub.reachable_stdinOpened rfl (by decide) rfl rfl,
    seek_positions .real (s := realCall .seek 201 2 0) (i := 2) table_realOpened rfl (by decide) rfl rfl⟩

end System

end Nachos
