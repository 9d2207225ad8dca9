import Nachos.Machine.Instructions
import Nachos.Userprog.Cursors
import Nachos.Userprog.LineSafety

/-!
# The calls that stop the simulator (userprog/exception.cc, threads/kernel.cc)

A system call returns, halts the machine, or ends in a fault: an `ASSERT` that fails, a null pointer or one that was never set that is
followed, an index outside its array, or a size that cannot be allocated. Which calls end in a fault depends on the registers, the table
of the open files, the files of the host, the user memory and the input.
-/

namespace Nachos

open Bytes Loop Posix CString Machine FileSystemObject Input

/-! ## The copies -/

namespace Machine

variable {m : Machine} {f : Fault}

/-- In a machine that is sound, all that can end a copy early is an exception. -/
theorem CopyFault.halted (hs : m.Sound) (h : CopyFault m f) : f = .halted := (h hs.loadReg).resolve_right fun h => h.2 hs.oneScheme

/-- `User2System` halts the machine only if the bytes are not mapped. -/
theorem user2System_halts (hs : m.Sound) (virtAddr : BitVec 32) {limit : BitVec 32} (hlimit : ¬BadLimit limit) (junk : Buf) :
    Ends (fun r : KernelBuffer × Machine => Touched m r.2 ∧ r.1.size = (limit.toInt + 1).toNat ∧
        r.1.bytes = strncpy (fun _ => 0) (m.userBytes virtAddr) limit.toInt.toNat)
      (fun f => f = .halted ∧ ¬m.Readable virtAddr limit.toInt.toNat) (m.user2System virtAddr limit junk) := by
  have hends := m.user2System_ends virtAddr limit junk
  cases hcopy : m.user2System virtAddr limit junk with
  | ok r => exact .ok (hends.of_ok hcopy)
  | error f =>
    refine .error ⟨CopyFault.halted hs ((hends.of_error hcopy).resolve_left hlimit), ?_⟩
    intro hread
    obtain ⟨r, hr⟩ := user2System_returns hlimit hread junk
    cases hr.symm.trans hcopy

/-- A copy of memory that is not mapped halts the machine. -/
theorem user2System_unmapped (hs : m.Sound) {virtAddr limit : BitVec 32} (hlimit : ¬BadLimit limit)
    (hread : ¬m.Readable virtAddr limit.toInt.toNat) (junk : Buf) : m.user2System virtAddr limit junk = .error .halted := by
  cases hcopy : m.user2System virtAddr limit junk with
  | ok r => exact absurd ((user2System_ok_iff hlimit).1 ⟨r, hcopy⟩) hread
  | error f =>
    obtain ⟨rfl, -⟩ := (user2System_halts hs virtAddr hlimit junk).of_error hcopy
    rfl

/-- `System2User` halts the machine only if the bytes are not mapped. -/
theorem system2User_halts (hs : m.Sound) (virtAddr : BitVec 32) {len : Int} {buffer : KernelBuffer} (hlen : len ≤ buffer.size) :
    Ends (fun _ => True) (fun f => f = .halted ∧ ¬m.Buffer virtAddr len.toNat) (m.system2User virtAddr len buffer) := by
  cases hcopy : m.system2User virtAddr len buffer with
  | ok r => exact .ok trivial
  | error f =>
    refine .error ⟨CopyFault.halted hs (((m.system2User_ends virtAddr len buffer).of_error hcopy).resolve_left (by omega)), ?_⟩
    intro hb
    obtain ⟨r, hr⟩ := system2User_returns m virtAddr len buffer hlen hb
    cases hr.symm.trans hcopy

/-- A buffer can be copied. -/
theorem Buffer.mapped {virtAddr : BitVec 32} {n : Nat} (h : m.Buffer virtAddr n) : m.Readable virtAddr n := fun _ hj _ => h.readable hj

end Machine

namespace System

/-! ## When a call ends in a fault -/

section

variable {C : FileSystemClass}

/-- The line typed for a number has at most 20 characters, and its buffer, with the line in front of what the memory held before,
contains a zero. -/
def NumberFits (s : System C) (fresh : Fresh) : Prop :=
  ∃ k ≤ 20, s.typed.get k = newline ∧ (∀ j < k, s.typed.get j ≠ newline) ∧
    ∃ j < 20, (if j < k then s.typed.get j else fresh.junk 0 j) = 0

/-- One of the slots for user programs holds a file of this name. -/
def Holds (fs : FileSystemObject C) (name : Name) : Prop :=
  ∃ (i : Fin 20) (entry : Listed C), 2 ≤ i.val ∧ fs.listFile i = some entry ∧ entry.fileName = name

/-- All the slots for user programs are used. -/
def TableFull (fs : FileSystemObject C) : Prop := ∀ i : Fin 20, 2 ≤ i.val → (fs.listFile i).isSome

/-- The calls that halt the machine: `Halt`, and those that copy user memory that is not mapped. -/
def MayHalt (s : System C) : SyscallCode → Prop
  | .halt => True
  | .readString => ¬s.machine.Buffer (s.readRegister 4) (s.readRegister 5).toInt.toNat
  | .printString => ¬s.machine.Readable (s.readRegister 4) 223
  | .create => ¬s.machine.Readable (s.readRegister 4) 33
  | .open | .remove => ¬s.machine.Readable (s.readRegister 4) 32
  | .read => ¬s.machine.Buffer (s.readRegister 4) (s.readRegister 5).toInt.toNat
  | .write => ¬s.machine.Readable (s.readRegister 4) (s.readRegister 5).toInt.toNat
  | _ => False

end

variable {Entry : Type} [DecidableEq Entry]

/-- A transfer of a program from or to the file with the number in register 6 cannot be carried out: there is no buffer of the size in
register 5 for it, or its bytes are in the kernel and the cursor is not where the transfer is possible. -/
def TransferFaults (s : System (stub Entry)) (possible : Int → Prop) : Prop :=
  ∃ (i : Fin 20) (entry : Listed (stub Entry)), 1 ≤ i.val ∧ (i.val : Int) = (s.readRegister 6).toInt ∧
    s.fileSystem.listFile i = some entry ∧
    (BadLimit (s.readRegister 5) ∨
      s.machine.Readable (s.readRegister 4) (s.readRegister 5).toInt.toNat ∧ ¬possible entry.file.currentOffset)

/-- The calls that end in a fault. -/
def CallFaults (s : System (stub Entry)) (fresh : Fresh) : SyscallCode → Prop
  | .readNum => ¬s.NumberFits fresh
  | .readString => BadLimit (s.readRegister 5)
  -- the file cannot be opened for writing
  | .create => s.machine.Readable (s.readRegister 4) 33 ∧ s.fileSystem.files.resolve (s.text 33) = none
  -- the file does not exist, and `Open` looks for it
  | .open => s.machine.Readable (s.readRegister 4) 32 ∧ ¬Holds s.fileSystem (s.text 32) ∧ ¬TableFull s.fileSystem ∧
      s.fileSystem.files.lookup (s.text 32) = none
  | .close => (s.readRegister 4).toInt = 20
  | .read => (s.readRegister 6).toInt = 20 ∨ (s.readRegister 6).toInt = 0 ∨
      s.TransferFaults fun position => 0 ≤ position ∧ position ≤ maxOffset
  | .write => (s.readRegister 5).toInt < 0 ∨ (s.readRegister 6).toInt = 20 ∨
      s.TransferFaults fun position => 0 ≤ position ∧ position + (s.readRegister 5).toInt ≤ maxOffset
  | .seek => (s.readRegister 5).toInt = 20
  | _ => False

/-- The call halts the machine, and is one that may. -/
def Halts {C : FileSystemClass} (s : System C) (code : SyscallCode) (f : Fault) : Prop := f = .halted ∧ s.MayHalt code

/-- The computation ends in a fault. -/
def Faulty {α : Type} (x : Except Fault α) : Prop := ∃ f, f ≠ .halted ∧ x = .error f

/-! ## The console -/

section

variable {C : FileSystemClass} {s : System C} {fresh : Fresh}

/-- The line buffer of `ReadNum` holds the line, and behind it what the memory held before. -/
theorem put_bytes (typed : Stream' UInt8) (junk : Buf) (k j : Nat) :
    (KernelBuffer.put ⟨20, junk⟩ 0 typed k).bytes j = if j < k then typed.get j else junk j := by
  split
  · rename_i hj
    have hput := KernelBuffer.put_inside ⟨20, junk⟩ 0 typed hj
    rwa [Nat.zero_add] at hput
  · exact KernelBuffer.put_outside _ _ _ (by omega)

/-- `ReadNum` returns if the line fits, and else leaves its buffer. -/
theorem readNum_cases (s : System C) (fresh : Fresh) :
    s.NumberFits fresh ∧ (∃ s', s.readNum fresh = .ok s') ∨ ¬s.NumberFits fresh ∧ Faulty (s.readNum fresh) := by
  have hfits (hline : front endsNum 21 s.typed < 21) : s.NumberFits fresh ↔
      ∃ j < 20, (KernelBuffer.put ⟨20, fresh.junk 0⟩ 0 s.typed (front endsNum 21 s.typed)).bytes j = 0 := by
    have hend : s.typed.get (front endsNum 21 s.typed) = newline := by
      have hstop : endsNum (s.typed.get (front endsNum 21 s.typed)) = true := stop_front hline
      exact of_decide_eq_true hstop
    have hbefore {j : Nat} (hj : j < front endsNum 21 s.typed) : s.typed.get j ≠ newline := by
      have hgoes : endsNum (s.typed.get j) = false := not_stop_of_lt_front hj
      exact of_decide_eq_false hgoes
    simp only [put_bytes]
    constructor
    · rintro ⟨k, hk, hnewline, hnone, hzero⟩
      obtain rfl : k = front endsNum 21 s.typed := by
        by_contra hne
        rcases Nat.lt_or_gt_of_ne hne with hlt | hgt
        · exact hbefore hlt hnewline
        · exact hnone _ hgt hend
      exact hzero
    · exact fun hzero => ⟨_, by omega, hend, fun j hj => hbefore hj, hzero⟩
  rw [readNum_eq, readNumLine_eq]
  by_cases hline : front endsNum 21 s.typed < 21
  · rw [if_pos hline, ok_bind, hfits hline]
    dsimp only
    rcases KernelBuffer.string_cases (KernelBuffer.put ⟨20, fresh.junk 0⟩ 0 s.typed (front endsNum 21 s.typed)) with
      ⟨hzero, text, htext⟩ | ⟨hzero, htext⟩
    · refine .inl ⟨hzero, ?_⟩
      rw [htext, ok_bind]
      cases readNumValue text <;> exact ⟨_, rfl⟩
    · refine .inr ⟨hzero, .outOfBounds, by decide, ?_⟩
      rw [htext]
      rfl
  · rw [if_neg hline]
    refine .inr ⟨?_, .outOfBounds, by decide, rfl⟩
    rintro ⟨k, hk, hnewline, -⟩
    exact hline (front_lt_iff.2 ⟨k, by omega, decide_eq_true hnewline⟩)

/-- `ReadString` with a buffer of a possible size. -/
theorem readString_halts (hs : s.machine.Sound) (hlimit : ¬BadLimit (s.readRegister 5)) :
    Ends (fun _ => True) (s.Halts .readString) (s.readString fresh) := by
  unfold readString
  refine ((user2System_halts hs _ hlimit _).mono (fun _ h => h) fun f hf => ⟨hf.1, mt Buffer.mapped hf.2⟩).bind ?_
  rintro ⟨str, machine⟩ ⟨htouch, hsize, -⟩
  dsimp only at htouch hsize ⊢
  by_cases h0 : (s.readRegister 5).toInt ≤ 0
  · unfold readString2KeyBoard
    rw [if_pos h0]
    exact .ok trivial
  · have hfront : Input.front endsString ((s.readRegister 5).toInt - 1).toNat s.typed ≤ _ := Input.front_le
    rw [readString2KeyBoard_eq _ _ (by omega) (by omega)]
    refine ((system2User_halts (htouch.sameControl.sound hs) _ ?_).mono (fun _ h => h) ?_).bind fun _ _ => .ok trivial
    · change (Input.front endsString ((s.readRegister 5).toInt - 1).toNat s.typed : Int) ≤ str.size
      omega
    · rintro f ⟨hf, hb⟩
      refine ⟨hf, fun hbuffer => hb ?_⟩
      exact (htouch.toSameMapping.buffer hbuffer).of_le (by
        change (Input.front endsString ((s.readRegister 5).toInt - 1).toNat s.typed : Int).toNat ≤ _
        omega)

/-- A text for `PrintString` is cut off behind 223 characters. -/
theorem printString_halts (hs : s.machine.Sound) : Ends (fun _ => True) (s.Halts .printString) (s.printString fresh) := by
  have hlimit : ¬BadLimit maxLengthStringSys := by decide
  unfold printString
  refine ((user2System_halts hs _ hlimit _).mono (fun _ h => h) fun f hf => hf).bind ?_
  rintro ⟨strBuffer, machine⟩ ⟨-, hsize, hbytes⟩
  dsimp only at hsize hbytes ⊢
  rw [KernelBuffer.string_of_strncpy (hsize.trans (by decide)) hbytes]
  exact .ok trivial

/-! ## Calls with a name -/

/-- The name is copied, or the machine is halted. -/
theorem copyName_halts (hs : s.machine.Sound) (limit : BitVec 32) (hlimit : ¬BadLimit limit) (hpos : 0 ≤ limit.toInt) :
    Ends (fun r : Name × System C => r.1 = s.text limit.toInt.toNat ∧ r.2.fileSystem = s.fileSystem ∧
        s.machine.Readable (s.readRegister 4) limit.toInt.toNat)
      (fun f => f = .halted ∧ ¬s.machine.Readable (s.readRegister 4) limit.toInt.toNat) (s.copyName fresh limit) := by
  cases hcopy : s.copyName fresh limit with
  | ok r =>
    obtain ⟨hread, hname⟩ := (copyName_ok_iff fresh hlimit hpos).1 ⟨r.2, hcopy⟩
    exact .ok ⟨hname, copyName_fileSystem hcopy, hread⟩
  | error f =>
    have hread : ¬s.machine.Readable (s.readRegister 4) limit.toInt.toNat := by
      intro hread
      obtain ⟨s₁, h⟩ := (copyName_ok_iff fresh hlimit hpos).2 ⟨hread, rfl⟩
      cases h.symm.trans hcopy
    refine .error ⟨?_, hread⟩
    unfold copyName at hcopy
    refine Ends.of_error (Q := fun _ => True) (E := (· = .halted)) ?_ hcopy
    refine ((user2System_halts hs _ hlimit _).mono (fun _ h => h) fun f hf => hf.1).bind ?_
    rintro ⟨fileName, machine⟩ ⟨-, hsize, hbytes⟩
    dsimp only at hsize hbytes ⊢
    rw [KernelBuffer.string_of_strncpy (n := limit.toInt.toNat) (by omega) hbytes]
    exact .ok trivial

end

section

variable {s : System (stub Entry)} {fresh : Fresh}

theorem fileCreate_halts (hs : s.machine.Sound) (hf : ¬s.CallFaults fresh .create) :
    Ends (fun _ => True) (s.Halts .create) (s.fileCreate fresh) := by
  refine (copyName_halts hs (maxFileLength + 1) (by decide) (by decide)).bind ?_
  rintro ⟨name, s₁⟩ ⟨hname, hfs, hread⟩
  dsimp only at hname hfs ⊢
  have hresolve : (s₁.fileSystem.files.resolve name).isSome := by
    rw [hname, hfs]
    exact Option.isSome_iff_ne_none.2 fun hnone => hf ⟨hread, hnone⟩
  obtain ⟨files, hcreate⟩ := Stub.create_of_resolve hresolve
  rw [show (stub Entry).create fresh.junk s₁.fileSystem.files name 0 = .ok (true, files) from hcreate]
  exact .ok trivial

theorem findName_eq_none_iff {C : FileSystemClass} {fs : FileSystemObject C} {name : Name} :
    fs.listFile.findName name = none ↔ ¬Holds fs name := by
  rw [FileTable.findName_eq_none]
  constructor
  · rintro h ⟨i, entry, h2, he, hname⟩
    exact h i h2 entry he hname
  · exact fun h i h2 entry he hname => h ⟨i, entry, h2, he, hname⟩

omit [DecidableEq Entry] in
/-- A file that exists can be opened. -/
theorem open_of_lookup {h : Host Entry} {name : Name} (hl : (h.lookup name).isSome) : ∃ file h', Stub.open h name = (some file, h') := by
  obtain ⟨file, hfile⟩ := Option.isSome_iff_exists.1 hl
  unfold Stub.open Host.openExisting
  rw [hfile]
  exact ⟨_, _, rfl⟩

theorem fileOpen_halts (hs : s.machine.Sound) (hf : ¬s.CallFaults fresh .open) :
    Ends (fun _ => True) (s.Halts .open) (s.fileOpen fresh) := by
  refine (copyName_halts hs 32 (by decide) (by decide)).bind ?_
  rintro ⟨name, s₁⟩ ⟨hname, hfs, hread⟩
  dsimp only at hname hfs ⊢
  rw [hfs]
  cases hfind : s.fileSystem.listFile.findName name with
  | some i => exact .ok trivial
  | none =>
    cases hfree : findFreeSlot s.fileSystem.listFile with
    | none => exact .ok trivial
    | some i =>
      obtain ⟨h2, hi, -⟩ := findFreeSlot_eq_some.1 hfree
      have hexists : (s.fileSystem.files.lookup name).isSome := by
        refine Option.isSome_iff_ne_none.2 fun hnone => hf ⟨hread, ?_, ?_, ?_⟩
        · exact hname ▸ findName_eq_none_iff.1 hfind
        · intro hfull
          have hused := hfull i h2
          rw [hi] at hused
          cases hused
        · exact hname ▸ hnone
      obtain ⟨file, files, hopen⟩ := open_of_lookup hexists
      have hlisted : (stub Entry).open fresh.junk s.fileSystem.files s.fileSystem.listFile.files name = .ok (some file, files) :=
        congrArg Except.ok hopen
      dsimp only
      unfold openListed
      rw [hlisted]
      exact .ok trivial

theorem fileRemove_halts (hs : s.machine.Sound) : Ends (fun _ => True) (s.Halts .remove) (s.fileRemove fresh) := by
  refine (copyName_halts hs maxFileLength (by decide) (by decide)).bind ?_
  rintro ⟨name, s₁⟩ -
  dsimp only
  split
  · exact .ok trivial
  · refine Ends.bind (Q := fun _ => True) (Ends.of_eq (show (stub Entry).remove fresh.junk s₁.fileSystem.files name = .ok _ from rfl)
      trivial) ?_
    rintro ⟨removed, files⟩ -
    dsimp only
    split <;> exact .ok trivial

/-! ## Calls with a number -/

section

variable (h : (calls (stub Entry)).Reachable s.fileSystem)

include h

/-- The descriptors in the table are open. -/
theorem opened_of_reachable {i : Fin 20} {entry : Listed (stub Entry)} (he : s.fileSystem.listFile i = some entry) :
    ∃ file, s.fileSystem.files.Opened entry.file.file file := by
  obtain ⟨d, hd⟩ := Option.isSome_iff_exists.1
    ((Stub.descriptors_of_reachable h).opened i entry.file.file (by unfold Stub.fds; rw [he]; rfl))
  exact ⟨d.file, d.offset, hd⟩

theorem fileClose_halts (hf : ¬s.CallFaults fresh .close) : Ends (fun _ => True) (s.Halts .close) s.fileClose := by
  have hne : (s.readRegister 4).toInt ≠ 20 := hf
  unfold fileClose
  dsimp only
  split
  · exact .ok trivial
  · obtain ⟨i, hi⟩ := FileTable.exists_index (show 0 ≤ (s.readRegister 4).toInt by omega) (by omega)
    rw [← hi, FileTable.slot_of, ok_bind]
    cases he : s.fileSystem.listFile i with
    | none => exact .ok trivial
    | some entry =>
      obtain ⟨file, ho⟩ := opened_of_reachable h he
      obtain ⟨files, hclose⟩ := Stub.close_of ho
      dsimp only
      rw [show (stub Entry).close s.fileSystem.files entry.file = .ok files from hclose]
      exact .ok trivial

theorem fileSeek_halts (hf : ¬s.CallFaults fresh .seek) : Ends (fun _ => True) (s.Halts .seek) s.fileSeek := by
  have hne : (s.readRegister 5).toInt ≠ 20 := hf
  by_cases hid : 2 ≤ (s.readRegister 5).toInt ∧ (s.readRegister 5).toInt < 20
  · obtain ⟨i, hi⟩ := FileTable.exists_index (show 0 ≤ (s.readRegister 5).toInt by omega) (by omega)
    cases he : s.fileSystem.listFile i with
    | none =>
      unfold fileSeek
      dsimp only
      rw [← hi, if_neg (by omega), FileTable.slot_of, he]
      exact .ok trivial
    | some entry =>
      have hu : (Build.stub Entry inferInstance).Usable s.fileSystem.files entry.file :=
        ⟨opened_of_reachable h he, (Stub.descriptors_of_reachable h).sized⟩
      obtain ⟨s', hseek, -⟩ := fileSeek_sought (b := .stub Entry inferInstance) (s := s) hu he (by omega) hi.symm
      exact .of_eq hseek trivial
  · unfold fileSeek
    dsimp only
    split
    · exact .ok trivial
    · obtain ⟨i, hi⟩ := FileTable.exists_index (show 0 ≤ (s.readRegister 5).toInt by omega) (by omega)
      rw [← hi, FileTable.slot_of, ok_bind]
      cases s.fileSystem.listFile i with
      | none => exact .ok trivial
      | some entry =>
        dsimp only
        rw [if_pos (by omega)]
        exact .ok trivial

/-- `Read` from a file, with a buffer of a possible size and a cursor that can be sought. -/
theorem fileRead_halts (hs : s.machine.Sound) (hf : ¬s.CallFaults fresh .read) :
    Ends (fun _ => True) (s.Halts .read) (s.fileRead fresh) := by
  obtain ⟨hne, h0, htransfer⟩ : (s.readRegister 6).toInt ≠ 20 ∧ (s.readRegister 6).toInt ≠ 0 ∧ ¬s.TransferFaults _ := by
    simpa only [CallFaults, not_or] using hf
  unfold fileRead
  dsimp only
  split
  · exact .ok trivial
  · obtain ⟨i, hi⟩ := FileTable.exists_index (show 0 ≤ (s.readRegister 6).toInt by omega) (by omega)
    rw [← hi, FileTable.slot_of, ok_bind]
    cases he : s.fileSystem.listFile i with
    | none => exact .ok trivial
    | some entry =>
      have hlimit : ¬BadLimit (s.readRegister 5) := fun hbad => htransfer ⟨i, entry, by omega, hi, he, .inl hbad⟩
      obtain ⟨file, ho⟩ := opened_of_reachable h he
      dsimp only
      by_cases hread : s.machine.Readable (s.readRegister 4) (s.readRegister 5).toInt.toNat
      · have hcursor : 0 ≤ entry.file.currentOffset ∧ entry.file.currentOffset ≤ maxOffset := by
          by_contra hbad
          exact htransfer ⟨i, entry, by omega, hi, he, .inr ⟨hread, hbad⟩⟩
        refine ((user2System_halts hs _ hlimit _).mono (fun _ h => h) fun f hf => absurd hread hf.2).bind ?_
        rintro ⟨buffer, machine⟩ ⟨htouch, hsize, -⟩
        dsimp only at htouch hsize ⊢
        obtain ⟨r, hr⟩ := (Stub.OpenFile.read_ok_iff ho buffer.bytes (s.readRegister 5).toInt).2 hcursor
        refine Ends.bind (Q := fun r => r.1 ≤ max 0 (s.readRegister 5).toInt)
          (.of_eq (show (stub Entry).read s.fileSystem.files entry.file buffer.bytes (s.readRegister 5).toInt = .ok r from hr)
            ((Stub.read_mild entry.file s.fileSystem.files buffer.bytes (s.readRegister 5).toInt).of_ok hr)) ?_
        rintro ⟨n_buf, bytes, file', files⟩ hle
        dsimp only at hle ⊢
        split
        · have hroom : n_buf ≤ buffer.size := by
            unfold BadLimit at hlimit
            omega
          refine ((system2User_halts (htouch.sameControl.sound hs) _
            (show n_buf ≤ ({ buffer with bytes } : KernelBuffer).size from hroom)).mono (fun _ h => h) ?_).bind fun _ _ => .ok trivial
          rintro f ⟨hf, hb⟩
          exact ⟨hf, fun hbuffer => hb ((htouch.toSameMapping.buffer hbuffer).of_le (by omega))⟩
        · exact .ok trivial
      · rw [user2System_unmapped hs hlimit hread]
        exact .error ⟨rfl, mt Buffer.mapped hread⟩

/-- `Write` to a file, with a buffer of a possible size and a cursor in front of which the bytes fit. -/
theorem fileWrite_halts (hs : s.machine.Sound) (hf : ¬s.CallFaults fresh .write) :
    Ends (fun _ => True) (s.Halts .write) (s.fileWrite fresh) := by
  obtain ⟨h0, hne, htransfer⟩ : ¬(s.readRegister 5).toInt < 0 ∧ (s.readRegister 6).toInt ≠ 20 ∧ ¬s.TransferFaults _ := by
    simpa only [CallFaults, not_or] using hf
  unfold fileWrite KernelBuffer.new
  dsimp only
  rw [newChars_of (by omega), ok_bind]
  split
  · exact .ok trivial
  · obtain ⟨i, hi⟩ := FileTable.exists_index (show 0 ≤ (s.readRegister 6).toInt by omega) (by omega)
    rw [← hi, FileTable.slot_of, ok_bind]
    cases he : s.fileSystem.listFile i with
    | none => exact .ok trivial
    | some entry =>
      dsimp only
      split
      · exact .ok trivial
      · have hlimit : ¬BadLimit (s.readRegister 5) := fun hbad => htransfer ⟨i, entry, by omega, hi, he, .inl hbad⟩
        obtain ⟨file, ho⟩ := opened_of_reachable h he
        by_cases hread : s.machine.Readable (s.readRegister 4) (s.readRegister 5).toInt.toNat
        · have hcursor : 0 ≤ entry.file.currentOffset ∧ entry.file.currentOffset + (s.readRegister 5).toInt ≤ maxOffset := by
            by_contra hbad
            exact htransfer ⟨i, entry, by omega, hi, he, .inr ⟨hread, hbad⟩⟩
          refine ((user2System_halts hs _ hlimit _).mono (fun _ h => h) fun f hf => absurd hread hf.2).bind ?_
          rintro ⟨buffer, machine⟩ ⟨-, hsize, hbytes⟩
          dsimp only at hsize hbytes ⊢
          obtain ⟨r, hr⟩ := (Stub.OpenFile.write_ok_iff ho buffer.bytes (by omega)).2 hcursor
          refine Ends.bind (Q := fun r => r.1 = (s.readRegister 5).toInt)
            (.of_eq (show (stub Entry).write fresh.junk s.fileSystem.files entry.file buffer.bytes (s.readRegister 5).toInt = .ok r from hr)
              (Stub.OpenFile.write_count hr).1) ?_
          rintro ⟨n_buf, file', files⟩ hn
          dsimp only at hn ⊢
          split
          · exact .ok trivial
          · split
            · -- nothing was to be written, and the buffer holds the terminator only
              have hzero : (s.readRegister 5).toInt = 0 := by omega
              have hfirst : decide (buffer.bytes 0 = 0 ∨ buffer.bytes 0 = newline) = true := by
                rw [hbytes, hzero]
                rfl
              obtain ⟨text, htext⟩ := KernelBuffer.upTo_of (fun c => decide (c = 0 ∨ c = newline))
                (show 0 < buffer.size by omega) hfirst
              rw [htext]
              exact .ok trivial
            · exact .ok trivial
        · rw [user2System_unmapped hs hlimit hread]
          exact .error ⟨rfl, hread⟩

end

/-- A call that does not fault returns, or halts the machine. -/
theorem systemCall_halts (h : (calls (stub Entry)).Reachable s.fileSystem) (hs : s.machine.Sound) {code : SyscallCode}
    (hf : ¬s.CallFaults fresh code) : Ends (fun _ => True) (s.Halts code) (s.systemCall fresh code) := by
  cases code with
  | halt => exact .error ⟨rfl, trivial⟩
  | add | sub | randomNum | printChar | printNum => exact .ok trivial
  | exit | exec | join | threadFork | threadYield | execV | threadExit | threadJoin => exact .ok trivial
  | readNum =>
    obtain ⟨-, s', hs'⟩ | ⟨hnot, -⟩ := s.readNum_cases fresh
    · exact .of_eq hs' trivial
    · exact absurd hnot hf
  | readChar =>
    change Ends _ _ (s.readChar fresh)
    rw [readChar_eq]
    exact .ok trivial
  | readString => exact readString_halts hs hf
  | printString => exact printString_halts hs
  | create => exact fileCreate_halts hs hf
  | «open» => exact fileOpen_halts hs hf
  | remove => exact fileRemove_halts hs
  | close => exact fileClose_halts h hf
  | read => exact fileRead_halts h hs hf
  | write => exact fileWrite_halts h hs hf
  | seek => exact fileSeek_halts h hf

theorem Faulty.map {α β : Type} {x : Except Fault α} (f : α → β) (h : Faulty x) : Faulty (x.map f) := by
  obtain ⟨fault, hne, rfl⟩ := h
  exact ⟨fault, hne, rfl⟩

/-- A call with a case that does not fault returns with the program counter advanced, or halts the machine. -/
theorem exceptionHandler_halts (h : (calls (stub Entry)).Reachable s.fileSystem) (hs : s.machine.Sound) {code : SyscallCode}
    (hcode : code ∈ SyscallCode.cases) (hr : s.readRegister 2 = code.number) (hf : ¬s.CallFaults fresh code) :
    Ends (Advanced s) (s.Halts code) (s.exceptionHandler .syscallException fresh) := by
  have hreturns := (s.returns_advanced_iff fresh).2 ⟨code, hcode, hr⟩
  rw [exceptionHandler_of hcode hr] at hreturns ⊢
  have hends := systemCall_halts h hs hf
  cases hcall : s.systemCall fresh code with
  | ok s₁ =>
    rw [hcall] at hreturns
    exact .ok (hreturns _ rfl)
  | error f => exact .error (hends.of_error hcall)

/-- A machine at the instruction `syscall`, which stands at 64, with the name for the call at 0. -/
def issuing (code : SyscallCode) (name : Name) : Machine :=
  ofProgram (fun r => if r = Reg.pcReg then 64 else if r = Reg.nextPCReg then 68 else callRegisters code.number 0 0 0 r)
    fun j => if j = 64 then 0x0c else name.toBuf j

/-- The kernel, entered from there after its start. -/
def issued (code : SyscallCode) (name : Name) : System (stub Name) where
  machine :=
    match (issuing code name).oneInstruction with
    | .error (.raise _ m) => m
    | _ => issuing code name
  fileSystem := Stub.started
  consoleIn _ := 0
  consoleOut := []

end

end System

end Nachos
