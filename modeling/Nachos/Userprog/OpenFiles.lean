import Nachos.Userprog.Faults

/-!
# The table of the open files (threads/kernel.cc)

In any run of system calls: the console stays open, names stay different, `Open` shares or takes the least free slot, and the calls on an
open file leave all the others alone. The calls come back, but for those that fault and those whose memory is not mapped.
-/

namespace Nachos

open Bytes Loop Posix Machine Nachos.System

namespace Stub

variable {Entry : Type} [DecidableEq Entry]

/-- The calls on the files and on their table. -/
def fileCalls : List SyscallCode := [.create, .remove, .open, .read, .write, .seek, .close]

/-- A call that neither faults nor halts the machine comes back. -/
theorem call_returns {s : System (stub Entry)} {fresh : Fresh} (h : (calls (stub Entry)).Reachable s.fileSystem) (hs : s.machine.Sound)
    {code : SyscallCode} (hcode : code ∈ SyscallCode.cases) (hr : s.readRegister 2 = code.number) (hmay : ¬s.MayHalt code)
    (hf : ¬s.CallFaults fresh code) : ∃ s', s.exceptionHandler .syscallException fresh = .ok s' := by
  have hends := exceptionHandler_halts h hs hcode hr hf
  cases hcall : s.exceptionHandler .syscallException fresh with
  | ok s' => exact ⟨s', rfl⟩
  | error f => exact absurd (hends.of_error hcall).2 hmay

/-- `Open` of a file that is open, or that exists, comes back. -/
theorem open_returns {s : System (stub Entry)} {fresh : Fresh} (h : (calls (stub Entry)).Reachable s.fileSystem) (hs : s.machine.Sound)
    (hr : s.readRegister 2 = SyscallCode.open.number) (hread : s.machine.Readable (s.readRegister 4) 32)
    (hexists : Holds s.fileSystem (s.text 32) ∨ (s.fileSystem.files.lookup (s.text 32)).isSome) :
    ∃ s', s.exceptionHandler .syscallException fresh = .ok s' ∧ OpenCall s s' (s.text 32) := by
  have hf : ¬s.CallFaults fresh .open := by
    rintro ⟨-, hnot, -, hnone⟩
    rcases hexists with hholds | hlookup
    · exact hnot hholds
    · rw [hnone] at hlookup
      cases hlookup
  obtain ⟨s', hcall⟩ := call_returns h hs (by decide) hr (not_not.2 hread) hf
  obtain ⟨name, s₁, hname, ho⟩ := (tableCall_of_reachable h hcall).opened hr
  obtain ⟨-, rfl⟩ := (copyName_ok_iff fresh (by decide) (by decide)).1 ⟨s₁, hname⟩
  exact ⟨s', hcall, ho⟩

/-- In every run of system calls: the console is open; the other slots differ in their names; every call that returns leaves the console
on its descriptors, `Open` of a name that a slot holds answers with that slot, and of another name with the least free one or, when all
are used, with -1, and the calls on an open file leave all the others alone; the calls that neither fault nor halt the machine return, and
so does `Open` of a file that is open or that exists. -/
theorem open_table {fs : FileSystemObject (stub Entry)} (h : (calls (stub Entry)).Reachable fs) :
    (∀ i : Fin 20, i.val < 2 → ∃ fd, fds fs i = some fd ∧ (fs.files.descriptors fd).isSome) ∧
    (∀ (i j : Fin 20) (entry entry' : Listed (stub Entry)), 2 ≤ i.val → 2 ≤ j.val → fs.listFile i = some entry →
      fs.listFile j = some entry' → entry.fileName = entry'.fileName → i = j) ∧
    (∀ (s s' : System (stub Entry)) (fresh : Fresh), s.fileSystem = fs → s.exceptionHandler .syscallException fresh = .ok s' →
      TableCall s s' fresh) ∧
    ∀ (s : System (stub Entry)) (fresh : Fresh), s.fileSystem = fs → s.machine.Sound →
      (∀ code ∈ fileCalls, s.readRegister 2 = code.number → ¬s.MayHalt code → ¬s.CallFaults fresh code →
        ∃ s', s.exceptionHandler .syscallException fresh = .ok s' ∧ TableCall s s' fresh) ∧
      (s.readRegister 2 = SyscallCode.open.number → s.machine.Readable (s.readRegister 4) 32 →
        Holds fs (s.text 32) ∨ (fs.files.lookup (s.text 32)).isSome →
        ∃ s', s.exceptionHandler .syscallException fresh = .ok s' ∧ OpenCall s s' (s.text 32)) := by
  refine ⟨fun i hi => console_open h hi, fun i j entry entry' hi hj he he' heq => names_distinct h hi hj he he' heq, ?_, ?_⟩
  · rintro s s' fresh rfl hcall
    exact tableCall_of_reachable h hcall
  · rintro s fresh rfl hs
    refine ⟨?_, fun hr hread hexists => open_returns h hs hr hread hexists⟩
    intro code hcode hr hmay hf
    have hcases : ∀ code ∈ fileCalls, code ∈ SyscallCode.cases := by decide
    obtain ⟨s', hcall⟩ := call_returns h hs (hcases code hcode) hr hmay hf
    exact ⟨s', hcall, tableCall_of_reachable h hcall⟩

/-- A program calls with the file named stdin open in slot 2. -/
def callingWithStdin (code : SyscallCode) (arg1 arg2 arg3 : BitVec 32) (mainMemory : Buf) : System (stub Name) :=
  { calling code.number arg1 arg2 arg3 mainMemory with fileSystem := stdinOpened.fileSystem }

/-- With the file named stdin open in slot 2: `Open` finds it there and opens another file in slot 3, `Close` and `Read` leave the other
files alone. -/
theorem open_table_stdinOpened :
    (∃ s', (callingWithStdin .open 0 0 0 (ascii "stdin").toBuf).exceptionHandler .syscallException .zero = .ok s' ∧
      s'.readRegister 2 = 2 ∧ s'.fileSystem = stdinOpened.fileSystem) ∧
    (∃ s', (callingWithStdin .open 0 0 0 (ascii "stdout").toBuf).exceptionHandler .syscallException .zero = .ok s' ∧
      s'.readRegister 2 = 3 ∧ ∃ entry, s'.fileSystem.listFile 3 = some entry ∧ entry.fileName = ascii "stdout") ∧
    (∃ s', (callingWithStdin .close 2 0 0 fun _ => 0).exceptionHandler .syscallException .zero = .ok s' ∧
      OthersKept 2 stdinOpened.fileSystem s'.fileSystem) ∧
    ∃ s', (callingWithStdin .read 0 1 2 fun _ => 0).exceptionHandler .syscallException .zero = .ok s' ∧
      OthersKept 2 stdinOpened.fileSystem s'.fileSystem ∧ s'.fileSystem.names = stdinOpened.fileSystem.names := by
  have hcalls (code : SyscallCode) (arg1 arg2 arg3 : BitVec 32) (mainMemory : Buf) :=
    (open_table reachable_stdinOpened).2.2.2 (callingWithStdin code arg1 arg2 arg3 mainMemory) .zero rfl
      ⟨show (0 : BitVec 32).toNat < 32 by decide, (identity_ofProgram _ _).oneScheme⟩
  have htext {mainMemory : Buf} {name : Name} {s₁ : System (stub Name)}
      (h : (callingWithStdin .open 0 0 0 mainMemory).copyName .zero 32 = .ok (name, s₁)) :
      (callingWithStdin .open 0 0 0 mainMemory).machine.Readable 0 32 ∧ name = (callingWithStdin .open 0 0 0 mainMemory).text 32 :=
    (copyName_ok_iff .zero (by decide) (by decide)).1 ⟨s₁, h⟩
  have hfree (i : Fin 20) (hi : 3 ≤ i.val) : (stdinOpened.fileSystem.listFile i).isNone := by
    revert i
    decide
  refine ⟨?_, ?_, ?_, ?_⟩
  · obtain ⟨hread, hname⟩ := htext
      (show (callingWithStdin .open 0 0 0 (ascii "stdin").toBuf).copyName .zero 32 = .ok (ascii "stdin", _) from rfl)
    obtain ⟨s', hcall, ho⟩ := (hcalls .open 0 0 0 (ascii "stdin").toBuf).2 rfl hread
      (.inl ⟨2, _, by decide, listFile_stdinOpened, hname⟩)
    exact ⟨s', hcall, ho.held 2 _ (by decide) listFile_stdinOpened hname⟩
  · obtain ⟨hread, hname⟩ := htext
      (show (callingWithStdin .open 0 0 0 (ascii "stdout").toBuf).copyName .zero 32 = .ok (ascii "stdout", _) from rfl)
    have hexists : (stdinOpened.fileSystem.files.lookup
        ((callingWithStdin .open 0 0 0 (ascii "stdout").toBuf).text 32)).isSome := by
      rw [← hname]
      rfl
    obtain ⟨s', hcall, ho⟩ := (hcalls .open 0 0 0 (ascii "stdout").toBuf).2 rfl hread (.inr hexists)
    have hother : ∀ (i : Fin 20) (entry : Listed (stub Name)), 2 ≤ i.val → stdinOpened.fileSystem.listFile i = some entry →
        entry.fileName ≠ (callingWithStdin .open 0 0 0 (ascii "stdout").toBuf).text 32 := by
      intro i entry h2 he
      rw [← hname]
      rcases Nat.lt_or_ge i.val 3 with h3 | h3
      · obtain rfl : i = 2 := Fin.ext (by omega)
        cases he
        decide
      · have hnone := hfree i h3
        rw [he] at hnone
        cases hnone
    have hleast : ∀ j : Fin 20, 2 ≤ j.val → j < 3 → (stdinOpened.fileSystem.listFile j).isSome := by decide
    obtain ⟨hr, hopened, -⟩ := ho.free hother 3 (by decide) rfl hleast
    rw [← hname] at hopened
    exact ⟨s', hcall, hr, hopened⟩
  · obtain ⟨s', hcall, ht⟩ := (hcalls .close 2 0 0 fun _ => 0).1 .close (by decide) rfl not_false
      (show (2 : BitVec 32).toInt ≠ 20 by decide)
    exact ⟨s', hcall, ht.closed rfl⟩
  · have hbuffer : (callingWithStdin .read 0 1 2 fun _ => 0).machine.Buffer 0 1 := buffer_ofProgram _ _ (by decide)
    have hf : ¬(callingWithStdin .read 0 1 2 fun _ => 0).CallFaults .zero .read := by
      rintro (h20 | h0 | ⟨i, entry, -, hi, he, hbad | ⟨-, hcursor⟩⟩)
      · exact absurd h20 (by decide)
      · exact absurd h0 (by decide)
      · exact absurd hbad (by decide)
      · have hi : (i.val : Int) = 2 := hi
        obtain rfl : i = 2 := Fin.ext (by omega)
        cases he
        exact hcursor (by decide)
    obtain ⟨s', hcall, ht⟩ := (hcalls .read 0 1 2 fun _ => 0).1 .read (by decide) rfl (not_not.2 hbuffer) hf
    obtain ⟨hkept, hnames, -⟩ := ht.transferred (.inl rfl)
    exact ⟨s', hcall, hkept, hnames⟩

end Stub

end Nachos
