import Nachos.Userprog.Names

/-!
# Failing opens and removals of open files

`Open` follows the pointer that it has been given before it tests it. `Remove` looks for the name in slots 2 to 19 and then leaves it to
the file system what the name stands for.
-/

namespace Nachos

open Loop Posix FileSystemObject Machine

namespace System

variable {C : FileSystemClass}

/-- A code with a case is answered by the handler of the case. -/
theorem exceptionHandler_of {s : System C} {fresh : Fresh} {code : SyscallCode} (hcode : code ∈ SyscallCode.cases)
    (hr : s.readRegister 2 = code.number) :
    s.exceptionHandler .syscallException fresh = (s.systemCall fresh code).map increasePC := by
  unfold exceptionHandler
  rw [SyscallCode.select_eq_some.2 ⟨hcode, hr.symm⟩]
  dsimp only
  cases s.systemCall fresh code <;> rfl

/-- The call answers with a negative number and has left the file system as it was. -/
def FailsCleanly (s : System C) (x : Except Fault (System C)) : Prop :=
  ∃ s', x = .ok s' ∧ (s'.readRegister 2).toInt < 0 ∧ s'.fileSystem = s.fileSystem

theorem failsCleanly_map {s : System C} {x : Except Fault (System C)} : FailsCleanly s (x.map increasePC) ↔ FailsCleanly s x := by
  unfold FailsCleanly
  constructor
  · rintro ⟨s', h, hr, hfs⟩
    cases x with
    | error f => cases h
    | ok s₁ =>
      cases h
      exact ⟨s₁, rfl, hr, hfs⟩
  · rintro ⟨s', rfl, hr, hfs⟩
    exact ⟨_, rfl, hr, hfs⟩

/-- When the file system cannot open a file, `Open` fails cleanly exactly if all slots are used and none has the name: then it does not
get as far as the pointer. -/
theorem failing_open {s s₁ : System C} {fresh : Fresh} {name : Name} {files : C.Files} (hr : s.readRegister 2 = SyscallCode.open.number)
    (hname : s.openName fresh = .ok (name, s₁))
    (hopen : C.open fresh.junk s.fileSystem.files s.fileSystem.listFile.files name = .ok (none, files)) :
    FailsCleanly s (s.exceptionHandler .syscallException fresh) ↔
      (∀ i : Fin 20, 2 ≤ i.val → (s.fileSystem.listFile i).isSome) ∧
        ∀ (i : Fin 20) (entry : Listed C), 2 ≤ i.val → s.fileSystem.listFile i = some entry → entry.fileName ≠ name := by
  have hfs := copyName_fileSystem hname
  rw [exceptionHandler_of (by decide) hr, failsCleanly_map]
  change FailsCleanly s (s.fileOpen fresh) ↔ _
  unfold fileOpen
  rw [hname, ok_bind]
  dsimp only
  rw [hfs]
  cases hfind : s.fileSystem.listFile.findName name with
  | some i =>
    obtain ⟨h2, entry, he, hentry⟩ := FileTable.of_findName hfind
    refine iff_of_false ?_ fun h => h.2 i entry h2 he hentry
    rintro ⟨s', h, hneg, -⟩
    cases h
    rw [writeRegister_readRegister, toInt_slot] at hneg
    omega
  | none =>
    have hno := FileTable.findName_eq_none.1 hfind
    cases hfree : findFreeSlot s.fileSystem.listFile with
    | none =>
      refine iff_of_true ⟨_, rfl, ?_, hfs⟩ ⟨findFreeSlot_eq_none.1 hfree, fun i entry h2 he => hno i h2 entry he⟩
      rw [writeRegister_readRegister]
      decide
    | some i =>
      obtain ⟨h2, hi, -⟩ := findFreeSlot_eq_some.1 hfree
      refine iff_of_false ?_ ?_
      · rintro ⟨s', h, -⟩
        unfold openListed at h
        rw [hopen] at h
        cases h
      · intro h
        have := h.1 i h2
        rw [hi] at this
        cases this

/-- A table without a free slot. -/
def fullTable : FileTable (stub Name) := fun i => some ⟨⟨i.val, 0⟩, [UInt8.ofNat (65 + i.val)]⟩

theorem failing_open_full :
    let s : System (stub Name) := { withName 6 (ascii "a") with fileSystem := ⟨fullTable, Host.empty⟩ }
    FailsCleanly s (s.exceptionHandler .syscallException .zero) :=
  (failing_open rfl rfl rfl).2 ⟨fun _ _ => rfl, fun i entry _ he => by
    cases he
    revert i
    decide⟩

/-- The first `Open` of a file that does not exist. -/
theorem failing_open_missing : (calls (stub Name)).Reachable (withName 6 (ascii "a")).fileSystem ∧
    (withName 6 (ascii "a")).exceptionHandler .syscallException .zero = .error .nullDereference :=
  ⟨Stub.reachable_started, rfl⟩

end System

/-! ## The real file system -/

/-- `Open` of the real file system gives back a free slot, which holds no file. -/
theorem real_open_none {fs : FileSystem} {junk : Nat → Bytes.Buf} {listFile : Fin 20 → Option OpenFile} {name : Bytes.Buf}
    {opened : Option OpenFile} (h : fs.open junk listFile name = .ok opened) : opened = none := by
  unfold FileSystem.open at h
  obtain ⟨directory, -, h⟩ := of_bind_ok h
  dsimp only at h
  cases hi : findFreeSlot listFile with
  | none =>
    simp only [hi] at h
    split at h
    · obtain ⟨file, -, h⟩ := of_bind_ok h
      cases h
    · cases h
  | some i =>
    have hslot := (findFreeSlot_eq_some.1 hi).2.1
    simp only [hi, hslot] at h
    split at h
    · obtain ⟨file, -, h⟩ := of_bind_ok h
      cases h
      rfl
    · cases h
      rfl

/-- The build with the real file system does not get through the start of the kernel. -/
theorem real_unreachable {fs : FileSystemObject real} : ¬(calls real).Reachable fs := by
  intro h
  refine Transition.System.Reachable.invariant (I := fun _ => False) ?_ (fun _ _ _ h _ => h) h
  rintro fs ⟨files, junk, -, hnew⟩
  obtain ⟨stdin, _, _, _, _, _, _, _, _, _, hopen, -⟩ := of_new hnew
  obtain ⟨opened, ho, hr⟩ := of_bind_ok hopen
  have := real_open_none ho
  cases hr
  cases this

/-! ## Removing -/

namespace Stub

variable {Entry : Type} [DecidableEq Entry]

/-- The file that a name stands for is open. -/
def TargetOpen (fs : FileSystemObject (stub Entry)) (name : Name) : Prop :=
  ∃ (i : Fin 20) (fd : Nat) (d : Description), fds fs i = some fd ∧ fs.files.descriptors fd = some d ∧
    fs.files.lookup name = some d.file

/-- A name that stands for a file can be unlinked. -/
theorem remove_of_lookup {h : Host Entry} {name : Name} {file : Nat} (hl : h.lookup name = some file) : (remove h name).1 = true := by
  obtain ⟨entry, hresolve, hentry⟩ := Option.bind_eq_some_iff.1 hl
  unfold remove Host.unlink
  rw [hresolve]
  dsimp only
  rw [hentry]

/-- Whatever calls came before: a file that is open survives `Remove`, which answers -1, exactly if the name given is the name of one of
the slots 2 to 19. -/
theorem open_file_kept {fs : FileSystemObject (stub Entry)} {s s₁ : System (stub Entry)} {fresh : Fresh} {name : Name}
    (hs : s.fileSystem = fs) (hr : s.readRegister 2 = SyscallCode.remove.number)
    (hname : s.removeName fresh = .ok (name, s₁)) (hopen : TargetOpen fs name) :
    (∃ s', s.exceptionHandler .syscallException fresh = .ok s' ∧ s'.readRegister 2 = -1 ∧ s'.fileSystem = fs) ↔
      ∃ (i : Fin 20) (entry : Listed (stub Entry)), 2 ≤ i.val ∧ fs.listFile i = some entry ∧ entry.fileName = name := by
  subst hs
  rw [System.exceptionHandler_of (by decide) hr]
  constructor
  · rintro ⟨s', h, hneg, -⟩
    obtain ⟨s₂, hs₂, rfl⟩ := of_map_ok (show (s.fileRemove fresh).map System.increasePC = .ok s' from h)
    obtain ⟨name', s₁', hname', ⟨⟨i, hfind⟩, -, -⟩ | ⟨-, removed, files, hremove, -, hanswer⟩⟩ := System.fileRemove_cases hs₂
    · obtain rfl : name' = name := congrArg Prod.fst (Except.ok.inj (hname'.symm.trans hname))
      obtain ⟨h2, entry, he, hentry⟩ := FileTable.of_findName hfind
      exact ⟨i, entry, h2, he, hentry⟩
    · obtain rfl : name' = name := congrArg Prod.fst (Except.ok.inj (hname'.symm.trans hname))
      obtain ⟨i, fd, d, -, -, hl⟩ := hopen
      obtain rfl : removed = true :=
        (congrArg Prod.fst (Except.ok.inj hremove)).symm.trans (remove_of_lookup hl)
      rw [System.increasePC_readRegister, hanswer] at hneg
      exact absurd hneg (by decide)
  · rintro ⟨i, entry, h2, he, hentry⟩
    have hfs := System.copyName_fileSystem hname
    have hcall : s.systemCall fresh .remove = .ok (s₁.writeRegister 2 (-1)) := by
      change s.fileRemove fresh = _
      unfold System.fileRemove
      rw [hname, ok_bind]
      dsimp only
      rw [hfs]
      cases hfind : s.fileSystem.listFile.findName name with
      | some j => rfl
      | none => exact absurd hentry (FileTable.findName_eq_none.1 hfind i h2 entry he)
    rw [hcall]
    exact ⟨_, rfl, rfl, hfs⟩

/-- The kernel after a program has opened the file named stdin. -/
def stdinOpened : System (stub Name) :=
  ((System.withName 6 (ascii "stdin")).exceptionHandler .syscallException .zero).toOption.getD (System.withName 6 (ascii "stdin"))

theorem reachable_stdinOpened : (calls (stub Name)).Reachable stdinOpened.fileSystem :=
  .step reachable_started ⟨System.withName 6 (ascii "stdin"), stdinOpened, .zero, rfl, rfl, rfl⟩

theorem open_file_kept_stdin :
    let s : System (stub Name) := { System.withName 5 (ascii "stdin") with fileSystem := stdinOpened.fileSystem }
    ∃ s', s.exceptionHandler .syscallException .zero = .ok s' ∧ s'.readRegister 2 = -1 ∧
      s'.fileSystem = stdinOpened.fileSystem := by
  intro s
  obtain ⟨s₁, hname⟩ := System.copyName_of (s := s) (ofProgram_stringAt _ (by decide) (by decide)) .zero
    (show ¬BadLimit maxFileLength by decide) (by decide)
  exact (open_file_kept (s := s) rfl rfl hname ⟨0, 2, ⟨0, 0⟩, rfl, rfl, rfl⟩).2
    ⟨2, ⟨⟨4, 0⟩, ascii "stdin"⟩, by decide, rfl, rfl⟩

/-- After the start of the kernel the file named stdin is open, and a program can remove it. -/
theorem open_file_removed : (calls (stub Name)).Reachable started ∧ TargetOpen started (ascii "stdin") ∧
    ∃ s', (System.withName 5 (ascii "stdin")).exceptionHandler .syscallException .zero = .ok s' ∧ s'.readRegister 2 = 0 ∧
      s'.fileSystem.files.lookup (ascii "stdin") = none := by
  refine ⟨reachable_started, ⟨0, 2, ⟨0, 0⟩, rfl, rfl, rfl⟩, _, rfl, rfl, rfl⟩

end Stub

end Nachos
