import Nachos.Userprog.Table

/-!
# The system calls as steps on the table of the open files

One lemma per handler says all that the handler can do to the file system when it returns, and what it answers.
-/

namespace Nachos

open Bytes Loop Relation FileSystemObject

namespace System

variable {C : FileSystemClass}

theorem copyName_fileSystem {s s₁ : System C} {fresh : Fresh} {limit : BitVec 32} {name : Name}
    (h : s.copyName fresh limit = .ok (name, s₁)) : s₁.fileSystem = s.fileSystem := ((s.copyName_ends fresh limit).of_ok h).2

@[simp] theorem writeRegister_fileSystem (s : System C) (num : Reg) (value : BitVec 32) :
    (s.writeRegister num value).fileSystem = s.fileSystem := rfl

@[simp] theorem writeRegister_readRegister (s : System C) (num : Reg) (value : BitVec 32) :
    (s.writeRegister num value).readRegister num = value := Machine.writeRegister_self _ _ _

/-! ## Calls with a name -/

theorem fileCreate_cases {s s' : System C} {fresh : Fresh} (h : s.fileCreate fresh = .ok s') :
    ∃ name s₁ created files, s.createName fresh = .ok (name, s₁) ∧
      C.create fresh.junk s.fileSystem.files name 0 = .ok (created, files) ∧ s'.fileSystem = { s.fileSystem with files } ∧
      s'.readRegister 2 = if created then 0 else -1 := by
  unfold fileCreate at h
  obtain ⟨⟨name, s₁⟩, hname, h⟩ := of_bind_ok h
  obtain ⟨⟨created, files⟩, hcreate, h⟩ := of_bind_ok h
  have hfs := copyName_fileSystem hname
  dsimp only at hcreate h
  rw [hfs] at hcreate h
  refine ⟨name, s₁, created, files, hname, hcreate, ?_⟩
  cases created <;> cases h <;> exact ⟨rfl, rfl⟩

theorem fileOpen_cases {s s' : System C} {fresh : Fresh} (h : s.fileOpen fresh = .ok s') :
    ∃ name s₁, s.openName fresh = .ok (name, s₁) ∧
      ((∃ i : Fin 20, s.fileSystem.listFile.findName name = some i ∧ s'.fileSystem = s.fileSystem ∧
          s'.readRegister 2 = BitVec.ofNat 32 i) ∨
        s.fileSystem.listFile.findName name = none ∧
          (findFreeSlot s.fileSystem.listFile = none ∧ s'.fileSystem = s.fileSystem ∧ s'.readRegister 2 = -1 ∨
            ∃ (i : Fin 20) (file : C.OpenFile) (files : C.Files), findFreeSlot s.fileSystem.listFile = some i ∧
              C.open fresh.junk s.fileSystem.files s.fileSystem.listFile.files name = .ok (some file, files) ∧
              s'.fileSystem = ⟨Function.update s.fileSystem.listFile i (some ⟨file, name⟩), files⟩ ∧
              s'.readRegister 2 = BitVec.ofNat 32 i)) := by
  unfold fileOpen at h
  obtain ⟨⟨name, s₁⟩, hname, h⟩ := of_bind_ok h
  have hfs := copyName_fileSystem hname
  dsimp only at h
  rw [hfs] at h
  refine ⟨name, s₁, hname, ?_⟩
  cases hfind : s.fileSystem.listFile.findName name with
  | some i =>
    rw [hfind] at h
    cases h
    exact .inl ⟨i, rfl, hfs, writeRegister_readRegister _ _ _⟩
  | none =>
    rw [hfind] at h
    refine .inr ⟨rfl, ?_⟩
    cases hfree : findFreeSlot s.fileSystem.listFile with
    | none =>
      rw [hfree] at h
      cases h
      exact .inl ⟨rfl, hfs, writeRegister_readRegister _ _ _⟩
    | some i =>
      rw [hfree] at h
      obtain ⟨fileSystem, hlisted, h⟩ := of_bind_ok h
      obtain ⟨file, files, hopen, rfl⟩ := of_openListed hlisted
      cases h
      exact .inr ⟨i, file, files, rfl, hopen, rfl, writeRegister_readRegister _ _ _⟩

theorem fileRemove_cases {s s' : System C} {fresh : Fresh} (h : s.fileRemove fresh = .ok s') :
    ∃ name s₁, s.removeName fresh = .ok (name, s₁) ∧
      ((∃ i : Fin 20, s.fileSystem.listFile.findName name = some i) ∧ s'.fileSystem = s.fileSystem ∧ s'.readRegister 2 = -1 ∨
        s.fileSystem.listFile.findName name = none ∧ ∃ removed files,
          C.remove fresh.junk s.fileSystem.files name = .ok (removed, files) ∧ s'.fileSystem = { s.fileSystem with files } ∧
          s'.readRegister 2 = if removed then 0 else -1) := by
  unfold fileRemove at h
  obtain ⟨⟨name, s₁⟩, hname, h⟩ := of_bind_ok h
  have hfs := copyName_fileSystem hname
  dsimp only at h
  rw [hfs] at h
  refine ⟨name, s₁, hname, ?_⟩
  cases hfind : s.fileSystem.listFile.findName name with
  | some i =>
    rw [hfind] at h
    cases h
    exact .inl ⟨⟨i, rfl⟩, hfs, writeRegister_readRegister _ _ _⟩
  | none =>
    rw [hfind] at h
    obtain ⟨⟨removed, files⟩, hremove, h⟩ := of_bind_ok h
    refine .inr ⟨rfl, removed, files, hremove, ?_⟩
    cases removed <;> cases h <;> exact ⟨rfl, rfl⟩

/-! ## Calls with a number -/

theorem fileClose_cases {s s' : System C} (h : s.fileClose = .ok s') :
    ((s.readRegister 4).toInt < 2 ∨ (s.readRegister 4).toInt > 20) ∧ s'.fileSystem = s.fileSystem ∧ s'.readRegister 2 = -1 ∨
      ∃ i : Fin 20, (i.val : Int) = (s.readRegister 4).toInt ∧ 2 ≤ i.val ∧
        (s.fileSystem.listFile i = none ∧ s'.fileSystem = s.fileSystem ∧ s'.readRegister 2 = -1 ∨
          ∃ entry files, s.fileSystem.listFile i = some entry ∧ C.close s.fileSystem.files entry.file = .ok files ∧
            s'.fileSystem = ⟨Function.update s.fileSystem.listFile i none, files⟩ ∧ s'.readRegister 2 = 1) := by
  unfold fileClose at h
  dsimp only at h
  split at h
  · rename_i hid
    cases h
    exact .inl ⟨hid, rfl, writeRegister_readRegister _ _ _⟩
  · rename_i hid
    obtain ⟨⟨i, found⟩, hslot, h⟩ := of_bind_ok h
    obtain ⟨hi, hfound⟩ := FileTable.of_slot hslot
    dsimp only at hi hfound
    refine .inr ⟨i, hi, by omega, ?_⟩
    cases found with
    | none =>
      cases h
      exact .inl ⟨hfound.symm, rfl, writeRegister_readRegister _ _ _⟩
    | some entry =>
      obtain ⟨files, hclose, h⟩ := of_bind_ok h
      cases h
      exact .inr ⟨entry, files, hfound.symm, hclose, rfl, writeRegister_readRegister _ _ _⟩

/-- What `Read` has done: it has rejected the number, or read from the file. -/
theorem fileRead_cases {s s' : System C} {fresh : Fresh} (h : s.fileRead fresh = .ok s') :
    (∀ i : Fin 20, (i.val : Int) = (s.readRegister 6).toInt → s.fileSystem.listFile i = none) ∧ s'.fileSystem = s.fileSystem ∨
      ∃ (i : Fin 20) (entry : Listed C) (into : Buf) (n_buf : Int) (bytes : Buf) (file : C.OpenFile) (files : C.Files),
        (i.val : Int) = (s.readRegister 6).toInt ∧ 1 ≤ i.val ∧ s.fileSystem.listFile i = some entry ∧
          C.read s.fileSystem.files entry.file into (s.readRegister 5).toInt = .ok (n_buf, bytes, file, files) ∧
          s'.fileSystem = ⟨Function.update s.fileSystem.listFile i (some { entry with file }), files⟩ ∧
          s'.readRegister 2 = if n_buf > 0 then BitVec.ofInt 32 n_buf else intMin := by
  unfold fileRead at h
  dsimp only at h
  split at h
  · rename_i hid
    cases h
    refine .inl ⟨?_, rfl⟩
    intro i hi
    omega
  · obtain ⟨⟨i, found⟩, hslot, h⟩ := of_bind_ok h
    obtain ⟨hi, hfound⟩ := FileTable.of_slot hslot
    dsimp only at hi hfound
    cases found with
    | none =>
      cases h
      refine .inl ⟨?_, rfl⟩
      intro j hj
      rw [Fin.ext (by omega : j.val = i.val), ← hfound]
    | some entry =>
      dsimp only at h
      split at h
      · cases h
      · obtain ⟨⟨buffer, machine⟩, -, h⟩ := of_bind_ok h
        obtain ⟨⟨n_buf, bytes, file, files⟩, hread, h⟩ := of_bind_ok h
        refine .inr ⟨i, entry, buffer.bytes, n_buf, bytes, file, files, hi, by omega, hfound.symm, hread, ?_⟩
        dsimp only at h
        split at h
        · rename_i hpos
          obtain ⟨⟨count, machine₁⟩, -, h⟩ := of_bind_ok h
          cases h
          rw [writeRegister_readRegister, if_pos hpos]
          exact ⟨rfl, rfl⟩
        · rename_i hpos
          cases h
          rw [writeRegister_readRegister, if_neg hpos]
          exact ⟨rfl, rfl⟩

/-- What `Write` has done: it has rejected the number, or written to the file, and, if the file took nothing, printed a text or left
register 2 alone. -/
theorem fileWrite_cases {s s' : System C} {fresh : Fresh} (h : s.fileWrite fresh = .ok s') :
    (∀ i : Fin 20, (i.val : Int) = (s.readRegister 6).toInt → i.val = 0 ∨ s.fileSystem.listFile i = none) ∧
        s'.fileSystem = s.fileSystem ∧ s'.consoleOut = s.consoleOut ∨
      ∃ (i : Fin 20) (entry : Listed C) (src : Buf) (n_buf : Int) (file : C.OpenFile) (files : C.Files),
        (i.val : Int) = (s.readRegister 6).toInt ∧ 1 ≤ i.val ∧ s.fileSystem.listFile i = some entry ∧
          C.write fresh.junk s.fileSystem.files entry.file src (s.readRegister 5).toInt = .ok (n_buf, file, files) ∧
          s'.fileSystem = ⟨Function.update s.fileSystem.listFile i (some { entry with file }), files⟩ ∧
          (n_buf > 0 ∧ s'.consoleOut = s.consoleOut ∧ s'.readRegister 2 = BitVec.ofInt 32 n_buf ∨
            ¬n_buf > 0 ∧ i.val = 1 ∧ (∃ text : List UInt8, s'.consoleOut = s.consoleOut ++ (text ++ [newline]) ∧
              s'.readRegister 2 = BitVec.ofInt 32 (text.length - 1)) ∨
            ¬n_buf > 0 ∧ 2 ≤ i.val ∧ s'.consoleOut = s.consoleOut ∧ s'.readRegister 2 = s.readRegister 2) := by
  unfold fileWrite at h
  obtain ⟨_, -, h⟩ := of_bind_ok h
  dsimp only at h
  split at h
  · rename_i hid
    cases h
    refine .inl ⟨?_, rfl, rfl⟩
    intro i hi
    omega
  · obtain ⟨⟨i, found⟩, hslot, h⟩ := of_bind_ok h
    obtain ⟨hi, hfound⟩ := FileTable.of_slot hslot
    dsimp only at hi hfound
    cases found with
    | none =>
      cases h
      refine .inl ⟨?_, rfl, rfl⟩
      intro j hj
      rw [Fin.ext (by omega : j.val = i.val), ← hfound]
      exact .inr rfl
    | some entry =>
      dsimp only at h
      split at h
      · rename_i h0
        cases h
        exact .inl ⟨fun j hj => .inl (by omega), rfl, rfl⟩
      · obtain ⟨⟨buffer, machine⟩, hcopy, h⟩ := of_bind_ok h
        obtain ⟨⟨n_buf, file, files⟩, hwrite, h⟩ := of_bind_ok h
        have htouch := ((s.machine.user2System_ends _ _ _).of_ok hcopy).1
        refine .inr ⟨i, entry, buffer.bytes, n_buf, file, files, hi, by omega, hfound.symm, hwrite, ?_⟩
        dsimp only at h
        split at h
        · rename_i hpos
          cases h
          exact ⟨rfl, .inl ⟨hpos, rfl, writeRegister_readRegister ..⟩⟩
        · rename_i hpos
          split at h
          · obtain ⟨text, -, h⟩ := of_bind_ok h
            cases h
            exact ⟨rfl, .inr (.inl ⟨hpos, by omega, text, rfl, writeRegister_readRegister ..⟩)⟩
          · cases h
            exact ⟨rfl, .inr (.inr ⟨hpos, by omega, rfl, congrFun htouch.registers 2⟩)⟩

/-- What a call does with the file that a number stands for. -/
def Uses (id : BitVec 32) (fs fs' : FileSystemObject C) : Prop :=
  fs' = fs ∨ ∃ i : Fin 20, (i.val : Int) = id.toInt ∧ ReflTransGen (Use i) fs fs'

theorem fileRead_uses {s s' : System C} {fresh : Fresh} (h : s.fileRead fresh = .ok s') :
    Uses (s.readRegister 6) s.fileSystem s'.fileSystem := by
  rcases fileRead_cases h with ⟨-, hfs⟩ | ⟨i, entry, into, n_buf, bytes, file, files, hi, h1, he, hread, hfs, -⟩
  · exact .inl hfs
  · rw [hfs]
    exact .inr ⟨i, hi, .single (.read h1 he hread)⟩

theorem fileWrite_uses {s s' : System C} {fresh : Fresh} (h : s.fileWrite fresh = .ok s') :
    Uses (s.readRegister 6) s.fileSystem s'.fileSystem := by
  rcases fileWrite_cases h with ⟨-, hfs, -⟩ | ⟨i, entry, src, n_buf, file, files, hi, h1, he, hwrite, hfs, -⟩
  · exact .inl hfs
  · rw [hfs]
    exact .inr ⟨i, hi, .single (.written h1 he hwrite)⟩

theorem fileSeek_uses {s s' : System C} (h : s.fileSeek = .ok s') : Uses (s.readRegister 5) s.fileSystem s'.fileSystem := by
  unfold fileSeek at h
  dsimp only at h
  split at h
  · cases h
    exact .inl rfl
  · obtain ⟨⟨i, found⟩, hslot, h⟩ := of_bind_ok h
    obtain ⟨hi, hfound⟩ := FileTable.of_slot hslot
    dsimp only at hi hfound
    cases found with
    | none =>
      cases h
      exact .inl rfl
    | some entry =>
      dsimp only at h
      split at h
      · cases h
        exact .inl rfl
      · obtain ⟨⟨pos, files⟩, hpos, h⟩ := of_bind_ok h
        obtain ⟨⟨length, files₁⟩, hlength, h⟩ := of_bind_ok h
        have h2 : 2 ≤ i.val := by omega
        have hmeasured : ReflTransGen (Use i) s.fileSystem { s.fileSystem with files } := by
          split at hpos
          · exact .single (.measured h2 hfound.symm hpos)
          · cases hpos
            exact .refl
        have hmeasured₁ : ReflTransGen (Use i) s.fileSystem { s.fileSystem with files := files₁ } :=
          hmeasured.tail (.measured h2 hfound.symm hlength)
        refine .inr ⟨i, hi, ?_⟩
        dsimp only at h
        split at h
        · cases h
          have hsame : Function.update s.fileSystem.listFile i (some entry) = s.fileSystem.listFile := by
            rw [hfound, Function.update_eq_self]
          unfold setSlot
          dsimp only [writeRegister_fileSystem]
          rw [hsame]
          exact hmeasured₁
        · obtain ⟨⟨file, files₂⟩, hseek, h⟩ := of_bind_ok h
          cases h
          exact hmeasured₁.tail (.sought h2 hfound.symm hseek)

/-! ## Any call -/

theorem Uses.steps {id : BitVec 32} {fs fs' : FileSystemObject C} (h : Uses id fs fs') : ReflTransGen Step fs fs' := by
  obtain rfl | ⟨i, -, h⟩ := h
  · exact .refl
  · exact ReflTransGen.mono (fun _ _ => Step.used) _ _ h

/-- A system call is a sequence of steps on the file system. -/
theorem systemCall_steps {s s' : System C} {fresh : Fresh} {code : SyscallCode} (h : s.systemCall fresh code = .ok s') :
    ReflTransGen Step s.fileSystem s'.fileSystem := by
  have hsame (heq : s'.fileSystem = s.fileSystem) : ReflTransGen Step s.fileSystem s'.fileSystem := by rw [heq]
  cases code with
  | halt => cases h
  | add | sub | randomNum | printChar | printNum | exit | exec | join | threadFork | threadYield | execV | threadExit
  | threadJoin =>
    cases h
    exact .refl
  | readNum => exact hsame ((s.readNum_converses fresh).of_ok h).2
  | readChar => exact hsame ((s.readChar_converses fresh).of_ok h).2
  | readString => exact hsame ((s.readString_converses fresh).of_ok h).2
  | printString => exact hsame ((s.printString_converses fresh).of_ok h).2
  | create =>
    obtain ⟨name, s₁, created, files, -, hcreate, hfs, -⟩ := fileCreate_cases h
    rw [hfs]
    exact .single (.created hcreate)
  | «open» =>
    obtain ⟨name, s₁, -, ⟨i, -, hfs, -⟩ | ⟨hname, ⟨-, hfs, -⟩ | ⟨i, file, files, hi, hopen, hfs, -⟩⟩⟩ := fileOpen_cases h
    · exact hsame hfs
    · exact hsame hfs
    · rw [hfs]
      exact .single (.opened hname hi hopen)
  | remove =>
    obtain ⟨name, s₁, -, ⟨-, hfs, -⟩ | ⟨hname, removed, files, hremove, hfs, -⟩⟩ := fileRemove_cases h
    · exact hsame hfs
    · rw [hfs]
      exact .single (.removed hname hremove)
  | close =>
    obtain ⟨-, hfs, -⟩ | ⟨i, -, hi, ⟨-, hfs, -⟩ | ⟨entry, files, he, hclose, hfs, -⟩⟩ := fileClose_cases h
    · exact hsame hfs
    · exact hsame hfs
    · rw [hfs]
      exact .single (.closed hi he hclose)
  | read => exact (fileRead_uses h).steps
  | write => exact (fileWrite_uses h).steps
  | seek => exact (fileSeek_uses h).steps

/-- What a system call leaves of the file system is what its case leaves. -/
theorem of_exceptionHandler {s s' : System C} {fresh : Fresh} (h : s.exceptionHandler .syscallException fresh = .ok s') :
    s' = s ∧ SyscallCode.select (s.readRegister 2) = none ∨
      ∃ code s₁, SyscallCode.select (s.readRegister 2) = some code ∧ s.systemCall fresh code = .ok s₁ ∧ s' = s₁.increasePC := by
  unfold exceptionHandler at h
  dsimp only at h
  split at h
  · rename_i hsel
    cases h
    exact .inl ⟨rfl, hsel⟩
  · rename_i code hsel
    obtain ⟨s₁, hs₁, h⟩ := of_bind_ok h
    cases h
    exact .inr ⟨code, s₁, hsel, hs₁, rfl⟩

@[simp] theorem increasePC_readRegister (s : System C) : s.increasePC.readRegister 2 = s.readRegister 2 := rfl

end System

/-- The kernel from its start: the user programs make system calls, with any contents of registers and memory, and see any input. -/
def calls (C : FileSystemClass) : Transition.System (FileSystemObject C) where
  init fs := ∃ files junk, C.start files ∧ FileSystemObject.new C files junk = .ok fs
  step fs fs' := ∃ (s s' : System C) (fresh : Fresh), s.fileSystem = fs ∧ s'.fileSystem = fs' ∧
    s.exceptionHandler .syscallException fresh = .ok s'

/-- The runs of system calls are runs of the steps on the file system. -/
theorem calls_steps (C : FileSystemClass) : Transition.Simulation (calls C) (FileSystemObject.steps C) id where
  init _ h := h
  step := by
    rintro _ _ - ⟨s, s', fresh, rfl, rfl, h⟩
    obtain ⟨rfl, -⟩ | ⟨code, s₁, -, hs₁, rfl⟩ := System.of_exceptionHandler h
    · exact .refl
    · have hsteps := System.systemCall_steps hs₁
      exact hsteps

end Nachos
