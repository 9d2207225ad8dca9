import Nachos.Filesys.Stub
import Nachos.Userprog.AddrSpace
import Nachos.Userprog.Exception
import Nachos.Userprog.Lines

/-!
# Every return from a system call

What a system call does to the registers: it answers in register 2 and `IncreasePC` advances the program counter. A code without a case
returns with the registers as they were.
-/

namespace Nachos

open Bytes Loop Machine

namespace System

variable {C : FileSystemClass}

/-- At most register 2 differs. -/
def Answers (s s' : System C) : Prop := ∀ r, r ≠ 2 → s'.readRegister r = s.readRegister r

theorem Answers.refl (s : System C) : Answers s s := fun _ _ => rfl

/-- The registers of the machine are all that matters. -/
theorem Answers.of_registers {s s' : System C} (h : s'.machine.registers = s.machine.registers) : Answers s s' :=
  fun r _ => congrFun h r

/-- The answer itself. -/
theorem Answers.write {s s' : System C} (h : Answers s s') (value : BitVec 32) : Answers s (s'.writeRegister 2 value) :=
  fun r hr => (writeRegister_other _ hr value).trans (h r hr)

/-! ## The copies -/

theorem user2System_registers (m : Machine) (virtAddr limit : BitVec 32) (junk : Buf) :
    Ends (fun r : KernelBuffer × Machine => r.2.registers = m.registers) (fun _ => True)
      (m.user2System virtAddr limit junk) :=
  (user2System_ends m virtAddr limit junk).mono (fun _ h => h.1.registers) fun _ _ => trivial

theorem system2User_registers (m : Machine) (virtAddr : BitVec 32) (len : Int) (buffer : KernelBuffer) :
    Ends (fun r : Int × Machine => r.2.registers = m.registers) (fun _ => True) (m.system2User virtAddr len buffer) :=
  (system2User_ends m virtAddr len buffer).mono (fun _ h => h.registers) fun _ _ => trivial

/-- Any computation ends somehow. -/
theorem ends_any {α : Type} (x : Except Fault α) : Ends (fun _ => True) (fun _ => True) x := by
  cases x with
  | ok a => exact .ok trivial
  | error f => exact .error trivial

/-! ## The console -/

/-- The machine and the file system are left alone. -/
def SameMachine (s s' : System C) : Prop := s'.machine = s.machine ∧ s'.fileSystem = s.fileSystem

/-- A call for the console answers, and leaves the file system alone. -/
def Converses (s s' : System C) : Prop := Answers s s' ∧ s'.fileSystem = s.fileSystem

theorem SameMachine.converses {s s' : System C} (h : SameMachine s s') : Converses s s' := ⟨.of_registers (by rw [h.1]), h.2⟩

theorem Converses.write {s s' : System C} (h : Converses s s') (value : BitVec 32) : Converses s (s'.writeRegister 2 value) :=
  ⟨h.1.write value, h.2⟩

theorem readString_converses (s : System C) (fresh : Fresh) : Ends (Converses s) (fun _ => True) (s.readString fresh) := by
  unfold readString
  refine ((s.machine.user2System_ends _ _ _).mono (fun _ h => h) fun _ _ => trivial).bind ?_
  rintro ⟨str, machine⟩ ⟨htouch, hsize, -⟩
  dsimp only at htouch hsize ⊢
  by_cases h0 : (s.readRegister 5).toInt ≤ 0
  · unfold readString2KeyBoard
    rw [if_pos h0]
    exact .ok ⟨.of_registers htouch.registers, rfl⟩
  · rw [readString2KeyBoard_eq _ _ (by omega) (by omega)]
    refine (system2User_registers _ _ _ _).bind ?_
    rintro ⟨count, machine₁⟩ hregs
    exact .ok ⟨.of_registers (hregs.trans htouch.registers), rfl⟩

theorem printString_converses (s : System C) (fresh : Fresh) : Ends (Converses s) (fun _ => True) (s.printString fresh) := by
  unfold printString
  refine (user2System_registers _ _ _ _).bind ?_
  rintro ⟨strBuffer, machine⟩ hregs
  exact (ends_any _).bind fun text _ => .ok ⟨.of_registers hregs, rfl⟩

theorem readNum_converses (s : System C) (fresh : Fresh) : Ends (Converses s) (fun _ => True) (s.readNum fresh) := by
  rw [readNum_eq, readNumLine_eq]
  split
  · rw [ok_bind]
    refine (ends_any _).bind ?_
    intro text _
    have hs : SameMachine s (s.dropped (Input.front endsNum 21 s.typed + 1)) := ⟨rfl, rfl⟩
    split
    · exact .ok (hs.converses.write _)
    · exact .ok (hs.converses.write _)
  · exact .error trivial

theorem readChar_converses (s : System C) (fresh : Fresh) : Ends (Converses s) (fun _ => True) (s.readChar fresh) := by
  have hs : SameMachine s (s.dropped (Input.taken endsChar 10 s.typed)) := ⟨rfl, rfl⟩
  rw [readChar_eq]
  exact .ok (hs.converses.write _)

/-! ## Files -/

theorem copyName_ends (s : System C) (fresh : Fresh) (limit : BitVec 32) :
    Ends (fun r : Name × System C => Converses s r.2) (fun _ => True) (s.copyName fresh limit) := by
  unfold copyName
  refine (user2System_registers _ _ _ _).bind ?_
  rintro ⟨fileName, machine⟩ hregs
  exact (ends_any _).bind fun text _ => .ok ⟨.of_registers hregs, rfl⟩

theorem fileCreate_answers (s : System C) (fresh : Fresh) : Ends (Answers s) (fun _ => True) (s.fileCreate fresh) := by
  unfold fileCreate
  refine (copyName_ends s fresh _).bind ?_
  rintro ⟨fileName, s₁⟩ ⟨h, -⟩
  refine (ends_any _).bind ?_
  rintro ⟨created, files⟩ -
  dsimp only at h ⊢
  have h₁ : Answers s { s₁ with fileSystem := { s₁.fileSystem with files } } := h
  split
  · exact .ok (h₁.write _)
  · exact .ok (h₁.write _)

theorem fileOpen_answers (s : System C) (fresh : Fresh) : Ends (Answers s) (fun _ => True) (s.fileOpen fresh) := by
  unfold fileOpen
  refine (copyName_ends s fresh _).bind ?_
  rintro ⟨fileName, s₁⟩ ⟨h, -⟩
  dsimp only at h ⊢
  split
  · exact .ok (h.write _)
  · split
    · exact .ok (h.write _)
    · refine (ends_any _).bind fun fileSystem _ => .ok ?_
      have h₁ : Answers s { s₁ with fileSystem } := h
      exact h₁.write _

theorem fileRemove_answers (s : System C) (fresh : Fresh) : Ends (Answers s) (fun _ => True) (s.fileRemove fresh) := by
  unfold fileRemove
  refine (copyName_ends s fresh _).bind ?_
  rintro ⟨fileName, s₁⟩ ⟨h, -⟩
  dsimp only at h ⊢
  split
  · exact .ok (h.write _)
  · refine (ends_any _).bind ?_
    rintro ⟨removed, files⟩ -
    have h₁ : Answers s { s₁ with fileSystem := { s₁.fileSystem with files } } := h
    dsimp only
    split
    · exact .ok (h₁.write _)
    · exact .ok (h₁.write _)

theorem fileClose_answers (s : System C) : Ends (Answers s) (fun _ => True) s.fileClose := by
  unfold fileClose
  dsimp only
  split
  · exact .ok ((Answers.refl s).write _)
  · refine (ends_any _).bind ?_
    rintro ⟨i, _ | entry⟩ -
    · exact .ok ((Answers.refl s).write _)
    · refine (ends_any _).bind fun files _ => .ok ?_
      have h : Answers s (s.setSlot i none files) := .refl s
      exact h.write _

theorem fileRead_answers (s : System C) (fresh : Fresh) : Ends (Answers s) (fun _ => True) (s.fileRead fresh) := by
  unfold fileRead
  dsimp only
  split
  · exact .ok ((Answers.refl s).write _)
  · refine (ends_any _).bind ?_
    rintro ⟨i, _ | entry⟩ -
    · exact .ok ((Answers.refl s).write _)
    · dsimp only
      split
      · exact .error trivial
      · refine (user2System_registers _ _ _ _).bind ?_
        rintro ⟨buffer, machine⟩ hregs
        refine (ends_any _).bind ?_
        rintro ⟨n_buf, bytes, file, files⟩ -
        dsimp only at hregs ⊢
        split
        · refine (system2User_registers _ _ _ _).bind ?_
          rintro ⟨count, machine₁⟩ hregs₁
          exact .ok (Answers.write (Answers.of_registers (hregs₁.trans hregs)) _)
        · exact .ok (Answers.write (Answers.of_registers hregs) _)

theorem fileWrite_answers (s : System C) (fresh : Fresh) : Ends (Answers s) (fun _ => True) (s.fileWrite fresh) := by
  unfold fileWrite
  dsimp only
  refine (ends_any _).bind ?_
  intro _ _
  split
  · exact .ok ((Answers.refl s).write _)
  · refine (ends_any _).bind ?_
    rintro ⟨i, _ | entry⟩ -
    · exact .ok ((Answers.refl s).write _)
    · dsimp only
      split
      · exact .ok ((Answers.refl s).write _)
      · refine (user2System_registers _ _ _ _).bind ?_
        rintro ⟨buffer, machine⟩ hregs
        refine (ends_any _).bind ?_
        rintro ⟨n_buf, file, files⟩ -
        dsimp only at hregs ⊢
        have h : Answers s ({ s with machine }.setSlot i (some { entry with file }) files) := .of_registers hregs
        split
        · exact .ok (h.write _)
        · split
          · refine (ends_any _).bind fun text _ => .ok ?_
            have h₁ (text : List UInt8) :
                Answers s (({ s with machine }.setSlot i (some { entry with file }) files).printString2Console text) := h
            exact (h₁ _).write _
          · exact .ok h

theorem fileSeek_answers (s : System C) : Ends (Answers s) (fun _ => True) s.fileSeek := by
  unfold fileSeek
  dsimp only
  split
  · exact .ok ((Answers.refl s).write _)
  · refine (ends_any _).bind ?_
    rintro ⟨i, _ | entry⟩ -
    · exact .ok ((Answers.refl s).write _)
    · dsimp only
      split
      · exact .ok ((Answers.refl s).write _)
      · refine (ends_any _).bind ?_
        rintro ⟨pos, files⟩ -
        refine (ends_any _).bind ?_
        rintro ⟨length, files⟩ -
        dsimp only
        split
        · have h : Answers s (s.setSlot i (some entry) files) := .refl s
          exact .ok (h.write _)
        · refine (ends_any _).bind ?_
          rintro ⟨file, files⟩ -
          have h : Answers s (s.setSlot i (some { entry with file }) files) := .refl s
          exact .ok (h.write _)

/-! ## ExceptionHandler -/

/-- Every case answers in register 2. -/
theorem systemCall_answers (s : System C) (fresh : Fresh) (code : SyscallCode) :
    Ends (Answers s) (fun _ => True) (s.systemCall fresh code) := by
  cases code with
  | halt => exact .error trivial
  | add | sub | randomNum => exact .ok ((Answers.refl s).write _)
  | printChar | printNum => exact .ok (.of_registers rfl)
  | exit | exec | join | threadFork | threadYield | execV | threadExit | threadJoin => exact .ok (.refl s)
  | readNum => exact (s.readNum_converses fresh).mono (fun _ h => h.1) fun _ h => h
  | readChar => exact (s.readChar_converses fresh).mono (fun _ h => h.1) fun _ h => h
  | readString => exact (s.readString_converses fresh).mono (fun _ h => h.1) fun _ h => h
  | printString => exact (s.printString_converses fresh).mono (fun _ h => h.1) fun _ h => h
  | create => exact s.fileCreate_answers fresh
  | «open» => exact s.fileOpen_answers fresh
  | remove => exact s.fileRemove_answers fresh
  | close => exact s.fileClose_answers
  | read => exact s.fileRead_answers fresh
  | write => exact s.fileWrite_answers fresh
  | seek => exact s.fileSeek_answers

/-- `PCReg` has been advanced once. -/
structure Advanced (s s' : System C) : Prop where
  pc : s'.readRegister Reg.pcReg = s.readRegister Reg.pcReg + 4
  prevPC : s'.readRegister Reg.prevPCReg = s.readRegister Reg.pcReg
  nextPC : s'.readRegister Reg.nextPCReg = s'.readRegister Reg.pcReg + 4

theorem increasePC_advanced (s : System C) : Advanced s s.increasePC where
  pc := rfl
  prevPC := rfl
  nextPC := rfl

theorem Advanced.of_answers {s s₁ s' : System C} (h : Answers s s₁) (h' : Advanced s₁ s') : Advanced s s' where
  pc := by rw [h'.pc, h _ (by decide)]
  prevPC := by rw [h'.prevPC, h _ (by decide)]
  nextPC := h'.nextPC

/-- A system state never has its own program counter advanced. -/
theorem not_advanced_self (s : System C) : ¬Advanced s s := by
  intro h
  have hpc := h.pc
  generalize s.readRegister Reg.pcReg = pc at hpc
  bv_omega

/-- With any file system: when `ExceptionHandler` comes back from a system call, it has advanced the program counter exactly if it has a
case for the code. -/
theorem returns_advanced_iff (s : System C) (fresh : Fresh) :
    (∀ s', s.exceptionHandler .syscallException fresh = .ok s' → Advanced s s') ↔
      ∃ code ∈ SyscallCode.cases, s.readRegister 2 = code.number := by
  unfold exceptionHandler
  cases hsel : SyscallCode.select (s.readRegister 2) with
  | none =>
    dsimp only
    refine iff_of_false (fun h => s.not_advanced_self (h s rfl)) ?_
    rintro ⟨code, hcode, hr⟩
    exact SyscallCode.select_eq_none.1 hsel code hcode hr.symm
  | some code =>
    obtain ⟨hcode, hnumber⟩ := SyscallCode.select_eq_some.1 hsel
    refine iff_of_true ?_ ⟨code, hcode, hnumber.symm⟩
    intro s' h
    obtain ⟨s₁, hs₁, h⟩ := of_bind_ok h
    cases h
    exact .of_answers ((s.systemCall_answers fresh code).of_ok hs₁) s₁.increasePC_advanced

end System

end Nachos
