import Nachos.Userprog.AdvancePC
import Nachos.Userprog.ContextSafety
import Nachos.Userprog.Programs

/-!
# The register file of a user program

Register 0 is zero, and a load is pending for a general purpose register at most. The kernel finds no load pending, so that nothing
overwrites its answer before the program reads it.
-/

namespace Nachos

open Loop Machine

/-- What holds of the registers of the CPU between two instructions. -/
structure RegisterFile (registers : Reg → BitVec 32) : Prop where
  zero : registers 0 = 0
  loadReg : (registers Reg.loadReg).toNat < 32

/-- What holds of the registers of a user program: in the kernel, and until an answer has been read, no load is pending. -/
structure ProgramFile (registers : Reg → BitVec 32) (phase : Phase) (answer : Option (BitVec 32)) : Prop
    extends RegisterFile registers where
  entered : ∀ which, phase = .kernel which → registers Reg.loadReg = 0
  answered : ∀ value, answer = some value → registers 2 = value ∧ registers Reg.loadReg = 0

/-! ## Instructions and exceptions -/

namespace Machine

variable {m m' : Machine}

theorem registerFile_of_oneInstruction (hl : (m.registers Reg.loadReg).toNat < 32) (h : m.oneInstruction = .ok m') :
    RegisterFile m'.registers := by
  obtain ⟨raw, m₀, x, -, hx, rfl⟩ := of_oneInstruction hl h
  refine ⟨x.finished_gpr 0, ?_⟩
  rw [x.finished_loadReg]
  exact ((m₀.execute_stops _ (decode_ne_rfe raw)).of_ok hx).nextLoadReg

/-- An exception finishes the pending load. -/
theorem Precise.registerFile (h : Precise m m') : RegisterFile m'.registers where
  zero := h.registers 0 (by decide)
  loadReg := by
    rw [h.loadReg_eq]
    decide

/-- An interrupt finishes the pending load, and leaves an answer alone. -/
theorem loaded_programFile {phase : Phase} {answer : Option (BitVec 32)} (h : ProgramFile m.registers phase answer) :
    ProgramFile (m.loaded 0 0).registers phase answer where
  zero := rfl
  loadReg := show (0 : BitVec 32).toNat < 32 by decide
  entered _ _ := rfl
  answered value hvalue := by
    obtain ⟨h2, hload⟩ := h.answered value hvalue
    refine ⟨?_, rfl⟩
    unfold loaded
    dsimp only
    rw [hload]
    exact h2

end Machine

namespace Programs

variable {x x' : Programs} {t : Tid}

/-! ## Threads -/

/-- The registers of a thread: those of the CPU while it is the current thread. -/
def registersOf (x : Programs) (t : Tid) : Reg → BitVec 32 := if t = x.currentThread then x.cpu.registers else x.cpu.userRegisters t

theorem registersOf_current (x : Programs) : x.registersOf x.currentThread = x.cpu.registers := if_pos rfl

/-- What holds of a thread. -/
def Holds (x : Programs) (t : Tid) : Prop := x.cpu.space t ≠ none → ProgramFile (x.registersOf t) (x.phase t) (x.answer t)

/-- The invariant. -/
structure Inv (x : Programs) : Prop where
  cpu : RegisterFile x.cpu.registers
  threads : ∀ t, x.Holds t

/-- What the current thread does leaves the other threads alone. -/
structure Elsewhere (x x' : Programs) : Prop where
  currentThread : x'.currentThread = x.currentThread
  space : ∀ t, t ≠ x.currentThread → x'.cpu.space t = x.cpu.space t
  userRegisters : x'.cpu.userRegisters = x.cpu.userRegisters
  phase : ∀ t, t ≠ x.currentThread → x'.phase t = x.phase t
  answer : ∀ t, t ≠ x.currentThread → x'.answer t = x.answer t

theorem Elsewhere.inv (h : Elsewhere x x') (hI : Inv x) (hcpu : RegisterFile x'.cpu.registers)
    (hcur : x'.cpu.space x.currentThread ≠ none →
      ProgramFile x'.cpu.registers (x'.phase x.currentThread) (x'.answer x.currentThread)) : Inv x' := by
  refine ⟨hcpu, fun t hs => ?_⟩
  unfold registersOf
  rw [h.currentThread]
  by_cases ht : t = x.currentThread
  · subst ht
    rw [if_pos rfl]
    exact hcur hs
  · rw [if_neg ht, h.userRegisters, h.phase t ht, h.answer t ht]
    rw [h.space t ht] at hs
    have hfile := hI.threads t hs
    unfold registersOf at hfile
    rw [if_neg ht] at hfile
    exact hfile

theorem goesOn_elsewhere (x : Programs) {cpu : Cpu} (hspace : ∀ t, t ≠ x.currentThread → cpu.space t = x.cpu.space t)
    (hsaved : cpu.userRegisters = x.cpu.userRegisters) (phase : Phase) (answer : Option (BitVec 32)) :
    Elsewhere x (x.goesOn cpu phase answer) where
  currentThread := rfl
  space := hspace
  userRegisters := hsaved
  phase _ ht := Function.update_of_ne ht _ _
  answer _ ht := Function.update_of_ne ht _ _

/-- The current thread goes on with registers as they should be. -/
theorem goesOn_inv (hI : Inv x) (cpu : Cpu) (hspace : ∀ t, t ≠ x.currentThread → cpu.space t = x.cpu.space t)
    (hsaved : cpu.userRegisters = x.cpu.userRegisters) {phase : Phase} {answer : Option (BitVec 32)}
    (hfile : ProgramFile cpu.registers phase answer) : Inv (x.goesOn cpu phase answer) := by
  refine (x.goesOn_elsewhere hspace hsaved phase answer).inv hI hfile.toRegisterFile fun _ => ?_
  have hphase : (x.goesOn cpu phase answer).phase x.currentThread = phase := Function.update_self ..
  have hanswer : (x.goesOn cpu phase answer).answer x.currentThread = answer := Function.update_self ..
  rw [hphase, hanswer]
  exact hfile

/-- It does nothing but change its registers. -/
theorem registers_inv (hI : Inv x) {registers : Reg → BitVec 32} {phase : Phase} {answer : Option (BitVec 32)}
    (hfile : ProgramFile registers phase answer) : Inv (x.goesOn { x.cpu with registers } phase answer) :=
  goesOn_inv hI { x.cpu with registers } (fun _ _ => rfl) rfl hfile

theorem Inv.current (hI : Inv x) (hs : x.cpu.space x.currentThread ≠ none) :
    ProgramFile x.cpu.registers (x.phase x.currentThread) (x.answer x.currentThread) := by
  rw [← x.registersOf_current]
  exact hI.threads _ hs

/-! ## Switches -/

/-- What `Scheduler::Run` saves in front of `SWITCH` are the registers of the threads. -/
theorem switchOut_userRegisters (x : Programs) (hs : x.cpu.space t ≠ none) :
    (x.cpu.switchOut x.currentThread).userRegisters t = x.registersOf t := by
  unfold registersOf
  by_cases ht : t = x.currentThread
  · subst ht
    obtain ⟨space, hspace⟩ := Option.ne_none_iff_exists'.1 hs
    rw [if_pos rfl, Cpu.switchOut_some hspace]
    exact Function.update_self ..
  · rw [if_neg ht]
    exact (x.cpu.switchOut_apart x.currentThread).userRegisters t ht

theorem switch_space (x : Programs) (nextThread : Tid) : (x.switch nextThread).cpu.space = x.cpu.space := by
  have hout := (x.cpu.switchOut_fields x.currentThread).2.2.2.1
  unfold switch
  cases h : (x.cpu.switchOut x.currentThread).space nextThread with
  | none =>
    rw [Cpu.switchIn_none h]
    exact hout
  | some space =>
    rw [Cpu.switchIn_some h]
    exact hout

/-- A switch takes the registers of the threads along. -/
theorem switch_registersOf (x : Programs) (nextThread : Tid) (hs : x.cpu.space t ≠ none) :
    (x.switch nextThread).registersOf t = x.registersOf t := by
  rw [← x.switchOut_userRegisters hs]
  unfold registersOf
  by_cases ht : t = nextThread
  · subst ht
    rw [← (x.cpu.switchOut_fields x.currentThread).2.2.2.1] at hs
    obtain ⟨space, hspace⟩ := Option.ne_none_iff_exists'.1 hs
    refine (if_pos rfl).trans ?_
    unfold switch
    rw [Cpu.switchIn_some hspace]
  · exact (if_neg ht).trans (((x.cpu.switchOut x.currentThread).switchIn_apart nextThread).userRegisters t ht)

theorem switch_inv (hI : Inv x) (nextThread : Tid) : Inv (x.switch nextThread) := by
  have hholds (t : Tid) : (x.switch nextThread).Holds t := by
    intro hs
    rw [switch_space] at hs
    rw [x.switch_registersOf nextThread hs]
    exact hI.threads t hs
  refine ⟨?_, hholds⟩
  by_cases hs : x.cpu.space nextThread = none
  · have hnone : (x.cpu.switchOut x.currentThread).space nextThread = none := by
      rw [(x.cpu.switchOut_fields x.currentThread).2.2.2.1]
      exact hs
    unfold switch
    rw [Cpu.switchIn_none hnone, (x.cpu.switchOut_fields x.currentThread).1]
    exact hI.cpu
  · have hfile := (hholds nextThread (by rw [switch_space]; exact hs)).toRegisterFile
    rw [show (x.switch nextThread).registersOf nextThread = (x.switch nextThread).cpu.registers from if_pos rfl] at hfile
    exact hfile

/-! ## Steps -/

/-- The registers of a program that starts. -/
theorem execute_registers (m : Cpu) (t : Tid) (space : SpaceId) : (m.execute t space).registers =
    Function.update (Function.update (Function.update (fun _ => 0) Reg.pcReg 0) Reg.nextPCReg 4) Reg.stackReg
      ((m.addrSpace space).numPages * BitVec.ofNat 32 pageSize - 16) := by
  unfold Cpu.execute Cpu.initRegisters
  dsimp only
  rw [copyRegisters_eq]
  rfl

theorem execute_programFile (m : Cpu) (t : Tid) (space : SpaceId) : ProgramFile (m.execute t space).registers .user none := by
  rw [execute_registers]
  exact ⟨⟨rfl, show (0 : BitVec 32).toNat < 32 by decide⟩, nofun, nofun⟩

/-- Every step keeps the invariant. -/
theorem step_inv (hI : Inv x) (h : Step x x') : Inv x' := by
  have hregs := hI.cpu
  cases h with
  | execute space =>
    exact goesOn_inv hI (x.cpu.execute x.currentThread space) (fun t ht => Function.update_of_ne ht _ _) rfl (execute_programFile ..)
  | @instruction m m' hx hm h =>
    have hfile := registerFile_of_oneInstruction (by rw [hm]; exact hregs.loadReg) h
    exact registers_inv hI ⟨hfile, nofun, nofun⟩
  | @exception m m' which hx hm h =>
    have hprecise : Precise m m' := (oneInstruction_ends (by rw [hm]; exact hregs.loadReg)).of_error h
    exact registers_inv hI ⟨hprecise.registerFile, fun _ _ => hprecise.loadReg_eq, nofun⟩
  | answer hx value =>
    have hload := (hI.current hx.1).entered _ hx.2
    have hfile : ProgramFile (Function.update x.cpu.registers 2 value) (.kernel .syscallException) (some value) := by
      refine ⟨⟨hregs.zero, hregs.loadReg⟩, fun _ _ => hload, ?_⟩
      rintro _ ⟨⟩
      exact ⟨rfl, hload⟩
    exact registers_inv hI hfile
  | returned hx =>
    have hfile : ProgramFile x.cpu.increasePC.registers .user (x.answer x.currentThread) :=
      ⟨⟨hregs.zero, hregs.loadReg⟩, nofun, (hI.current hx.1).answered⟩
    exact registers_inv hI hfile
  | unexpected hx => exact registers_inv hI ⟨hregs, nofun, (hI.current hx.1).answered⟩
  | @interrupt m m' hm h =>
    rw [delayedLoad_eq (by rw [hm]; exact hI.cpu.loadReg)] at h
    cases h
    have hkept : Elsewhere x { x with cpu := { x.cpu with registers := (m.loaded 0 0).registers } } :=
      ⟨rfl, fun _ _ => rfl, rfl, fun _ _ => rfl, fun _ _ => rfl⟩
    refine hkept.inv hI ⟨rfl, show (0 : BitVec 32).toNat < 32 by decide⟩ fun hs => ?_
    have hfile := hI.current hs
    rw [← hm] at hfile
    exact loaded_programFile hfile
  | switch nextThread => exact switch_inv hI nextThread

theorem reachable_inv (h : system.Reachable x) : Inv x := by
  refine h.invariant (I := Inv) ?_ fun _ _ _ hI hstep => step_inv hI hstep
  rintro x ⟨hregs, hspace, -⟩
  refine ⟨?_, fun t hs => absurd (hspace t) hs⟩
  rw [hregs]
  exact ⟨rfl, by decide⟩

/-! ## ExceptionHandler -/

theorem increasePC_registers {C : FileSystemClass} {m : Cpu} {s : System C} (h : m.registers = s.machine.registers) :
    m.increasePC.registers = s.increasePC.machine.registers := by
  unfold Cpu.increasePC System.increasePC
  simp only [Cpu.writeRegister, System.writeRegister, System.readRegister, Machine.writeRegister, h]

/-- The current thread is back from a system call, with the registers that the handler left, and with an answer if the call has a
case. -/
structure Back {C : FileSystemClass} (s s' : System C) (x x' : Programs) : Prop where
  currentThread : x'.currentThread = x.currentThread
  running : x'.Running
  registers : x'.cpu.registers = s'.machine.registers
  answer : ∀ code ∈ SyscallCode.cases, s.readRegister 2 = code.number → x'.answer x'.currentThread = some (s'.readRegister 2)

/-- What `ExceptionHandler` does to the registers is done by steps. -/
theorem handler_steps {C : FileSystemClass} {s s' : System C} {fresh : Fresh} (hx : x.Handling)
    (hs : s.machine.registers = x.cpu.registers) (h : s.exceptionHandler .syscallException fresh = .ok s') :
    ∃ x', Relation.ReflTransGen Step x x' ∧ Back s s' x x' := by
  have hrunning {x : Programs} {cpu : Cpu} {answer : Option (BitVec 32)} (hspace : cpu.space x.currentThread ≠ none) :
      (x.goesOn cpu .user answer).Running := ⟨hspace, Function.update_self ..⟩
  obtain ⟨rfl, hsel⟩ | ⟨code, s₁, -, hs₁, rfl⟩ := System.of_exceptionHandler h
  · refine ⟨_, .single (.unexpected hx), ⟨rfl, hrunning hx.1, hs.symm, fun code hcode hr => ?_⟩⟩
    exact absurd hr.symm (SyscallCode.select_eq_none.1 hsel code hcode)
  · have hanswers : System.Answers s s₁ := (s.systemCall_answers fresh code).of_ok hs₁
    have hfirst := Step.answer hx (s₁.readRegister 2)
    have hregs : (x.cpu.writeRegister 2 (s₁.readRegister 2)).registers = s₁.machine.registers := by
      funext r
      change Function.update x.cpu.registers 2 (s₁.readRegister 2) r = _
      by_cases hr : r = 2
      · rw [hr, Function.update_self]
        rfl
      · rw [Function.update_of_ne hr, ← hs]
        exact (hanswers r hr).symm
    have hhandling : (x.goesOn (x.cpu.writeRegister 2 (s₁.readRegister 2)) (.kernel .syscallException)
        (some (s₁.readRegister 2))).Handling := ⟨hx.1, Function.update_self ..⟩
    refine ⟨_, .tail (.single hfirst) (.returned hhandling), ⟨rfl, hrunning hx.1, increasePC_registers hregs, fun _ _ _ => ?_⟩⟩
    simp [goesOn]

/-! ## Every run -/

/-- In every state, register 0 is zero, a delayed load is into a general purpose register, and a program reads the answer to its system
call in register 2; the calls of `ExceptionHandler` are among the runs. -/
theorem register_file (hx : system.Reachable x) :
    RegisterFile x.cpu.registers ∧
      (∀ m : Machine, m.registers Reg.loadReg = x.cpu.registers Reg.loadReg → ∀ nextReg nextValue,
        ∃ m', m.delayedLoad nextReg nextValue = .ok m' ∧
          ∀ r : Reg, 32 ≤ r.val → r ≠ Reg.loadReg → r ≠ Reg.loadValueReg → m'.registers r = m.registers r) ∧
      (x.Running → ∀ value, x.answer x.currentThread = some value → ∀ (m : Machine) raw m', m.registers = x.cpu.registers →
        m.readMem (m.registers Reg.pcReg) 4 = .ok (raw, m') → m'.gpr 2 = value ∧ m'.pendingGpr 2 = value) ∧
      (x.Handling → ∀ (C : FileSystemClass) (s s' : System C) (fresh : Fresh), s.machine.registers = x.cpu.registers →
        s.exceptionHandler .syscallException fresh = .ok s' → ∃ x', system.Reachable x' ∧ Back s s' x x') := by
  have hI := reachable_inv hx
  refine ⟨hI.cpu, ?_, ?_, ?_⟩
  · intro m hm nextReg nextValue
    have hl : (m.registers Reg.loadReg).toNat < 32 := by
      rw [hm]
      exact hI.cpu.loadReg
    exact ⟨_, delayedLoad_eq hl nextReg nextValue, fun r => loaded_control hl nextReg nextValue⟩
  · intro hrun value hvalue m raw m' hm hf
    obtain ⟨h2, hload⟩ := (hI.current hrun.1).answered value hvalue
    have hregs : m'.registers = x.cpu.registers := (of_readMem hf).2.2.1.registers.trans hm
    have hgpr : m'.gpr 2 = value := by
      rw [← h2, ← hregs]
      rfl
    refine ⟨hgpr, ?_⟩
    unfold pendingGpr
    rw [if_neg, hgpr]
    rw [hregs, hload]
    decide
  · intro hhandling C s s' fresh hs h
    obtain ⟨x', hsteps, hback⟩ := handler_steps hhandling hs h
    exact ⟨x', hx.steps hsteps, hback⟩

/-- The start of the system. -/
def booted : Programs where
  cpu := ⟨fun _ => 0, none, 0, fun _ => ⟨0, 1⟩, fun _ => none, fun _ _ => 0⟩
  currentThread := mainThread
  phase := fun _ => .user
  answer := fun _ => none

/-- The registers of a program that has executed `lw $2, 0($0)` at address 0. -/
def loadedWord : Reg → BitVec 32 := fun r =>
  if r = Reg.loadReg then 2 else if r = Reg.loadValueReg then 0x8c020000 else if r = Reg.pcReg then 4 else
    if r = Reg.nextPCReg then 8 else if r = Reg.stackReg then 112 else 0

/-- The current thread has started a program, which has loaded register 2. -/
def loading (x : Programs) (space : SpaceId) : Programs :=
  let x := x.goesOn (x.cpu.execute x.currentThread space) .user none
  x.goesOn { x.cpu with registers := loadedWord } .user none

theorem loading_steps (x : Programs) (space : SpaceId) (h : (x.cpu.addrSpace space).numPages = 1) :
    Relation.ReflTransGen Step x (x.loading space) := by
  obtain ⟨m, hm, hregs⟩ : ∃ m', (ofProgram (x.cpu.execute x.currentThread space).registers
      fun j => if j = 2 then 0x02 else if j = 3 then 0x8c else 0).oneInstruction = .ok m' ∧ m'.registers = loadedWord := by
    rw [execute_registers, h]
    refine ⟨_, rfl, ?_⟩
    funext r
    revert r
    decide
  have hspace : (x.goesOn (x.cpu.execute x.currentThread space) .user none).cpu.space x.currentThread = some space :=
    Function.update_self ..
  have hrun : (x.goesOn (x.cpu.execute x.currentThread space) .user none).Running :=
    ⟨Option.ne_none_iff_exists'.2 ⟨space, hspace⟩, Function.update_self ..⟩
  have hstep := Step.instruction hrun rfl hm
  rw [hregs] at hstep
  exact .tail (.single (.execute x space)) hstep

/-- In the handler of a system call of the main thread, another thread is switched to, which loads register 2 as well. -/
def handlingAgain (registers : Reg → BitVec 32) : Programs :=
  let x := (booted.loading 0).goesOn { (booted.loading 0).cpu with registers } (.kernel .syscallException) none
  ((x.switch 1).loading 1).switch mainThread

/-- The main thread runs a program that loads register 2 and calls the kernel while the load is pending. In the call another thread
starts a program, which loads register 2 too; then the main thread goes on, and reads the answer 7. -/
theorem register_file_seven : ∃ x₀ x, system.Reachable x₀ ∧ x₀.Running ∧ x₀.cpu.registers Reg.loadReg = 2 ∧
    Relation.ReflTransGen Step x₀ x ∧ x.Running ∧ x.answer x.currentThread = some 7 ∧
    ∀ (m : Machine) raw m', m.registers = x.cpu.registers → m.readMem (m.registers Reg.pcReg) 4 = .ok (raw, m') → m'.gpr 2 = 7 := by
  have h0 : system.Reachable booted := .init ⟨rfl, fun _ => rfl, fun _ => rfl⟩
  have h1 := h0.steps (booted.loading_steps 0 rfl)
  obtain ⟨m, hm⟩ : ∃ m, (ofProgram loadedWord fun j => if j = 4 then 0x0c else 0).oneInstruction = .error (.raise .syscallException m) :=
    ⟨_, rfl⟩
  have hcall := Step.exception (x := booted.loading 0) ⟨by decide, rfl⟩ rfl hm
  have hhandling : Relation.ReflTransGen Step (booted.loading 0) (handlingAgain m.registers) :=
    .tail (.trans (.tail (.single hcall) (.switch _ 1)) (loading_steps _ 1 rfl)) (.switch _ mainThread)
  have hsteps := (hhandling.tail (.answer (x := handlingAgain m.registers) ⟨nofun, rfl⟩ 7)).tail (.returned ⟨nofun, rfl⟩)
  have hread := (register_file (h1.steps hsteps)).2.2.1 ⟨nofun, rfl⟩ 7 rfl
  exact ⟨booted.loading 0, _, h1, ⟨by decide, rfl⟩, rfl, hsteps, ⟨nofun, rfl⟩, rfl, fun m raw m' hm hf => (hread m raw m' hm hf).1⟩

end Programs

end Nachos
