import Nachos.Machine.Precise

/-!
# Interrupts between the instructions of a program

`CheckIfDue` commits the pending load before it calls the handlers, so that an interrupt between a load and the next instruction
shortens the load delay. A program that leaves the target of a load alone in its delay slot cannot tell.
-/

namespace Nachos

open Loop

/-! ## The registers of an instruction -/

/-- The registers that an instruction reads. `LWL` and `LWR` also merge into the contents of `rt`, a pending load included. -/
def Instruction.reads (i : Instruction) : List (Fin 32) :=
  match i.opCode with
  | .add | .addu | .and | .beq | .bne | .div | .divu | .mult | .multu | .nor | .or | .sb | .sh | .sllv | .slt | .sltu | .srav | .srlv
  | .sub | .subu | .sw | .swl | .swr | .xor => [i.rs, i.rt]
  | .sll | .sra | .srl => [i.rt]
  | .addi | .addiu | .andi | .bgez | .bgezal | .bgtz | .blez | .bltz | .bltzal | .jalr | .jr | .lb | .lbu | .lh | .lhu | .lw | .lwl
  | .lwr | .mthi | .mtlo | .ori | .slti | .sltiu | .xori => [i.rs]
  | .j | .jal | .lui | .mfhi | .mflo | .rfe | .syscall | .unimp | .res => []

/-- The registers that an instruction assigns itself, not by a delayed load. -/
def Instruction.writes (i : Instruction) : List (Fin 32) :=
  match i.opCode with
  | .add | .addu | .and | .jalr | .mfhi | .mflo | .nor | .or | .sll | .sllv | .slt | .sltu | .sra | .srav | .srl | .srlv | .sub
  | .subu | .xor => [i.rd]
  | .addi | .addiu | .andi | .lui | .ori | .slti | .sltiu | .xori => [i.rt]
  | .bgezal | .bltzal | .jal => [31]
  | _ => []

/-- `LWL` and `LWR`, which load a part of a register. -/
def Instruction.Merges (i : Instruction) : Prop := i.opCode = .lwl ∨ i.opCode = .lwr

/-- The instruction leaves a register to the pending load. -/
def Instruction.Avoids (i : Instruction) (r : Fin 32) : Prop := r ∉ i.reads ∧ r ∉ i.writes

namespace Machine

/-- A general purpose register among all registers. -/
def gprReg (r : Fin 32) : Reg := r.castLE numGPRegs_le

/-! ## Two machines that differ in some registers -/

/-- Two computations started from `m` and `m'` are at `m₁` and `m₁'`: the machines differ in registers of `U` only, and these are
still as they were. -/
structure Kept (U : Reg → Prop) (m m' m₁ m₁' : Machine) : Prop where
  rest : m₁' = { m₁ with registers := m₁'.registers }
  alike : ∀ q, ¬U q → m₁'.registers q = m₁.registers q
  left : ∀ q, U q → m₁.registers q = m.registers q
  right : ∀ q, U q → m₁'.registers q = m'.registers q

namespace Kept

variable {U : Reg → Prop} {m m' m₁ m₁' : Machine}

theorem writeRegister (h : Kept U m m' m₁ m₁') {r : Reg} (hr : ¬U r) (v : BitVec 32) :
    Kept U m m' (m₁.writeRegister r v) (m₁'.writeRegister r v) := by
  have hne : ∀ q, U q → q ≠ r := by
    rintro q hq rfl
    exact hr hq
  refine ⟨?_, ?_, ?_, ?_⟩
  · rw [h.rest]
    rfl
  · intro q hq
    by_cases hqr : q = r
    · subst hqr
      rw [writeRegister_self, writeRegister_self]
    · rw [writeRegister_other _ hqr, writeRegister_other _ hqr, h.alike q hq]
  · intro q hq
    rw [writeRegister_other _ (hne q hq), h.left q hq]
  · intro q hq
    rw [writeRegister_other _ (hne q hq), h.right q hq]

/-- A translation does not look at the registers. -/
theorem translate_registers (m : Machine) (f : Reg → BitVec 32) (virtAddr : BitVec 32) (size : Nat) (writing : Bool) :
    ({ m with registers := f } : Machine).translate virtAddr size writing =
      (m.translate virtAddr size writing).map fun r => (r.1, r.2.1, { r.2.2 with registers := f }) := by
  unfold translate
  split
  · rfl
  · unfold assert
    split
    · split
      · rw [ok_bind, ok_bind, ok_bind, ok_bind]
        have hl : ({ m with registers := f } : Machine).lookup (virtAddr / 128) = m.lookup (virtAddr / 128) := rfl
        rw [hl]
        cases m.lookup (virtAddr / 128) with
        | error exception => rfl
        | ok found =>
          obtain ⟨slot, entry⟩ := found
          simp only
          by_cases hr : (entry.readOnly && writing) = true
          · rw [if_pos hr, if_pos hr]
            rfl
          · rw [if_neg hr, if_neg hr]
            by_cases hf : entry.physicalPage ≥ 128
            · rw [if_pos hf, if_pos hf]
              rfl
            · rw [if_neg hf, if_neg hf]
              by_cases hs : entry.physicalPage.toNat * pageSize + (virtAddr % 128).toNat + size ≤ memorySize
              · rw [if_pos hs]
                cases slot <;> rfl
              · rw [if_neg hs]
                rfl
      · rfl
    · rfl

theorem mainMemory (h : Kept U m m' m₁ m₁') : m₁'.mainMemory = m₁.mainMemory := by rw [h.rest]

theorem setMemory (h : Kept U m m' m₁ m₁') (b : Bytes.Buf) :
    Kept U m m' { m₁ with mainMemory := b } { m₁' with mainMemory := b } := by
  refine ⟨?_, h.alike, h.left, h.right⟩
  rw [h.rest]

/-- Two computations that leave the registers alone. -/
structure Accessed (U : Reg → Prop) (m m' m₁ m₁' m₂ m₂' : Machine) : Prop extends Kept U m m' m₂ m₂' where
  registersLeft : m₂.registers = m₁.registers
  registersRight : m₂'.registers = m₁'.registers

/-- Addresses are translated alike, and the same entries are marked. -/
theorem translate (h : Kept U m m' m₁ m₁') (virtAddr : BitVec 32) (size : Nat) (writing : Bool) :
    Follows (fun r r' => r'.1 = r.1 ∧ r'.2.1 = r.2.1 ∧ Accessed U m m' m₁ m₁' r.2.2 r'.2.2)
      (liftFault (m₁.translate virtAddr size writing)) (liftFault (m₁'.translate virtAddr size writing)) := by
  have he := translate_registers m₁ m₁'.registers virtAddr size writing
  rw [← h.rest] at he
  rw [he]
  rintro ⟨e, physAddr, m₂⟩ ht
  cases ht' : m₁.translate virtAddr size writing with
  | error f =>
    rw [ht'] at ht
    cases ht
  | ok r =>
    rw [ht'] at ht
    cases ht
    have hregs := (translate_touched ht').registers
    refine ⟨_, rfl, rfl, rfl, ⟨rfl, ?_, ?_, h.right⟩, hregs, rfl⟩
    · intro q hq
      rw [hregs]
      exact h.alike q hq
    · intro q hq
      rw [hregs]
      exact h.left q hq

/-- Reads go alike. -/
theorem readMem (h : Kept U m m' m₁ m₁') (addr : BitVec 32) (size : Nat) :
    Follows (fun r r' => r'.1 = r.1 ∧ Accessed U m m' m₁ m₁' r.2 r'.2) (m₁.readMem addr size) (m₁'.readMem addr size) := by
  unfold Machine.readMem
  refine (h.translate addr size false).bind ?_
  rintro ⟨e, physAddr, m₂⟩ ⟨_, _, m₂'⟩ ⟨rfl, rfl, hk⟩
  dsimp only at hk ⊢
  refine .ite (.of_ne_ok fun a => raiseException_ne_ok) ?_
  rw [hk.toKept.mainMemory]
  split
  · exact .ok ⟨rfl, hk⟩
  · exact .ok ⟨rfl, hk⟩
  · exact .ok ⟨rfl, hk⟩
  · exact .of_ne_ok fun a ha => by cases ha

/-- Writes go alike. -/
theorem writeMem (h : Kept U m m' m₁ m₁') (addr : BitVec 32) (size : Nat) (value : BitVec 32) :
    Follows (Kept U m m') (m₁.writeMem addr size value) (m₁'.writeMem addr size value) := by
  unfold Machine.writeMem
  refine (h.translate addr size true).bind ?_
  rintro ⟨e, physAddr, m₂⟩ ⟨_, _, m₂'⟩ ⟨rfl, rfl, ha⟩
  have hk := ha.toKept
  dsimp only at hk ⊢
  refine .ite (.of_ne_ok fun a => raiseException_ne_ok) ?_
  rw [hk.mainMemory]
  split
  · exact .ok (hk.setMemory _)
  · exact .ok (hk.setMemory _)
  · exact .ok (hk.setMemory _)
  · exact .of_ne_ok fun a ha => by cases ha

theorem gpr (h : Kept U m m' m₁ m₁') {r : Fin 32} (hr : ¬U (gprReg r)) : m₁'.gpr r = m₁.gpr r := h.alike _ hr

theorem setGpr (h : Kept U m m' m₁ m₁') {r : Fin 32} (hr : ¬U (gprReg r)) (v : BitVec 32) :
    Kept U m m' (m₁.setGpr r v) (m₁'.setGpr r v) := h.writeRegister hr v

end Kept

theorem pendingGpr_congr {m m' : Machine} (h : m'.registers = m.registers) (r : Fin 32) :
    m'.pendingGpr r = m.pendingGpr r := by
  unfold pendingGpr gpr
  rw [h]

/-- What two executions of an operation leave. -/
structure SameResult (U : Reg → Prop) (m m' : Machine) (e e' : Executed) : Prop where
  kept : Kept U m m' e.m e'.m
  pcAfter : e'.pcAfter = e.pcAfter
  nextLoadReg : e'.nextLoadReg = e.nextLoadReg
  nextLoadValue : e.nextLoadReg = 0 ∨ e'.nextLoadValue = e.nextLoadValue
  target : ∃ r, e.nextLoadReg = regNumber r

/-- Machines that differ in registers which an operation does not touch execute it alike. -/
theorem execute_follows {U : Reg → Prop} {m m' : Machine} {instr : Instruction} (h : Kept U m m' m m')
    (hreads : ∀ r ∈ instr.reads, ¬U (gprReg r)) (hwrites : ∀ r ∈ instr.writes, ¬U (gprReg r)) (hhi : ¬U Reg.hiReg)
    (hlo : ¬U Reg.loReg) (hpc : ¬U Reg.nextPCReg)
    (hmerge : instr.Merges → instr.rt = 0 ∨ m'.pendingGpr instr.rt = m.pendingGpr instr.rt) :
    Follows (SameResult U m m') (m.execute instr) (m'.execute instr) := by
  have hnext := h.alike _ hpc
  have hraise {m : Machine} {which badVAddr} {y : Except Trap Executed} :
      Follows (SameResult U m m') (m.raiseException which badVAddr) y := .of_ne_ok fun _ => raiseException_ne_ok
  unfold execute
  rw [hnext]
  cases hop : instr.opCode with
  | addu | and | nor | or | sllv | slt | sltu | srav | srlv | subu | xor =>
    have hrs := h.gpr (hreads instr.rs (by simp [Instruction.reads, hop]))
    have hrt := h.gpr (hreads instr.rt (by simp [Instruction.reads, hop]))
    have hrd := hwrites instr.rd (by simp [Instruction.writes, hop])
    dsimp only
    rw [hrs, hrt]
    exact .ok ⟨h.setGpr hrd _, rfl, rfl, .inl rfl, ⟨0, rfl⟩⟩
  | add | sub =>
    have hrs := h.gpr (hreads instr.rs (by simp [Instruction.reads, hop]))
    have hrt := h.gpr (hreads instr.rt (by simp [Instruction.reads, hop]))
    have hrd := hwrites instr.rd (by simp [Instruction.writes, hop])
    dsimp only
    rw [hrs, hrt]
    exact .ite hraise (.ok ⟨h.setGpr hrd _, rfl, rfl, .inl rfl, ⟨0, rfl⟩⟩)
  | sll | sra | srl =>
    have hrt := h.gpr (hreads instr.rt (by simp [Instruction.reads, hop]))
    have hrd := hwrites instr.rd (by simp [Instruction.writes, hop])
    dsimp only
    rw [hrt]
    exact .ok ⟨h.setGpr hrd _, rfl, rfl, .inl rfl, ⟨0, rfl⟩⟩
  | addiu | andi | ori | slti | sltiu | xori =>
    have hrs := h.gpr (hreads instr.rs (by simp [Instruction.reads, hop]))
    have hrt := hwrites instr.rt (by simp [Instruction.writes, hop])
    dsimp only
    rw [hrs]
    exact .ok ⟨h.setGpr hrt _, rfl, rfl, .inl rfl, ⟨0, rfl⟩⟩
  | addi =>
    have hrs := h.gpr (hreads instr.rs (by simp [Instruction.reads, hop]))
    have hrt := hwrites instr.rt (by simp [Instruction.writes, hop])
    dsimp only
    rw [hrs]
    exact .ite hraise (.ok ⟨h.setGpr hrt _, rfl, rfl, .inl rfl, ⟨0, rfl⟩⟩)
  | lui =>
    have hrt := hwrites instr.rt (by simp [Instruction.writes, hop])
    exact .ok ⟨h.setGpr hrt _, rfl, rfl, .inl rfl, ⟨0, rfl⟩⟩
  | mfhi =>
    have hrd := hwrites instr.rd (by simp [Instruction.writes, hop])
    dsimp only
    rw [h.alike _ hhi]
    exact .ok ⟨h.setGpr hrd _, rfl, rfl, .inl rfl, ⟨0, rfl⟩⟩
  | mflo =>
    have hrd := hwrites instr.rd (by simp [Instruction.writes, hop])
    dsimp only
    rw [h.alike _ hlo]
    exact .ok ⟨h.setGpr hrd _, rfl, rfl, .inl rfl, ⟨0, rfl⟩⟩
  | mthi | mtlo =>
    have hrs := h.gpr (hreads instr.rs (by simp [Instruction.reads, hop]))
    dsimp only
    rw [hrs]
    exact .ok ⟨h.writeRegister ‹_› _, rfl, rfl, .inl rfl, ⟨0, rfl⟩⟩
  | mult | multu =>
    have hrs := h.gpr (hreads instr.rs (by simp [Instruction.reads, hop]))
    have hrt := h.gpr (hreads instr.rt (by simp [Instruction.reads, hop]))
    dsimp only
    rw [hrs, hrt]
    exact .ok ⟨(h.writeRegister hhi _).writeRegister hlo _, rfl, rfl, .inl rfl, ⟨0, rfl⟩⟩
  | div =>
    have hrs := h.gpr (hreads instr.rs (by simp [Instruction.reads, hop]))
    have hrt := h.gpr (hreads instr.rt (by simp [Instruction.reads, hop]))
    dsimp only
    rw [hrs, hrt]
    exact .ite (.ok ⟨(h.writeRegister hlo _).writeRegister hhi _, rfl, rfl, .inl rfl, ⟨0, rfl⟩⟩)
      (.ite (.of_ne_ok fun _ hc => by cases hc) (.ok ⟨(h.writeRegister hlo _).writeRegister hhi _, rfl, rfl, .inl rfl, ⟨0, rfl⟩⟩))
  | divu =>
    have hrs := h.gpr (hreads instr.rs (by simp [Instruction.reads, hop]))
    have hrt := h.gpr (hreads instr.rt (by simp [Instruction.reads, hop]))
    dsimp only
    rw [hrs, hrt]
    exact .ite (.ok ⟨(h.writeRegister hlo _).writeRegister hhi _, rfl, rfl, .inl rfl, ⟨0, rfl⟩⟩)
      (.ok ⟨(h.writeRegister hlo _).writeRegister hhi _, rfl, rfl, .inl rfl, ⟨0, rfl⟩⟩)
  | beq | bne =>
    have hrs := h.gpr (hreads instr.rs (by simp [Instruction.reads, hop]))
    have hrt := h.gpr (hreads instr.rt (by simp [Instruction.reads, hop]))
    dsimp only
    rw [hrs, hrt]
    exact .ite (.ok ⟨h, rfl, rfl, .inl rfl, ⟨0, rfl⟩⟩) (.ok ⟨h, rfl, rfl, .inl rfl, ⟨0, rfl⟩⟩)
  | bgez | bgtz | blez | bltz =>
    have hrs := h.gpr (hreads instr.rs (by simp [Instruction.reads, hop]))
    dsimp only
    rw [hrs]
    exact .ite (.ok ⟨h, rfl, rfl, .inl rfl, ⟨0, rfl⟩⟩) (.ok ⟨h, rfl, rfl, .inl rfl, ⟨0, rfl⟩⟩)
  | bgezal | bltzal =>
    have hra := hwrites 31 (by simp [Instruction.writes, hop])
    have hlink := h.setGpr hra (m.registers Reg.nextPCReg + 4)
    have hrs := hlink.gpr (hreads instr.rs (by simp [Instruction.reads, hop]))
    dsimp only
    rw [hrs]
    exact .ite (.ok ⟨hlink, rfl, rfl, .inl rfl, ⟨0, rfl⟩⟩) (.ok ⟨hlink, rfl, rfl, .inl rfl, ⟨0, rfl⟩⟩)
  | jal =>
    have hra := hwrites 31 (by simp [Instruction.writes, hop])
    exact .ok ⟨h.setGpr hra _, rfl, rfl, .inl rfl, ⟨0, rfl⟩⟩
  | j => exact .ok ⟨h, rfl, rfl, .inl rfl, ⟨0, rfl⟩⟩
  | jalr =>
    have hrd := hwrites instr.rd (by simp [Instruction.writes, hop])
    have hlink := h.setGpr hrd (m.registers Reg.nextPCReg + 4)
    have hrs := hlink.gpr (hreads instr.rs (by simp [Instruction.reads, hop]))
    dsimp only
    rw [hrs]
    exact .ok ⟨hlink, rfl, rfl, .inl rfl, ⟨0, rfl⟩⟩
  | jr =>
    have hrs := h.gpr (hreads instr.rs (by simp [Instruction.reads, hop]))
    dsimp only
    rw [hrs]
    exact .ok ⟨h, rfl, rfl, .inl rfl, ⟨0, rfl⟩⟩
  | lb | lbu =>
    have hrs := h.gpr (hreads instr.rs (by simp [Instruction.reads, hop]))
    dsimp only
    rw [hrs]
    refine (h.readMem _ _).bind ?_
    rintro ⟨value, m₁⟩ ⟨_, m₁'⟩ ⟨rfl, hk⟩
    exact .ok ⟨hk.toKept, rfl, rfl, .inr rfl, ⟨instr.rt, rfl⟩⟩
  | lh | lhu | lw =>
    have hrs := h.gpr (hreads instr.rs (by simp [Instruction.reads, hop]))
    dsimp only
    rw [hrs]
    refine .ite hraise ((h.readMem _ _).bind ?_)
    rintro ⟨value, m₁⟩ ⟨_, m₁'⟩ ⟨rfl, hk⟩
    exact .ok ⟨hk.toKept, rfl, rfl, .inr rfl, ⟨instr.rt, rfl⟩⟩
  | lwl | lwr =>
    have hrs := h.gpr (hreads instr.rs (by simp [Instruction.reads, hop]))
    dsimp only
    rw [hrs]
    refine (h.readMem _ _).bind ?_
    rintro ⟨value, m₁⟩ ⟨_, m₁'⟩ ⟨rfl, hk⟩
    refine .ok ⟨hk.toKept, rfl, rfl, ?_, ⟨instr.rt, rfl⟩⟩
    obtain h0 | hp := hmerge (by simp [Instruction.Merges, hop])
    · exact .inl (by rw [h0]; rfl)
    · right
      dsimp only
      rw [pendingGpr_congr hk.registersLeft, pendingGpr_congr hk.registersRight, hp]
  | sb | sh | sw =>
    have hrs := h.gpr (hreads instr.rs (by simp [Instruction.reads, hop]))
    have hrt := h.gpr (hreads instr.rt (by simp [Instruction.reads, hop]))
    dsimp only
    rw [hrs, hrt]
    exact (h.writeMem _ _ _).bind fun _ _ hk => .ok ⟨hk, rfl, rfl, .inl rfl, ⟨0, rfl⟩⟩
  | swl | swr =>
    have hrs := h.gpr (hreads instr.rs (by simp [Instruction.reads, hop]))
    have hrt := h.gpr (hreads instr.rt (by simp [Instruction.reads, hop]))
    dsimp only
    rw [hrs, hrt]
    refine (h.readMem _ _).bind ?_
    rintro ⟨value, m₁⟩ ⟨_, m₁'⟩ ⟨rfl, hk⟩
    exact (hk.toKept.writeMem _ _ _).bind fun _ _ hk' => .ok ⟨hk', rfl, rfl, .inl rfl, ⟨0, rfl⟩⟩
  | syscall | res | unimp => exact hraise
  | rfe => exact .of_ne_ok fun _ hc => by cases hc

/-! ## One instruction -/

/-- What comes out of a delayed load: register 0 is 0, and what is pending is a load into a general purpose register. -/
structure Settled (m : Machine) (r : Fin 32) : Prop where
  zero : m.registers 0 = 0
  loadReg : m.registers Reg.loadReg = regNumber r

theorem Kept.refl (U : Reg → Prop) (m : Machine) : Kept U m m m m := ⟨rfl, fun _ _ => rfl, fun _ _ => rfl, fun _ _ => rfl⟩

/-- The last step of an instruction: the program counters advance. -/
def advance (m : Machine) (pcAfter : BitVec 32) : Machine :=
  ((m.writeRegister Reg.prevPCReg (m.registers Reg.pcReg)).writeRegister Reg.pcReg (m.registers Reg.nextPCReg)).writeRegister
    Reg.nextPCReg pcAfter

theorem liftFault_eq_ok {α : Type} {x : Except Fault α} {a : α} (h : liftFault x = .ok a) : x = .ok a := by
  cases x with
  | ok b => exact congrArg Except.ok (Except.ok.inj h)
  | error f => cases h

/-- The parts of an instruction that is done. -/
theorem of_oneInstruction_ok {m m' : Machine} (h : m.oneInstruction = .ok m') :
    ∃ raw m₁ e m₂, m.readMem (m.registers Reg.pcReg) 4 = .ok (raw, m₁) ∧ m₁.execute (decode raw) = .ok e ∧
      e.m.delayedLoad e.nextLoadReg e.nextLoadValue = .ok m₂ ∧ m' = m₂.advance e.pcAfter := by
  unfold oneInstruction at h
  obtain ⟨⟨raw, m₁⟩, hfetch, h⟩ := of_bind_ok h
  obtain ⟨e, he, h⟩ := of_bind_ok h
  obtain ⟨m₂, hload, h⟩ := of_bind_ok h
  cases h
  exact ⟨raw, m₁, e, m₂, hfetch, he, liftFault_eq_ok hload, rfl⟩

/-- An instruction that is done has settled. -/
theorem oneInstruction_settled {m m' : Machine} (h : m.oneInstruction = .ok m') : ∃ r, Settled m' r := by
  obtain ⟨raw, m₁, e, m₂, _, he, hload, rfl⟩ := of_oneInstruction_ok h
  have hfollows : Follows (SameResult (fun _ => False) m₁ m₁) (m₁.execute (decode raw)) (m₁.execute (decode raw)) :=
    execute_follows (Kept.refl _ m₁) (fun _ _ => id) (fun _ _ => id) id id id fun _ => .inr rfl
  obtain ⟨_, _, hsame⟩ := hfollows e he
  obtain ⟨r, hr⟩ := hsame.target
  unfold delayedLoad at hload
  obtain ⟨target, _, hload⟩ := of_bind_ok hload
  cases hload
  exact ⟨r, rfl, hr⟩

/-- The registers in which a machine with a load pending for `r` may differ from the one with the load done. -/
def Pending (r : Fin 32) (q : Reg) : Prop := r ≠ 0 ∧ q = gprReg r ∨ q = Reg.loadReg ∨ q = Reg.loadValueReg

/-- A machine whose pending load may have been committed. -/
structure MayBeSettled (m : Machine) (r : Fin 32) : Prop where
  zero : m.registers 0 = 0
  loadReg : m.registers Reg.loadReg = 0 ∨ m.registers Reg.loadReg = regNumber r

/-- Committing a load changes the registers of that load. -/
theorem MayBeSettled.kept {m : Machine} {r : Fin 32} (h : MayBeSettled m r) :
    Kept (Pending r) m (m.loaded 0 0) m (m.loaded 0 0) := by
  refine ⟨rfl, ?_, fun _ _ => rfl, fun _ _ => rfl⟩
  intro q hq
  obtain ⟨hpending, hspecial⟩ := not_or.1 hq
  obtain ⟨hload, hvalue⟩ := not_or.1 hspecial
  simp only [loaded]
  by_cases h0 : q = 0
  · rw [if_pos h0, h0, h.zero]
  · rw [if_neg h0, if_neg hload, if_neg hvalue, if_neg]
    intro hval
    obtain hl | hl := h.loadReg
    · rw [hl] at hval
      exact h0 (Fin.ext hval)
    · rw [hl, regNumber_toNat] at hval
      have hqr : q = gprReg r := Fin.ext hval
      refine hpending ⟨?_, hqr⟩
      rintro rfl
      exact h0 hqr

theorem regNumber_ne_zero {r : Fin 32} (hr : r ≠ 0) : regNumber r ≠ 0 := by
  intro h
  have hval := congrArg BitVec.toNat h
  rw [regNumber_toNat] at hval
  exact hr (Fin.ext hval)

/-- `LWL` and `LWR` see through a pending load. -/
theorem pendingGpr_loaded (m : Machine) {r : Fin 32} (hr : r ≠ 0) : (m.loaded 0 0).pendingGpr r = m.pendingGpr r := by
  have hload : (m.loaded 0 0).registers Reg.loadReg ≠ regNumber r := (regNumber_ne_zero hr).symm
  rw [pendingGpr, if_neg hload, loaded_gpr, if_neg hr]

/-! ## One instruction of two runs -/

/-- Two machines that are the same once the pending load is committed, and wait for the same load. -/
structure SameOnceLoaded (m m' : Machine) : Prop where
  loaded : m'.loaded 0 0 = m.loaded 0 0
  loadReg : m'.registers Reg.loadReg = m.registers Reg.loadReg

/-- Delayed loads after two executions of an operation, in a machine with a pending load and in the one with the load done. -/
theorem SameResult.loaded {m : Machine} {r : Fin 32} {e e' : Executed} (h : MayBeSettled m r)
    (hs : SameResult (Pending r) m (m.loaded 0 0) e e') {q : Reg} (hq : q ≠ Reg.loadValueReg) :
    (e'.m.loaded e'.nextLoadReg e'.nextLoadValue).registers q = (e.m.loaded e.nextLoadReg e.nextLoadValue).registers q := by
  have hload : e.m.registers Reg.loadReg = m.registers Reg.loadReg := hs.kept.left _ (.inr (.inl rfl))
  have hvalue : e.m.registers Reg.loadValueReg = m.registers Reg.loadValueReg := hs.kept.left _ (.inr (.inr rfl))
  have hload' : e'.m.registers Reg.loadReg = 0 := hs.kept.right _ (.inr (.inl rfl))
  simp only [Machine.loaded, hload, hvalue, hload', hs.nextLoadReg]
  by_cases h0 : q = 0
  · rw [if_pos h0, if_pos h0]
  · by_cases h1 : q = Reg.loadReg
    · rw [if_neg h0, if_pos h1, if_neg h0, if_pos h1]
    · have hq0 : q.val ≠ (0 : BitVec 32).toNat := fun hv => h0 (Fin.ext hv)
      rw [if_neg h0, if_neg h1, if_neg hq, if_neg hq0, if_neg h0, if_neg h1, if_neg hq]
      by_cases hU : Pending r q
      · rw [hs.kept.right q hU, hs.kept.left q hU]
        simp only [Machine.loaded, if_neg h0, if_neg h1, if_neg hq]
      · rw [hs.kept.alike q hU, if_neg]
        intro hv
        refine hU (.inl ?_)
        obtain hl | hl := h.loadReg
        · rw [hl] at hv
          exact (hq0 hv).elim
        · rw [hl, regNumber_toNat] at hv
          refine ⟨?_, Fin.ext hv⟩
          rintro rfl
          exact h0 (Fin.ext hv)

/-- Two machines that differ at most in the value of a load that goes nowhere. -/
structure SameButValue (m m' : Machine) : Prop where
  rest : m' = { m with registers := m'.registers }
  others : ∀ q, q ≠ Reg.loadValueReg → m'.registers q = m.registers q
  value : m.registers Reg.loadReg = 0 ∨ m'.registers Reg.loadValueReg = m.registers Reg.loadValueReg

namespace SameButValue

variable {m m' : Machine}

theorem writeRegister (h : SameButValue m m') {r : Reg} (hload : r ≠ Reg.loadReg) (hvalue : r ≠ Reg.loadValueReg)
    (v : BitVec 32) : SameButValue (m.writeRegister r v) (m'.writeRegister r v) := by
  refine ⟨?_, ?_, ?_⟩
  · rw [h.rest]
    rfl
  · intro q hq
    by_cases hqr : q = r
    · subst hqr
      rw [writeRegister_self, writeRegister_self]
    · rw [writeRegister_other _ hqr, writeRegister_other _ hqr, h.others q hq]
  · rw [writeRegister_other _ hload.symm, writeRegister_other _ hvalue.symm, writeRegister_other _ hvalue.symm]
    exact h.value

theorem advance (h : SameButValue m m') (pcAfter : BitVec 32) : SameButValue (m.advance pcAfter) (m'.advance pcAfter) := by
  unfold Machine.advance
  rw [h.others Reg.pcReg (by decide), h.others Reg.nextPCReg (by decide)]
  exact ((h.writeRegister (by decide) (by decide) _).writeRegister (by decide) (by decide) _).writeRegister (by decide)
    (by decide) _

theorem sameOnceLoaded (h : SameButValue m m') : SameOnceLoaded m m' := by
  have hload := h.others Reg.loadReg (by decide)
  refine ⟨?_, hload⟩
  have hregs : (m'.loaded 0 0).registers = (m.loaded 0 0).registers := by
    funext q
    simp only [Machine.loaded, hload]
    refine ite_congr rfl (fun _ => rfl) fun h0 => ite_congr rfl (fun _ => rfl) fun _ => ite_congr rfl (fun _ => rfl) ?_
    intro hv
    rw [h.others q hv]
    refine ite_congr rfl ?_ fun _ => rfl
    intro hq
    obtain hl | hvalue := h.value
    · rw [hl] at hq
      exact (h0 (Fin.ext hq)).elim
    · exact hvalue
  calc m'.loaded 0 0 = { m' with registers := (m'.loaded 0 0).registers } := rfl
    _ = { m with registers := (m'.loaded 0 0).registers } := by rw [h.rest]
    _ = m.loaded 0 0 := by rw [hregs]; rfl

end SameButValue

theorem not_pending_gprReg {r q : Fin 32} (h : r ≠ 0 → q ≠ r) : ¬Pending r (gprReg q) := by
  rintro (⟨hr, hqr⟩ | hload | hvalue)
  · have hval := congrArg Fin.val hqr
    exact h hr (Fin.ext hval)
  · have hval : q.val = 37 := congrArg Fin.val hload
    omega
  · have hval : q.val = 38 := congrArg Fin.val hvalue
    omega

theorem not_pending_of_le {r : Fin 32} {q : Reg} (h32 : 32 ≤ q.val) (h37 : q.val < 37) : ¬Pending r q := by
  rintro (⟨_, hqr⟩ | hload | hvalue)
  · have hval : q.val = r.val := congrArg Fin.val hqr
    omega
  · have hval : q.val = 37 := congrArg Fin.val hload
    omega
  · have hval : q.val = 38 := congrArg Fin.val hvalue
    omega

theorem MayBeSettled.loadReg_lt {m : Machine} {r : Fin 32} (h : MayBeSettled m r) : (m.registers Reg.loadReg).toNat < 32 := by
  obtain hl | hl := h.loadReg
  · rw [hl]
    decide
  · rw [hl]
    exact regNumber_lt r

/-- An operation that leaves the target of the pending load alone. -/
theorem execute_loaded {m : Machine} {r : Fin 32} {instr : Instruction} (h : MayBeSettled m r)
    (havoid : r ≠ 0 → instr.Avoids r) :
    Follows (SameResult (Pending r) m (m.loaded 0 0)) (m.execute instr) ((m.loaded 0 0).execute instr) := by
  refine execute_follows h.kept ?_ ?_ (not_pending_of_le (by decide) (by decide))
    (not_pending_of_le (by decide) (by decide)) (not_pending_of_le (by decide) (by decide)) ?_
  · intro q hq
    refine not_pending_gprReg ?_
    intro hr
    rintro rfl
    exact (havoid hr).1 hq
  · intro q hq
    refine not_pending_gprReg ?_
    intro hr
    rintro rfl
    exact (havoid hr).2 hq
  · intro _
    by_cases hrt : instr.rt = 0
    · exact .inl hrt
    · exact .inr (pendingGpr_loaded m hrt)

/-- What is fetched does not depend on the pending load. -/
theorem readMem_loaded {m m₁ : Machine} {r : Fin 32} (h : MayBeSettled m r) {addr value : BitVec 32} {size : Nat}
    (hm : m.readMem addr size = .ok (value, m₁)) :
    m₁.registers = m.registers ∧ (m.loaded 0 0).readMem addr size = .ok (value, m₁.loaded 0 0) := by
  obtain ⟨⟨_, m₁'⟩, hm', rfl, ha⟩ := h.kept.readMem addr size _ hm
  have hregs : (m.loaded 0 0).registers = (m₁.loaded 0 0).registers := by
    unfold loaded
    rw [ha.registersLeft]
  refine ⟨ha.registersLeft, ?_⟩
  have heq : m₁' = m₁.loaded 0 0 := by
    calc m₁' = { m₁ with registers := m₁'.registers } := ha.rest
      _ = { m₁ with registers := (m₁.loaded 0 0).registers } := by rw [ha.registersRight, hregs]
      _ = m₁.loaded 0 0 := rfl
  rw [hm', heq]

/-- The step of the simulation: an instruction that leaves the target of the pending load alone does the same, whether the load is
still pending or not. -/
theorem oneInstruction_follows {m : Machine} {r : Fin 32} (h : MayBeSettled m r)
    (havoid : ∀ raw m₁, m.readMem (m.registers Reg.pcReg) 4 = .ok (raw, m₁) → r ≠ 0 → (decode raw).Avoids r) :
    Follows SameOnceLoaded m.oneInstruction (m.loaded 0 0).oneInstruction := by
  intro p hp
  obtain ⟨raw, m₁, e, m₂, hfetch, he, hload, rfl⟩ := of_oneInstruction_ok hp
  obtain ⟨hregs, hfetch'⟩ := readMem_loaded h hfetch
  have h₁ : MayBeSettled m₁ r := ⟨by rw [hregs]; exact h.zero, by rw [hregs]; exact h.loadReg⟩
  obtain ⟨e', he', hs⟩ := execute_loaded h₁ (havoid raw m₁ hfetch) e he
  have hpc : (m.loaded 0 0).registers Reg.pcReg = m.registers Reg.pcReg :=
    h.kept.alike _ (not_pending_of_le (by decide) (by decide))
  have hlt : (e.m.registers Reg.loadReg).toNat < 32 := by
    rw [hs.kept.left _ (.inr (.inl rfl))]
    exact h₁.loadReg_lt
  have hlt' : (e'.m.registers Reg.loadReg).toNat < 32 := by
    rw [hs.kept.right _ (.inr (.inl rfl))]
    exact Nat.zero_lt_succ _
  rw [delayedLoad_eq hlt] at hload
  cases hload
  have hsame : SameButValue (e.m.loaded e.nextLoadReg e.nextLoadValue) (e'.m.loaded e'.nextLoadReg e'.nextLoadValue) := by
    refine ⟨?_, fun q hq => hs.loaded h₁ hq, hs.nextLoadValue⟩
    unfold loaded
    rw [hs.kept.rest]
  refine ⟨_, ?_, (hsame.advance e.pcAfter).sameOnceLoaded⟩
  unfold oneInstruction
  rw [hpc, hfetch', ok_bind]
  dsimp only
  rw [he', ok_bind, delayedLoad_eq hlt', ← hs.pcAfter]
  rfl

/-! ## Runs -/

/-- `Interrupt::CheckIfDue`, as the program sees it: when an interrupt is due, the pending load is committed before the handlers run,
and they touch no user state. -/
def checkIfDue (m : Machine) (due : Bool) : Except Fault Machine := if due then m.delayedLoad 0 0 else .ok m

/-- The first rounds of the loop of `Machine::Run`; `due` says after which instructions an interrupt fires. -/
def run (due : Nat → Bool) (m : Machine) : Nat → Except Trap Machine
  | 0 => .ok m
  | n + 1 => do
    let m ← run due m n
    let m ← m.oneInstruction
    liftFault (m.checkIfDue (due n))

/-- The next instruction reads the same in two machines: the same word is fetched, its registers hold the same, and so does the
memory behind the same mapping. `LWL` and `LWR` into register 0 merge into nothing. -/
structure SameReads (m m' : Machine) : Prop where
  registers : ∀ raw m₁, m.readMem (m.registers Reg.pcReg) 4 = .ok (raw, m₁) →
    (∃ m₁', m'.readMem (m'.registers Reg.pcReg) 4 = .ok (raw, m₁')) ∧
    (∀ r ∈ (decode raw).reads, m'.gpr r = m.gpr r) ∧
    ((decode raw).Merges → (decode raw).rt ≠ 0 → m'.pendingGpr (decode raw).rt = m.pendingGpr (decode raw).rt)
  mainMemory : m'.mainMemory = m.mainMemory
  tlb : m'.tlb = m.tlb
  pageTable : m'.pageTable = m.pageTable
  pageTableSize : m'.pageTableSize = m.pageTableSize

/-- A program cannot tell two runs of `n` instructions apart: every instruction reads the same, and the general purpose registers and
the memory end up the same once the pending load is committed. -/
def Indistinguishable (due due' : Nat → Bool) (m : Machine) (n : Nat) : Prop :=
  ∀ a b, run due m n = .ok a → run due' m n = .ok b →
    (∀ i < n, ∀ x y, run due m i = .ok x → run due' m i = .ok y → SameReads x y) ∧
      (∀ r : Reg, r.val < 32 → b.committed r = a.committed r) ∧ b.mainMemory = a.mainMemory

/-- No instruction of the run reads or writes the target of the load before it. -/
def RespectsDelay (due : Nat → Bool) (m : Machine) (n : Nat) : Prop :=
  ∀ i, i + 1 < n → ∀ x y z z' raw, run due m i = .ok x → x.oneInstruction = .ok y → run due m (i + 1) = .ok z →
    z.readMem (z.registers Reg.pcReg) 4 = .ok (raw, z') →
    ∀ r, r ≠ 0 → y.registers Reg.loadReg = regNumber r → (decode raw).Avoids r

/-- An interrupt or none: the pending load is committed or not. -/
theorem Settled.checkIfDue {p x : Machine} {r : Fin 32} (h : Settled p r) {due : Bool} (hx : p.checkIfDue due = .ok x) :
    MayBeSettled x r ∧ x.loaded 0 0 = p.loaded 0 0 := by
  unfold Machine.checkIfDue at hx
  cases due with
  | false =>
    cases hx
    exact ⟨⟨h.zero, .inr h.loadReg⟩, rfl⟩
  | true =>
    have hlt : (p.registers Reg.loadReg).toNat < 32 := by
      rw [h.loadReg]
      exact regNumber_lt r
    rw [if_pos rfl, delayedLoad_eq hlt] at hx
    cases hx
    refine ⟨⟨rfl, .inl rfl⟩, ?_⟩
    have hregs : ((p.loaded 0 0).loaded 0 0).registers = (p.loaded 0 0).registers := by
      funext q
      rw [← committed_eq (p.loaded 0 0)]
      unfold committed
      split
      · rename_i hq
        obtain rfl | rfl | rfl := hq <;> rfl
      · rename_i hq
        rw [if_neg]
        intro hv
        exact hq (.inl (Fin.ext hv))
    calc (p.loaded 0 0).loaded 0 0 = { p.loaded 0 0 with registers := ((p.loaded 0 0).loaded 0 0).registers } := rfl
      _ = p.loaded 0 0 := by rw [hregs]

/-- What is true of two runs between two instructions. -/
structure InStep (r : Fin 32) (x y : Machine) : Prop where
  left : MayBeSettled x r
  right : MayBeSettled y r
  loaded : y.loaded 0 0 = x.loaded 0 0

namespace InStep

variable {r : Fin 32} {x y : Machine}

theorem symm (h : InStep r x y) : InStep r y x := ⟨h.right, h.left, h.loaded.symm⟩

theorem pcReg (h : InStep r x y) : y.registers Reg.pcReg = x.registers Reg.pcReg := by
  have hpc {m : Machine} (hm : MayBeSettled m r) : (m.loaded 0 0).registers Reg.pcReg = m.registers Reg.pcReg :=
    hm.kept.alike _ (not_pending_of_le (by decide) (by decide))
  rw [← hpc h.left, ← hpc h.right, h.loaded]

/-- The machines differ in registers only. -/
theorem rest (h : InStep r x y) : y = { x with registers := y.registers } := by
  calc y = { y.loaded 0 0 with registers := y.registers } := rfl
    _ = { x.loaded 0 0 with registers := y.registers } := by rw [h.loaded]

/-- The same word is fetched. -/
theorem fetch (h : InStep r x y) {raw : BitVec 32} {x₁ : Machine}
    (hx : x.readMem (x.registers Reg.pcReg) 4 = .ok (raw, x₁)) : ∃ y₁, y.readMem (y.registers Reg.pcReg) 4 = .ok (raw, y₁) := by
  have hmap : SameMapping x y := by
    rw [h.rest]
    exact ⟨rfl, rfl, rfl⟩
  have hmem : y.mainMemory = x.mainMemory := by rw [h.rest]
  rw [h.pcReg]
  exact hmap.readMem_same hmem hx

/-- The next instruction reads the same, when it leaves the target of the pending load alone. -/
theorem sameReads (h : InStep r x y)
    (havoid : ∀ raw x₁, x.readMem (x.registers Reg.pcReg) 4 = .ok (raw, x₁) → r ≠ 0 → (decode raw).Avoids r) : SameReads x y := by
  refine ⟨fun raw x₁ hx => ⟨h.fetch hx, ?_, ?_⟩, ?_, ?_, ?_, ?_⟩
  · intro q hq
    have hq' : ¬Pending r (gprReg q) := by
      refine not_pending_gprReg ?_
      intro hr
      rintro rfl
      exact (havoid raw x₁ hx hr).1 hq
    rw [← h.left.kept.gpr hq', ← h.right.kept.gpr hq', h.loaded]
  · intro _ hrt
    rw [← pendingGpr_loaded x hrt, ← pendingGpr_loaded y hrt, h.loaded]
  · rw [h.rest]
  · rw [h.rest]
  · rw [h.rest]
  · rw [h.rest]

/-- The step of two runs: an instruction of each, and perhaps an interrupt after it. -/
theorem oneInstruction (h : InStep r x y)
    (havoid : ∀ raw x₁, x.readMem (x.registers Reg.pcReg) 4 = .ok (raw, x₁) → r ≠ 0 → (decode raw).Avoids r)
    {p q x' y' : Machine} {due due' : Bool} (hp : x.oneInstruction = .ok p) (hq : y.oneInstruction = .ok q)
    (hx : p.checkIfDue due = .ok x') (hy : q.checkIfDue due' = .ok y') :
    ∃ r', p.registers Reg.loadReg = regNumber r' ∧ InStep r' x' y' := by
  obtain ⟨c, hc, hpc⟩ := oneInstruction_follows h.left havoid p hp
  have havoid' : ∀ raw y₁, y.readMem (y.registers Reg.pcReg) 4 = .ok (raw, y₁) → r ≠ 0 → (decode raw).Avoids r := by
    intro raw y₁ hy₁
    obtain ⟨x₁, hx₁⟩ := h.symm.fetch hy₁
    exact havoid raw x₁ hx₁
  obtain ⟨c', hc', hqc⟩ := oneInstruction_follows h.right havoid' q hq
  rw [h.loaded, hc] at hc'
  cases hc'
  obtain ⟨r', hr'⟩ := oneInstruction_settled hp
  obtain ⟨s, hs⟩ := oneInstruction_settled hq
  have hq' : Settled q r' := ⟨hs.zero, by rw [← hqc.loadReg, hpc.loadReg, hr'.loadReg]⟩
  obtain ⟨hleft, hl⟩ := hr'.checkIfDue hx
  obtain ⟨hright, hl'⟩ := hq'.checkIfDue hy
  refine ⟨r', hr'.loadReg, hleft, hright, ?_⟩
  rw [hl, hl', ← hqc.loaded, hpc.loaded]

end InStep

/-- A round of a run. -/
theorem of_run_succ {due : Nat → Bool} {m x : Machine} {n : Nat} (h : run due m (n + 1) = .ok x) :
    ∃ w p, run due m n = .ok w ∧ w.oneInstruction = .ok p ∧ p.checkIfDue (due n) = .ok x := by
  obtain ⟨w, hw, h⟩ := of_bind_ok h
  obtain ⟨p, hp, h⟩ := of_bind_ok h
  exact ⟨w, p, hw, hp, liftFault_eq_ok h⟩

/-- Two runs stay in step; the load that may be pending is the one of the last instruction. -/
theorem run_inStep {due due' : Nat → Bool} {m : Machine} {n : Nat} (h : RespectsDelay due m n) {i : Nat} (hi : i < n)
    {x y : Machine} (hx : run due m (i + 1) = .ok x) (hy : run due' m (i + 1) = .ok y) :
    ∃ w p r, run due m i = .ok w ∧ w.oneInstruction = .ok p ∧ p.registers Reg.loadReg = regNumber r ∧ InStep r x y := by
  induction i generalizing x y with
  | zero =>
    obtain ⟨w, p, hw, hp, hx⟩ := of_run_succ hx
    obtain ⟨w', p', hw', hp', hy⟩ := of_run_succ hy
    cases hw
    cases hw'
    rw [hp] at hp'
    cases hp'
    obtain ⟨r, hr⟩ := oneInstruction_settled hp
    obtain ⟨hleft, hl⟩ := hr.checkIfDue hx
    obtain ⟨hright, hl'⟩ := hr.checkIfDue hy
    exact ⟨m, p, r, rfl, hp, hr.loadReg, hleft, hright, by rw [hl, hl']⟩
  | succ i ih =>
    obtain ⟨w, p, hw, hp, hx⟩ := of_run_succ hx
    obtain ⟨w', p', hw', hp', hy⟩ := of_run_succ hy
    obtain ⟨v, p₀, r, hv, hp₀, hr, hstep⟩ := ih (by omega) hw hw'
    have havoid : ∀ raw w₁, w.readMem (w.registers Reg.pcReg) 4 = .ok (raw, w₁) → r ≠ 0 → (decode raw).Avoids r :=
      fun raw w₁ hfetch h0 => h i hi v p₀ w w₁ raw hv hp₀ hw hfetch r h0 hr
    obtain ⟨r', hr', hstep'⟩ := hstep.oneInstruction havoid hp hp' hx hy
    exact ⟨w, p, r', hw, hp, hr', hstep'⟩

/-- Interrupts are invisible to a program that leaves the target of a load alone in its delay slot. -/
theorem preemption_invisible {due due' : Nat → Bool} {m : Machine} {n : Nat} (h : RespectsDelay due m n) :
    Indistinguishable due due' m n := by
  intro a b ha hb
  refine ⟨?_, ?_⟩
  · intro i hi x y hx hy
    cases i with
    | zero =>
      cases hx
      cases hy
      exact ⟨fun raw m₁ hm => ⟨⟨m₁, hm⟩, fun _ _ => rfl, fun _ _ => rfl⟩, rfl, rfl, rfl, rfl⟩
    | succ i =>
      obtain ⟨w, p, r, hw, hp, hr, hstep⟩ := run_inStep h (by omega) hx hy
      exact hstep.sameReads fun raw x₁ hfetch h0 => h i hi w p x x₁ raw hw hp hx hfetch r h0 hr
  · cases n with
    | zero =>
      cases ha
      cases hb
      exact ⟨fun _ _ => rfl, rfl⟩
    | succ n =>
      obtain ⟨_, _, _, _, _, _, hstep⟩ := run_inStep h (Nat.lt_succ_self n) ha hb
      refine ⟨?_, by rw [hstep.rest]⟩
      intro q _
      rw [committed_eq, committed_eq, hstep.loaded]

/-- A machine whose memory holds `lw $2, 8($0)`, an instruction, and the word 7. -/
def loadThen (instr : BitVec 32) : Machine where
  registers := fun r => if r = Reg.nextPCReg then 4 else 0
  mainMemory := store (store (store (fun _ => 0) 0 4 0x8c020008) 4 4 instr) 8 4 7
  tlb := none
  pageTable := some fun vpn => ⟨.ofNat 32 vpn, .ofNat 32 vpn, true, false, false, false⟩
  pageTableSize := 128

/-- `addu $3, $2, $0` in the delay slot of a load into register 2: without an interrupt in between it reads the old contents. -/
theorem preemption_visible : ¬Indistinguishable (fun _ => false) (fun _ => true) (loadThen 0x00401821) 2 := by
  intro h
  have hcommitted := (h _ _ rfl rfl).2.1 3 (by decide)
  exact absurd hcommitted (by decide)

/-- `addu $3, $0, $0` in its place reads nothing that is pending. -/
theorem preemption_invisible_independent : Indistinguishable (fun _ => false) (fun _ => true) (loadThen 0x00001821) 2 := by
  refine preemption_invisible ?_
  intro i hi x y z z' raw hx hy hz hfetch r hr hload
  obtain rfl : i = 0 := by omega
  cases hx
  have hy' : y.registers Reg.loadReg = 2 := by
    cases hy
    rfl
  have hraw : raw = 0x00001821 := by
    cases hz
    cases hfetch
    rfl
  rw [hraw]
  rw [hy'] at hload
  obtain rfl : r = 2 := by
    have hval := congrArg BitVec.toNat hload
    rw [regNumber_toNat] at hval
    exact Fin.ext hval.symm
  exact ⟨by decide, by decide⟩

end Machine

end Nachos
