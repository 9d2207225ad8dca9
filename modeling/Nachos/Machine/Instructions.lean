import Nachos.Machine.Access

/-!
# What an instruction leaves (OneInstruction of machine/mipssim.cc)

The `switch` touches the control registers only at its end, and an instruction that does not complete raises an exception, but for one
division. What a completed instruction leaves is said register by register.
-/

namespace Nachos

open Bytes Loop

/-- The operations that can set the next program counter. -/
def OpCode.isBranch : OpCode → Bool
  | .beq | .bgez | .bgezal | .bgtz | .blez | .bltz | .bltzal | .bne | .j | .jal | .jalr | .jr => true
  | _ => false

namespace Machine

/-! ## The switch -/

/-- The control registers are the same, and user memory is where it was. -/
structure SameControl (m m' : Machine) : Prop extends SameMapping m m' where
  control : ∀ r : Reg, 34 ≤ r.val → m'.registers r = m.registers r

theorem SameControl.refl (m : Machine) : SameControl m m := ⟨⟨rfl, rfl, rfl⟩, fun _ _ => rfl⟩

theorem Touched.sameControl {m m' : Machine} (h : Touched m m') : SameControl m m' := ⟨h.toSameMapping, fun r _ => by rw [h.registers]⟩

theorem SameControl.trans {m₁ m₂ m₃ : Machine} (h : SameControl m₁ m₂) (h' : SameControl m₂ m₃) : SameControl m₁ m₃ :=
  ⟨h.toSameMapping.trans h'.toSameMapping, fun r hr => (h'.control r hr).trans (h.control r hr)⟩

theorem sameControl_writeRegister (m : Machine) {r : Reg} (hr : r.val < 34) (value : BitVec 32) : SameControl m (m.writeRegister r value) :=
  ⟨⟨rfl, rfl, rfl⟩, fun r' hr' => writeRegister_other m (by rintro rfl; omega) value⟩

theorem sameControl_setGpr (m : Machine) (r : Fin 32) (value : BitVec 32) : SameControl m (m.setGpr r value) :=
  sameControl_writeRegister m (by have := r.isLt; simp; omega) value

/-- A register for multiplications and divisions, written with the other one. -/
theorem sameControl_hiLo (m : Machine) {r r' : Reg} (hr : r.val < 34) (hr' : r'.val < 34) (value value' : BitVec 32) :
    SameControl m ((m.writeRegister r value).writeRegister r' value') :=
  (sameControl_writeRegister m hr value).trans (sameControl_writeRegister _ hr' value')

/-- What every operation leaves. -/
structure Executes (m : Machine) (instr : Instruction) (x : Executed) : Prop where
  sameControl : SameControl m x.m
  nextLoadReg : x.nextLoadReg.toNat < 32
  pcAfter : instr.opCode.isBranch = false → x.pcAfter = m.registers Reg.nextPCReg + 4

/-- The quotient of the least number by -1 does not fit. -/
def BadDivision (m : Machine) (instr : Instruction) : Prop :=
  instr.opCode = .div ∧ m.gpr instr.rs = 0x80000000 ∧ m.gpr instr.rt = 0xffffffff

instance (m : Machine) (instr : Instruction) : Decidable (BadDivision m instr) := inferInstanceAs (Decidable (_ ∧ _))

/-- What the machine relies on: a delayed load is into a general purpose register, and there is one scheme of translation. -/
structure Sound (m : Machine) : Prop where
  loadReg : (m.registers Reg.loadReg).toNat < 32
  oneScheme : m.OneScheme

theorem SameControl.sound {m m' : Machine} (h : SameControl m m') (hs : m.Sound) : m'.Sound :=
  ⟨by rw [h.control _ (by decide)]; exact hs.loadReg, h.toSameMapping.oneScheme hs.oneScheme⟩

/-- An exception, or else a fault under a condition. -/
def StopsIf (c : Prop) : Trap → Prop
  | .raise _ _ => True
  | .fault _ => c

theorem StopsIf.imp {c c' : Prop} (h : c → c') {t : Trap} (ht : StopsIf c t) : StopsIf c' t := by
  cases t with
  | raise which m => trivial
  | fault f => exact h ht

theorem raiseException_eq {α : Type} {m : Machine} (hl : (m.registers Reg.loadReg).toNat < 32) (which : ExceptionType)
    (badVAddr : BitVec 32) : (m.raiseException which badVAddr : Except Trap α) =
      .error (.raise which ((m.writeRegister Reg.badVAddrReg badVAddr).loaded 0 0)) := by
  unfold raiseException
  rw [delayedLoad_eq (by rw [writeRegister_other _ (by decide)]; exact hl)]
  rfl

theorem raiseException_stops {α : Type} (m : Machine) (which : ExceptionType) (badVAddr : BitVec 32) {Q : α → Prop} :
    Ends Q (StopsIf ¬m.Sound) (m.raiseException which badVAddr) := by
  cases h : (m.raiseException which badVAddr : Except Trap α) with
  | ok a => exact (raiseException_ne_ok h).elim
  | error t =>
    cases t with
    | raise which' m' => exact .error trivial
    | fault f =>
      refine .error fun hs => ?_
      rw [raiseException_eq hs.loadReg] at h
      cases h

/-- An access stops the simulator only if the machine is not sound. -/
theorem access_stops {α : Type} (m : Machine) (a : BitVec 32) {size : Nat} (hs : IsSize size) (writing : Bool) {Q : α → Prop}
    {carryOut : Nat → Machine → Except Trap α}
    (hcarry : ∀ p m₁, m.translate a size writing = .ok (.noException, p, m₁) → ∃ r, carryOut p m₁ = .ok r ∧ Q r) :
    Ends Q (StopsIf ¬m.Sound) (m.access a size writing carryOut) := by
  have hcases := access_cases (rfl : m.access a size writing carryOut = _)
  obtain ⟨f, ht, heq⟩ | ⟨exception, m₁, htouch, heq⟩ | ⟨p, m₁, ht, -, heq⟩ := hcases
  · rw [heq]
    refine .error fun hsound => ?_
    obtain ⟨r, hr⟩ := translate_total hsound.oneScheme a hs writing
    cases ht.symm.trans hr
  · rw [heq]
    exact (raiseException_stops m₁ exception a).mono (fun _ h => h) fun _ h => h.imp (mt htouch.sameControl.sound)
  · obtain ⟨r, hr, hq⟩ := hcarry p m₁ ht
    rw [heq, hr]
    exact .ok hq

theorem readMem_stops (m : Machine) (a : BitVec 32) {size : Nat} (hs : IsSize size) :
    Ends (fun r : BitVec 32 × Machine => SameControl m r.2) (StopsIf ¬m.Sound) (m.readMem a size) := by
  rw [readMem_eq]
  exact m.access_stops a hs false fun p m₁ ht => ⟨_, if_pos hs, (translate_touched ht).sameControl⟩

theorem writeMem_stops (m : Machine) (a value : BitVec 32) {size : Nat} (hs : IsSize size) :
    Ends (SameControl m) (StopsIf ¬m.Sound) (m.writeMem a size value) := by
  rw [writeMem_eq]
  refine m.access_stops a hs true fun p m₁ ht => ⟨_, if_pos hs, ?_⟩
  have htouch := translate_touched ht
  exact ⟨⟨htouch.pageTableSize, htouch.pageTable, htouch.tlb⟩, fun r _ => congrFun htouch.registers r⟩

/-- Every operation keeps the control registers, and stops the simulator at most in one division. -/
theorem execute_stops (m : Machine) (instr : Instruction) (hrfe : instr.opCode ≠ .rfe) :
    Ends (Executes m instr) (StopsIf (m.Sound → BadDivision m instr)) (m.execute instr) := by
  have hdone {m' : Machine} (hk : SameControl m m') {pcAfter : BitVec 32}
      (hpc : instr.opCode.isBranch = false → pcAfter = m.registers Reg.nextPCReg + 4) :
      Ends (Executes m instr) (StopsIf (m.Sound → BadDivision m instr))
        (.ok { m := m', pcAfter, nextLoadReg := 0, nextLoadValue := 0 }) := .ok ⟨hk, by simp, hpc⟩
  have hload {m' : Machine} (hk : SameControl m m') {value : BitVec 32} :
      Ends (Executes m instr) (StopsIf (m.Sound → BadDivision m instr))
        (.ok { m := m', pcAfter := m.registers Reg.nextPCReg + 4, nextLoadReg := regNumber instr.rt, nextLoadValue := value }) :=
    .ok ⟨hk, regNumber_lt _, fun _ => rfl⟩
  have hstop {t : Trap} (h : StopsIf (¬m.Sound) t) : StopsIf (m.Sound → BadDivision m instr) t := h.imp fun h hs => absurd hs h
  have hraise (which badVAddr) : Ends (Executes m instr) (StopsIf (m.Sound → BadDivision m instr)) (m.raiseException which badVAddr) :=
    (m.raiseException_stops which badVAddr).mono (fun _ h => h) fun _ => hstop
  have hread (a : BitVec 32) {size : Nat} (hs : IsSize size) :
      Ends (fun r : BitVec 32 × Machine => SameControl m r.2) (StopsIf (m.Sound → BadDivision m instr)) (m.readMem a size) :=
    (m.readMem_stops a hs).mono (fun _ h => h) fun _ => hstop
  have hwrite {m' : Machine} (hk : SameControl m m') (a value : BitVec 32) {size : Nat} (hs : IsSize size) :
      Ends (SameControl m) (StopsIf (m.Sound → BadDivision m instr)) (m'.writeMem a size value) :=
    (m'.writeMem_stops a value hs).mono (fun _ h => hk.trans h) fun _ h => hstop (h.imp (mt fun hs => hk.sound hs))
  unfold execute
  cases hop : instr.opCode with
  | add | addi | sub =>
    dsimp only
    split
    · exact hraise _ _
    · exact hdone (sameControl_setGpr ..) fun _ => rfl
  | beq | bne | bgez | bgtz | blez | bltz =>
    dsimp only
    split <;> exact hdone (.refl m) (by simp [hop, OpCode.isBranch])
  | bgezal | bltzal =>
    dsimp only
    split <;> exact hdone (sameControl_setGpr ..) (by simp [hop, OpCode.isBranch])
  | j | jr => exact hdone (.refl m) (by simp [hop, OpCode.isBranch])
  | jal | jalr => exact hdone (sameControl_setGpr ..) (by simp [hop, OpCode.isBranch])
  | div =>
    dsimp only
    split
    · exact hdone (sameControl_hiLo m (by decide) (by decide) _ _) fun _ => rfl
    · split
      · rename_i hbad
        exact .error fun _ => ⟨hop, hbad⟩
      · exact hdone (sameControl_hiLo m (by decide) (by decide) _ _) fun _ => rfl
  | divu =>
    dsimp only
    split <;> exact hdone (sameControl_hiLo m (by decide) (by decide) _ _) fun _ => rfl
  | mult | multu => exact hdone (sameControl_hiLo m (by decide) (by decide) _ _) fun _ => rfl
  | mthi | mtlo => exact hdone (sameControl_writeRegister m (by decide) _) fun _ => rfl
  | lb | lbu => exact (hread _ (.inl rfl)).bind fun _ hk => hload hk
  | lwl | lwr => exact (hread _ (.inr (.inr rfl))).bind fun _ hk => hload hk
  | lh | lhu =>
    dsimp only
    split
    · exact hraise _ _
    · exact (hread _ (.inr (.inl rfl))).bind fun _ hk => hload hk
  | lw =>
    dsimp only
    split
    · exact hraise _ _
    · exact (hread _ (.inr (.inr rfl))).bind fun _ hk => hload hk
  | sb => exact (hwrite (.refl m) _ _ (.inl rfl)).bind fun _ hk => hdone hk fun _ => rfl
  | sh => exact (hwrite (.refl m) _ _ (.inr (.inl rfl))).bind fun _ hk => hdone hk fun _ => rfl
  | sw => exact (hwrite (.refl m) _ _ (.inr (.inr rfl))).bind fun _ hk => hdone hk fun _ => rfl
  | swl | swr =>
    refine (hread _ (.inr (.inr rfl))).bind ?_
    rintro ⟨value, m'⟩ hk
    exact (hwrite hk _ _ (.inr (.inr rfl))).bind fun _ hk => hdone hk fun _ => rfl
  | syscall | res | unimp => exact hraise _ _
  | rfe => exact absurd hop hrfe
  | _ => exact hdone (sameControl_setGpr ..) fun _ => rfl

/-! ## Decode -/

deriving instance DecidableEq for OpEntry

/-- The entry of `opTable` for a word. -/
def opInfo (value : BitVec 32) : OpEntry × Format := opTable.get (value.extractLsb' 26 6).toFin

/-- Where the operation of a word comes from. -/
theorem decode_cases (value : BitVec 32) :
    (opInfo value).1 = .op (decode value).opCode ∨
      ((opInfo value).1 = .special ∧ ∃ i, specialTable.get i = (decode value).opCode) ∨
        (decode value).opCode ∈ [OpCode.bltz, .bgez, .bltzal, .bgezal, .unimp] := by
  unfold decode opInfo
  dsimp only
  cases (opTable.get (value.extractLsb' 26 6).toFin).1 with
  | op opCode => exact .inl rfl
  | special => exact .inr (.inl ⟨rfl, _, rfl⟩)
  | bcond =>
    refine .inr (.inr ?_)
    dsimp only
    split
    · simp
    · split
      · simp
      · split
        · simp
        · split <;> simp

/-- No word is decoded to the operation that has no case. -/
theorem decode_ne_rfe (value : BitVec 32) : (decode value).opCode ≠ .rfe := by
  have hop : ∀ i, (opTable.get i).1 ≠ .op .rfe := by decide
  have hspecial : ∀ i, specialTable.get i ≠ .rfe := by decide
  intro h
  have hcases := decode_cases value
  rw [h] at hcases
  obtain h | ⟨-, i, h⟩ | h := hcases
  · exact hop _ h
  · exact hspecial i h
  · simp at h

/-! ## OneInstruction -/

/-- What a completed instruction leaves: the pending load is done, and the program counters are advanced. -/
def Executed.finished (x : Executed) : Machine :=
  let m := x.m.loaded x.nextLoadReg x.nextLoadValue
  let m := m.writeRegister Reg.prevPCReg (m.registers Reg.pcReg)
  let m := m.writeRegister Reg.pcReg (m.registers Reg.nextPCReg)
  m.writeRegister Reg.nextPCReg x.pcAfter

theorem Executed.finished_mapping (x : Executed) : SameMapping x.m x.finished := ⟨rfl, rfl, rfl⟩

theorem Executed.finished_mainMemory (x : Executed) : x.finished.mainMemory = x.m.mainMemory := rfl

theorem Executed.finished_loadReg (x : Executed) : x.finished.registers Reg.loadReg = x.nextLoadReg := rfl

theorem Executed.finished_loadValueReg (x : Executed) : x.finished.registers Reg.loadValueReg = x.nextLoadValue := rfl

/-- The word that is fetched. -/
def fetched (m : Machine) : Option (BitVec 32) :=
  match m.readMem (m.registers Reg.pcReg) 4 with
  | .ok (raw, _) => some raw
  | .error _ => none

theorem fetched_eq_some {m : Machine} {raw : BitVec 32} :
    m.fetched = some raw ↔ ∃ m', m.readMem (m.registers Reg.pcReg) 4 = .ok (raw, m') := by
  unfold fetched
  split
  · rename_i raw' m' h
    simp [h]
  · rename_i t h
    simp [h]

theorem Touched.gpr_eq {m m' : Machine} (h : Touched m m') (r : Fin 32) : m'.gpr r = m.gpr r := by
  unfold gpr
  rw [h.registers]

/-- An instruction that is executed. -/
theorem oneInstruction_of {m m' : Machine} {raw : BitVec 32} {x : Executed} (hl : (m.registers Reg.loadReg).toNat < 32)
    (hf : m.readMem (m.registers Reg.pcReg) 4 = .ok (raw, m')) (hx : m'.execute (decode raw) = .ok x) :
    m.oneInstruction = .ok x.finished := by
  have hkept := ((m'.execute_stops (decode raw) (decode_ne_rfe raw)).of_ok hx).sameControl
  have hload : (x.m.registers Reg.loadReg).toNat < 32 := by
    rw [hkept.control _ (by decide), (of_readMem hf).2.2.1.registers]
    exact hl
  unfold oneInstruction
  rw [hf, ok_bind]
  dsimp only
  rw [hx, ok_bind, delayedLoad_eq hload]
  rfl

/-- An instruction that ends early. -/
theorem oneInstruction_error {m m' : Machine} {raw : BitVec 32} {t : Trap} (hf : m.readMem (m.registers Reg.pcReg) 4 = .ok (raw, m'))
    (hx : m'.execute (decode raw) = .error t) : m.oneInstruction = .error t := by
  unfold oneInstruction
  rw [hf, ok_bind]
  dsimp only
  rw [hx]
  rfl

/-- What has been executed by an instruction that has completed. -/
theorem of_oneInstruction {m m₁ : Machine} (hl : (m.registers Reg.loadReg).toNat < 32) (h : m.oneInstruction = .ok m₁) :
    ∃ raw m' x, m.readMem (m.registers Reg.pcReg) 4 = .ok (raw, m') ∧ m'.execute (decode raw) = .ok x ∧ m₁ = x.finished := by
  obtain ⟨⟨raw, m'⟩, hf, hrest⟩ := of_bind_ok h
  obtain ⟨x, hx, -⟩ := of_bind_ok hrest
  exact ⟨raw, m', x, hf, hx, Except.ok.inj (h.symm.trans (oneInstruction_of hl hf hx))⟩

/-- A pending load is into no register beyond the general purpose registers. -/
theorem loaded_control {m : Machine} (hl : (m.registers Reg.loadReg).toNat < 32) (nextReg nextValue : BitVec 32) {r : Reg}
    (hr : 32 ≤ r.val) (hreg : r ≠ Reg.loadReg) (hvalue : r ≠ Reg.loadValueReg) :
    (m.loaded nextReg nextValue).registers r = m.registers r := by
  have hzero : r ≠ 0 := by
    rintro rfl
    exact absurd hr (by decide)
  unfold loaded
  dsimp only
  rw [if_neg hzero, if_neg hreg, if_neg hvalue, if_neg (by omega)]

/-- A general purpose register after a completed instruction. -/
theorem Executed.finished_gpr (x : Executed) (r : Fin 32) : x.finished.gpr r = if r = 0 then 0 else x.m.pendingGpr r := by
  rw [← loaded_gpr x.m x.nextLoadReg x.nextLoadValue]
  unfold gpr finished
  dsimp only
  rw [writeRegister_other _ (castLE_ne r (by decide)), writeRegister_other _ (castLE_ne r (by decide)),
    writeRegister_other _ (castLE_ne r (by decide))]

/-! ## No abort -/

theorem Touched.badDivision {m m' : Machine} (h : Touched m m') (instr : Instruction) : BadDivision m' instr ↔ BadDivision m instr := by
  unfold BadDivision
  rw [h.gpr_eq, h.gpr_eq]

/-- An instruction stops the simulator at most in the division of the least number by -1. -/
theorem oneInstruction_stops (m : Machine) (hs : m.Sound) :
    Ends (fun _ => True) (StopsIf (∃ raw, m.fetched = some raw ∧ BadDivision m (decode raw))) m.oneInstruction := by
  cases hf : m.readMem (m.registers Reg.pcReg) 4 with
  | error t =>
    unfold oneInstruction
    rw [hf]
    exact .error (((m.readMem_stops _ (.inr (.inr rfl))).of_error hf).imp fun hn => absurd hs hn)
  | ok r =>
    obtain ⟨raw, m'⟩ := r
    have htouch := (of_readMem hf).2.2.1
    cases hx : m'.execute (decode raw) with
    | error t =>
      rw [oneInstruction_error hf hx]
      refine .error (((m'.execute_stops (decode raw) (decode_ne_rfe raw)).of_error hx).imp fun hbad => ?_)
      exact ⟨raw, fetched_eq_some.2 ⟨m', hf⟩, (htouch.badDivision _).1 (hbad (htouch.sameControl.sound hs))⟩
    | ok x =>
      rw [oneInstruction_of hs.loadReg hf hx]
      exact .ok trivial

/-- A user program stops the simulator exactly when it divides the least number by -1; every other instruction completes or raises an
exception. -/
theorem completes_or_raises_iff (m : Machine) (hs : m.Sound) :
    ((∃ m', m.oneInstruction = .ok m') ∨ ∃ which m', m.oneInstruction = .error (.raise which m')) ↔
      ¬∃ raw, m.fetched = some raw ∧ BadDivision m (decode raw) := by
  constructor
  · rintro h ⟨raw, hf, hbad⟩
    obtain ⟨m', hf⟩ := fetched_eq_some.1 hf
    obtain ⟨hop, hrs, hrt⟩ := ((of_readMem hf).2.2.1.badDivision _).2 hbad
    have hfault : m.oneInstruction = .error (.fault .badQuotient) := by
      unfold oneInstruction
      rw [hf, ok_bind]
      dsimp only
      unfold execute
      rw [hop]
      dsimp only
      rw [hrs, hrt]
      rfl
    rw [hfault] at h
    rcases h with ⟨m', h⟩ | ⟨which, m', h⟩ <;> cases h
  · intro hn
    have hends := m.oneInstruction_stops hs
    cases h : m.oneInstruction with
    | ok m' => exact .inl ⟨m', rfl⟩
    | error t =>
      cases t with
      | raise which m' => exact .inr ⟨which, m', rfl⟩
      | fault f => exact absurd (hends.of_error h) hn

theorem completes_or_raises_iff_misaligned :
    (∃ m', misaligned.oneInstruction = .ok m') ∨ ∃ which m', misaligned.oneInstruction = .error (.raise which m') := by
  refine (completes_or_raises_iff misaligned ⟨by decide, by decide⟩).2 ?_
  rintro ⟨raw, hf, hop, -⟩
  have hraw : misaligned.fetched = some 0x8c020001 := rfl
  cases hraw.symm.trans hf
  exact absurd hop (by decide)

/-- A machine with the instruction `div $1, $2`, for the least number and -1. -/
def leastByMinusOne : Machine :=
  { misaligned with
    registers := fun r => if r = 1 then 0x80000000 else if r = 2 then 0xffffffff else 0
    mainMemory := fun j => if j = 0 then 0x1a else if j = 2 then 0x22 else 0 }

/-- A user program can stop the simulator. -/
theorem not_completes_or_raises :
    ¬∀ m : Machine, m.Sound → (∃ m', m.oneInstruction = .ok m') ∨ ∃ which m', m.oneInstruction = .error (.raise which m') := by
  intro h
  have hfault : leastByMinusOne.oneInstruction = .error (.fault .badQuotient) := rfl
  have hs := h leastByMinusOne ⟨by decide, by decide⟩
  rw [hfault] at hs
  rcases hs with ⟨m', hm⟩ | ⟨which, m', hm⟩ <;> cases hm

end Machine

end Nachos
