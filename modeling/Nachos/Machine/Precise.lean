import Nachos.Prelude.Outcome
import Nachos.Machine.Mips

/-!
# Exceptions are precise

What an instruction has done when it raises an exception: the pending load is committed, the faulting address is recorded, and use
and dirty bits may be set. Everything else is as the instruction found it, so that it can be started again.
-/

namespace Nachos

open Loop

/-- What an entry says about its page, without the bits that the accesses set. -/
def TranslationEntry.mapping (e : TranslationEntry) : TranslationEntry := { e with use := false, dirty := false }

namespace Machine

/-! ## Machines that differ in use and dirty bits -/

/-- The page table without the use and dirty bits. -/
def pageMapping (m : Machine) : Option (Nat → TranslationEntry) := m.pageTable.map fun pageTable vpn => (pageTable vpn).mapping

/-- The TLB without the use and dirty bits. -/
def tlbMapping (m : Machine) : Option (Fin tlbSize → TranslationEntry) := m.tlb.map fun tlb i => (tlb i).mapping

/-- The tables of the machines differ at most in use and dirty bits. -/
structure SameMapping (m m' : Machine) : Prop where
  pageTableSize : m'.pageTableSize = m.pageTableSize
  pageTable : m'.pageMapping = m.pageMapping
  tlb : m'.tlbMapping = m.tlbMapping

/-- The machines differ at most in use and dirty bits. -/
structure Touched (m m' : Machine) : Prop extends SameMapping m m' where
  registers : m'.registers = m.registers
  mainMemory : m'.mainMemory = m.mainMemory

theorem SameMapping.trans {m₁ m₂ m₃ : Machine} (h : SameMapping m₁ m₂) (h' : SameMapping m₂ m₃) : SameMapping m₁ m₃ :=
  ⟨h'.pageTableSize.trans h.pageTableSize, h'.pageTable.trans h.pageTable, h'.tlb.trans h.tlb⟩

theorem Touched.refl (m : Machine) : Touched m m := ⟨⟨rfl, rfl, rfl⟩, rfl, rfl⟩

theorem Touched.trans {m₁ m₂ m₃ : Machine} (h : Touched m₁ m₂) (h' : Touched m₂ m₃) : Touched m₁ m₃ :=
  ⟨h.toSameMapping.trans h'.toSameMapping, h'.registers.trans h.registers, h'.mainMemory.trans h.mainMemory⟩

/-- An access marks one entry. -/
theorem touched_touch (m : Machine) (slot : Slot) (writing : Bool) : Touched m (m.touch slot writing) := by
  cases slot with
  | page vpn =>
    refine ⟨⟨rfl, ?_, rfl⟩, rfl, rfl⟩
    unfold pageMapping touch
    rw [Option.map_map]
    refine congrArg (fun f => m.pageTable.map f) (funext fun pageTable => funext ?_)
    intro vpn'
    by_cases hv : vpn' = vpn
    · subst hv
      simp [TranslationEntry.mapping]
    · simp [Function.update_of_ne hv]
  | tlb i =>
    refine ⟨⟨rfl, rfl, ?_⟩, rfl, rfl⟩
    unfold tlbMapping touch
    rw [Option.map_map]
    refine congrArg (fun f => m.tlb.map f) (funext fun tlb => funext ?_)
    intro i'
    by_cases hi : i' = i
    · subst hi
      simp [TranslationEntry.mapping]
    · simp [Function.update_of_ne hi]

/-! ## Translation -/

/-- The search ends in a true exception when it fails. -/
theorem lookup_ne_noException {m : Machine} {vpn : BitVec 32} : m.lookup vpn ≠ .error .noException := by
  intro h
  unfold lookup at h
  split at h
  · split at h
    · cases h
    · split at h <;> cases h
  · split at h <;> cases h
  · cases h

/-- What `Translate` can do: it refuses and changes nothing, or it marks the entry that it found. -/
theorem translate_cases {m m' : Machine} {virtAddr : BitVec 32} {size : Nat} {writing : Bool} {e : ExceptionType}
    {physAddr : Nat} (h : m.translate virtAddr size writing = .ok (e, physAddr, m')) :
    (m' = m ∧ e ≠ .noException) ∨
      e = .noException ∧ ∃ slot entry, m.lookup (virtAddr / 128) = .ok (slot, entry) ∧ m' = m.touch slot writing := by
  unfold translate at h
  split at h
  · cases h
    exact .inl ⟨rfl, by decide⟩
  · unfold assert at h
    split at h
    · split at h
      · rw [ok_bind, ok_bind] at h
        cases hl : m.lookup (virtAddr / 128) with
        | error exception =>
          rw [hl] at h
          cases h
          refine .inl ⟨rfl, ?_⟩
          rintro rfl
          exact lookup_ne_noException hl
        | ok found =>
          obtain ⟨slot, entry⟩ := found
          rw [hl] at h
          dsimp only at h
          split at h
          · cases h
            exact .inl ⟨rfl, by decide⟩
          · split at h
            · cases h
              exact .inl ⟨rfl, by decide⟩
            · split at h
              · cases h
                exact .inr ⟨rfl, slot, entry, rfl, rfl⟩
              · cases h
      · cases h
    · cases h

theorem translate_touched {m m' : Machine} {virtAddr : BitVec 32} {size : Nat} {writing : Bool} {e : ExceptionType}
    {physAddr : Nat} (h : m.translate virtAddr size writing = .ok (e, physAddr, m')) : Touched m m' := by
  obtain ⟨rfl, _⟩ | ⟨_, slot, entry, _, rfl⟩ := translate_cases h
  · exact .refl _
  · exact touched_touch m slot writing

/-- All that a translation looks at: the tables without the marks. -/
def unmarked (m : Machine) : Machine where
  registers := fun _ => 0
  mainMemory := fun _ => 0
  tlb := m.tlbMapping
  pageTable := m.pageMapping
  pageTableSize := m.pageTableSize

theorem SameMapping.unmarked_eq {m m' : Machine} (h : SameMapping m m') : m'.unmarked = m.unmarked := by
  unfold unmarked
  rw [h.pageTableSize, h.pageTable, h.tlb]

theorem lookup_unmarked (m : Machine) (vpn : BitVec 32) :
    m.unmarked.lookup vpn = (m.lookup vpn).map fun found => (found.1, found.2.mapping) := by
  unfold lookup unmarked tlbMapping pageMapping
  cases m.tlb with
  | none =>
    cases m.pageTable with
    | none => rfl
    | some pageTable =>
      simp only [Option.map_none, Option.map_some]
      by_cases hv : vpn ≥ m.pageTableSize
      · rw [if_pos hv, if_pos hv]
        rfl
      · rw [if_neg hv, if_neg hv]
        cases hvalid : (pageTable vpn.toNat).valid <;> simp [TranslationEntry.mapping, hvalid, Except.map]
  | some tlb =>
    simp only [Option.map_some]
    have hf : (fun i => (tlb i).mapping.valid && (tlb i).mapping.virtualPage == vpn)
        = fun i => (tlb i).valid && (tlb i).virtualPage == vpn := rfl
    rw [hf]
    cases (List.finRange tlbSize).find? fun i => (tlb i).valid && (tlb i).virtualPage == vpn <;> rfl

theorem translate_unmarked (m : Machine) (virtAddr : BitVec 32) (size : Nat) (writing : Bool) :
    (m.unmarked.translate virtAddr size writing).map (fun r => (r.1, r.2.1)) =
      (m.translate virtAddr size writing).map fun r => (r.1, r.2.1) := by
  have htlb : m.unmarked.tlb.isNone = m.tlb.isNone ∧ m.unmarked.tlb.isSome = m.tlb.isSome :=
    ⟨Option.isNone_map, Option.isSome_map⟩
  have hpage : m.unmarked.pageTable.isNone = m.pageTable.isNone ∧ m.unmarked.pageTable.isSome = m.pageTable.isSome :=
    ⟨Option.isNone_map, Option.isSome_map⟩
  unfold translate
  split
  · rfl
  · simp only [htlb, hpage, lookup_unmarked]
    unfold assert
    split
    · split
      · rw [ok_bind, ok_bind, ok_bind, ok_bind]
        cases m.lookup (virtAddr / 128) with
        | error exception => rfl
        | ok found =>
          obtain ⟨slot, entry⟩ := found
          simp only [Except.map, TranslationEntry.mapping]
          by_cases hr : (entry.readOnly && writing) = true
          · rw [if_pos hr, if_pos hr]
            rfl
          · rw [if_neg hr, if_neg hr]
            by_cases hf : entry.physicalPage ≥ 128
            · rw [if_pos hf, if_pos hf]
              rfl
            · rw [if_neg hf, if_neg hf]
              by_cases hs : entry.physicalPage.toNat * pageSize + (virtAddr % 128).toNat + size ≤ memorySize
              · rw [if_pos hs]
                rfl
              · rw [if_neg hs]
                rfl
      · rfl
    · rfl

/-- With the same mapping, addresses are translated alike. -/
theorem SameMapping.translate_same {m m' m₁ : Machine} (h : SameMapping m m') {virtAddr : BitVec 32} {size : Nat} {writing : Bool}
    {e : ExceptionType} {physAddr : Nat} (ht : m.translate virtAddr size writing = .ok (e, physAddr, m₁)) :
    ∃ m₁', m'.translate virtAddr size writing = .ok (e, physAddr, m₁') := by
  have heq := (translate_unmarked m' virtAddr size writing).symm.trans
    ((congrArg (fun x : Machine => (x.translate virtAddr size writing).map fun r => (r.1, r.2.1)) h.unmarked_eq).trans
      (translate_unmarked m virtAddr size writing))
  rw [ht] at heq
  cases ht' : m'.translate virtAddr size writing with
  | error f =>
    rw [ht'] at heq
    cases heq
  | ok r =>
    obtain ⟨e', physAddr', m₁'⟩ := r
    rw [ht'] at heq
    cases heq
    exact ⟨m₁', rfl⟩

/-! ## Numbers of registers -/

theorem regNumber_toNat (r : Fin 32) : (regNumber r).toNat = r.val := by
  unfold regNumber
  rw [BitVec.toNat_ofNat, Nat.mod_eq_of_lt (by omega)]

theorem regNumber_lt (r : Fin 32) : (regNumber r).toNat < 32 := by
  rw [regNumber_toNat]
  exact r.isLt

/-- A general purpose register is none of the others. -/
theorem castLE_ne (r : Fin 32) {r' : Reg} (h : 32 ≤ r'.val) : (r.castLE (by decide) : Reg) ≠ r' := by
  intro heq
  have hval : r.val = r'.val := congrArg Fin.val heq
  have hr := r.isLt
  omega

/-- A general purpose register once the pending load is done. -/
theorem loaded_gpr (m : Machine) (nextReg nextValue : BitVec 32) (r : Fin 32) :
    (m.loaded nextReg nextValue).gpr r = if r = 0 then 0 else m.pendingGpr r := by
  have hzero : r.castLE (by decide) = (0 : Reg) ↔ r = 0 := by
    rw [Fin.ext_iff, Fin.ext_iff]
    rfl
  have hnumber : (r.castLE (by decide) : Reg).val = (m.registers Reg.loadReg).toNat ↔ m.registers Reg.loadReg = regNumber r := by
    rw [← BitVec.toNat_inj, regNumber_toNat, eq_comm]
    rfl
  have hload : (r.castLE (by decide) : Reg) ≠ Reg.loadReg := castLE_ne r (by decide)
  have hvalue : (r.castLE (by decide) : Reg) ≠ Reg.loadValueReg := castLE_ne r (by decide)
  simp only [gpr, loaded, pendingGpr, hzero, hnumber, if_neg hload, if_neg hvalue]

/-! ## Where an exception leaves the machine -/

/-- The registers once the pending load is done. -/
def committed (m : Machine) (r : Reg) : BitVec 32 :=
  if r = 0 ∨ r = Reg.loadReg ∨ r = Reg.loadValueReg then 0
  else if r.val = (m.registers Reg.loadReg).toNat then m.registers Reg.loadValueReg
  else m.registers r

theorem committed_eq (m : Machine) : m.committed = (m.loaded 0 0).registers := by
  funext r
  unfold committed loaded
  by_cases h0 : r = 0
  · rw [if_pos (.inl h0)]
    exact (if_pos h0).symm
  · by_cases h1 : r = Reg.loadReg
    · rw [if_pos (.inr (.inl h1))]
      exact ((if_neg h0).trans (if_pos h1)).symm
    · by_cases h2 : r = Reg.loadValueReg
      · rw [if_pos (.inr (.inr h2))]
        exact ((if_neg h0).trans ((if_neg h1).trans (if_pos h2))).symm
      · rw [if_neg (not_or.2 ⟨h0, not_or.2 ⟨h1, h2⟩⟩)]
        exact ((if_neg h0).trans ((if_neg h1).trans (if_neg h2))).symm

/-- The kernel is entered with the state before the instruction: the pending load is done, and at most `BadVAddrReg` and the use and
dirty bits differ. -/
structure Precise (before after : Machine) : Prop extends SameMapping before after where
  registers : ∀ r, r ≠ Reg.badVAddrReg → after.registers r = before.committed r
  mainMemory : after.mainMemory = before.mainMemory

/-- The kernel finds no load pending. -/
theorem Precise.loadReg_eq {m m' : Machine} (h : Precise m m') : m'.registers Reg.loadReg = 0 := by
  rw [h.registers _ (by decide)]
  exact if_pos (.inr (.inl rfl))

/-- An exception is precise; the simulator may also stop. -/
def PreciseTrap (before : Machine) : Trap → Prop
  | .raise _ after => Precise before after
  | .fault _ => True

theorem liftFault_ends {α : Type} {before : Machine} {x : Except Fault α} {Q : α → Prop} (h : ∀ a, x = .ok a → Q a) :
    Ends Q (PreciseTrap before) (liftFault x) := by
  cases x with
  | ok a => exact .ok (h a rfl)
  | error f => exact .error trivial

/-- An exception raised before anything but marks has changed is precise. -/
theorem raiseException_ends {α : Type} {before m : Machine} (hl : (before.registers Reg.loadReg).toNat < 32)
    (h : Touched before m) (which : ExceptionType) (badVAddr : BitVec 32) {Q : α → Prop} :
    Ends Q (PreciseTrap before) (m.raiseException which badVAddr) := by
  unfold raiseException
  have hload : (m.writeRegister Reg.badVAddrReg badVAddr).registers Reg.loadReg = before.registers Reg.loadReg := by
    rw [writeRegister_other _ (by decide), h.registers]
  have hvalue : (m.writeRegister Reg.badVAddrReg badVAddr).registers Reg.loadValueReg = before.registers Reg.loadValueReg := by
    rw [writeRegister_other _ (by decide), h.registers]
  rw [delayedLoad_eq (by rw [hload]; exact hl)]
  refine .error ⟨⟨h.pageTableSize, h.pageTable, h.tlb⟩, ?_, h.mainMemory⟩
  intro r hr
  rw [committed_eq]
  simp only [loaded, hload, hvalue, writeRegister_other _ hr, h.registers]

/-- A read marks an entry or raises a precise exception. -/
theorem readMem_ends {before m : Machine} (hl : (before.registers Reg.loadReg).toNat < 32) (h : Touched before m)
    (addr : BitVec 32) (size : Nat) : Ends (fun r => Touched before r.2) (PreciseTrap before) (m.readMem addr size) := by
  unfold readMem
  refine (liftFault_ends fun r hr => hr).bind ?_
  rintro ⟨e, physAddr, m'⟩ ht
  dsimp only
  have htouch := h.trans (translate_touched ht)
  split
  · exact raiseException_ends hl htouch _ _
  · split
    · exact .ok htouch
    · exact .ok htouch
    · exact .ok htouch
    · exact .error trivial

/-- A write that raises an exception has written nothing. -/
theorem writeMem_ends {before m : Machine} (hl : (before.registers Reg.loadReg).toNat < 32) (h : Touched before m)
    (addr : BitVec 32) (size : Nat) (value : BitVec 32) :
    Ends (fun _ => True) (PreciseTrap before) (m.writeMem addr size value) := by
  unfold writeMem
  refine (liftFault_ends fun r hr => hr).bind ?_
  rintro ⟨e, physAddr, m'⟩ ht
  dsimp only
  have htouch := h.trans (translate_touched ht)
  split
  · exact raiseException_ends hl htouch _ _
  · split
    · exact .ok trivial
    · exact .ok trivial
    · exact .ok trivial
    · exact .error trivial

/-- Every operation raises its exceptions before it changes anything. -/
theorem execute_ends {before m : Machine} (hl : (before.registers Reg.loadReg).toNat < 32) (h : Touched before m)
    (instr : Instruction) : Ends (fun _ => True) (PreciseTrap before) (m.execute instr) := by
  have hraise (which badVAddr) := raiseException_ends (α := Executed) hl h which badVAddr (Q := fun _ => True)
  have hread (addr size) := readMem_ends hl h addr size
  have hwrite (addr size value) := writeMem_ends hl h addr size value
  unfold execute
  cases instr.opCode with
  | add | addi | sub =>
    dsimp only
    split
    · exact hraise _ _
    · exact .ok trivial
  | beq | bne | bgez | bgtz | blez | bltz | bgezal | bltzal | divu =>
    dsimp only
    split <;> exact .ok trivial
  | div =>
    dsimp only
    split
    · exact .ok trivial
    · split
      · exact .error trivial
      · exact .ok trivial
  | lb | lbu | lwl | lwr => exact (hread _ _).bind fun _ _ => .ok trivial
  | lh | lhu | lw =>
    dsimp only
    split
    · exact hraise _ _
    · exact (hread _ _).bind fun _ _ => .ok trivial
  | sb | sh | sw => exact (hwrite _ _ _).bind fun _ _ => .ok trivial
  | swl | swr =>
    refine (hread _ _).bind ?_
    rintro ⟨value, m'⟩ hm'
    exact (writeMem_ends hl hm' _ _ _).bind fun _ _ => .ok trivial
  | syscall | res | unimp => exact hraise _ _
  | rfe => exact .error trivial
  | _ => exact .ok trivial

/-- An instruction that raises an exception raises a precise one. -/
theorem oneInstruction_ends {m : Machine} (hl : (m.registers Reg.loadReg).toNat < 32) :
    Ends (fun _ => True) (PreciseTrap m) m.oneInstruction := by
  unfold oneInstruction
  refine (readMem_ends hl (.refl m) _ _).bind ?_
  rintro ⟨raw, m'⟩ hm'
  refine (execute_ends hl hm' _).bind ?_
  intro _ _
  exact (liftFault_ends fun _ _ => trivial).bind fun _ _ => .ok trivial

/-! ## Restarting -/

theorem raiseException_ne_ok {α : Type} {m : Machine} {which : ExceptionType} {badVAddr : BitVec 32} {a : α} :
    m.raiseException which badVAddr ≠ .ok a := by
  intro h
  unfold raiseException at h
  cases hm : (m.writeRegister Reg.badVAddrReg badVAddr).delayedLoad 0 0 with
  | error f =>
    rw [hm] at h
    cases h
  | ok m' =>
    rw [hm] at h
    cases h

/-- With the same mapping and the same memory, reads give the same. -/
theorem SameMapping.readMem_same {m m' m₁ : Machine} (h : SameMapping m m') (hm : m'.mainMemory = m.mainMemory)
    {addr value : BitVec 32} {size : Nat} (hr : m.readMem addr size = .ok (value, m₁)) :
    ∃ m₁', m'.readMem addr size = .ok (value, m₁') := by
  unfold readMem at hr ⊢
  cases ht : m.translate addr size false with
  | error f =>
    rw [ht] at hr
    cases hr
  | ok r =>
    obtain ⟨e, physAddr, m₂⟩ := r
    obtain ⟨m₂', ht'⟩ := h.translate_same ht
    have hmem : m₂'.mainMemory = m₂.mainMemory :=
      (translate_touched ht').mainMemory.trans (hm.trans (translate_touched ht).mainMemory.symm)
    rw [ht] at hr
    rw [ht']
    simp only [liftFault, ok_bind] at hr ⊢
    by_cases he : e ≠ .noException
    · rw [if_pos he] at hr
      exact (raiseException_ne_ok hr).elim
    · rw [if_neg he] at hr ⊢
      rw [hmem]
      split at hr <;> cases hr <;> exact ⟨m₂', rfl⟩

/-- Exceptions are precise and restartable: when an instruction raises one, the kernel finds the state before the instruction with
the pending load done, the program counters still point at the instruction, and the same instruction is fetched from there. -/
theorem exceptions_precise {m m' : Machine} {which : ExceptionType} (hl : (m.registers Reg.loadReg).toNat < 32)
    (hr : m.oneInstruction = .error (.raise which m')) :
    Precise m m' ∧ (∀ r : Reg, 32 ≤ r.val → r < Reg.loadReg → m'.registers r = m.registers r) ∧
      ∀ raw m₁, m.readMem (m.registers Reg.pcReg) 4 = .ok (raw, m₁) →
        ∃ m₁', m'.readMem (m'.registers Reg.pcReg) 4 = .ok (raw, m₁') := by
  have hp : Precise m m' := (oneInstruction_ends hl).of_error hr
  have hsame : ∀ r : Reg, 32 ≤ r.val → r < Reg.loadReg → m'.registers r = m.registers r := by
    intro r h32 h37
    have h37' : r.val < 37 := h37
    have hload : Reg.loadReg.val = 37 := rfl
    have hvalue : Reg.loadValueReg.val = 38 := rfl
    have hbad : Reg.badVAddrReg.val = 39 := rfl
    rw [hp.registers r (by rintro rfl; omega)]
    unfold committed
    rw [if_neg, if_neg (by omega)]
    rintro (rfl | rfl | rfl) <;> omega
  refine ⟨hp, hsame, ?_⟩
  intro raw m₁ hm
  rw [hsame Reg.pcReg (by decide) (by decide)]
  exact hp.toSameMapping.readMem_same hp.mainMemory hm

/-- A machine with one instruction, `lw $2, 1($0)`, which stands in the delay slot of a branch to 400 and behind a load of 77. -/
def misaligned : Machine where
  registers := fun r => if r = Reg.nextPCReg then 400 else if r = Reg.loadReg then 5 else if r = Reg.loadValueReg then 77 else 0
  mainMemory := fun j => if j = 0 then 0x01 else if j = 2 then 0x02 else if j = 3 then 0x8c else 0
  tlb := none
  pageTable := some fun vpn => ⟨.ofNat 32 vpn, .ofNat 32 vpn, true, false, false, false⟩
  pageTableSize := 128

theorem exceptions_precise_misaligned : ∃ m', misaligned.oneInstruction = .error (.raise .addressErrorException m') ∧
    Precise misaligned m' ∧ m'.registers 5 = 77 := by
  refine ⟨_, rfl, (exceptions_precise (m := misaligned) (by decide) rfl).1, rfl⟩

end Machine

end Nachos
