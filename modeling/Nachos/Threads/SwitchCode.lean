import Nachos.Prelude.I386

/-!
# The context switch of the i386 (switch.S, switch.h)

`SWITCH(t1, t2)` as the instructions of switch.S, over the offsets that switch.h gives the registers in a `Thread` object. A
thread object is 36 bytes here: `stackTop`, then the words of `machineState` that the i386 uses. The contract is stated for any
code in which the instructions are installed and any place of the two objects and the stacks.
-/

namespace Nachos

open I386

namespace ContextSwitch

/-! ## switch.h -/

/-- `_ESP` .. `_EDI`: the offset of a register from the beginning of the thread object. -/
def offset : I386.Reg → Word
  | .esp => 0
  | .eax => 4
  | .ebx => 8
  | .ecx => 12
  | .edx => 16
  | .ebp => 20
  | .esi => 24
  | .edi => 28

/-- `_PC`. -/
def pcOffset : Word := 32

/-- The bytes of a thread object that `SWITCH` uses. -/
abbrev block (t : Word) : Set Word := span t 36

/-- The value a thread object holds for a register. -/
def field (m : Memory) (t : Word) (r : I386.Reg) : Word := word m (t + offset r)

/-! ## switch.S -/

/-- The first half of `SWITCH`: the registers go into `t1`. `eaxSave` is the address of `_eax_save`. -/
def switchSave (eaxSave : Word) : List Instr :=
  [.movl (.reg .eax) (.abs eaxSave),
   .movl (.mem 4 .esp) (.reg .eax),
   .movl (.reg .ebx) (.mem (offset .ebx) .eax),
   .movl (.reg .ecx) (.mem (offset .ecx) .eax),
   .movl (.reg .edx) (.mem (offset .edx) .eax),
   .movl (.reg .esi) (.mem (offset .esi) .eax),
   .movl (.reg .edi) (.mem (offset .edi) .eax),
   .movl (.reg .ebp) (.mem (offset .ebp) .eax),
   .movl (.reg .esp) (.mem (offset .esp) .eax),
   .movl (.abs eaxSave) (.reg .ebx),
   .movl (.reg .ebx) (.mem (offset .eax) .eax),
   .movl (.mem 0 .esp) (.reg .ebx),
   .movl (.reg .ebx) (.mem pcOffset .eax)]

/-- The second half: the registers come out of `t2`. -/
def switchRestore (eaxSave : Word) : List Instr :=
  [.movl (.mem 8 .esp) (.reg .eax),
   .movl (.mem (offset .eax) .eax) (.reg .ebx),
   .movl (.reg .ebx) (.abs eaxSave),
   .movl (.mem (offset .ebx) .eax) (.reg .ebx),
   .movl (.mem (offset .ecx) .eax) (.reg .ecx),
   .movl (.mem (offset .edx) .eax) (.reg .edx),
   .movl (.mem (offset .esi) .eax) (.reg .esi),
   .movl (.mem (offset .edi) .eax) (.reg .edi),
   .movl (.mem (offset .ebp) .eax) (.reg .ebp),
   .movl (.mem (offset .esp) .eax) (.reg .esp),
   .movl (.mem pcOffset .eax) (.reg .eax),
   .movl (.reg .eax) (.mem 4 .esp),
   .movl (.abs eaxSave) (.reg .eax)]

/-- `SWITCH`. -/
def switchCode (eaxSave : Word) : List Instr := switchSave eaxSave ++ switchRestore eaxSave ++ [.ret]

/-- The registers that are stored and loaded in a row. -/
def rowRegs : List I386.Reg := [.ebx, .ecx, .edx, .esi, .edi, .ebp, .esp]

/-! ## What the halves do -/

/-- The words the first half leaves in the object. -/
def savedWords (regs : I386.Reg → Word) (pc : Word) : List (Word × Word) :=
  rowRegs.map (fun r => (offset r, regs r)) ++ [(offset .eax, regs .eax), (pcOffset, pc)]

theorem savedWords_apart (regs : I386.Reg → Word) (pc : Word) : ((savedWords regs pc).map Prod.fst).Pairwise Apart := by
  have h : (savedWords regs pc).map Prod.fst = [8, 12, 16, 24, 28, 20, 0, 4, 32] := rfl
  rw [h]
  decide

theorem savedWords_in_block (regs : I386.Reg → Word) (pc : Word) : ∀ p ∈ savedWords regs pc, p.1.toNat + 4 ≤ 36 := by
  simp [savedWords, rowRegs, offset, pcOffset]

theorem mem_savedWords (regs : I386.Reg → Word) (pc : Word) (r : I386.Reg) : (offset r, regs r) ∈ savedWords regs pc := by
  cases r <;> simp [savedWords, rowRegs]

/-- A word at an offset from an address lies in the object there. -/
theorem disjoint_word {A : Set Word} {a d : Word} {n : Nat} (h : Disjoint A (span a n)) (hd : d.toNat + 4 ≤ n) :
    Disjoint A (span (a + d) 4) := h.mono_right (span_add_subset a d hd)

variable {e t : Word} {c : Core}

/-- `%eax` is saved through `_eax_save` and `%ebx`, the return address through `%ebx`. -/
theorem switchSave_last {eax ret : Word} (ht : c.regs .eax = t) (he : word c.mem e = eax)
    (hr : word (setWord c.mem (t + offset .eax) eax) (c.regs .esp + 0) = ret) :
    c.execAll [.movl (.abs e) (.reg .ebx), .movl (.reg .ebx) (.mem (offset .eax) .eax), .movl (.mem 0 .esp) (.reg .ebx),
        .movl (.reg .ebx) (.mem pcOffset .eax)] =
      some (({ c with mem := setWords c.mem t [(offset .eax, eax), (pcOffset, ret)] }.setReg .ebx eax).setReg .ebx ret) := by
  subst ht he hr
  rfl

/-- The first half: everything is in the object, and the stack pointer is where it was. -/
theorem switchSave_spec (ht : word c.mem (c.regs .esp + 4) = t) (hes : Disjoint (span e 4) (span (c.regs .esp) 12))
    (hts : Disjoint (block t) (span (c.regs .esp) 12)) (het : Disjoint (span e 4) (block t)) :
    ∃ c', c.execAll (switchSave e) = some c' ∧ c'.regs .esp = c.regs .esp ∧
      c'.mem = setWords (setWord c.mem e (c.regs .eax)) t (savedWords c.regs (word c.mem (c.regs .esp))) := by
  have hslot (m : Memory) (v d : Word) (hd : d.toNat + 4 ≤ 12) :
      word (setWord m e v) (c.regs .esp + d) = word m (c.regs .esp + d) :=
    word_setWord_of_disjoint m v (disjoint_word hes hd)
  generalize hm1 : setWord c.mem e (c.regs .eax) = m1
  have hfirst : c.execAll [.movl (.reg .eax) (.abs e), .movl (.mem 4 .esp) (.reg .eax)] =
      some ((⟨c.regs, m1⟩ : Core).setReg .eax t) := by
    rw [← ht, ← hslot c.mem (c.regs .eax) 4 (by decide), ← hm1]
    rfl
  generalize hrow : rowRegs.map (fun r => (offset r, c.regs r)) = row
  have hb : ∀ p ∈ row, p.1.toNat + 4 ≤ 36 := fun p hp =>
    savedWords_in_block c.regs 0 p (List.mem_append_left _ (hrow ▸ hp))
  -- what the row leaves outside of the object
  have hout (a : Word) (ha : Disjoint (block t) (span a 4)) : word (setWords m1 t row) a = word m1 a :=
    word_congr fun x hx => setWords_outside m1 t hb (Set.disjoint_right.mp ha hx)
  have he : word (setWords m1 t row) e = c.regs .eax := by
    rw [hout e het.symm, ← hm1, word_setWord]
  have hret : word (setWord (setWords m1 t row) (t + offset .eax) (c.regs .eax)) (c.regs .esp + 0) = word c.mem (c.regs .esp) := by
    have hs : Disjoint (block t) (span (c.regs .esp + 0) 4) := disjoint_word hts (by decide)
    rw [word_setWord_of_disjoint _ _ (hs.mono_left (span_add_subset t _ (by decide))), hout _ hs, ← hm1, hslot _ _ _ (by decide)]
    exact congrArg (word c.mem) (by simp)
  have hmid : ((⟨c.regs, m1⟩ : Core).setReg .eax t).execAll (rowRegs.map fun r => .movl (.reg r) (.mem (offset r) .eax)) =
      some ((⟨c.regs, setWords m1 t row⟩ : Core).setReg .eax t) := by
    rw [Core.execAll_save, ← hrow]
    rfl
  have hrun := switchSave_last (c := (⟨c.regs, setWords m1 t row⟩ : Core).setReg .eax t) rfl he hret
  rw [← Core.execAll_append hmid, ← Core.execAll_append hfirst] at hrun
  exact ⟨_, hrun, rfl, by rw [savedWords, hrow, setWords_append]; rfl⟩

/-- The saved program counter goes above the new stack top, and `%eax` comes last, from `_eax_save`. -/
theorem switchRestore_last {sp pc eax : Word} (ht : c.regs .eax = t) (hs : c.regs .esp = sp) (hp : word c.mem (t + pcOffset) = pc)
    (he : word (setWord c.mem (sp + 4) pc) e = eax) :
    c.execAll [.movl (.mem pcOffset .eax) (.reg .eax), .movl (.reg .eax) (.mem 4 .esp), .movl (.abs e) (.reg .eax)] =
      some (({ c with mem := setWord c.mem (sp + 4) pc }.setReg .eax pc).setReg .eax eax) := by
  subst ht hs hp he
  rfl

/-- The second half: every register comes out of the object; the word above the new stack top gets the program counter. -/
theorem switchRestore_spec (ht : word c.mem (c.regs .esp + 8) = t) (het : Disjoint (span e 4) (block t))
    (hes : Disjoint (span e 4) (span (field c.mem t .esp + 4) 4)) :
    ∃ c', c.execAll (switchRestore e) = some c' ∧ (∀ r, c'.regs r = field c.mem t r) ∧
      c'.mem = setWord (setWord c.mem e (field c.mem t .eax)) (field c.mem t .esp + 4) (word c.mem (t + pcOffset)) := by
  have hfield (v d : Word) (hd : d.toNat + 4 ≤ 36) : word (setWord c.mem e v) (t + d) = word c.mem (t + d) :=
    word_setWord_of_disjoint c.mem v (disjoint_word het hd)
  generalize hm1 : setWord c.mem e (field c.mem t .eax) = m1
  have hf (r : I386.Reg) : word m1 (t + offset r) = field c.mem t r := by
    rw [← hm1]
    exact hfield _ _ (by cases r <;> decide)
  have hpc : word m1 (t + pcOffset) = word c.mem (t + pcOffset) := by
    rw [← hm1]
    exact hfield _ _ (by decide)
  have he : word m1 e = field c.mem t .eax := by rw [← hm1, word_setWord]
  have hfirst : c.execAll [.movl (.mem 8 .esp) (.reg .eax), .movl (.mem (offset .eax) .eax) (.reg .ebx), .movl (.reg .ebx) (.abs e)] =
      some (((⟨c.regs, m1⟩ : Core).setReg .eax t).setReg .ebx (field c.mem t .eax)) := by
    rw [← hm1, field, ← ht]
    rfl
  have hmid : (((⟨c.regs, m1⟩ : Core).setReg .eax t).setReg .ebx (field c.mem t .eax)).execAll
      (rowRegs.map fun r => .movl (.mem (offset r) .eax) (.reg r)) =
        some ⟨fun r => if r = .eax then t else field c.mem t r, m1⟩ := by
    rw [Core.execAll_restore _ _ _ (by decide), Option.some.injEq, Core.mk.injEq]
    refine ⟨funext fun r => ?_, rfl⟩
    cases r <;> first | exact hf _ | rfl
  have hx : word (setWord m1 (field c.mem t .esp + 4) (word c.mem (t + pcOffset))) e = field c.mem t .eax := by
    rw [word_setWord_of_disjoint _ _ hes.symm, he]
  have hlast := switchRestore_last (c := ⟨fun r => if r = .eax then t else field c.mem t r, m1⟩) rfl rfl hpc hx
  rw [← Core.execAll_append hmid, ← Core.execAll_append hfirst] at hlast
  refine ⟨_, hlast, fun r => ?_, rfl⟩
  cases r <;> rfl

/-! ## The contract of `SWITCH` -/

/-- A call of `SWITCH(t1, t2)` is at its first instruction: the two arguments are on the stack, and what it stores does not
overlap what it reads. -/
structure Call (e : Word) (c : Core) (t1 t2 : Word) : Prop where
  old : word c.mem (c.regs .esp + 4) = t1
  new : word c.mem (c.regs .esp + 8) = t2
  save_frame : Disjoint (span e 4) (span (c.regs .esp) 12)
  old_frame : Disjoint (block t1) (span (c.regs .esp) 12)
  save_old : Disjoint (span e 4) (block t1)
  save_new : Disjoint (span e 4) (block t2)
  old_new : Disjoint (block t1) (block t2)
  save_stack : Disjoint (span e 4) (span (field c.mem t2 .esp) 8)
  old_stack : Disjoint (block t1) (span (field c.mem t2 .esp) 8)

/-- What `SWITCH(t1, t2)` leaves: the processor runs on with what `t2` holds, at the address on top of its stack, and `t1` holds
what the processor had. -/
structure Done (e : Word) (s : State) (t1 t2 : Word) (s' : State) : Prop where
  regs : ∀ r, r ≠ .esp → s'.regs r = field s.mem t2 r
  esp : s'.regs .esp = field s.mem t2 .esp + 4
  pc : s'.pc = word s.mem (field s.mem t2 .esp)
  saved : ∀ r, field s'.mem t1 r = s.regs r
  savedPc : word s'.mem (t1 + pcOffset) = word s.mem (s.regs .esp)
  elsewhere : ∀ x, x ∉ block t1 → x ∉ span e 4 → x ∉ span (field s.mem t2 .esp + 4) 4 → s'.mem x = s.mem x

theorem disjoint_next_word (a : Word) : Disjoint (span a 4) (span (a + 4) 4) :=
  disjoint_span (by bv_omega) (by bv_omega)

/-- What the first half leaves alone. -/
theorem saved_outside {m : Memory} {regs : I386.Reg → Word} {pc v x : Word} (hx : x ∉ block t) (he : x ∉ span e 4) :
    setWords (setWord m e v) t (savedWords regs pc) x = m x := by
  rw [setWords_outside _ t (savedWords_in_block regs pc) hx, setWord_outside m v he]

theorem saved_word {m : Memory} {regs : I386.Reg → Word} {pc v a : Word} (ha : Disjoint (block t) (span a 4))
    (he : Disjoint (span e 4) (span a 4)) : word (setWords (setWord m e v) t (savedWords regs pc)) a = word m a :=
  word_congr fun _ hx => saved_outside (Set.disjoint_right.mp ha hx) (Set.disjoint_right.mp he hx)

/-- `SWITCH` runs through its 27 instructions and returns on the other stack. -/
theorem switch_spec {code : Code} {s : State} {b t1 t2 : Word} (hi : Installed code s.pc (switchCode e) b)
    (h : Call e s.toCore t1 t2) : ∃ s', steps code 27 s = some s' ∧ Done e s t1 t2 s' := by
  obtain ⟨m, hbody, hret⟩ := Installed.append.mp hi
  obtain ⟨c1, hrun1, hesp1, hmem1⟩ := switchSave_spec h.old h.save_frame h.old_frame h.save_old
  have hnew : word c1.mem (c1.regs .esp + 8) = t2 := by
    rw [hmem1, hesp1, saved_word (disjoint_word h.old_frame (by decide)) (disjoint_word h.save_frame (by decide)), h.new]
  have hfield (r : I386.Reg) : field c1.mem t2 r = field s.mem t2 r := by
    have hd : (offset r).toNat + 4 ≤ 36 := by cases r <;> decide
    rw [field, hmem1]
    exact saved_word (disjoint_word h.old_new hd) (disjoint_word h.save_new hd)
  have hs : Disjoint (span e 4) (span (field c1.mem t2 .esp + 4) 4) := by
    rw [hfield]
    exact disjoint_word h.save_stack (by decide)
  obtain ⟨c2, hrun2, hregs2, hmem2⟩ := switchRestore_spec hnew h.save_new hs
  rw [← Core.execAll_append hrun1] at hrun2
  simp only [hfield] at hregs2 hmem2
  obtain ⟨next, hcode, _⟩ := hret
  have hrun : steps code 27 s = some ({ c2.setReg .esp (c2.regs .esp + 4) with pc := word c2.mem (c2.regs .esp) } : State) := by
    have hsteps : steps code 26 s = some { c2 with pc := m } := steps_straight hbody hrun2
    rw [show 27 = 26 + 1 from rfl, steps_add, hsteps]
    simp [steps, step, hcode]
  have hout (x : Word) (h1 : x ∉ block t1) (h2 : x ∉ span e 4) (h3 : x ∉ span (field s.mem t2 .esp + 4) 4) :
      c2.mem x = s.mem x := by
    rw [hmem2, setWord_outside _ _ h3, setWord_outside _ _ h2, hmem1]
    exact saved_outside h1 h2
  have htop : word c2.mem (field s.mem t2 .esp) = word s.mem (field s.mem t2 .esp) := word_congr fun x hx =>
    have hx8 : x ∈ span (field s.mem t2 .esp) 8 := span_mono _ (by decide) hx
    hout x (Set.disjoint_right.mp h.old_stack hx8) (Set.disjoint_right.mp h.save_stack hx8)
      (Set.disjoint_left.mp (disjoint_next_word _) hx)
  have hobj {d v : Word} (hd : d.toNat + 4 ≤ 36) (hv : (d, v) ∈ savedWords s.regs (word s.mem (s.regs .esp))) :
      word c2.mem (t1 + d) = v := by
    have h1 : Disjoint (span (field s.mem t2 .esp + 4) 4) (span (t1 + d) 4) :=
      (disjoint_word h.old_stack (by decide)).symm.mono_right (span_add_subset t1 d hd)
    rw [hmem2, word_setWord_of_disjoint _ _ h1, word_setWord_of_disjoint _ _ (disjoint_word h.save_old hd), hmem1]
    exact word_setWords _ t1 (savedWords_apart _ _) hv
  refine ⟨_, hrun, ?_⟩
  constructor
  case regs => exact fun r hr => (Core.setReg_other c2 _ hr).trans (hregs2 r)
  case esp => exact (Core.setReg_same c2 _ _).trans (by rw [hregs2])
  case pc =>
    show word c2.mem (c2.regs .esp) = _
    rw [hregs2, htop]
  case saved => exact fun r => hobj (by cases r <;> decide) (mem_savedWords _ _ r)
  case savedPc => exact hobj (by decide) (by simp [savedWords])
  case elsewhere => exact hout

end ContextSwitch

end Nachos
