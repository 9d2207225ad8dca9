import Mathlib

/-!
# The i386, as far as context switches use it

Byte-addressed memory with little-endian words, the eight general registers, and the instructions `movl`, `pushl`, `popl`, `call`
through a register and `ret`. Code is a map from addresses to instructions, so that nothing depends on how they are encoded. Code
without control transfers is run by folding over its instructions (`steps_straight`); a procedure outside of the code at hand is
known by the calling convention only (`Returns`).
-/

namespace I386

abbrev Word := BitVec 32

abbrev Memory := Word → BitVec 8

/-! ## Memory -/

/-- The `n` bytes from `a` on. -/
def span (a : Word) (n : Nat) : Set Word := { x | (x - a).toNat < n }

theorem mem_span {a x : Word} {n : Nat} : x ∈ span a n ↔ (x - a).toNat < n := Iff.rfl

theorem span_mono (a : Word) {n n' : Nat} (h : n ≤ n') : span a n ⊆ span a n' := by
  intro x hx
  rw [mem_span] at hx ⊢
  omega

/-- A part of a span. -/
theorem span_add_subset (a d : Word) {n n' : Nat} (h : d.toNat + n ≤ n') : span (a + d) n ⊆ span a n' := by
  intro x hx
  rw [mem_span] at hx ⊢
  bv_omega

/-- Two spans of which the second begins after the end of the first and does not come round to it. -/
theorem disjoint_span {a b : Word} {n n' : Nat} (h : n ≤ (b - a).toNat) (h' : (b - a).toNat + n' ≤ 2 ^ 32) :
    Disjoint (span a n) (span b n') := by
  rw [Set.disjoint_left]
  intro x hx hx'
  rw [mem_span] at hx hx'
  bv_omega

/-- The word at `a`, its low byte first. -/
def word (m : Memory) (a : Word) : Word := m (a + 3) ++ m (a + 2) ++ m (a + 1) ++ m a

/-- Memory after the store of a word. -/
def setWord (m : Memory) (a v : Word) : Memory :=
  fun x => if (x - a).toNat < 4 then v.extractLsb' (8 * (x - a).toNat) 8 else m x

theorem setWord_outside (m : Memory) {a x : Word} (v : Word) (h : x ∉ span a 4) : setWord m a v x = m x := if_neg h

theorem word_congr {m m' : Memory} {a : Word} (h : ∀ x ∈ span a 4, m x = m' x) : word m a = word m' a := by
  have hd (d : Word) (hd : d.toNat < 4) : m (a + d) = m' (a + d) := h (a + d) (by rw [mem_span]; bv_omega)
  have h0 : m a = m' a := h a (by rw [mem_span]; bv_omega)
  rw [word, word, hd 3 (by decide), hd 2 (by decide), hd 1 (by decide), h0]

@[simp] theorem word_setWord (m : Memory) (a v : Word) : word (setWord m a v) a = v := by
  have hd (d : Word) (hd : d.toNat < 4) : setWord m a v (a + d) = v.extractLsb' (8 * d.toNat) 8 := by
    have he : a + d - a = d := by bv_omega
    simp only [setWord, he]
    exact if_pos hd
  have h0 : setWord m a v a = v.extractLsb' 0 8 := by simpa using hd 0 (by decide)
  have h1 : setWord m a v (a + 1) = v.extractLsb' 8 8 := hd 1 (by decide)
  have h2 : setWord m a v (a + 2) = v.extractLsb' 16 8 := hd 2 (by decide)
  have h3 : setWord m a v (a + 3) = v.extractLsb' 24 8 := hd 3 (by decide)
  rw [word, h0, h1, h2, h3]
  ext i hi
  simp only [BitVec.getElem_append, BitVec.getElem_extractLsb']
  -- each bit of the word lies in one of the four bytes
  split
  · exact (congrArg v.getLsbD (by omega)).trans (BitVec.getLsbD_eq_getElem hi)
  split
  · exact (congrArg v.getLsbD (by omega)).trans (BitVec.getLsbD_eq_getElem hi)
  split
  · exact (congrArg v.getLsbD (by omega)).trans (BitVec.getLsbD_eq_getElem hi)
  · exact (congrArg v.getLsbD (by omega)).trans (BitVec.getLsbD_eq_getElem hi)

/-- A store does not reach a word apart from it. -/
theorem word_setWord_of_disjoint (m : Memory) {a b : Word} (v : Word) (h : Disjoint (span a 4) (span b 4)) :
    word (setWord m a v) b = word m b :=
  word_congr fun _ hx => setWord_outside m v (Set.disjoint_right.mp h hx)

/-- Offsets of two words of one object that do not overlap. -/
def Apart (d d' : Word) : Prop := 4 ≤ (d' - d).toNat ∧ (d' - d).toNat + 4 ≤ 2 ^ 32

instance (d d' : Word) : Decidable (Apart d d') := inferInstanceAs (Decidable (_ ∧ _))

theorem Apart.symm {d d' : Word} (h : Apart d d') : Apart d' d := by
  obtain ⟨h1, h2⟩ := h
  constructor <;> bv_omega

theorem Apart.disjoint {d d' : Word} (h : Apart d d') (a : Word) : Disjoint (span (a + d) 4) (span (a + d') 4) := by
  have he : a + d' - (a + d) = d' - d := by bv_omega
  exact disjoint_span (by rw [he]; exact h.1) (by rw [he]; exact h.2)

/-- The stores of a list of words at offsets from `a`. -/
def setWords (m : Memory) (a : Word) : List (Word × Word) → Memory
  | [] => m
  | p :: l => setWords (setWord m (a + p.1) p.2) a l

theorem setWords_append (m : Memory) (a : Word) (l l' : List (Word × Word)) :
    setWords m a (l ++ l') = setWords (setWords m a l) a l' := by
  induction l generalizing m with
  | nil => rfl
  | cons p l ih => exact ih (setWord m (a + p.1) p.2)

theorem word_setWords_of_apart (m : Memory) (a : Word) {d : Word} {l : List (Word × Word)} (h : ∀ p ∈ l, Apart p.1 d) :
    word (setWords m a l) (a + d) = word m (a + d) := by
  induction l generalizing m with
  | nil => rfl
  | cons p l ih =>
    rw [setWords, ih _ fun q hq => h q (List.mem_cons_of_mem _ hq)]
    exact word_setWord_of_disjoint m p.2 ((h p List.mem_cons_self).disjoint a)

/-- Words stored apart from one another are all there. -/
theorem word_setWords (m : Memory) (a : Word) {l : List (Word × Word)} (hl : (l.map Prod.fst).Pairwise Apart) {d v : Word}
    (h : (d, v) ∈ l) : word (setWords m a l) (a + d) = v := by
  induction l generalizing m with
  | nil => cases h
  | cons p l ih =>
    obtain ⟨hp, hl⟩ := List.pairwise_cons.mp hl
    rcases List.mem_cons.mp h with rfl | h
    · rw [setWords, word_setWords_of_apart _ a fun q hq => (hp q.1 (List.mem_map_of_mem hq)).symm]
      exact word_setWord m (a + d) v
    · exact ih _ hl h

theorem setWords_outside (m : Memory) (a : Word) {l : List (Word × Word)} {n : Nat} (h : ∀ p ∈ l, p.1.toNat + 4 ≤ n) {x : Word}
    (hx : x ∉ span a n) : setWords m a l x = m x := by
  induction l generalizing m with
  | nil => rfl
  | cons p l ih =>
    rw [setWords, ih _ fun q hq => h q (List.mem_cons_of_mem _ hq)]
    exact setWord_outside m p.2 fun hm => hx (span_add_subset a p.1 (h p List.mem_cons_self) hm)

/-! ## Instructions -/

/-- The general registers. -/
inductive Reg where
  | eax | ebx | ecx | edx | esi | edi | ebp | esp
  deriving DecidableEq, Repr

/-- An operand of `movl`: a register, `disp(%base)`, or a word at a fixed address. -/
inductive Operand where
  | reg (r : Reg)
  | mem (disp : Word) (base : Reg)
  | abs (a : Word)

inductive Instr where
  | movl (src dst : Operand)
  | pushl (r : Reg)
  | popl (r : Reg)
  | call (r : Reg)
  | ret

/-- The registers and memory. -/
structure Core where
  regs : Reg → Word
  mem : Memory

namespace Core

def setReg (c : Core) (r : Reg) (v : Word) : Core := { c with regs := fun r' => if r' = r then v else c.regs r' }

def store (c : Core) (a v : Word) : Core := { c with mem := setWord c.mem a v }

@[simp] theorem setReg_same (c : Core) (r : Reg) (v : Word) : (c.setReg r v).regs r = v := if_pos rfl

theorem setReg_other (c : Core) {r r' : Reg} (v : Word) (h : r' ≠ r) : (c.setReg r v).regs r' = c.regs r' :=
  if_neg h

@[simp] theorem setReg_mem (c : Core) (r : Reg) (v : Word) : (c.setReg r v).mem = c.mem := rfl

@[simp] theorem store_regs (c : Core) (a v : Word) : (c.store a v).regs = c.regs := rfl

@[simp] theorem store_mem (c : Core) (a v : Word) : (c.store a v).mem = setWord c.mem a v := rfl

def load (c : Core) : Operand → Word
  | .reg r => c.regs r
  | .mem disp base => word c.mem (c.regs base + disp)
  | .abs a => word c.mem a

def assign (c : Core) (v : Word) : Operand → Core
  | .reg r => c.setReg r v
  | .mem disp base => c.store (c.regs base + disp) v
  | .abs a => c.store a v

/-- `pushl`: the stack grows towards low addresses. -/
def push (c : Core) (v : Word) : Core := (c.setReg .esp (c.regs .esp - 4)).store (c.regs .esp - 4) v

/-- `popl`: a pop into `%esp` keeps the word popped. -/
def pop (c : Core) (r : Reg) : Core := (c.setReg .esp (c.regs .esp + 4)).setReg r (word c.mem (c.regs .esp))

/-- The instructions after which control goes on to the next one. -/
def exec (c : Core) : Instr → Option Core
  | .movl src dst => some (c.assign (c.load src) dst)
  | .pushl r => some (c.push (c.regs r))
  | .popl r => some (c.pop r)
  | .call _ => none
  | .ret => none

/-- A list of such instructions. -/
def execAll (c : Core) : List Instr → Option Core
  | [] => some c
  | i :: is => do (← c.exec i).execAll is

theorem execAll_append {c c' : Core} {is : List Instr} (h : c.execAll is = some c') (js : List Instr) :
    c.execAll (is ++ js) = c'.execAll js := by
  induction is generalizing c with
  | nil =>
    cases h
    rfl
  | cons i is ih =>
    obtain ⟨c1, hi, hc⟩ := Option.bind_eq_some_iff.mp h
    simp only [List.cons_append, execAll, hi]
    exact ih hc

/-- Registers stored one after the other into the object that `base` points to. -/
theorem execAll_save (c : Core) (base : Reg) (offset : Reg → Word) (rs : List Reg) :
    c.execAll (rs.map fun r => .movl (.reg r) (.mem (offset r) base)) =
      some { c with mem := setWords c.mem (c.regs base) (rs.map fun r => (offset r, c.regs r)) } := by
  induction rs generalizing c with
  | nil => rfl
  | cons r rs ih => exact ih (c.store (c.regs base + offset r) (c.regs r))

/-- Registers loaded one after the other from the object that `base` points to, which stays in `base`. -/
theorem execAll_restore (c : Core) (base : Reg) (offset : Reg → Word) {rs : List Reg} (h : base ∉ rs) :
    c.execAll (rs.map fun r => .movl (.mem (offset r) base) (.reg r)) =
      some { c with regs := fun r => if r ∈ rs then word c.mem (c.regs base + offset r) else c.regs r } := by
  induction rs generalizing c with
  | nil => simp [execAll]
  | cons r rs ih =>
    have hb : base ≠ r := fun he => h (he ▸ List.mem_cons_self)
    have hrs : base ∉ rs := fun hm => h (List.mem_cons_of_mem _ hm)
    refine (ih (c.setReg r (word c.mem (c.regs base + offset r))) hrs).trans ?_
    simp only [setReg_mem, setReg_other c _ hb, Option.some.injEq, Core.mk.injEq, and_true]
    funext r'
    by_cases hm : r' ∈ rs
    · simp [hm]
    · by_cases he : r' = r
      · subst he
        simp [hm]
      · simp [hm, he, setReg_other c _ he]

end Core

/-- The processor: `pc` is `%eip`. -/
structure State extends Core where
  pc : Word

/-- The instruction at an address, and where the next one begins. -/
abbrev Code := Word → Option (Instr × Word)

/-- One instruction, if there is one at the program counter. -/
def step (code : Code) (s : State) : Option State := do
  let (i, next) ← code s.pc
  match i with
  | .call r => some { s.push next with pc := s.regs r }
  | .ret => some { s.setReg .esp (s.regs .esp + 4) with pc := word s.mem (s.regs .esp) }
  | i => do some { ← s.exec i with pc := next }

theorem step_of_exec {code : Code} {s : State} {i : Instr} {next : Word} {c : Core} (h : code s.pc = some (i, next))
    (hc : s.exec i = some c) : step code s = some { c with pc := next } := by
  cases i <;> simp_all [step, Core.exec]

/-- The state in which a procedure called through `r` begins. -/
def State.called (s : State) (r : Reg) (next : Word) : State := { s.push next with pc := s.regs r }

theorem step_call {code : Code} {s : State} {r : Reg} {next : Word} (h : code s.pc = some (.call r, next)) :
    step code s = some (s.called r next) := by
  simp [step, h, State.called]

def steps (code : Code) : Nat → State → Option State
  | 0, s => some s
  | n + 1, s => do steps code n (← step code s)

theorem steps_add (code : Code) (n k : Nat) (s : State) : steps code (n + k) s = (steps code n s).bind (steps code k) := by
  induction n generalizing s with
  | zero => simp [steps]
  | succ n ih =>
    rw [Nat.add_right_comm]
    cases hs : step code s with
    | none => simp [steps, hs]
    | some s' => simp [steps, hs, ih]

/-- The instructions `is` stand in the code from `a` on, and `b` is the address after them. -/
def Installed (code : Code) (a : Word) : List Instr → Word → Prop
  | [], b => a = b
  | i :: is, b => ∃ next, code a = some (i, next) ∧ Installed code next is b

theorem Installed.append {code : Code} {a b : Word} {is js : List Instr} :
    Installed code a (is ++ js) b ↔ ∃ m, Installed code a is m ∧ Installed code m js b := by
  induction is generalizing a with
  | nil => simp [Installed]
  | cons i is ih =>
    simp only [List.cons_append, Installed, ih]
    constructor
    · rintro ⟨next, hc, m, hm, hb⟩
      exact ⟨m, ⟨next, hc, hm⟩, hb⟩
    · rintro ⟨m, ⟨next, hc, hm⟩, hb⟩
      exact ⟨next, hc, m, hm, hb⟩

/-- Code that consists of the instructions `l`, four bytes each, from `a` on. -/
def place (a : Word) (l : List Instr) : Code :=
  fun x => if (x - a).toNat % 4 = 0 then (l[(x - a).toNat / 4]?).map fun i => (i, x + 4) else none

theorem installed_drop {a : Word} {l : List Instr} (h : 4 * l.length < 2 ^ 32) (k : Nat) (hk : k ≤ l.length) :
    Installed (place a l) (a + BitVec.ofNat 32 (4 * k)) (l.drop k) (a + BitVec.ofNat 32 (4 * l.length)) := by
  induction hn : l.length - k generalizing k with
  | zero =>
    obtain rfl : k = l.length := by omega
    rw [List.drop_length]
    rfl
  | succ n ih =>
    have hlt : k < l.length := by omega
    rw [List.drop_eq_getElem_cons hlt]
    have hd : (a + BitVec.ofNat 32 (4 * k) - a).toNat = 4 * k := by bv_omega
    refine ⟨a + BitVec.ofNat 32 (4 * k) + 4, ?_, ?_⟩
    · unfold place
      rw [hd, if_pos (Nat.mul_mod_right 4 k), Nat.mul_div_cancel_left k (by decide), List.getElem?_eq_getElem hlt]
      rfl
    · have he : a + BitVec.ofNat 32 (4 * k) + 4 = a + BitVec.ofNat 32 (4 * (k + 1)) := by bv_omega
      rw [he]
      exact ih (k + 1) hlt (by omega)

/-- What is placed is installed. -/
theorem installed_place (a : Word) {l : List Instr} (h : 4 * l.length < 2 ^ 32) :
    Installed (place a l) a l (a + BitVec.ofNat 32 (4 * l.length)) := by
  simpa using installed_drop (a := a) h 0 (Nat.zero_le _)

/-- Instructions without control transfers run as one fold. -/
theorem steps_straight {code : Code} {is : List Instr} {s : State} {c : Core} {b : Word} (hi : Installed code s.pc is b)
    (hc : s.toCore.execAll is = some c) : steps code is.length s = some { c with pc := b } := by
  induction is generalizing s with
  | nil =>
    obtain ⟨core, pc⟩ := s
    cases hc
    cases hi
    rfl
  | cons i is ih =>
    obtain ⟨next, hn, hi⟩ := hi
    obtain ⟨c', hc', hc⟩ := Option.bind_eq_some_iff.mp hc
    simp only [List.length_cons, steps, step_of_exec hn hc']
    exact ih hi hc

/-! ## Procedures that are not at hand -/

/-- A procedure has run from its first instruction in `s` to its return in `s'` by the calling convention: the return address is
popped, the registers of the caller are kept, and of the `n` bytes above the return address only the first `params`, the
parameters, may have changed. -/
structure Returns (params n : Nat) (s s' : State) : Prop where
  pc : s'.pc = word s.mem (s.regs .esp)
  esp : s'.regs .esp = s.regs .esp + 4
  kept : ∀ r ∈ [Reg.ebx, .esi, .edi, .ebp], s'.regs r = s.regs r
  frame : ∀ x ∈ span (s.regs .esp + 4) n, x ∉ span (s.regs .esp + 4) params → s'.mem x = s.mem x

/-- There is always a state in which a procedure can have returned. -/
theorem exists_returns (params n : Nat) (s : State) : ∃ s', Returns params n s s' := by
  refine ⟨{ s.setReg .esp (s.regs .esp + 4) with pc := word s.mem (s.regs .esp) }, rfl, rfl, fun r hr => ?_, fun _ _ _ => rfl⟩
  exact Core.setReg_other _ _ (by rintro rfl; simp at hr)

/-- A run of code that calls procedures which are not at hand, with the calls made so far: where each went and the word above the
return address there. -/
structure Trace where
  machine : State
  calls : List (Word × Word)

/-- One instruction of the code, or the return of a procedure. `never` is where control does not return from. -/
inductive Trace.Step (code : Code) (params : Word → Nat) (n : Nat) (never : Word → Prop) : Trace → Trace → Prop
  | instr {r : Trace} {i : Instr} {next : Word} {s' : State} : code r.machine.pc = some (i, next) → (∀ reg, i ≠ .call reg) →
      step code r.machine = some s' → Step code params n never r { r with machine := s' }
  | call {r : Trace} {reg : Reg} {next : Word} {s' : State} : code r.machine.pc = some (.call reg, next) →
      step code r.machine = some s' →
      Step code params n never r { machine := s', calls := r.calls ++ [(s'.pc, word s'.mem (s'.regs .esp + 4))] }
  | returns {r : Trace} {s' : State} : code r.machine.pc = none → ¬never r.machine.pc →
      Returns (params r.machine.pc) n r.machine s' → Step code params n never r { r with machine := s' }

namespace Trace.Step

variable {code : Code} {params : Word → Nat} {n : Nat} {never : Word → Prop} {r r' : Trace}

theorem of_instr (h : Step code params n never r r') {i : Instr} {next : Word} (hc : code r.machine.pc = some (i, next))
    (hi : ∀ reg, i ≠ .call reg) : ∃ s', step code r.machine = some s' ∧ r' = { r with machine := s' } := by
  cases h with
  | instr _ _ hs => exact ⟨_, hs, rfl⟩
  | call hc' _ =>
    rw [hc] at hc'
    cases hc'
    exact absurd rfl (hi _)
  | returns hc' _ _ => simp [hc] at hc'

theorem of_call (h : Step code params n never r r') {reg : Reg} {next : Word} (hc : code r.machine.pc = some (.call reg, next)) :
    r' = { machine := r.machine.called reg next,
           calls := r.calls ++ [(r.machine.regs reg, word (r.machine.called reg next).mem (r.machine.regs .esp - 4 + 4))] } := by
  cases h with
  | instr hc' hi _ =>
    rw [hc] at hc'
    cases hc'
    exact absurd rfl (hi _)
  | call _ hs =>
    rw [step_call hc] at hs
    cases hs
    rfl
  | returns hc' _ _ => simp [hc] at hc'

theorem of_extern (h : Step code params n never r r') (hc : code r.machine.pc = none) :
    ¬never r.machine.pc ∧ ∃ s', Returns (params r.machine.pc) n r.machine s' ∧ r' = { r with machine := s' } := by
  cases h with
  | instr hc' _ _ => simp [hc] at hc'
  | call hc' _ => simp [hc] at hc'
  | returns _ hn hr => exact ⟨hn, _, hr, rfl⟩

end Trace.Step

end I386
