import Nachos.Prelude.Transition
import Nachos.Threads.SwitchCode

/-!
# The first frame of a thread (switch.S, thread.cc)

`Thread::StackAllocate` writes the thread object and the stack so that the first `SWITCH` to the thread returns into `ThreadRoot`,
and `ThreadRoot` calls three procedures it finds in registers. Those procedures are compiled code that is not at hand; all that is
known of them is the calling convention (`I386.Returns`).
-/

namespace Nachos

open I386

namespace ContextSwitch

/-- The addresses that `StackAllocate` takes from the linker. -/
structure Procedures where
  threadRoot : Word
  threadBegin : Word
  threadFinish : Word

/-! ## Thread::StackAllocate -/

/-- `STACK_FENCEPOST`. -/
def stackFencepost : Word := 0xdedbeef

/-- The bytes of the stack that `AllocBoundedArray` returns: `StackSize * sizeof(int)`. -/
abbrev stackBytes : Nat := 8 * 1024 * 4

/-- `stack + StackSize - 4`, and one word less for the address of `ThreadRoot`. -/
def firstStackTop (stack : Word) : Word := stack + 32748

/-- `machineState[i]` is the word at `4 + 4 * i`; the indices are `PCState` and so on, as switch.h computes them. -/
def stateOffset (i : Word) : Word := 4 + 4 * i

/-- `Thread::StackAllocate`, after the allocation of `stack`. -/
def stackAllocate (p : Procedures) (m : Memory) (t stack func arg : Word) : Memory :=
  let m := setWord m t (stack + 32752)
  let m := setWord m t (firstStackTop stack)
  let m := setWord m (firstStackTop stack) p.threadRoot
  let m := setWord m stack stackFencepost
  setWords m t [(stateOffset (32 / 4 - 1), p.threadRoot), (stateOffset (12 / 4 - 1), p.threadBegin), (stateOffset (24 / 4 - 1), func),
    (stateOffset (16 / 4 - 1), arg), (stateOffset (28 / 4 - 1), p.threadFinish)]

variable {p : Procedures} {m : Memory} {t stack func arg : Word}

/-- The last five stores. -/
def stateWords (p : Procedures) (func arg : Word) : List (Word × Word) :=
  [(32, p.threadRoot), (12, p.threadBegin), (24, func), (16, arg), (28, p.threadFinish)]

theorem stackAllocate_eq : stackAllocate p m t stack func arg =
    setWords (setWord (setWord (setWord (setWord m t (stack + 32752)) t (firstStackTop stack)) (firstStackTop stack) p.threadRoot)
      stack stackFencepost) t (stateWords p func arg) := rfl

theorem stateWords_apart : ((stateWords p func arg).map Prod.fst).Pairwise Apart := by
  have h : (stateWords p func arg).map Prod.fst = [32, 12, 24, 16, 28] := rfl
  rw [h]
  decide

theorem stateWords_in_block : ∀ q ∈ stateWords p func arg, q.1.toNat + 4 ≤ 36 := by
  simp [stateWords]

theorem firstStackTop_subset : span (firstStackTop stack) 20 ⊆ span stack stackBytes :=
  span_add_subset stack 32748 (by decide)

/-- Outside of the thread object and the new stack nothing changes. -/
theorem stackAllocate_outside {x : Word} (ht : x ∉ block t) (hs : x ∉ span stack stackBytes) :
    stackAllocate p m t stack func arg x = m x := by
  have h1 : x ∉ span t 4 := fun h => ht (span_mono t (by decide) h)
  have h2 : x ∉ span stack 4 := fun h => hs (span_mono stack (by decide) h)
  have h3 : x ∉ span (firstStackTop stack) 4 := fun h => hs (firstStackTop_subset (span_mono _ (by decide) h))
  rw [stackAllocate_eq, setWords_outside _ t stateWords_in_block ht, setWord_outside _ _ h2, setWord_outside _ _ h3,
    setWord_outside _ _ h1, setWord_outside _ _ h1]

section
variable (hd : Disjoint (block t) (span stack stackBytes))
include hd

theorem stackAllocate_stackTop : field (stackAllocate p m t stack func arg) t .esp = firstStackTop stack := by
  have h0 : t + offset .esp = t + 0 := rfl
  have hts : Disjoint (span t 4) (span stack stackBytes) := hd.mono_left (span_mono t (by decide))
  have h1 : Disjoint (span stack 4) (span t 4) := (hts.mono_right (span_mono stack (by decide))).symm
  have h2 : Disjoint (span (firstStackTop stack) 4) (span t 4) :=
    (hts.mono_right ((span_mono _ (by decide)).trans firstStackTop_subset)).symm
  rw [field, h0, stackAllocate_eq, word_setWords_of_apart _ t (by simp [stateWords, Apart])]
  rw [show t + 0 = t by simp, word_setWord_of_disjoint _ _ h1, word_setWord_of_disjoint _ _ h2, word_setWord]

theorem stackAllocate_return : word (stackAllocate p m t stack func arg) (firstStackTop stack) = p.threadRoot := by
  have h1 : Disjoint (block t) (span (firstStackTop stack) 4) :=
    hd.mono_right ((span_mono _ (by decide)).trans firstStackTop_subset)
  have h2 : Disjoint (span stack 4) (span (firstStackTop stack) 4) :=
    disjoint_span (by unfold firstStackTop; bv_omega) (by unfold firstStackTop; bv_omega)
  rw [stackAllocate_eq, word_congr fun x hx => setWords_outside _ t stateWords_in_block (Set.disjoint_right.mp h1 hx),
    word_setWord_of_disjoint _ _ h2, word_setWord]

end

theorem stackAllocate_word {d v : Word} (h : (d, v) ∈ stateWords p func arg) :
    word (stackAllocate p m t stack func arg) (t + d) = v := by
  rw [stackAllocate_eq]
  exact word_setWords _ t stateWords_apart h

/-! ## ThreadRoot -/

/-- `ThreadRoot`; `InitialArg`, `StartupPC`, `InitialPC` and `WhenDonePC` of switch.h are `%edx`, `%ecx`, `%esi` and `%edi`. -/
def threadRootCode : List Instr :=
  [.pushl .ebp,
   .movl (.reg .esp) (.reg .ebp),
   .pushl .edx,
   .call .ecx,
   .call .esi,
   .call .edi,
   .movl (.reg .ebp) (.reg .esp),
   .popl .ebp,
   .ret]

/-- The processor enters `ThreadRoot` with the registers of a new thread. -/
structure Starts (p : Procedures) (func arg : Word) (s : State) : Prop where
  pc : s.pc = p.threadRoot
  startup : s.regs .ecx = p.threadBegin
  initial : s.regs .esi = func
  arg : s.regs .edx = arg
  whenDone : s.regs .edi = p.threadFinish

/-- The bytes of its own stack that a procedure may write: `func` has one parameter, the other two have none. -/
def params (func : Word) (pc : Word) : Nat := if pc = func then 4 else 0

/-- The linker has put `ThreadRoot` into the code, and the three procedures are elsewhere. -/
structure Linked (code : Code) (p : Procedures) (func : Word) : Prop where
  root : ∃ b, Installed code p.threadRoot threadRootCode b
  begin_extern : code p.threadBegin = none
  func_extern : code func = none
  finish_extern : code p.threadFinish = none
  func_begin : func ≠ p.threadBegin
  func_finish : func ≠ p.threadFinish
  begin_finish : p.threadBegin ≠ p.threadFinish

/-- The registers that the first instructions leave alone. -/
structure Holds (p : Procedures) (func : Word) (s : State) : Prop where
  initial : s.regs .esi = func
  whenDone : s.regs .edi = p.threadFinish

/-- Where a run of `ThreadRoot` is, with the calls made up to there; `a1` .. `a5` are the addresses of its second to sixth
instruction. -/
inductive Phase (p : Procedures) (func arg a1 a2 a3 a4 a5 : Word) : Trace → Prop
  | entry {s : State} : s.pc = p.threadRoot ∨ s.pc = a1 ∨ s.pc = a2 → s.regs .ecx = p.threadBegin → s.regs .edx = arg →
      Holds p func s → Phase p func arg a1 a2 a3 a4 a5 ⟨s, []⟩
  | startup {s : State} : s.pc = a3 → s.regs .ecx = p.threadBegin → word s.mem (s.regs .esp) = arg → Holds p func s →
      Phase p func arg a1 a2 a3 a4 a5 ⟨s, []⟩
  | inBegin {s : State} : s.pc = p.threadBegin → word s.mem (s.regs .esp) = a4 → word s.mem (s.regs .esp + 4) = arg →
      Holds p func s → Phase p func arg a1 a2 a3 a4 a5 ⟨s, [(p.threadBegin, arg)]⟩
  | begun {s : State} : s.pc = a4 → word s.mem (s.regs .esp) = arg → Holds p func s →
      Phase p func arg a1 a2 a3 a4 a5 ⟨s, [(p.threadBegin, arg)]⟩
  | inFunc {s : State} : s.pc = func → word s.mem (s.regs .esp) = a5 → Holds p func s →
      Phase p func arg a1 a2 a3 a4 a5 ⟨s, [(p.threadBegin, arg), (func, arg)]⟩
  | returned {s : State} : s.pc = a5 → s.regs .edi = p.threadFinish →
      Phase p func arg a1 a2 a3 a4 a5 ⟨s, [(p.threadBegin, arg), (func, arg)]⟩
  | finish {s : State} {b : Word} : s.pc = p.threadFinish →
      Phase p func arg a1 a2 a3 a4 a5 ⟨s, [(p.threadBegin, arg), (func, arg), (p.threadFinish, b)]⟩

section
variable {code : Code} {a1 a2 a3 a4 a5 a6 : Word}

/-- The first six instructions of `ThreadRoot`, with the addresses they got. -/
structure RootAt (code : Code) (p : Procedures) (a1 a2 a3 a4 a5 a6 : Word) : Prop where
  push : code p.threadRoot = some (.pushl .ebp, a1)
  move : code a1 = some (.movl (.reg .esp) (.reg .ebp), a2)
  pushArg : code a2 = some (.pushl .edx, a3)
  callStartup : code a3 = some (.call .ecx, a4)
  callInitial : code a4 = some (.call .esi, a5)
  callWhenDone : code a5 = some (.call .edi, a6)

theorem Linked.rootAt (hL : Linked code p func) : ∃ a1 a2 a3 a4 a5 a6, RootAt code p a1 a2 a3 a4 a5 a6 := by
  obtain ⟨b, a1, h0, a2, h1, a3, h2, a4, h3, a5, h4, a6, h5, _⟩ := hL.root
  exact ⟨a1, a2, a3, a4, a5, a6, h0, h1, h2, h3, h4, h5⟩

/-- A push leaves the word pushed on top, and a call leaves the old top word above the return address. -/
theorem word_called (s : State) (r : I386.Reg) (next : Word) : word (s.called r next).mem ((s.called r next).regs .esp) = next :=
  word_setWord s.mem (s.regs .esp - 4) next

theorem word_called_above (s : State) (r : I386.Reg) (next : Word) :
    word (s.called r next).mem (s.regs .esp - 4 + 4) = word s.mem (s.regs .esp) := by
  have hd : Disjoint (span (s.regs .esp - 4) 4) (span (s.regs .esp) 4) := disjoint_span (by bv_omega) (by bv_omega)
  rw [show s.regs .esp - 4 + 4 = s.regs .esp by bv_omega]
  exact word_setWord_of_disjoint s.mem next hd

variable (hA : RootAt code p a1 a2 a3 a4 a5 a6) (hL : Linked code p func)
include hA hL

/-- One instruction of `ThreadRoot`, or the return of one of the procedures it calls. -/
theorem Phase.step {r r' : Trace} (h : Phase p func arg a1 a2 a3 a4 a5 r)
    (hs : Trace.Step code (params func) 8 (· = p.threadFinish) r r') : Phase p func arg a1 a2 a3 a4 a5 r' := by
  cases h with
  | @entry s hpc hc hd hh =>
    rcases hpc with hpc | hpc | hpc
    · obtain ⟨s', hs', rfl⟩ := hs.of_instr (hpc ▸ hA.push) (by simp)
      rw [step_of_exec (hpc ▸ hA.push) rfl] at hs'
      cases hs'
      exact .entry (Or.inr (Or.inl rfl)) hc hd ⟨hh.initial, hh.whenDone⟩
    · obtain ⟨s', hs', rfl⟩ := hs.of_instr (hpc ▸ hA.move) (by simp)
      rw [step_of_exec (hpc ▸ hA.move) rfl] at hs'
      cases hs'
      exact .entry (Or.inr (Or.inr rfl)) hc hd ⟨hh.initial, hh.whenDone⟩
    · obtain ⟨s', hs', rfl⟩ := hs.of_instr (hpc ▸ hA.pushArg) (by simp)
      rw [step_of_exec (hpc ▸ hA.pushArg) rfl] at hs'
      cases hs'
      exact .startup rfl hc ((word_setWord s.mem (s.regs .esp - 4) (s.regs .edx)).trans hd) ⟨hh.initial, hh.whenDone⟩
  | @startup s hpc hc hw hh =>
    have ht := hs.of_call (hpc ▸ hA.callStartup)
    rw [hc, word_called_above, hw] at ht
    subst ht
    exact .inBegin hc (word_called s .ecx a4) ((word_called_above s .ecx a4).trans hw) ⟨hh.initial, hh.whenDone⟩
  | @inBegin s hpc hw ha hh =>
    obtain ⟨_, s', hr, rfl⟩ := hs.of_extern (hpc ▸ hL.begin_extern)
    -- the startup procedure has no parameters, so the word above the return address is still there
    have hp : params func s.pc = 0 := if_neg (hpc ▸ hL.func_begin.symm)
    have hmem : word s'.mem (s.regs .esp + 4) = word s.mem (s.regs .esp + 4) := word_congr fun x hx =>
      hr.frame x (span_mono _ (by decide) hx) (by rw [hp]; exact Nat.not_lt_zero _)
    refine .begun (hr.pc.trans hw) ?_ ⟨?_, ?_⟩
    · rw [hr.esp, hmem, ha]
    · rw [hr.kept .esi (by decide), hh.initial]
    · rw [hr.kept .edi (by decide), hh.whenDone]
  | @begun s hpc hw hh =>
    have ht := hs.of_call (hpc ▸ hA.callInitial)
    rw [hh.initial, word_called_above, hw] at ht
    subst ht
    exact .inFunc hh.initial (word_called s .esi a5) ⟨hh.initial, hh.whenDone⟩
  | @inFunc s hpc hw hh =>
    obtain ⟨_, s', hr, rfl⟩ := hs.of_extern (hpc ▸ hL.func_extern)
    exact .returned (hr.pc.trans hw) ((hr.kept .edi (by decide)).trans hh.whenDone)
  | @returned s hpc hf =>
    have ht := hs.of_call (hpc ▸ hA.callWhenDone)
    rw [hf] at ht
    subst ht
    exact .finish hf
  | @finish s b hpc =>
    obtain ⟨hn, _⟩ := hs.of_extern (hpc ▸ hL.finish_extern)
    exact absurd hpc hn

/-- A run that has not reached `ThreadFinish` goes on. -/
theorem Phase.progress {r : Trace} (h : Phase p func arg a1 a2 a3 a4 a5 r) :
    (∃ b, r.calls = [(p.threadBegin, arg), (func, arg), (p.threadFinish, b)] ∧ r.machine.pc = p.threadFinish) ∨
      ∃ r', Trace.Step code (params func) 8 (· = p.threadFinish) r r' := by
  cases h with
  | @entry s hpc hc hd hh =>
    right
    rcases hpc with hpc | hpc | hpc
    · exact ⟨_, .instr (hpc ▸ hA.push) (by simp) (step_of_exec (hpc ▸ hA.push) rfl)⟩
    · exact ⟨_, .instr (hpc ▸ hA.move) (by simp) (step_of_exec (hpc ▸ hA.move) rfl)⟩
    · exact ⟨_, .instr (hpc ▸ hA.pushArg) (by simp) (step_of_exec (hpc ▸ hA.pushArg) rfl)⟩
  | @startup s hpc hc hw hh => exact Or.inr ⟨_, .call (hpc ▸ hA.callStartup) (step_call (hpc ▸ hA.callStartup))⟩
  | @inBegin s hpc hw ha hh =>
    obtain ⟨s', hr⟩ := exists_returns (params func s.pc) 8 s
    exact Or.inr ⟨_, .returns (hpc ▸ hL.begin_extern) (hpc ▸ hL.begin_finish) hr⟩
  | @begun s hpc hw hh => exact Or.inr ⟨_, .call (hpc ▸ hA.callInitial) (step_call (hpc ▸ hA.callInitial))⟩
  | @inFunc s hpc hw hh =>
    obtain ⟨s', hr⟩ := exists_returns (params func s.pc) 8 s
    exact Or.inr ⟨_, .returns (hpc ▸ hL.func_extern) (hpc ▸ hL.func_finish) hr⟩
  | @returned s hpc hf => exact Or.inr ⟨_, .call (hpc ▸ hA.callWhenDone) (step_call (hpc ▸ hA.callWhenDone))⟩
  | @finish s b hpc => exact Or.inl ⟨b, rfl, hpc⟩

end

/-- The calls made up to any point are the first ones of the three. -/
theorem Phase.calls {a1 a2 a3 a4 a5 : Word} {r : Trace} (h : Phase p func arg a1 a2 a3 a4 a5 r) :
    ∃ b, r.calls <+: [(p.threadBegin, arg), (func, arg), (p.threadFinish, b)] := by
  cases h with
  | entry | startup => exact ⟨0, List.nil_prefix⟩
  | inBegin | begun => exact ⟨0, List.prefix_append [(p.threadBegin, arg)] _⟩
  | inFunc | returned => exact ⟨0, List.prefix_append [(p.threadBegin, arg), (func, arg)] _⟩
  | @finish s b => exact ⟨b, List.prefix_refl _⟩

end ContextSwitch

end Nachos
