import Nachos.Prelude.Command
import Nachos.Userprog.Names
import Nachos.Userprog.Numbers
import Nachos.Userprog.RoundTrip

/-!
# User programs (test/start.S, userprog/syscall.h)

A program in C is a command over its variables and the system, which it calls by the stubs of start.S. What it has in memory for the
kernel to read are its strings; the other variables are values here. What the kernel finds in its own memory differs from call to call.
-/

namespace Nachos

open Bytes Loop Input Machine

/-- A user program that runs: the system, its variables, what its calls find outside of the state, and how many there were. -/
structure Process (C : FileSystemClass) (V : Type) where
  system : System C
  vars : V
  fresh : Nat → Fresh
  calls : Nat

/-- A statement of a user program. -/
abbrev Statement (C : FileSystemClass) (V : Type) := Command Fault (Process C V)

namespace Process

variable {C : FileSystemClass} {V : Type}

/-- What the kernel gets from the stub of a call: the arguments in the registers from 4 on, and the code in register 2. -/
def entry (p : Process C V) (code : SyscallCode) (args : List (BitVec 32)) : System C :=
  let s := (([4, 5, 6] : List Reg).zip args).foldl (fun s arg => s.writeRegister arg.1 arg.2) p.system
  s.writeRegister 2 code.number

/-- A call. The answer is in register 2. -/
def call (p : Process C V) (code : SyscallCode) (args : List (BitVec 32)) : Except Fault (BitVec 32 × Process C V) := do
  let s ← (p.entry code args).exceptionHandler .syscallException (p.fresh p.calls)
  return (s.readRegister 2, { p with system := s, calls := p.calls + 1 })

/-- An assignment to the variables. -/
def assign (f : V → Except Fault V) : Statement C V := .basic fun p => do return { p with vars := ← f p.vars }

/-- A condition on the variables. -/
def test (b : V → Except Fault Bool) (p : Process C V) : Except Fault Bool := b p.vars

/-- A call, with what is done with its answer. -/
def invoke (code : SyscallCode) (args : V → Except Fault (List (BitVec 32))) (answer : BitVec 32 → V → Except Fault V) :
    Statement C V :=
  .basic fun p => do
    let (result, p) ← p.call code (← args p.vars)
    return { p with vars := ← answer result p.vars }

/-- `PrintString(buffer)`. -/
def printString (buffer : BitVec 32) : Statement C V := invoke .printString (fun _ => .ok [buffer]) fun _ => .ok

/-- `PrintNum(number)`. -/
def printNum (number : V → Except Fault (BitVec 32)) : Statement C V :=
  invoke .printNum (fun v => do return [← number v]) fun _ => .ok

/-- `ReadNum()`, and the assignment of the number. -/
def readNum (assigned : BitVec 32 → V → Except Fault V) : Statement C V := invoke .readNum (fun _ => .ok []) assigned

/-- `Halt()`. -/
def halt : Statement C V := invoke .halt (fun _ => .ok []) fun _ => .ok

/-! ## The console -/

/-- In the memory where the kernel enters a line, the number is followed by a zero, with nothing in front of it that goes on the number. -/
def ReadsBack (fresh : Fresh) (n : BitVec 32) : Prop :=
  0 ∈ System.behind (fresh.junk 0) (decimal n.toInt).length ∧
    System.Kept n.toInt ((System.behind (fresh.junk 0) (decimal n.toInt).length).takeWhile fun c => !decide (c = 0))

/-- Memory that happens to be zero is such memory. -/
theorem readsBack_zero (n : BitVec 32) : ReadsBack .zero n := by
  obtain ⟨-, hlength⟩ := System.decimal_text n
  have hzeros : System.behind (Fresh.zero.junk 0) (decimal n.toInt).length = List.replicate (20 - (decimal n.toInt).length) 0 :=
    List.eq_replicate_iff.2 ⟨length_slice _ _ _, fun c hc => by
      obtain ⟨j, -, rfl⟩ := List.mem_map.1 hc
      rfl⟩
  obtain ⟨k, hk⟩ : ∃ k, 20 - (decimal n.toInt).length = k + 1 := ⟨19 - (decimal n.toInt).length, by omega⟩
  unfold ReadsBack
  rw [hzeros, hk, List.replicate_succ]
  exact ⟨List.mem_cons_self, .inl rfl⟩

variable {ι : Type}

/-- What a program that talks with its user relies on: its strings are in memory, it has printed `said`, the user types `numbers`, which are
read as they are typed, and its variables are `v`. -/
structure Console (address : ι → BitVec 32) (text : ι → Name) (rest : Stream' UInt8) (said : List UInt8)
    (numbers : List (BitVec 32)) (v : V) (p : Process C V) : Prop where
  there : ∀ i, p.system.machine.StringAt (address i) (text i)
  said : p.system.consoleOut = said
  typed : p.system.typed = lines newline (numbers.map fun n => decimal n.toInt) rest
  readsBack : ∀ n ∈ numbers, ∀ k, ReadsBack (p.fresh k) n
  vars : p.vars = v

end Process

/-- Strings stay where they are when the memory does not change. -/
theorem Machine.SameMemory.stringAt {m m' : Machine} (h : m.SameMemory m') {virtAddr : BitVec 32} {str : Name}
    (hs : m.StringAt virtAddr str) : m'.StringAt virtAddr str := by
  refine ⟨?_, ?_, hs.nonzero, ?_⟩
  · rw [h.physical_eq]
    exact hs.mapped
  · rw [h.userBytes_eq]
    exact hs.bytes
  · rw [h.userBytes_eq]
    exact hs.terminated

namespace System

variable {C : FileSystemClass} {s : System C}

/-- `PrintString` prints a string that is not too long. -/
theorem printString_of (fresh : Fresh) {str : Name} (h : s.machine.StringAt (s.readRegister 4) str) (hlength : str.length ≤ 223) :
    ∃ machine, s.printString fresh = .ok { s with machine, consoleOut := s.consoleOut ++ str } ∧ s.machine.SameMemory machine := by
  have hlimit : ¬BadLimit maxLengthStringSys := by decide
  have hsize : maxLengthStringSys.toInt = 223 := by decide
  obtain ⟨⟨buffer, machine⟩, hcopy⟩ : ∃ r, s.machine.user2System (s.readRegister 4) maxLengthStringSys (fresh.junk 0) = .ok r := by
    refine Machine.user2System_returns hlimit (fun j _ hall => h.mapped j ?_) _
    by_contra hj
    exact hall str.length (by omega) h.terminated
  obtain ⟨htouched, hroom, hbytes⟩ := (s.machine.user2System_ends _ _ _).of_ok hcopy
  dsimp only at htouched hroom hbytes
  have hstring : buffer.string = .ok str := by
    rw [h.string_eq (n := 223) (by omega) (by rw [hbytes, hsize]; rfl), List.take_of_length_le hlength]
  refine ⟨machine, ?_, htouched.sameMemory⟩
  unfold printString
  rw [hcopy, ok_bind]
  dsimp only
  rw [hstring]
  rfl

/-- `ReadNum` reads the number that is typed, and its line. -/
theorem readNum_of {fresh : Fresh} {n : BitVec 32} {rest : Stream' UInt8} (ht : s.typed = decimal n.toInt ++ₛ rest.cons newline)
    (h : Process.ReadsBack fresh n) :
    s.readNum fresh = .ok ((s.dropped ((decimal n.toInt).length + 1)).writeRegister 2 n) := by
  obtain ⟨htext, hlength⟩ := decimal_text n
  have hfront : front endsNum 21 s.typed = (decimal n.toInt).length := by
    have hends : ∀ c ∈ decimal n.toInt, endsNum c = false := fun c hc => decide_eq_false (htext c hc).2
    rw [ht, front_line hends rfl]
    omega
  have hstring : (KernelBuffer.put ⟨20, fresh.junk 0⟩ 0 s.typed (decimal n.toInt).length).string = _ :=
    ht ▸ string_put (fun c hc => (htext c hc).1) (by omega)
  have hw : ((behind (fresh.junk 0) (decimal n.toInt).length).takeWhile fun c => !decide (c = 0)).length ≤ 20 := by
    refine (List.takeWhile_sublist _).length_le.trans ?_
    unfold behind
    rw [length_slice]
    omega
  have hvalue := (readNumValue_kept hw).2 h.2
  rw [readNum_eq, readNumLine_eq, hfront, if_pos (by omega), ok_bind]
  dsimp only
  rw [hstring, if_pos h.1, ok_bind]
  generalize readNumValue _ = value at hvalue ⊢
  cases value with
  | none =>
    rw [← hvalue]
    rfl
  | some re =>
    rw [← hvalue]
    rfl

end System

namespace Process

variable {C : FileSystemClass} {V ι : Type} {address : ι → BitVec 32} {text : ι → Name} {rest : Stream' UInt8} {said : List UInt8}
  {numbers : List (BitVec 32)} {v v' : V} {p : Process C V} {Q : Command.Post Fault (Process C V)}

/-- The stub changes registers only. -/
theorem entry_eq (p : Process C V) (code : SyscallCode) (args : List (BitVec 32)) :
    ∃ registers, p.entry code args = { p.system with machine := { p.system.machine with registers } } := by
  have hfold (l : List (Reg × BitVec 32)) (s : System C) :
      ∃ registers, l.foldl (fun s arg => s.writeRegister arg.1 arg.2) s = { s with machine := { s.machine with registers } } := by
    induction l generalizing s with
    | nil => exact ⟨_, rfl⟩
    | cons arg l ih => exact ih (s.writeRegister arg.1 arg.2)
  obtain ⟨registers, h⟩ := hfold (([4, 5, 6] : List Reg).zip args) p.system
  unfold entry
  rw [h]
  exact ⟨_, rfl⟩

theorem entry_memory (p : Process C V) (code : SyscallCode) (args : List (BitVec 32)) :
    p.system.machine.SameMemory (p.entry code args).machine := by
  obtain ⟨registers, h⟩ := p.entry_eq code args
  rw [h]
  exact .of_registers _ _

theorem entry_typed (p : Process C V) (code : SyscallCode) (args : List (BitVec 32)) : (p.entry code args).typed = p.system.typed := by
  obtain ⟨registers, h⟩ := p.entry_eq code args
  rw [h]
  rfl

theorem entry_said (p : Process C V) (code : SyscallCode) (args : List (BitVec 32)) :
    (p.entry code args).consoleOut = p.system.consoleOut := by
  obtain ⟨registers, h⟩ := p.entry_eq code args
  rw [h]

@[simp] theorem entry_arg (p : Process C V) (code : SyscallCode) (arg : BitVec 32) : (p.entry code [arg]).readRegister 4 = arg := rfl

/-- A system call that goes through. -/
theorem call_of {code : SyscallCode} {args : List (BitVec 32)} (hcode : code ∈ SyscallCode.cases) {s : System C}
    (hcall : (p.entry code args).systemCall (p.fresh p.calls) code = .ok s) :
    p.call code args = .ok (s.readRegister 2, { p with system := s.increasePC, calls := p.calls + 1 }) := by
  have hr : (p.entry code args).readRegister 2 = code.number := System.writeRegister_readRegister _ _ _
  unfold call
  rw [System.exceptionHandler_of hcode hr, hcall]
  rfl

/-- A statement that is a call. -/
theorem ends_invoke (code : SyscallCode) (hcode : code ∈ SyscallCode.cases) {args : V → Except Fault (List (BitVec 32))}
    (arg : List (BitVec 32)) (harg : args p.vars = .ok arg) {s : System C}
    (hcall : (p.entry code arg).systemCall (p.fresh p.calls) code = .ok s) {answer : BitVec 32 → V → Except Fault V}
    (hanswer : answer (s.readRegister 2) p.vars = .ok v')
    (hQ : Q.next { p with system := s.increasePC, vars := v', calls := p.calls + 1 }) : (invoke code args answer).Ends Q p := by
  refine Command.ends_basic ?_ hQ
  rw [harg, ok_bind, call_of hcode hcall, ok_bind]
  dsimp only
  rw [hanswer]
  rfl

namespace Console

/-- Another system with the same memory. -/
theorem goesOn (h : Console address text rest said numbers v p) {s' : System C} {said' : List UInt8} {numbers' : List (BitVec 32)}
    (hm : p.system.machine.SameMemory s'.machine) (hsaid : s'.consoleOut = said')
    (htyped : s'.typed = lines newline (numbers'.map fun n => decimal n.toInt) rest) (hsub : ∀ n ∈ numbers', n ∈ numbers)
    (v' : V) (calls : Nat) : Console address text rest said' numbers' v' { p with system := s', vars := v', calls } :=
  ⟨fun i => hm.stringAt (h.there i), hsaid, htyped, fun n hn => h.readsBack n (hsub n hn), rfl⟩

theorem assign (h : Console address text rest said numbers v p) {f : V → Except Fault V} (v' : V) (hf : f v = .ok v')
    (hQ : ∀ p', Console address text rest said numbers v' p' → Q.next p') : (Process.assign f).Ends Q p := by
  have hassign : (do return { p with vars := ← f p.vars } : Except Fault (Process C V)) = .ok { p with vars := v' } := by
    rw [h.vars, hf]
    rfl
  exact Command.ends_basic hassign (hQ _ ⟨h.there, h.said, h.typed, h.readsBack, rfl⟩)

theorem test (h : Console address text rest said numbers v p) (b : V → Except Fault Bool) : Process.test b p = b v :=
  congrArg b h.vars

theorem printString (h : Console address text rest said numbers v p) (i : ι) (hlength : (text i).length ≤ 223)
    (hQ : ∀ p', Console address text rest (said ++ text i) numbers v p' → Q.next p') : (Process.printString (address i)).Ends Q p := by
  have hmemory := p.entry_memory .printString [address i]
  obtain ⟨machine, hprint, hm⟩ :=
    System.printString_of (s := p.entry .printString [address i]) (p.fresh p.calls) (hmemory.stringAt (h.there i)) hlength
  unfold Process.printString
  refine ends_invoke .printString (by decide) [address i] rfl hprint rfl (hQ _ ?_)
  rw [h.vars]
  refine h.goesOn (hmemory.trans (hm.trans (.of_registers _ _))) ?_ ?_ (fun _ hn => hn) v _
  · rw [← h.said, ← p.entry_said .printString [address i]]
    rfl
  · exact (p.entry_typed .printString [address i]).trans h.typed

theorem printNum (h : Console address text rest said numbers v p) {number : V → Except Fault (BitVec 32)} {n : BitVec 32}
    (hn : number v = .ok n) (hQ : ∀ p', Console address text rest (said ++ decimal n.toInt) numbers v p' → Q.next p') :
    (Process.printNum number).Ends Q p := by
  have harg : (do return [← number p.vars] : Except Fault (List (BitVec 32))) = .ok [n] := by
    rw [h.vars, hn]
    rfl
  have hcall : (p.entry .printNum [n]).systemCall (p.fresh p.calls) .printNum = .ok ((p.entry .printNum [n]).printNum n) := by
    conv_rhs => rw [← p.entry_arg .printNum n]
    rfl
  have hm : p.system.machine.SameMemory ((p.entry .printNum [n]).printNum n).increasePC.machine :=
    (p.entry_memory .printNum [n]).trans (.of_registers _ _)
  unfold Process.printNum
  refine ends_invoke .printNum (by decide) [n] harg hcall rfl (hQ _ ?_)
  rw [h.vars]
  refine h.goesOn hm ?_ ?_ (fun _ hn => hn) v _
  · rw [← h.said, ← p.entry_said .printNum [n]]
    rfl
  · exact (p.entry_typed .printNum [n]).trans h.typed

theorem readNum {n : BitVec 32} (h : Console address text rest said (n :: numbers) v p) {assigned : BitVec 32 → V → Except Fault V}
    (ha : assigned n v = .ok v') (hQ : ∀ p', Console address text rest said numbers v' p' → Q.next p') :
    (Process.readNum assigned).Ends Q p := by
  have ht : (p.entry .readNum []).typed = decimal n.toInt ++ₛ (lines newline (numbers.map fun n => decimal n.toInt) rest).cons newline :=
    (p.entry_typed .readNum []).trans h.typed
  have hread := System.readNum_of ht (h.readsBack n List.mem_cons_self p.calls)
  have hm : p.system.machine.SameMemory
      (((p.entry .readNum []).dropped ((decimal n.toInt).length + 1)).writeRegister 2 n).increasePC.machine :=
    (p.entry_memory .readNum []).trans (.of_registers _ _)
  unfold Process.readNum
  have hassigned : assigned (((p.entry .readNum []).dropped ((decimal n.toInt).length + 1)).writeRegister 2 n |>.readRegister 2) p.vars =
      .ok v' := by
    rw [System.writeRegister_readRegister, h.vars, ha]
  refine ends_invoke .readNum (by decide) [] rfl hread hassigned (hQ _ ?_)
  refine h.goesOn hm ?_ ?_ (fun _ hn => List.mem_cons_of_mem _ hn) _ _
  · exact (p.entry_said .readNum []).trans h.said
  · exact (congrArg _ ht).trans (drop_line _ _ _)

theorem halt (h : Console address text rest said numbers v p)
    (hQ : ∀ p', Console address text rest said numbers v p' → Q.stopped .halted p') : (Process.halt (C := C) (V := V)).Ends Q p :=
  Command.ends_basic_error (e := .halted) rfl (hQ p h)

end Console

end Process

end Nachos
