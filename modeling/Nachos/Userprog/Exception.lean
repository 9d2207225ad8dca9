import Nachos.Userprog.FileCalls

/-!
# The entry of the kernel (userprog/exception.cc, syscall.h)

A system call is chosen by register 2. Codes without a case of their own, some of which are declared and issued by start.S, end up in
the default case.
-/

namespace Nachos

/-- The codes of syscall.h. -/
inductive SyscallCode where
  | halt
  | exit
  | exec
  | join
  | create
  | remove
  | «open»
  | read
  | write
  | seek
  | close
  | threadFork
  | threadYield
  | execV
  | threadExit
  | threadJoin
  | add
  | sub
  | readString
  | printString
  | readNum
  | printNum
  | randomNum
  | readChar
  | printChar
  deriving DecidableEq, Repr

namespace SyscallCode

/-- The number of a code. -/
def number : SyscallCode → BitVec 32
  | halt => 0
  | exit => 1
  | exec => 2
  | join => 3
  | create => 4
  | remove => 5
  | «open» => 6
  | read => 7
  | write => 8
  | seek => 9
  | close => 10
  | threadFork => 11
  | threadYield => 12
  | execV => 13
  | threadExit => 14
  | threadJoin => 15
  | add => 42
  | sub => 43
  | readString => 44
  | printString => 45
  | readNum => 46
  | printNum => 47
  | randomNum => 48
  | readChar => 49
  | printChar => 50

/-- The codes for which `ExceptionHandler` has a case. -/
def cases : List SyscallCode :=
  [halt, add, sub, readNum, readChar, printChar, randomNum, printNum, readString, printString, create, «open», remove, close, read,
    write, seek]

/-- The case that a number selects. -/
def select (type : BitVec 32) : Option SyscallCode := cases.find? fun code => code.number = type

/-- No two codes have the same number. -/
theorem number_injective : Function.Injective number := by
  intro a b h
  cases a <;> cases b <;> first | rfl | exact absurd h (by decide)

theorem select_eq_some {type : BitVec 32} {code : SyscallCode} : select type = some code ↔ code ∈ cases ∧ code.number = type := by
  constructor
  · intro h
    exact ⟨List.mem_of_find?_eq_some h, by simpa using List.find?_some h⟩
  · rintro ⟨hm, rfl⟩
    cases h : select code.number with
    | none => exact absurd (List.find?_eq_none.1 h code hm) (by simp)
    | some code' => rw [number_injective (by simpa using List.find?_some h : code'.number = code.number)]

/-- A number that selects no case. -/
theorem select_eq_none {type : BitVec 32} : select type = none ↔ ∀ code ∈ cases, code.number ≠ type := by
  simp [select]

end SyscallCode

namespace System

variable {C : FileSystemClass}

/-- `SC_Add`. -/
def sysAdd (s : System C) : System C := s.writeRegister 2 (s.readRegister 4 + s.readRegister 5)

/-- `SC_Sub`. -/
def sysSub (s : System C) : System C := s.writeRegister 2 (s.readRegister 4 - s.readRegister 5)

/-- `SC_RandomNum`. -/
def randomNum (s : System C) (fresh : Fresh) : System C := s.writeRegister 2 (BitVec.ofNat 32 (fresh.random % 100))

/-- What a case of `ExceptionHandler` does in front of `IncreasePC`. -/
def systemCall (s : System C) (fresh : Fresh) : SyscallCode → Except Fault (System C)
  | .halt => .error .halted
  | .add => .ok s.sysAdd
  | .sub => .ok s.sysSub
  | .readNum => s.readNum fresh
  | .readChar => s.readChar fresh
  | .printChar => .ok s.printChar
  | .randomNum => .ok (s.randomNum fresh)
  | .printNum => .ok (s.printNum (s.readRegister 4))
  | .readString => s.readString fresh
  | .printString => s.printString fresh
  | .create => s.fileCreate fresh
  | .open => s.fileOpen fresh
  | .remove => s.fileRemove fresh
  | .close => s.fileClose
  | .read => s.fileRead fresh
  | .write => s.fileWrite fresh
  | .seek => s.fileSeek
  | .exit | .exec | .join | .threadFork | .threadYield | .execV | .threadExit | .threadJoin => .ok s -- no case

/-- `ExceptionHandler`. -/
def exceptionHandler (which : ExceptionType) (fresh : Fresh) (s : System C) : Except Fault (System C) :=
  match which with
  | .noException => .ok s
  | .syscallException =>
    match SyscallCode.select (s.readRegister 2) with
    | none => .ok s -- unexpected system call
    | some code => do
      let s ← s.systemCall fresh code
      return s.increasePC
  | .pageFaultException | .readOnlyException | .busErrorException | .addressErrorException | .overflowException
  | .illegalInstrException | .numExceptionTypes => .error .halted

end System

end Nachos
