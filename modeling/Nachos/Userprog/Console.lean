import Mathlib.Data.Nat.Digits.Defs
import Nachos.Filesys.Interface
import Nachos.Userprog.UserMemory

/-!
# The state of the system under a system call, and the calls for the console (threads/kernel.cc)

The kernel waits for a character when there is none: what is typed has no end. Messages on the standard output of the simulator are
not part of the state.
-/

namespace Nachos

open Bytes Loop

/-- What the kernel works on in a system call: the machine, the file system, what will be typed and what has been printed. -/
structure System (C : FileSystemClass) where
  machine : Machine
  fileSystem : FileSystemObject C
  consoleIn : Nat → UInt8
  consoleOut : List UInt8

/-- What a system call finds outside of the state: the contents of the memory that the kernel and the file system allocate, and the
random number. -/
structure Fresh where
  junk : Nat → Buf
  heap : Nat → Buf
  random : Nat

/-- Memory that happens to be zero. -/
def Fresh.zero : Fresh where
  junk _ _ := 0
  heap _ _ := 0
  random := 0

/-- `MAX_FILE_LENGTH`. -/
abbrev maxFileLength : BitVec 32 := 32

/-- `MAX_LENGTH_STRINH_SYS`. -/
abbrev maxLengthStringSys : BitVec 32 := 223

/-- `'\\n'`. -/
abbrev newline : UInt8 := 10

/-- What `sprintf` makes of an `int` with `%d`. -/
def decimal (number : Int) : Name :=
  let digits := if number = 0 then [48] else (Nat.digits 10 number.natAbs).reverse.map fun digit => UInt8.ofNat (48 + digit)
  if number < 0 then 45 :: digits else digits

namespace System

variable {C : FileSystemClass}

/-- `machine->ReadRegister(num)`. -/
def readRegister (s : System C) (num : Reg) : BitVec 32 := s.machine.registers num

/-- `machine->WriteRegister(num, value)`. -/
def writeRegister (s : System C) (num : Reg) (value : BitVec 32) : System C :=
  { s with machine := s.machine.writeRegister num value }

/-- `synchConsoleIn->GetChar()`. -/
def getChar (s : System C) : UInt8 × System C := (s.consoleIn 0, { s with consoleIn := fun i => s.consoleIn (i + 1) })

/-- `Kernel::PrintString2Console`, on the value of the string. -/
def printString2Console (s : System C) (text : List UInt8) : System C := { s with consoleOut := s.consoleOut ++ text }

/-- `Kernel::IncreasePC`. -/
def increasePC (s : System C) : System C :=
  let s := s.writeRegister Reg.prevPCReg (s.readRegister Reg.pcReg)
  let s := s.writeRegister Reg.pcReg (s.readRegister Reg.pcReg + 4)
  s.writeRegister Reg.nextPCReg (s.readRegister Reg.pcReg + 4)

/-! ## ReadString -/

/-- The rounds of the loop of `ReadString2KeyBoard` that are left, from `i` on. -/
def readStringLoop : Nat → Nat → KernelBuffer → System C → Except Fault (Nat × KernelBuffer × System C)
  | 0, i, buffer, s => .ok (i, buffer, s)
  | n + 1, i, buffer, s => do
    let (c, s) := s.getChar
    let buffer ← buffer.store i c
    if c = newline ∨ c = 255 then return (i, buffer, s) else readStringLoop n (i + 1) buffer s

/-- `Kernel::ReadString2KeyBoard`. -/
def readString2KeyBoard (s : System C) (toAddr : BitVec 32) (buffer : KernelBuffer) (size : Int) : Except Fault (System C) :=
  if size ≤ 0 then .ok s -- check error size
  else do
    let (i, buffer, s) ← readStringLoop (size - 1).toNat 0 buffer s
    let buffer ← buffer.store i 0
    let (_, machine) ← s.machine.system2User toAddr i buffer
    return { s with machine }

/-- The case `SC_ReadString`. -/
def readString (s : System C) (fresh : Fresh) : Except Fault (System C) := do
  let virAddr := s.readRegister 4
  let len := s.readRegister 5
  let (str, machine) ← s.machine.user2System virAddr len (fresh.junk 0)
  readString2KeyBoard { s with machine } virAddr str len.toInt

/-- The case `SC_PrintString`. -/
def printString (s : System C) (fresh : Fresh) : Except Fault (System C) := do
  let (strBuffer, machine) ← s.machine.user2System (s.readRegister 4) maxLengthStringSys (fresh.junk 0)
  return printString2Console { s with machine } (← strBuffer.string)

/-! ## ReadNum, PrintNum -/

/-- The loop that enters a line into `value`; a line that is too long is stored behind its end. -/
def enterLine : Nat → Nat → KernelBuffer → System C → Except Fault (KernelBuffer × System C)
  | 0, _, _, _ => .error .outOfBounds -- not reached
  | n + 1, index, value, s => do
    let (c, s) := s.getChar
    if c = newline then return (value, s)
    else enterLine n (index + 1) (← value.store index c) s

/-- What the loop of `EH_ReadNum` over the characters works on. Every value that fits an `int` is exact as a `double`, and the
quotients of digits are quotients of `int`. -/
structure ReadNumState where
  n : Int
  countDot : Nat
  re : Int

/-- One character; with no result, the line is not a number. -/
def readNumStep (st : ReadNumState) (c : UInt8) : Option ReadNumState :=
  if c > 57 ∨ c < 48 then
    if c ≠ 46 ∨ st.countDot = 1 then none else some { st with countDot := st.countDot + 1 }
  else if st.countDot = 0 then some { st with re := st.re * 10 + (c.toNat - 48) }
  else
    let n := int32 (st.n * 10)
    some { st with n, re := st.re + ((c.toNat : Int) - 48).tdiv n }

/-- What `EH_ReadNum` computes from the characters of a line. -/
def readNumValue (value : Name) : Option Int :=
  let isNegative := value.head? = some 45
  let digits := if isNegative then value.tail else value
  match digits.foldlM readNumStep { n := 1, countDot := 0, re := 0 } with
  | none => none
  | some st => some (if isNegative then -st.re else st.re)

/-- The conversion of a `double` to `int`, which gives the least `int` for a value out of range. -/
def intOfDouble (re : Int) : BitVec 32 := if InRange re then BitVec.ofInt 32 re else 0x80000000

/-- `Kernel::EH_ReadNum`. -/
def readNum (s : System C) (fresh : Fresh) : Except Fault (System C) := do
  let maxSize := 20
  let value ← KernelBuffer.new maxSize (fresh.junk 0)
  let (value, s) ← enterLine 21 0 value s
  match readNumValue (← value.string) with
  | none => return s.writeRegister 2 0
  | some re => return s.writeRegister 2 (intOfDouble re)

/-- `Kernel::PrintNum`. -/
def printNum (s : System C) (number : BitVec 32) : System C := s.printString2Console (decimal number.toInt)

/-! ## ReadChar, PrintChar -/

/-- The loop of `EH_ReadChar`. -/
def readCharLoop : Nat → Nat → KernelBuffer → System C → Except Fault (Nat × KernelBuffer × System C)
  | 0, byte, value, s => .ok (byte, value, s)
  | n + 1, byte, value, s => do
    let (c, s) := s.getChar
    let value ← value.store byte c
    if c = 0 ∨ c = newline then return (byte + 1, value, s) else readCharLoop n (byte + 1) value s

/-- `Kernel::EH_ReadChar`. -/
def readChar (s : System C) (fresh : Fresh) : Except Fault (System C) := do
  let maxSize := 10
  let value ← KernelBuffer.new maxSize (fresh.junk 0)
  let (byte, value, s) ← readCharLoop 10 0 value s
  let value ← value.store (byte - 1) 0
  if byte - 1 = 1 then
    let character ← value.load 0
    return s.writeRegister 2 (character.toBitVec.signExtend 32)
  else return s.writeRegister 2 0 -- no input, or more than one character

/-- `Kernel::EH_PrintChar`. -/
def printChar (s : System C) : System C := s.printString2Console [UInt8.ofBitVec ((s.readRegister 4).setWidth 8)]

end System

end Nachos
