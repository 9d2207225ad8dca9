import Nachos.Machine.Precise

/-!
# Copying between user and kernel memory (threads/kernel.cc)

`User2System` and `System2User` go through the translation of the user program, byte by byte, and stop behind a zero byte. An access
that raises an exception ends the simulation, since the handler of every such exception halts the machine.
-/

namespace Nachos

open Bytes Loop

/-- Memory that `new char[size]` has given to the kernel. -/
structure KernelBuffer where
  size : Nat
  bytes : Buf

namespace KernelBuffer

/-- `new char[size]`. -/
def new (size : Int) (junk : Buf) : Except Fault KernelBuffer := do
  let bytes ← newChars size junk
  return { size := size.toNat, bytes }

/-- `buffer[i] = c`. -/
def store (b : KernelBuffer) (i : Nat) (c : UInt8) : Except Fault KernelBuffer :=
  if i < b.size then .ok { b with bytes := Function.update b.bytes i c } else .error .outOfBounds

/-- `buffer[i]`. -/
def load (b : KernelBuffer) (i : Nat) : Except Fault UInt8 := if i < b.size then .ok (b.bytes i) else .error .outOfBounds

/-- The bytes of a buffer in front of the first one with `stop`; with none, the search runs over the end. -/
def upTo (b : KernelBuffer) (stop : UInt8 → Bool) : Except Fault (List UInt8) :=
  if ((List.range b.size).map b.bytes).any stop then .ok (((List.range b.size).map b.bytes).takeWhile fun c => !stop c)
  else .error .outOfBounds

/-- The string that a buffer holds. -/
def string (b : KernelBuffer) : Except Fault (List UInt8) := b.upTo (· = 0)

end KernelBuffer

namespace Machine

/-- An access to user memory by the kernel: `ExceptionHandler` calls `SysHalt` on an exception. -/
def kernelAccess {α : Type} : Except Trap α → Except Fault α
  | .ok a => .ok a
  | .error (.raise _ _) => .error .halted
  | .error (.fault f) => .error f

/-- The rounds of the loop of `User2System` that are left, from `i` on. -/
def user2SystemLoop (virtAddr : BitVec 32) : Nat → Nat → KernelBuffer → Machine → Except Fault (KernelBuffer × Machine)
  | 0, _, kernelBuf, m => .ok (kernelBuf, m)
  | n + 1, i, kernelBuf, m => do
    let (oneChar, m) ← kernelAccess (m.readMem (virtAddr + BitVec.ofNat 32 i) 1)
    let kernelBuf ← kernelBuf.store i (UInt8.ofBitVec (oneChar.setWidth 8))
    if oneChar = 0 then return (kernelBuf, m) else user2SystemLoop virtAddr n (i + 1) kernelBuf m

/-- `Kernel::User2System`. -/
def user2System (m : Machine) (virtAddr limit : BitVec 32) (junk : Buf) : Except Fault (KernelBuffer × Machine) := do
  let kernelBuf ← KernelBuffer.new (limit + 1).toInt junk -- need for terminal string
  user2SystemLoop virtAddr limit.toInt.toNat 0 { kernelBuf with bytes := fun _ => 0 } m

/-- The rounds of the loop of `System2User` that are left, from `i` on. -/
def system2UserLoop (virtAddr : BitVec 32) (buffer : KernelBuffer) : Nat → Nat → Machine → Except Fault (Int × Machine)
  | 0, i, m => .ok (i, m)
  | n + 1, i, m => do
    let oneChar ← buffer.load i
    let m ← kernelAccess (m.writeMem (virtAddr + BitVec.ofNat 32 i) 1 (oneChar.toBitVec.signExtend 32))
    if oneChar = 0 then return ((i + 1 : Nat), m) else system2UserLoop virtAddr buffer n (i + 1) m

/-- `Kernel::System2User`. -/
def system2User (m : Machine) (virtAddr : BitVec 32) (len : Int) (buffer : KernelBuffer) : Except Fault (Int × Machine) :=
  if len < 0 then .ok (-1, m) else if len = 0 then .ok (len, m) else system2UserLoop virtAddr buffer len.toNat 0 m

end Machine

end Nachos
