import Nachos.Machine.Translate

/-!
# The MIPS simulator (machine/mipssim.h, mipssim.cc)

An instruction word is decoded by two tables, and executed on the registers and the memory. The build is the one with `SIM_FIX`, in
which the unaligned accesses go through aligned words.
-/

namespace Nachos

/-- The operations, `OP_ADD` to `OP_RES`. -/
inductive OpCode where
  | add | addi | addiu | addu | and | andi | beq | bgez | bgezal | bgtz | blez | bltz | bltzal | bne
  | div | divu | j | jal | jalr | jr | lb | lbu | lh | lhu | lui | lw | lwl | lwr
  | mfhi | mflo | mthi | mtlo | mult | multu | nor | or | ori | rfe | sb | sh | sll | sllv | slt | slti | sltiu | sltu
  | sra | srav | srl | srlv | sub | subu | sw | swl | swr | xor | xori | syscall | unimp | res
  deriving DecidableEq, Repr

/-- An entry of `opTable` before further decoding: `SPECIAL`, `BCOND`, or an operation. -/
inductive OpEntry where
  | special
  | bcond
  | op (opCode : OpCode)

/-- `IFMT`, `JFMT`, `RFMT`. -/
inductive Format where
  | ifmt
  | jfmt
  | rfmt
  deriving DecidableEq

open OpEntry Format in
/-- `opTable`. -/
def opTable : Vector (OpEntry × Format) 64 :=
  #v[(special, rfmt), (bcond, ifmt), (op .j, jfmt), (op .jal, jfmt),
    (op .beq, ifmt), (op .bne, ifmt), (op .blez, ifmt), (op .bgtz, ifmt),
    (op .addi, ifmt), (op .addiu, ifmt), (op .slti, ifmt), (op .sltiu, ifmt),
    (op .andi, ifmt), (op .ori, ifmt), (op .xori, ifmt), (op .lui, ifmt),
    (op .unimp, ifmt), (op .unimp, ifmt), (op .unimp, ifmt), (op .unimp, ifmt),
    (op .res, ifmt), (op .res, ifmt), (op .res, ifmt), (op .res, ifmt),
    (op .res, ifmt), (op .res, ifmt), (op .res, ifmt), (op .res, ifmt),
    (op .res, ifmt), (op .res, ifmt), (op .res, ifmt), (op .res, ifmt),
    (op .lb, ifmt), (op .lh, ifmt), (op .lwl, ifmt), (op .lw, ifmt),
    (op .lbu, ifmt), (op .lhu, ifmt), (op .lwr, ifmt), (op .res, ifmt),
    (op .sb, ifmt), (op .sh, ifmt), (op .swl, ifmt), (op .sw, ifmt),
    (op .res, ifmt), (op .res, ifmt), (op .swr, ifmt), (op .res, ifmt),
    (op .unimp, ifmt), (op .unimp, ifmt), (op .unimp, ifmt), (op .unimp, ifmt),
    (op .res, ifmt), (op .res, ifmt), (op .res, ifmt), (op .res, ifmt),
    (op .unimp, ifmt), (op .unimp, ifmt), (op .unimp, ifmt), (op .unimp, ifmt),
    (op .res, ifmt), (op .res, ifmt), (op .res, ifmt), (op .res, ifmt)]

/-- `specialTable`. -/
def specialTable : Vector OpCode 64 :=
  #v[.sll, .res, .srl, .sra, .sllv, .res, .srlv, .srav,
    .jr, .jalr, .res, .res, .syscall, .unimp, .res, .res,
    .mfhi, .mthi, .mflo, .mtlo, .res, .res, .res, .res,
    .mult, .multu, .div, .divu, .res, .res, .res, .res,
    .add, .addu, .sub, .subu, .and, .or, .xor, .nor,
    .res, .res, .slt, .sltu, .res, .res, .res, .res,
    .res, .res, .res, .res, .res, .res, .res, .res,
    .res, .res, .res, .res, .res, .res, .res, .res]

/-- `class Instruction`: the operation, its three registers, and the immediate, target, shamt or offset. -/
structure Instruction where
  opCode : OpCode
  rs : Fin 32
  rt : Fin 32
  rd : Fin 32
  extra : BitVec 32

/-- `Instruction::Decode`. -/
def decode (value : BitVec 32) : Instruction :=
  let rs := (value.extractLsb' 21 5).toFin
  let rt := (value.extractLsb' 16 5).toFin
  let rd := (value.extractLsb' 11 5).toFin
  let (entry, format) := opTable.get (value.extractLsb' 26 6).toFin
  let extra :=
    match format with
    | .ifmt =>
      let extra := value &&& 0xffff
      if extra &&& 0x8000 ≠ 0 then extra ||| 0xffff0000 else extra
    | .rfmt => (value >>> 6) &&& 0x1f
    | .jfmt => value &&& 0x3ffffff
  let opCode :=
    match entry with
    | .op opCode => opCode
    | .special => specialTable.get (value.extractLsb' 0 6).toFin
    | .bcond =>
      let i := value &&& 0x1f0000
      if i = 0 then .bltz
      else if i = 0x10000 then .bgez
      else if i = 0x100000 then .bltzal
      else if i = 0x110000 then .bgezal
      else .unimp
  { opCode, rs, rt, rd, extra }

/-- `IndexToAddr`. -/
def indexToAddr (x : BitVec 32) : BitVec 32 := x <<< 2

/-- `x & SIGN_BIT`, as a condition. -/
def signBit (x : BitVec 32) : Bool := x &&& 0x80000000 ≠ 0

/-- What the loop of `Mult` works on. -/
structure MultState where
  a : BitVec 32
  bLo : BitVec 32
  bHi : BitVec 32
  lo : BitVec 32
  hi : BitVec 32

/-- The rounds of the loop of `Mult` that are left. -/
def multLoop : Nat → MultState → MultState
  | 0, s => s
  | n + 1, s =>
    let added : MultState :=
      if s.a &&& 1 ≠ 0 then
        let lo := s.lo + s.bLo
        let hi := if lo < s.bLo then s.hi + 1 else s.hi -- carry out of the low bits?
        { s with lo, hi := hi + s.bHi }
      else s
    if s.a &&& 1 ≠ 0 ∧ s.a &&& 0xfffffffe = 0 then added
    else
      let bHi := added.bHi <<< 1
      let bHi := if added.bLo &&& 0x80000000 ≠ 0 then bHi ||| 1 else bHi
      multLoop n { added with bHi, bLo := added.bLo <<< 1, a := added.a.sshiftRight 1 }

/-- `Mult`: what it stores in `*hiPtr` and `*loPtr`. -/
def mult (a b : BitVec 32) (signedArith : Bool) : BitVec 32 × BitVec 32 :=
  if a = 0 ∨ b = 0 then (0, 0)
  else
    -- compute the sign of the result, then make everything positive
    let negative := signedArith && (a.slt 0 != b.slt 0)
    let a := if signedArith && a.slt 0 then -a else a
    let b := if signedArith && b.slt 0 then -b else b
    let s := multLoop 32 { a, bLo := b, bHi := 0, lo := 0, hi := 0 }
    if negative then
      let lo := ~~~s.lo + 1
      (if lo = 0 then ~~~s.hi + 1 else ~~~s.hi, lo)
    else (s.hi, s.lo)

namespace Machine

/-- A general purpose register. -/
def gpr (m : Machine) (r : Fin 32) : BitVec 32 := m.registers (r.castLE (by decide))

/-- Assignment to a general purpose register. -/
def setGpr (m : Machine) (r : Fin 32) (value : BitVec 32) : Machine := m.writeRegister (r.castLE (by decide)) value

/-- What the `switch` of `OneInstruction` leaves: the machine, the next `NextPCReg`, and the delayed load. -/
structure Executed where
  m : Machine
  pcAfter : BitVec 32
  nextLoadReg : BitVec 32
  nextLoadValue : BitVec 32

/-- The register number, as `LoadReg` holds it. -/
def regNumber (r : Fin 32) : BitVec 32 := BitVec.ofNat 32 r

/-- The part of a word that `LWL` loads, over the old contents of the register. -/
def lwlValue (old value : BitVec 32) : Nat → BitVec 32
  | 0 => value
  | 1 => (old &&& 0xff) ||| (value <<< 8)
  | 2 => (old &&& 0xffff) ||| (value <<< 16)
  | _ => (old &&& 0xffffff) ||| (value <<< 24)

/-- The part of a word that `LWR` loads, over the old contents of the register. -/
def lwrValue (old value : BitVec 32) : Nat → BitVec 32
  | 0 => (old &&& 0xffffff00) ||| ((value.sshiftRight 24) &&& 0xff)
  | 1 => (old &&& 0xffff0000) ||| ((value.sshiftRight 16) &&& 0xffff)
  | 2 => (old &&& 0xff000000) ||| ((value.sshiftRight 8) &&& 0xffffff)
  | _ => value

/-- The word that `SWL` stores, made of the register and the word in memory. -/
def swlValue (reg value : BitVec 32) : Nat → BitVec 32
  | 0 => reg
  | 1 => (value &&& 0xff000000) ||| ((reg.sshiftRight 8) &&& 0xffffff)
  | 2 => (value &&& 0xffff0000) ||| ((reg.sshiftRight 16) &&& 0xffff)
  | _ => (value &&& 0xffffff00) ||| ((reg.sshiftRight 24) &&& 0xff)

/-- The word that `SWR` stores, made of the register and the word in memory. -/
def swrValue (reg value : BitVec 32) : Nat → BitVec 32
  | 0 => (value &&& 0xffffff) ||| (reg <<< 24)
  | 1 => (value &&& 0xffff) ||| (reg <<< 16)
  | 2 => (value &&& 0xff) ||| (reg <<< 8)
  | _ => reg

/-- The contents of the target of `LWL` and `LWR`, a pending load of it included. -/
def pendingGpr (m : Machine) (r : Fin 32) : BitVec 32 :=
  if m.registers Reg.loadReg = regNumber r then m.registers Reg.loadValueReg else m.gpr r

/-- The `switch` of `Machine::OneInstruction`. -/
def execute (m : Machine) (instr : Instruction) : Except Trap Executed :=
  let rs := m.gpr instr.rs
  let rt := m.gpr instr.rt
  let extra := instr.extra
  let nextPC := m.registers Reg.nextPCReg
  -- no branch and no delayed load
  let done (m : Machine) : Except Trap Executed := .ok { m, pcAfter := nextPC + 4, nextLoadReg := 0, nextLoadValue := 0 }
  let jump (m : Machine) (pcAfter : BitVec 32) : Except Trap Executed :=
    .ok { m, pcAfter, nextLoadReg := 0, nextLoadValue := 0 }
  let branch (m : Machine) (taken : Bool) : Except Trap Executed :=
    if taken then jump m (nextPC + indexToAddr extra) else done m
  let load (m : Machine) (value : BitVec 32) : Except Trap Executed :=
    .ok { m, pcAfter := nextPC + 4, nextLoadReg := regNumber instr.rt, nextLoadValue := value }
  match instr.opCode with
  | .add =>
    let sum := rs + rt
    if !signBit (rs ^^^ rt) && signBit (rs ^^^ sum) then m.raiseException .overflowException 0
    else done (m.setGpr instr.rd sum)
  | .addi =>
    let sum := rs + extra
    if !signBit (rs ^^^ extra) && signBit (extra ^^^ sum) then m.raiseException .overflowException 0
    else done (m.setGpr instr.rt sum)
  | .addiu => done (m.setGpr instr.rt (rs + extra))
  | .addu => done (m.setGpr instr.rd (rs + rt))
  | .and => done (m.setGpr instr.rd (rs &&& rt))
  | .andi => done (m.setGpr instr.rt (rs &&& (extra &&& 0xffff)))
  | .beq => branch m (rs = rt)
  | .bgezal =>
    let m := m.setGpr 31 (nextPC + 4)
    branch m (!signBit (m.gpr instr.rs))
  | .bgez => branch m (!signBit rs)
  | .bgtz => branch m (BitVec.slt 0 rs)
  | .blez => branch m (rs.sle 0)
  | .bltzal =>
    let m := m.setGpr 31 (nextPC + 4)
    branch m (signBit (m.gpr instr.rs))
  | .bltz => branch m (signBit rs)
  | .bne => branch m (rs ≠ rt)
  | .div =>
    if rt = 0 then done ((m.writeRegister Reg.loReg 0).writeRegister Reg.hiReg 0)
    else if rs = 0x80000000 ∧ rt = 0xffffffff then .error (.fault .badQuotient)
    else done ((m.writeRegister Reg.loReg (rs.sdiv rt)).writeRegister Reg.hiReg (rs.srem rt))
  | .divu =>
    if rt = 0 then done ((m.writeRegister Reg.loReg 0).writeRegister Reg.hiReg 0)
    else done ((m.writeRegister Reg.loReg (rs / rt)).writeRegister Reg.hiReg (rs % rt))
  | .jal => jump (m.setGpr 31 (nextPC + 4)) (((nextPC + 4) &&& 0xf0000000) ||| indexToAddr extra)
  | .j => jump m (((nextPC + 4) &&& 0xf0000000) ||| indexToAddr extra)
  | .jalr =>
    let m := m.setGpr instr.rd (nextPC + 4)
    jump m (m.gpr instr.rs)
  | .jr => jump m rs
  | .lb => do
    let (value, m) ← m.readMem (rs + extra) 1
    load m (if value &&& 0x80 ≠ 0 then value ||| 0xffffff00 else value &&& 0xff)
  | .lbu => do
    let (value, m) ← m.readMem (rs + extra) 1
    load m (value &&& 0xff)
  | .lh =>
    let tmp := rs + extra
    if tmp &&& 1 ≠ 0 then m.raiseException .addressErrorException tmp
    else do
      let (value, m) ← m.readMem tmp 2
      load m (if value &&& 0x8000 ≠ 0 then value ||| 0xffff0000 else value &&& 0xffff)
  | .lhu =>
    let tmp := rs + extra
    if tmp &&& 1 ≠ 0 then m.raiseException .addressErrorException tmp
    else do
      let (value, m) ← m.readMem tmp 2
      load m (value &&& 0xffff)
  | .lui => done (m.setGpr instr.rt (extra <<< 16))
  | .lw =>
    let tmp := rs + extra
    if tmp &&& 3 ≠ 0 then m.raiseException .addressErrorException tmp
    else do
      let (value, m) ← m.readMem tmp 4
      load m value
  | .lwl => do
    let tmp := rs + extra
    let byte := tmp &&& 3
    let (value, m) ← m.readMem (tmp - byte) 4
    load m (lwlValue (m.pendingGpr instr.rt) value (3 - byte.toNat))
  | .lwr => do
    let tmp := rs + extra
    let byte := tmp &&& 3
    let (value, m) ← m.readMem (tmp - byte) 4
    load m (lwrValue (m.pendingGpr instr.rt) value (3 - byte.toNat))
  | .mfhi => done (m.setGpr instr.rd (m.registers Reg.hiReg))
  | .mflo => done (m.setGpr instr.rd (m.registers Reg.loReg))
  | .mthi => done (m.writeRegister Reg.hiReg rs)
  | .mtlo => done (m.writeRegister Reg.loReg rs)
  | .mult =>
    let (hi, lo) := Nachos.mult rs rt true
    done ((m.writeRegister Reg.hiReg hi).writeRegister Reg.loReg lo)
  | .multu =>
    let (hi, lo) := Nachos.mult rs rt false
    done ((m.writeRegister Reg.hiReg hi).writeRegister Reg.loReg lo)
  | .nor => done (m.setGpr instr.rd (~~~(rs ||| rt)))
  | .or => done (m.setGpr instr.rd (rs ||| rt))
  | .ori => done (m.setGpr instr.rt (rs ||| (extra &&& 0xffff)))
  | .sb => do
    let m ← m.writeMem (rs + extra) 1 rt
    done m
  | .sh => do
    let m ← m.writeMem (rs + extra) 2 rt
    done m
  | .sll => done (m.setGpr instr.rd (rt <<< extra.toNat))
  | .sllv => done (m.setGpr instr.rd (rt <<< (rs &&& 0x1f).toNat))
  | .slt => done (m.setGpr instr.rd (if rs.slt rt then 1 else 0))
  | .slti => done (m.setGpr instr.rt (if rs.slt extra then 1 else 0))
  | .sltiu => done (m.setGpr instr.rt (if rs < extra then 1 else 0))
  | .sltu => done (m.setGpr instr.rd (if rs < rt then 1 else 0))
  | .sra => done (m.setGpr instr.rd (rt.sshiftRight extra.toNat))
  | .srav => done (m.setGpr instr.rd (rt.sshiftRight (rs &&& 0x1f).toNat))
  -- `tmp`, which is shifted, is an `int`
  | .srl => done (m.setGpr instr.rd (rt.sshiftRight extra.toNat))
  | .srlv => done (m.setGpr instr.rd (rt.sshiftRight (rs &&& 0x1f).toNat))
  | .sub =>
    let diff := rs - rt
    if signBit (rs ^^^ rt) && signBit (rs ^^^ diff) then m.raiseException .overflowException 0
    else done (m.setGpr instr.rd diff)
  | .subu => done (m.setGpr instr.rd (rs - rt))
  | .sw => do
    let m ← m.writeMem (rs + extra) 4 rt
    done m
  | .swl => do
    let tmp := rs + extra
    let byte := tmp &&& 3
    let (value, m) ← m.readMem (tmp - byte) 4
    let m ← m.writeMem (tmp - byte) 4 (swlValue rt value (3 - byte.toNat))
    done m
  | .swr => do
    let tmp := rs + extra
    let byte := tmp &&& 3
    let (value, m) ← m.readMem (tmp - byte) 4
    let m ← m.writeMem (tmp - byte) 4 (swrValue rt value (3 - byte.toNat))
    done m
  | .syscall => m.raiseException .syscallException 0
  | .xor => done (m.setGpr instr.rd (rs ^^^ rt))
  | .xori => done (m.setGpr instr.rt (rs ^^^ (extra &&& 0xffff)))
  | .res => m.raiseException .illegalInstrException 0
  | .unimp => m.raiseException .illegalInstrException 0
  | .rfe => .error (.fault .assertFailed)

/-- `Machine::OneInstruction`, up to the kernel when an exception is raised. -/
def oneInstruction (m : Machine) : Except Trap Machine := do
  let (raw, m) ← m.readMem (m.registers Reg.pcReg) 4 -- fetch instruction
  let { m, pcAfter, nextLoadReg, nextLoadValue } ← m.execute (decode raw)
  -- Now we have successfully executed the instruction. Do any delayed load operation
  let m ← liftFault (m.delayedLoad nextLoadReg nextLoadValue)
  -- Advance program counters
  let m := m.writeRegister Reg.prevPCReg (m.registers Reg.pcReg)
  let m := m.writeRegister Reg.pcReg (m.registers Reg.nextPCReg)
  return m.writeRegister Reg.nextPCReg pcAfter

end Machine

end Nachos
