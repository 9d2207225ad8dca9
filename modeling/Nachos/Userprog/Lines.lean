import Nachos.Prelude.Input
import Nachos.Userprog.Console

/-!
# What the calls for the console read (threads/kernel.cc)

Each of the three loops takes characters up to one that stops it. `ReadNum` knows no other end; `ReadChar` takes at most 10 characters,
`ReadString` one less than its size.
-/

namespace Nachos

open Bytes Loop Input

namespace KernelBuffer

/-- The first `n` bytes of `src` have been stored from `buffer[i]` on. -/
def put (b : KernelBuffer) (i : Nat) (src : Stream' UInt8) (n : Nat) : KernelBuffer :=
  { b with bytes := copy src.get 0 b.bytes i n }

@[simp] theorem put_size (b : KernelBuffer) (i : Nat) (src : Stream' UInt8) (n : Nat) : (b.put i src n).size = b.size := rfl

@[simp] theorem put_zero (b : KernelBuffer) (i : Nat) (src : Stream' UInt8) : b.put i src 0 = b := by
  unfold put
  rw [copy_zero]

theorem put_succ (b : KernelBuffer) (i : Nat) (src : Stream' UInt8) (n : Nat) :
    b.put i src (n + 1) = put { b with bytes := Function.update b.bytes i src.head } (i + 1) src.tail n := by
  unfold put
  rw [copy_succ]
  rfl

theorem put_inside (b : KernelBuffer) (i : Nat) (src : Stream' UInt8) {n j : Nat} (h : j < n) :
    (b.put i src n).bytes (i + j) = src.get j := (copy_inside _ _ _ _ _ h).trans (congrArg src.get (Nat.zero_add j))

theorem put_outside (b : KernelBuffer) (i : Nat) (src : Stream' UInt8) {n j : Nat} (h : j < i ∨ i + n ≤ j) :
    (b.put i src n).bytes j = b.bytes j := copy_outside _ _ _ _ _ h

theorem store_of {b : KernelBuffer} {i : Nat} (h : i < b.size) (c : UInt8) :
    b.store i c = .ok { b with bytes := Function.update b.bytes i c } := if_pos h

theorem store_not {b : KernelBuffer} {i : Nat} (h : b.size ≤ i) (c : UInt8) : b.store i c = .error .outOfBounds :=
  if_neg (by omega)

end KernelBuffer

namespace System

variable {C : FileSystemClass}

/-! ## What is typed -/

/-- What will be typed. -/
def typed (s : System C) : Stream' UInt8 := s.consoleIn

/-- The state after `n` characters have been read. -/
def dropped (s : System C) (n : Nat) : System C := { s with consoleIn := s.typed.drop n }

theorem dropped_dropped (s : System C) (m n : Nat) : (s.dropped m).dropped n = s.dropped (m + n) := by
  unfold dropped typed
  exact congrArg (fun consoleIn => { s with consoleIn }) (Stream'.drop_drop n m s.consoleIn)

theorem getChar_eq (s : System C) : s.getChar = (s.typed.head, s.dropped 1) := rfl

theorem typed_dropped_one (s : System C) : (s.dropped 1).typed = s.typed.tail := rfl

/-! ## The loops -/

/-- What ends a line for `ReadString`: a newline or `EOF`. -/
def endsString (c : UInt8) : Bool := c = newline ∨ c = 255

/-- What ends a line for `ReadChar`: a zero or a newline. -/
def endsChar (c : UInt8) : Bool := c = 0 ∨ c = newline

/-- What ends a line for `ReadNum`. -/
def endsNum (c : UInt8) : Bool := c = newline

/-- What the loop of `ReadString2KeyBoard` does when there is room for all its rounds. -/
theorem readStringLoop_eq (n i : Nat) (buffer : KernelBuffer) (s : System C) (h : i + n ≤ buffer.size) :
    readStringLoop n i buffer s = .ok (i + front endsString n s.typed,
      buffer.put i s.typed (taken endsString n s.typed), s.dropped (taken endsString n s.typed)) := by
  induction n generalizing i buffer s with
  | zero =>
    rw [front_zero, taken_zero, KernelBuffer.put_zero]
    rfl
  | succ n ih =>
    unfold readStringLoop
    rw [getChar_eq, front_succ, taken_succ]
    dsimp only
    rw [KernelBuffer.store_of (by omega), ok_bind]
    by_cases hc : s.typed.head = newline ∨ s.typed.head = 255
    · have hstop : endsString s.typed.head = true := decide_eq_true hc
      rw [if_pos hc, if_pos hstop, if_pos hstop, KernelBuffer.put_succ, KernelBuffer.put_zero]
      rfl
    · have hstop : ¬endsString s.typed.head = true := by simpa [endsString] using hc
      rw [if_neg hc, if_neg hstop, if_neg hstop, ih _ _ _ (by dsimp only; omega), typed_dropped_one, dropped_dropped,
        KernelBuffer.put_succ, Nat.add_assoc, Nat.add_comm 1, Nat.add_comm 1]

/-- What the loop of `EH_ReadChar` does when there is room for all its rounds. -/
theorem readCharLoop_eq (n byte : Nat) (value : KernelBuffer) (s : System C) (h : byte + n ≤ value.size) :
    readCharLoop n byte value s = .ok (byte + taken endsChar n s.typed,
      value.put byte s.typed (taken endsChar n s.typed), s.dropped (taken endsChar n s.typed)) := by
  induction n generalizing byte value s with
  | zero =>
    rw [taken_zero, KernelBuffer.put_zero]
    rfl
  | succ n ih =>
    unfold readCharLoop
    rw [getChar_eq, taken_succ]
    dsimp only
    rw [KernelBuffer.store_of (by omega), ok_bind]
    by_cases hc : s.typed.head = 0 ∨ s.typed.head = newline
    · have hstop : endsChar s.typed.head = true := decide_eq_true hc
      rw [if_pos hc, if_pos hstop, KernelBuffer.put_succ, KernelBuffer.put_zero]
      rfl
    · have hstop : ¬endsChar s.typed.head = true := by simpa [endsChar] using hc
      rw [if_neg hc, if_neg hstop, ih _ _ _ (by dsimp only; omega), typed_dropped_one, dropped_dropped,
        KernelBuffer.put_succ, Nat.add_assoc, Nat.add_comm 1]

/-- What the loop of `EH_ReadNum` does: with no newline among the characters for which there is room, and the one behind them, it stores
behind the end of the buffer. -/
theorem enterLine_eq (n index : Nat) (value : KernelBuffer) (s : System C) (h : index + n = value.size + 1) :
    enterLine n index value s =
      if front endsNum n s.typed < n then
        .ok (value.put index s.typed (front endsNum n s.typed), s.dropped (front endsNum n s.typed + 1))
      else .error .outOfBounds := by
  induction n generalizing index value s with
  | zero => rfl
  | succ n ih =>
    unfold enterLine
    rw [getChar_eq, front_succ]
    dsimp only
    by_cases hc : s.typed.head = newline
    · have hstop : endsNum s.typed.head = true := decide_eq_true hc
      rw [if_pos hc, if_pos hstop, if_pos (Nat.succ_pos n), KernelBuffer.put_zero]
      rfl
    · have hstop : ¬endsNum s.typed.head = true := by simpa [endsNum] using hc
      rw [if_neg hc, if_neg hstop]
      by_cases hindex : index < value.size
      · rw [KernelBuffer.store_of hindex, ok_bind, ih _ _ _ (by dsimp only; omega), typed_dropped_one, dropped_dropped,
          KernelBuffer.put_succ, Nat.add_comm 1]
        exact if_congr (Nat.add_lt_add_iff_right).symm rfl rfl
      · obtain rfl : n = 0 := by omega
        rw [KernelBuffer.store_not (by omega)]
        rfl

/-! ## The calls -/

/-- The part of `EH_ReadNum` that enters the line. -/
def readNumLine (s : System C) (fresh : Fresh) : Except Fault (KernelBuffer × System C) := do
  let value ← KernelBuffer.new 20 (fresh.junk 0)
  enterLine 21 0 value s

theorem readNum_eq (s : System C) (fresh : Fresh) :
    s.readNum fresh = do
      let (value, s) ← s.readNumLine fresh
      match readNumValue (← value.string) with
      | none => return s.writeRegister 2 0
      | some re => return s.writeRegister 2 (intOfDouble re) := rfl

/-- The line is entered when it has at most 20 characters. -/
theorem readNumLine_eq (s : System C) (fresh : Fresh) :
    s.readNumLine fresh =
      if front endsNum 21 s.typed < 21 then
        .ok (KernelBuffer.put ⟨20, fresh.junk 0⟩ 0 s.typed (front endsNum 21 s.typed), s.dropped (front endsNum 21 s.typed + 1))
      else .error .outOfBounds :=
  enterLine_eq 21 0 ⟨20, fresh.junk 0⟩ s rfl

/-- `EH_ReadChar` answers the character if it is the only one in front of the end, and 0 otherwise. -/
theorem readChar_eq (s : System C) (fresh : Fresh) :
    s.readChar fresh = .ok ((s.dropped (taken endsChar 10 s.typed)).writeRegister 2
      (if taken endsChar 10 s.typed = 2 then s.typed.head.toBitVec.signExtend 32 else 0)) := by
  have hpos : 1 ≤ taken endsChar 10 s.typed := Nat.le_min.2 ⟨Nat.le_add_left .., by decide⟩
  have hle : taken endsChar 10 s.typed ≤ 10 := taken_le
  unfold readChar
  change (readCharLoop 10 0 ⟨10, fresh.junk 0⟩ s >>= fun r => _) = _
  rw [readCharLoop_eq 10 0 _ s (Nat.le_refl 10), ok_bind, Nat.zero_add]
  dsimp only
  rw [KernelBuffer.store_of (by rw [KernelBuffer.put_size]; dsimp only; omega), ok_bind]
  by_cases htwo : taken endsChar 10 s.typed = 2
  · rw [if_pos htwo, if_pos (by omega), htwo]
    rfl
  · rw [if_neg htwo, if_neg (by omega)]
    rfl

/-- The line buffer of `ReadString2KeyBoard` behind the loop: the characters in front of the end, and a zero. -/
def stringLine (s : System C) (buffer : KernelBuffer) (n : Nat) : KernelBuffer :=
  { buffer with
    bytes := Function.update (buffer.put 0 s.typed (taken endsString n s.typed)).bytes (front endsString n s.typed) 0 }

/-- `ReadString2KeyBoard` copies the characters in front of the end, without the zero behind them. -/
theorem readString2KeyBoard_eq (s : System C) (toAddr : BitVec 32) {buffer : KernelBuffer} {size : Int} (h0 : 0 < size)
    (hsize : size ≤ buffer.size) :
    s.readString2KeyBoard toAddr buffer size = do
      let (_, machine) ← s.machine.system2User toAddr (front endsString (size - 1).toNat s.typed) (s.stringLine buffer (size - 1).toNat)
      return { s.dropped (taken endsString (size - 1).toNat s.typed) with machine } := by
  have hle : front endsString (size - 1).toNat s.typed ≤ (size - 1).toNat := front_le
  unfold readString2KeyBoard
  rw [if_neg (by omega), readStringLoop_eq _ 0 buffer s (by omega), ok_bind, Nat.zero_add]
  dsimp only
  rw [KernelBuffer.store_of (by rw [KernelBuffer.put_size]; omega), ok_bind]
  rfl

end System

end Nachos
