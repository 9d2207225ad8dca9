import Nachos.Userprog.LineSafety
import Nachos.Userprog.RoundTrip

/-!
# The string that ReadString leaves (threads/kernel.cc)

`ReadString2KeyBoard` puts a zero behind the characters in its buffer, and copies to the user as many bytes as there are characters:
what is behind them in user memory stays as it was.
-/

namespace Nachos

open Bytes Loop Input Machine

theorem Machine.userBytes_offset (m : Machine) (virtAddr : BitVec 32) (j : Nat) :
    m.userBytes virtAddr j = m.userBytes (virtAddr + BitVec.ofNat 32 j) 0 := by
  unfold userBytes
  rw [BitVec.add_zero]

namespace System

variable {C : FileSystemClass} {s : System C} {fresh : Fresh} {line : List UInt8} {rest : Stream' UInt8}

/-- The string with this text is at `virAddr`, and no other user memory has changed. -/
structure Leaves (s : System C) (virAddr : BitVec 32) (text : List UInt8) (s' : System C) : Prop where
  there : ∀ j (_ : j < text.length), s'.machine.userBytes virAddr j = text[j]
  terminated : s'.machine.userBytes virAddr text.length = 0
  elsewhere : ∀ addr, (∀ j ≤ text.length, addr ≠ virAddr + BitVec.ofNat 32 j) → s'.machine.userBytes addr 0 = s.machine.userBytes addr 0

/-- The line buffer begins with the characters of the line for which there is room. -/
theorem stringLine_bytes {str : KernelBuffer} {n j : Nat} {chars : List UInt8} (ht : s.typed = chars ++ₛ rest)
    (hfront : front endsString n s.typed = min chars.length n) (hj : j < min chars.length n) :
    (s.stringLine str n).bytes j = chars[j] := by
  have hin : j < taken endsString n s.typed := by
    unfold taken
    omega
  have hput := str.put_inside 0 s.typed hin
  rw [Nat.zero_add] at hput
  unfold stringLine
  dsimp only
  rw [Function.update_of_ne (by omega), hput, ht, Stream'.get_append_left]

/-- `ReadString` with a buffer of `n + 1` bytes in user memory copies at most `n` characters, and changes nothing else. -/
theorem readString_copies {n : Nat} (hlen : (s.readRegister 5).toInt = n + 1) (hone : s.machine.OneToOne)
    (hb : s.machine.Buffer (s.readRegister 4) (n + 1)) (hline : ∀ c ∈ line, c ≠ 0 ∧ c ≠ 255 ∧ c ≠ newline)
    (ht : s.typed = line ++ₛ rest.cons newline) : ∃ s', s.readString fresh = .ok s' ∧
      (∀ j (_ : j < (line.take n).length), s'.machine.userBytes (s.readRegister 4) j = (line.take n)[j]) ∧
      ∀ addr, (∀ j < (line.take n).length, addr ≠ s.readRegister 4 + BitVec.ofNat 32 j) →
        s'.machine.userBytes addr 0 = s.machine.userBytes addr 0 := by
  have hlength : (line.take n).length = min line.length n := by rw [List.length_take, Nat.min_comm]
  have hfront : front endsString n s.typed = (line.take n).length := by
    have hends : ∀ c ∈ line, endsString c = false := by
      intro c hc
      have := hline c hc
      exact decide_eq_false (by tauto)
    rw [ht, front_line hends rfl, hlength]
  -- the old contents of the buffer
  obtain ⟨⟨str, machine⟩, hcopy, htouch, hsize, -⟩ :=
    Buffer.user2System (n := s.readRegister 5) hone (by omega) (by rwa [show (s.readRegister 5).toInt.toNat = n + 1 by omega])
      (fresh.junk 0)
  dsimp only at htouch hsize
  -- the characters, copied back
  have hb' : machine.Buffer (s.readRegister 4) (line.take n).length :=
    htouch.toSameMapping.buffer fun j hj => hb j (by omega)
  have hone' := htouch.toSameMapping.oneToOne hone
  obtain ⟨⟨count, machine'⟩, hback⟩ := machine.system2User_returns (s.readRegister 4) (line.take n).length (s.stringLine str n)
    (by change ((line.take n).length : Int) ≤ str.size; omega) hb'
  have hcopied : Copied machine (s.readRegister 4) (s.stringLine str n).bytes 0 (line.take n).length machine' :=
    (machine.system2User_ends _ _ _).of_ok hback
  have hbytes (j) (hj : j < (line.take n).length) : (s.stringLine str n).bytes j = (line.take n)[j] := by
    rw [stringLine_bytes ht (hfront.trans hlength) (by omega), List.getElem_take]
  have hpred : ((s.readRegister 5).toInt - 1).toNat = n := by omega
  refine ⟨{ s.dropped (taken endsString n s.typed) with machine := machine' }, ?_, ?_, ?_⟩
  · unfold readString
    dsimp only
    rw [hcopy, ok_bind]
    dsimp only
    rw [readString2KeyBoard_eq _ _ (by omega) (by omega), hpred]
    change (machine.system2User (s.readRegister 4) (front endsString n s.typed : Nat) (s.stringLine str n) >>= fun r => _) = _
    rw [hfront, hback]
    rfl
  · intro j hj
    rw [hcopied.userBytes_there hone' hb' hj, if_pos, hbytes j hj]
    intro l hl
    rw [hbytes l (by omega)]
    exact (hline _ (List.mem_of_mem_take (List.getElem_mem _))).1
  · intro addr haddr
    rw [hcopied.userBytes_elsewhere hone' haddr, htouch.userBytes_eq]

/-- The call leaves the byte behind the characters as it was, too. -/
theorem readString_call {n : Nat} (hr : s.readRegister 2 = SyscallCode.readString.number) (hlen : (s.readRegister 5).toInt = n + 1)
    (hone : s.machine.OneToOne) (hb : s.machine.Buffer (s.readRegister 4) (n + 1))
    (hline : ∀ c ∈ line, c ≠ 0 ∧ c ≠ 255 ∧ c ≠ newline) (ht : s.typed = line ++ₛ rest.cons newline) :
    ∃ s', s.exceptionHandler .syscallException fresh = .ok s' ∧
      s'.machine.userBytes (s.readRegister 4) (line.take n).length = s.machine.userBytes (s.readRegister 4) (line.take n).length ∧
      (∀ j (_ : j < (line.take n).length), s'.machine.userBytes (s.readRegister 4) j = (line.take n)[j]) ∧
      ∀ addr, (∀ j < (line.take n).length, addr ≠ s.readRegister 4 + BitVec.ofNat 32 j) →
        s'.machine.userBytes addr 0 = s.machine.userBytes addr 0 := by
  obtain ⟨s₁, hcall, hthere, helsewhere⟩ := readString_copies hlen hone hb hline ht
  have hmem : s₁.increasePC.machine.userBytes = s₁.machine.userBytes := (SameMemory.of_registers s₁.machine _).userBytes_eq
  refine ⟨s₁.increasePC, ?_, ?_, ?_⟩
  · rw [exceptionHandler_of (show SyscallCode.readString ∈ SyscallCode.cases by decide) hr]
    exact congrArg (Except.map increasePC) hcall
  · have hle := hb.le hone
    have hsize : memorySize < 2 ^ 32 := by decide
    have htake : (line.take n).length ≤ n := List.length_take_le n line
    rw [hmem, userBytes_offset, s.machine.userBytes_offset]
    refine helsewhere _ ?_
    intro j hj heq
    have := add_ofNat_inj (by omega) (by omega) heq
    omega
  · rw [hmem]
    exact ⟨hthere, helsewhere⟩

/-- For every buffer of `n + 1` bytes, with every contents, and every line: `ReadString` leaves the first `n` characters of the line
as a string exactly if the byte behind them was zero before. -/
theorem leaves_string_iff {n : Nat} (hr : s.readRegister 2 = SyscallCode.readString.number) (hlen : (s.readRegister 5).toInt = n + 1)
    (hone : s.machine.OneToOne) (hb : s.machine.Buffer (s.readRegister 4) (n + 1))
    (hline : ∀ c ∈ line, c ≠ 0 ∧ c ≠ 255 ∧ c ≠ newline) (ht : s.typed = line ++ₛ rest.cons newline) :
    (∃ s', s.exceptionHandler .syscallException fresh = .ok s' ∧ s.Leaves (s.readRegister 4) (line.take n) s') ↔
      s.machine.userBytes (s.readRegister 4) (line.take n).length = 0 := by
  obtain ⟨s₁, hhandler, hbehind, hthere, helsewhere⟩ := readString_call hr hlen hone hb hline ht
  constructor
  · rintro ⟨s', h, hleaves⟩
    rw [hhandler] at h
    cases h
    rw [← hbehind]
    exact hleaves.terminated
  · intro hzero
    exact ⟨s₁, hhandler, hthere, hbehind.trans hzero, fun addr haddr => helsewhere addr fun j hj => haddr j (by omega)⟩

/-- A program with these bytes in its memory reads a string of at most 3 characters; the user types a letter. -/
def readingString (mainMemory : Buf) : System (stub Name) :=
  { Stub.calling 44 0 4 0 mainMemory with consoleIn := [66] ++ₛ (Stream'.const newline).cons newline }

/-- In a buffer that held other letters the string has no end. -/
theorem not_leaves_string : (calls (stub Name)).Reachable (readingString fun _ => 65).fileSystem ∧
    (readingString fun _ => 65).machine.OneToOne ∧ (readingString fun _ => 65).machine.Buffer 0 (3 + 1) ∧
    ¬∃ s', (readingString fun _ => 65).exceptionHandler .syscallException .zero = .ok s' ∧
      (readingString fun _ => 65).Leaves 0 [66] s' := by
  refine ⟨Stub.reachable_started, oneToOne_ofProgram _ _, buffer_ofProgram _ _ (by decide), ?_⟩
  rintro ⟨s', h, hleaves⟩
  obtain ⟨s₁, hhandler, hbehind, -⟩ := readString_call (s := readingString fun _ => 65) (n := 3) rfl rfl
    (oneToOne_ofProgram _ _) (buffer_ofProgram _ _ (by decide)) (List.forall_mem_singleton.2 (by decide)) rfl
  cases hhandler.symm.trans h
  exact absurd (hleaves.terminated.symm.trans hbehind) (by decide)

/-- In a buffer of zeros it has one. -/
theorem leaves_string_zero : ∃ s', (readingString fun _ => 0).exceptionHandler .syscallException .zero = .ok s' ∧
    (readingString fun _ => 0).Leaves 0 [66] s' :=
  (leaves_string_iff (s := readingString fun _ => 0) (n := 3) rfl rfl (oneToOne_ofProgram _ _) (buffer_ofProgram _ _ (by decide))
    (List.forall_mem_singleton.2 (by decide)) rfl).2 (by decide)

end System

end Nachos
