import Nachos.Userprog.RoundTrip

/-!
# A string of the kernel in user memory and back

`System2User` goes on to the terminator and writes it, `User2System` stops behind it and has cleared its buffer. The bytes travel in
variables of type `int`, with their sign, and arrive as they were.
-/

namespace Nachos

open Bytes CString

/-- A buffer holds the first `length` bytes of `src`, and zeros behind them up to its end: as a string it is these bytes. -/
structure KernelBuffer.HoldsText (b : KernelBuffer) (src : Buf) (length : Nat) : Prop where
  text : ∀ j < length, b.bytes j = src j
  zeros : ∀ j, length ≤ j → j < b.size → b.bytes j = 0
  string : b.string = .ok (slice src 0 length)

/-- A buffer holds the text also as the beginning of other bytes. -/
theorem KernelBuffer.HoldsText.congr {b : KernelBuffer} {src src' : Buf} {length : Nat} (h : b.HoldsText src length)
    (hsrc : ∀ j < length, src j = src' j) : b.HoldsText src' length := by
  have hslice : slice src 0 length = slice src' 0 length := slice_congr fun j hj => by rw [Nat.zero_add, hsrc j hj]
  refine ⟨?_, h.zeros, hslice ▸ h.string⟩
  intro j hj
  exact (h.text j hj).trans (hsrc j hj)

/-- A buffer of zeros that `strncpy` has filled holds the text, if there is room for a terminator. -/
theorem KernelBuffer.holdsText_of_strncpy {b : KernelBuffer} {src : Buf} {n : Nat} (hsize : b.size = n + 1)
    (hbytes : b.bytes = strncpy (fun _ => 0) src n) : b.HoldsText src (strnlen src n) := by
  refine ⟨?_, ?_, string_of_strncpy hsize hbytes⟩
  · intro j hj
    rw [hbytes, strncpy_zeros, if_pos hj]
  · intro j hj _
    rw [hbytes, strncpy_zeros, if_neg (Nat.not_lt_of_le hj)]

namespace Machine

/-- The first `count` bytes of `src` are at an address, and no other byte of user memory has changed. -/
structure Put (m : Machine) (virtAddr : BitVec 32) (src : Buf) (count : Nat) (m' : Machine) : Prop where
  there : ∀ j < count, m'.userBytes virtAddr j = src j
  elsewhere : ∀ addr, (∀ j < count, addr ≠ virtAddr + BitVec.ofNat 32 j) → m'.userBytes addr 0 = m.userBytes addr 0

variable {m m' : Machine} {virtAddr : BitVec 32} {src : Buf} {n : Nat}

/-- The bytes that a copy has written: those up to and with the first zero. -/
theorem Copied.put (h : Copied m virtAddr src 0 n m') (hone : m.OneToOne) (hb : m.Buffer virtAddr n) :
    Put m virtAddr src (min (strnlen src n + 1) n) m' := by
  refine ⟨?_, ?_⟩
  · intro j hj
    rw [h.userBytes_there hone hb (by omega), if_pos ((forall_ne_zero_iff (n := n) (by omega)).2 (by omega))]
  · intro addr haddr
    by_cases hin : ∃ j < n, addr = virtAddr + BitVec.ofNat 32 j
    · -- in the range, but behind the first zero
      obtain ⟨j, hj, rfl⟩ := hin
      have hbehind : ¬j ≤ strnlen src n := fun hle => haddr j (by omega) rfl
      have hbyte (m : Machine) : m.userBytes (virtAddr + BitVec.ofNat 32 j) 0 = m.userBytes virtAddr j := by
        unfold userBytes
        rw [BitVec.add_zero]
      rw [hbyte, hbyte, h.userBytes_there hone hb hj, if_neg (mt (forall_ne_zero_iff hj).1 hbehind)]
    · exact h.userBytes_elsewhere hone fun j hj he => hin ⟨j, hj, he⟩

/-- The text in user memory is as long as the one that was put there. -/
theorem Put.strnlen_eq (h : Put m virtAddr src (min (strnlen src n + 1) n) m') : strnlen (m'.userBytes virtAddr) n = strnlen src n :=
  strnlen_congr fun j hj hle => h.there j (by omega)

/-- The bytes in the pages of a program can be written. -/
theorem Identity.buffer (h : m.Identity) (hmapped : ∀ j < n, m.Mapped (virtAddr + BitVec.ofNat 32 j)) : m.Buffer virtAddr n := by
  intro j hj
  rw [h.physical_of (hmapped j hj)]
  rfl

/-- `System2User` writes the bytes of a buffer up to and with the first zero, or all of them, and no others, and returns their number;
`User2System` then gets the text, and zeros behind it. -/
theorem system2User_user2System (h : m.Identity) {len : BitVec 32} (hlen : 1 ≤ len.toInt)
    (hmapped : ∀ j < len.toInt.toNat, m.Mapped (virtAddr + BitVec.ofNat 32 j)) (buffer : KernelBuffer)
    (hsize : len.toInt ≤ buffer.size) (junk : Buf) :
    ∃ count m' kernelBuf m'', m.system2User virtAddr len.toInt buffer = .ok ((count : Nat), m') ∧
      count = min (strnlen buffer.bytes len.toInt.toNat + 1) len.toInt.toNat ∧ Put m virtAddr buffer.bytes count m' ∧
      m'.user2System virtAddr len junk = .ok (kernelBuf, m'') ∧ kernelBuf.size = len.toInt + 1 ∧
      kernelBuf.HoldsText buffer.bytes (strnlen buffer.bytes len.toInt.toNat) := by
  have hb := h.buffer hmapped
  obtain ⟨⟨count, m'⟩, hcopy⟩ := system2User_returns m virtAddr len.toInt buffer hsize hb
  have hcopied : Copied m virtAddr buffer.bytes 0 len.toInt.toNat m' := (system2User_ends m virtAddr len.toInt buffer).of_ok hcopy
  have hput := hcopied.put h.oneToOne hb
  obtain rfl : count = _ := system2User_count (by omega) hcopy
  obtain ⟨⟨kernelBuf, m''⟩, hback, -, hroom, hbytes⟩ :=
    (hcopied.toSameMapping.buffer hb).user2System (hcopied.toSameMapping.oneToOne h.oneToOne) hlen junk
  have hroom : kernelBuf.size = len.toInt.toNat + 1 := hroom.trans (by omega)
  have htext : kernelBuf.HoldsText (m'.userBytes virtAddr) (strnlen (m'.userBytes virtAddr) len.toInt.toNat) :=
    KernelBuffer.holdsText_of_strncpy hroom hbytes
  have hle := strnlen_le buffer.bytes len.toInt.toNat
  rw [hput.strnlen_eq] at htext
  refine ⟨_, m', kernelBuf, m'', hcopy, rfl, hput, hback, by omega, htext.congr ?_⟩
  intro j hj
  exact hput.there j (by omega)

/-- A program in whose memory every byte is 255. -/
def full : Machine := ofProgram (fun _ => 0) fun _ => 255

/-- Two characters, the first of them negative as a `char`, and a byte behind the terminator. -/
def shortText : KernelBuffer := ⟨4, fun j => [128, 65, 0, 7].getD j 0⟩

/-- The text crosses the border of a page. -/
theorem system2User_user2System_full :
    ∃ m' kernelBuf m'', full.system2User 126 4 shortText = .ok (3, m') ∧ m'.userBytes 126 0 = 128 ∧ m'.userBytes 126 2 = 0 ∧
      m'.userBytes 129 0 = 255 ∧ m'.user2System 126 4 (fun _ => 1) = .ok (kernelBuf, m'') ∧ kernelBuf.size = 5 ∧
      kernelBuf.string = .ok [128, 65] := by
  have hlen : 1 ≤ (4 : BitVec 32).toInt := by decide
  have hmapped : ∀ j < (4 : BitVec 32).toInt.toNat, full.Mapped (126 + BitVec.ofNat 32 j) := by decide
  obtain ⟨_, m', kernelBuf, m'', hcopy, rfl, hput, hback, hroom, htext⟩ :=
    system2User_user2System (identity_ofProgram _ _) hlen hmapped shortText (by decide) fun _ => 1
  have hbehind : full.userBytes 129 0 = 255 := ofProgram_userBytes _ _ (show 129 + 0 < memorySize by decide)
  exact ⟨m', kernelBuf, m'', hcopy, hput.there 0 (by decide), hput.there 2 (by decide),
    (hput.elsewhere 129 (by decide)).trans hbehind, hback, Int.ofNat_inj.1 hroom, htext.string⟩

end Machine

end Nachos
