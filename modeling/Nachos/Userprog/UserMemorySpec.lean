import Nachos.Prelude.CString
import Nachos.Machine.TranslateSpec
import Nachos.Userprog.UserMemory

/-!
# What the copies between user and kernel memory do

A byte of user memory is found through the translation. `User2System` is `strncpy` from user memory into a buffer of zeros; `System2User`
writes a string with its terminator, or as much of it as there is room for.
-/

namespace Nachos

open Bytes Loop CString

/-- The string in a buffer is what stands in front of the first zero. -/
theorem KernelBuffer.string_eq {b : KernelBuffer} (h : strnlen b.bytes b.size < b.size) :
    b.string = .ok (slice b.bytes 0 (strnlen b.bytes b.size)) := by
  have hlist : (List.range b.size).map b.bytes = slice b.bytes 0 b.size := by simp [slice]
  have hzero : (slice b.bytes 0 b.size).any (fun c => decide (c = 0)) = true := by
    rw [List.any_eq_true]
    refine ⟨b.bytes (strnlen b.bytes b.size), ?_, decide_eq_true (strnlen_end h)⟩
    rw [← hlist]
    exact List.mem_map.2 ⟨_, List.mem_range.2 h, rfl⟩
  unfold string upTo
  rw [hlist, if_pos hzero, takeWhile_slice]

/-- A search for a byte that is in the buffer ends. -/
theorem KernelBuffer.upTo_of {b : KernelBuffer} (stop : UInt8 → Bool) {j : Nat} (hj : j < b.size) (h : stop (b.bytes j) = true) :
    ∃ text, b.upTo stop = .ok text := by
  have hany : ((List.range b.size).map b.bytes).any stop = true :=
    List.any_eq_true.2 ⟨_, List.mem_map.2 ⟨j, List.mem_range.2 hj, rfl⟩, h⟩
  unfold upTo
  rw [if_pos hany]
  exact ⟨_, rfl⟩

/-- A buffer without a zero is no string. -/
theorem KernelBuffer.string_cases (b : KernelBuffer) :
    (∃ j < b.size, b.bytes j = 0) ∧ (∃ text, b.string = .ok text) ∨
      (¬∃ j < b.size, b.bytes j = 0) ∧ b.string = .error .outOfBounds := by
  by_cases h : ∃ j < b.size, b.bytes j = 0
  · obtain ⟨j, hj, hzero⟩ := h
    exact .inl ⟨⟨j, hj, hzero⟩, upTo_of _ hj (decide_eq_true hzero)⟩
  · have hany : ¬((List.range b.size).map b.bytes).any (fun c => decide (c = 0)) = true := by simpa using h
    unfold string upTo
    rw [if_neg hany]
    exact .inr ⟨h, rfl⟩

/-- The string in a buffer of zeros that `strncpy` has filled, with room for a terminator. -/
theorem KernelBuffer.string_of_strncpy {b : KernelBuffer} {src : Buf} {n : Nat} (hsize : b.size = n + 1)
    (hbytes : b.bytes = strncpy (fun _ => 0) src n) : b.string = .ok (slice src 0 (strnlen src n)) := by
  have hle := strnlen_le src n
  have hlength : strnlen b.bytes b.size = strnlen src n := by rw [hbytes, strnlen_strncpy src (by omega)]
  rw [string_eq (by omega), hlength]
  refine congrArg Except.ok (slice_congr ?_)
  intro j hj
  rw [hbytes, strncpy_zeros, Nat.zero_add, if_pos hj]

namespace Machine

/-! ## One byte -/

/-- How a copy ends early: on an exception the machine is halted. The translation itself stops only without a page table and a TLB, or with
both. -/
def CopyFault (m : Machine) (f : Fault) : Prop :=
  (m.registers Reg.loadReg).toNat < 32 → f = .halted ∨ f = .assertFailed ∧ ¬m.OneScheme

/-- With the same registers and the same mapping, a copy ends early in the same way. -/
theorem CopyFault.of_same {m m' : Machine} {f : Fault} (hf : CopyFault m' f) (hregs : m'.registers = m.registers)
    (h : SameMapping m m') : CopyFault m f := by
  intro hl
  rw [← hregs] at hl
  exact (hf hl).imp_right fun ⟨hassert, hnot⟩ => ⟨hassert, fun hs => hnot (h.oneScheme hs)⟩

theorem Touched.copyFault {m m' : Machine} (h : Touched m m') {f : Fault} (hf : CopyFault m' f) : CopyFault m f :=
  hf.of_same h.registers h.toSameMapping

/-- A translation that fails. -/
theorem translate_copyFault {m : Machine} {addr : BitVec 32} {writing : Bool} {f : Fault} (h : m.translate addr 1 writing = .error f) :
    CopyFault m f := by
  refine fun _ => .inr ⟨translate_error h, ?_⟩
  intro hs
  obtain ⟨r, hr⟩ := translate_total hs addr (.inl rfl) writing
  cases hr.symm.trans h

/-- An exception during a copy. -/
theorem kernelAccess_raise_ends {α : Type} {m m' : Machine} (h : Touched m m') (which : ExceptionType) (badVAddr : BitVec 32)
    {Q : α → Prop} : Ends Q (CopyFault m) (kernelAccess (m'.raiseException which badVAddr : Except Trap α)) := by
  refine .mono (Q := Q) (E := CopyFault m') ?_ (fun _ h => h) fun _ hf => h.copyFault hf
  unfold raiseException
  cases hd : (m'.writeRegister Reg.badVAddrReg badVAddr).delayedLoad 0 0 with
  | ok m₁ => exact .error fun _ => .inl rfl
  | error f =>
    refine .error ?_
    intro hl
    rw [delayedLoad_eq (by rw [writeRegister_other _ (by decide)]; exact hl)] at hd
    cases hd

/-- The kernel reads a byte of user memory. -/
theorem kernelRead_ends (m : Machine) (addr : BitVec 32) :
    Ends (fun r : BitVec 32 × Machine =>
        (∃ p, m.physical addr false = some p ∧ r.1 = (m.mainMemory p).toBitVec.signExtend 32) ∧ Touched m r.2)
      (CopyFault m) (kernelAccess (m.readMem addr 1)) := by
  unfold readMem
  cases ht : m.translate addr 1 false with
  | error f => exact .error (translate_copyFault ht)
  | ok r =>
    obtain ⟨e, physAddr, m'⟩ := r
    have htouch := translate_touched ht
    by_cases he : e = .noException
    · subst he
      exact .ok ⟨⟨physAddr, physical_eq_some.2 ⟨m', ht⟩, by rw [htouch.mainMemory]⟩, htouch⟩
    · have := kernelAccess_raise_ends htouch e addr
        (Q := fun r : BitVec 32 × Machine =>
          (∃ p, m.physical addr false = some p ∧ r.1 = (m.mainMemory p).toBitVec.signExtend 32) ∧ Touched m r.2)
      simpa only [liftFault, ok_bind, if_pos he, ne_eq] using this

/-- A byte that is mapped can be read. -/
theorem kernelRead_of {m : Machine} {addr : BitVec 32} (h : (m.physical addr false).isSome) :
    ∃ r, kernelAccess (m.readMem addr 1) = .ok r := by
  obtain ⟨p, hp⟩ := Option.isSome_iff_exists.1 h
  obtain ⟨m', ht⟩ := physical_eq_some.1 hp
  unfold readMem
  rw [ht]
  exact ⟨_, rfl⟩

/-- What a write of a byte at a place of main memory leaves. -/
structure Wrote (m : Machine) (p : Nat) (c : UInt8) (m' : Machine) : Prop extends SameMapping m m' where
  registers : m'.registers = m.registers
  mainMemory : m'.mainMemory = Function.update m.mainMemory p c

theorem store_byte (b : Buf) (off : Nat) (c : UInt8) : store b off 1 (c.toBitVec.signExtend 32) = Function.update b off c := by
  funext j
  unfold store
  by_cases hj : j = off
  · subst hj
    rw [if_pos (by omega), Function.update_self, Nat.sub_self, Nat.mul_zero]
    refine UInt8.toBitVec_inj.1 (BitVec.eq_of_getLsbD_eq ?_)
    intro i hi
    simp only [BitVec.getLsbD_extractLsb', BitVec.getLsbD_signExtend]
    simp [hi]
    omega
  · rw [if_neg (by omega), Function.update_of_ne hj]

/-- The kernel writes a byte of user memory. -/
theorem kernelWrite_ends (m : Machine) (addr : BitVec 32) (c : UInt8) :
    Ends (fun m' => ∃ p, m.physical addr true = some p ∧ Wrote m p c m') (CopyFault m)
      (kernelAccess (m.writeMem addr 1 (c.toBitVec.signExtend 32))) := by
  unfold writeMem
  cases ht : m.translate addr 1 true with
  | error f => exact .error (translate_copyFault ht)
  | ok r =>
    obtain ⟨e, physAddr, m'⟩ := r
    have htouch := translate_touched ht
    by_cases he : e = .noException
    · subst he
      refine .ok ⟨physAddr, physical_eq_some.2 ⟨m', ht⟩, ⟨⟨htouch.pageTableSize, htouch.pageTable, htouch.tlb⟩, htouch.registers, ?_⟩⟩
      dsimp only
      rw [store_byte, htouch.mainMemory]
    · have := kernelAccess_raise_ends htouch e addr (Q := fun m' => ∃ p, m.physical addr true = some p ∧ Wrote m p c m')
      simpa only [liftFault, ok_bind, if_pos he, ne_eq] using this

/-- A byte that is mapped and writable can be written. -/
theorem kernelWrite_of {m : Machine} {addr : BitVec 32} (h : (m.physical addr true).isSome) (value : BitVec 32) :
    ∃ r, kernelAccess (m.writeMem addr 1 value) = .ok r := by
  obtain ⟨p, hp⟩ := Option.isSome_iff_exists.1 h
  obtain ⟨m', ht⟩ := physical_eq_some.1 hp
  unfold writeMem
  rw [ht]
  exact ⟨_, rfl⟩

/-! ## User2System -/

theorem signExtend_eq_zero {c : UInt8} : c.toBitVec.signExtend 32 = 0 ↔ c = 0 := by
  constructor
  · intro h
    refine UInt8.toBitVec_inj.1 (BitVec.eq_of_getLsbD_eq ?_)
    intro i hi
    have hb := congrArg (fun v : BitVec 32 => v.getLsbD i) h
    simpa [BitVec.getElem_signExtend, hi, show i < 32 by omega] using hb
  · rintro rfl
    rfl

theorem ofBitVec_signExtend (c : UInt8) : UInt8.ofBitVec ((c.toBitVec.signExtend 32).setWidth 8) = c := by
  refine UInt8.toBitVec_inj.1 (BitVec.eq_of_getLsbD_eq ?_)
  intro i hi
  simp [BitVec.getElem_signExtend, hi, show i < 32 by omega]

/-- The rounds from `i` on copy the bytes from `i` on, up to the first zero. -/
theorem user2SystemLoop_ends (virtAddr : BitVec 32) (n i : Nat) (kernelBuf : KernelBuffer) (m : Machine)
    (hsize : i + n ≤ kernelBuf.size) :
    Ends (fun r : KernelBuffer × Machine => Touched m r.2 ∧ r.1.size = kernelBuf.size ∧
        ∀ j, r.1.bytes j = if i ≤ j ∧ j < i + n ∧ ∀ l, i ≤ l → l < j → m.userBytes virtAddr l ≠ 0 then m.userBytes virtAddr j
          else kernelBuf.bytes j)
      (CopyFault m) (user2SystemLoop virtAddr n i kernelBuf m) := by
  induction n generalizing i kernelBuf m with
  | zero => exact .ok ⟨.refl _, rfl, fun j => by rw [if_neg (by omega)]⟩
  | succ n ih =>
    unfold user2SystemLoop
    refine (kernelRead_ends m (virtAddr + BitVec.ofNat 32 i)).bind ?_
    rintro ⟨oneChar, m'⟩ ⟨⟨p, hp, hc⟩, htouch⟩
    have hbyte : m.userBytes virtAddr i = m.mainMemory p := by
      unfold userBytes
      rw [hp]
      rfl
    rw [← hbyte] at hc
    dsimp only at hc htouch ⊢
    subst hc
    rw [ofBitVec_signExtend]
    unfold KernelBuffer.store
    rw [if_pos (by omega), ok_bind]
    by_cases hzero : m.userBytes virtAddr i = 0
    · rw [if_pos (signExtend_eq_zero.2 hzero)]
      refine .ok ⟨htouch, rfl, ?_⟩
      intro j
      dsimp only
      by_cases hj : j = i
      · subst hj
        rw [Function.update_self, if_pos ⟨by omega, by omega, fun l _ _ => by omega⟩]
      · rw [Function.update_of_ne hj, if_neg]
        rintro ⟨hij, _, hall⟩
        exact hall i (Nat.le_refl _) (by omega) hzero
    · rw [if_neg fun h => hzero (signExtend_eq_zero.1 h)]
      refine (ih (i + 1) _ m' (by dsimp only; omega)).mono ?_ fun f hf => htouch.copyFault hf
      rintro ⟨kernelBuf', m''⟩ ⟨htouch', hsize', hbytes⟩
      refine ⟨htouch.trans htouch', hsize', fun j => (hbytes j).trans ?_⟩
      rw [htouch.userBytes_eq]
      by_cases hj : j = i
      · subst hj
        rw [if_neg (by omega), if_pos ⟨by omega, by omega, fun l _ _ => by omega⟩]
        exact Function.update_self _ _ _
      · dsimp only
        rw [Function.update_of_ne hj]
        refine if_congr ⟨?_, ?_⟩ rfl rfl
        · rintro ⟨hij, hjn, hall⟩
          refine ⟨by omega, by omega, ?_⟩
          intro l hil hlj
          by_cases hl : l = i
          · exact hl ▸ hzero
          · exact hall l (by omega) hlj
        · rintro ⟨hij, hjn, hall⟩
          exact ⟨by omega, by omega, fun l hil hlj => hall l (by omega) hlj⟩

/-- The rounds from `i` on come to their end when the bytes up to the first zero are mapped. -/
theorem user2SystemLoop_returns (virtAddr : BitVec 32) (n i : Nat) (kernelBuf : KernelBuffer) (m : Machine)
    (hsize : i + n ≤ kernelBuf.size)
    (hmapped : ∀ j, i ≤ j → j < i + n → (∀ l, i ≤ l → l < j → m.userBytes virtAddr l ≠ 0) →
      (m.physical (virtAddr + BitVec.ofNat 32 j) false).isSome) :
    ∃ r, user2SystemLoop virtAddr n i kernelBuf m = .ok r := by
  induction n generalizing i kernelBuf m with
  | zero => exact ⟨_, rfl⟩
  | succ n ih =>
    obtain ⟨⟨oneChar, m'⟩, hr⟩ := kernelRead_of (hmapped i (Nat.le_refl _) (by omega) fun l _ _ => by omega)
    obtain ⟨⟨p, hp, hc⟩, htouch⟩ := (kernelRead_ends m (virtAddr + BitVec.ofNat 32 i)).of_ok hr
    have hbyte : m.userBytes virtAddr i = m.mainMemory p := by
      unfold userBytes
      rw [hp]
      rfl
    dsimp only at hc
    rw [← hbyte] at hc
    unfold user2SystemLoop
    rw [hr, ok_bind]
    dsimp only
    unfold KernelBuffer.store
    rw [if_pos (by omega), ok_bind]
    split
    · exact ⟨_, rfl⟩
    · rename_i hzero
      refine ih (i + 1) _ m' (by dsimp only; omega) ?_
      intro j hij hjn hall
      rw [htouch.physical_eq]
      refine hmapped j (by omega) (by omega) ?_
      intro l hil hlj
      by_cases hl : l = i
      · rw [hl]
        exact fun h => hzero (hc.trans (signExtend_eq_zero.2 h))
      · rw [← htouch.userBytes_eq]
        exact hall l (by omega) hlj

/-- Rounds that come to their end have read the bytes up to the first zero. -/
theorem user2SystemLoop_mapped {virtAddr : BitVec 32} {n i : Nat} {kernelBuf : KernelBuffer} {m : Machine} {r : KernelBuffer × Machine}
    (h : user2SystemLoop virtAddr n i kernelBuf m = .ok r) {j : Nat} (hij : i ≤ j) (hjn : j < i + n)
    (hall : ∀ l, i ≤ l → l < j → m.userBytes virtAddr l ≠ 0) : (m.physical (virtAddr + BitVec.ofNat 32 j) false).isSome := by
  induction n generalizing i kernelBuf m with
  | zero => omega
  | succ n ih =>
    unfold user2SystemLoop at h
    obtain ⟨⟨oneChar, m'⟩, hread, h⟩ := of_bind_ok h
    obtain ⟨⟨p, hp, hc⟩, htouch⟩ := (kernelRead_ends m (virtAddr + BitVec.ofNat 32 i)).of_ok hread
    by_cases hj : j = i
    · rw [hj, hp]
      rfl
    · have hbyte : m.userBytes virtAddr i = m.mainMemory p := by
        unfold userBytes
        rw [hp]
        rfl
      have hne : ¬oneChar = 0 := by
        intro hzero
        refine hall i (Nat.le_refl _) (by omega) (hbyte.trans (signExtend_eq_zero.1 ?_))
        exact hc.symm.trans hzero
      obtain ⟨kernelBuf', -, h⟩ := of_bind_ok h
      rw [if_neg hne] at h
      rw [← htouch.physical_eq]
      refine ih h (by omega) (by omega) ?_
      intro l hil hlj
      rw [htouch.userBytes_eq]
      exact hall l (by omega) hlj

/-- The sizes for which `User2System` cannot allocate its buffer. -/
def BadLimit (limit : BitVec 32) : Prop := limit.toInt < -1 ∨ limit.toInt = 2147483647

instance (limit : BitVec 32) : Decidable (BadLimit limit) := inferInstanceAs (Decidable (_ ∨ _))

theorem toInt_add_one {limit : BitVec 32} (h : limit.toInt ≠ 2147483647) : (limit + 1).toInt = limit.toInt + 1 := by
  have h1 := BitVec.toInt_lt (x := limit)
  have h2 := BitVec.le_toInt (x := limit)
  rw [BitVec.toInt_add, show (1 : BitVec 32).toInt = 1 by decide]
  exact Int.bmod_eq_of_le (by omega) (by omega)

/-- The size of the buffer is negative exactly for these limits. -/
theorem badLimit_iff {limit : BitVec 32} : (limit + 1).toInt < 0 ↔ BadLimit limit := by
  unfold BadLimit
  by_cases h : limit.toInt = 2147483647
  · have hl : limit = 2147483647 := BitVec.toInt_inj.1 (h.trans (by decide))
    subst hl
    decide
  · rw [toInt_add_one h]
    omega

theorem user2System_bad {m : Machine} {virtAddr limit : BitVec 32} {junk : Buf} (h : BadLimit limit) :
    m.user2System virtAddr limit junk = .error .badAlloc := by
  unfold user2System KernelBuffer.new newChars
  rw [if_pos (badLimit_iff.2 h)]
  rfl

theorem user2System_eq {m : Machine} {virtAddr limit : BitVec 32} {junk : Buf} (h : ¬BadLimit limit) :
    m.user2System virtAddr limit junk =
      user2SystemLoop virtAddr limit.toInt.toNat 0 { size := (limit.toInt + 1).toNat, bytes := fun _ => 0 } m := by
  unfold user2System KernelBuffer.new
  rw [newChars_of (by have := mt badLimit_iff.1 h; omega), toInt_add_one fun hl => h (.inr hl)]
  rfl

/-- `User2System` copies a string of at most `limit` bytes into a buffer of zeros. -/
theorem user2System_ends (m : Machine) (virtAddr limit : BitVec 32) (junk : Buf) :
    Ends (fun r : KernelBuffer × Machine => Touched m r.2 ∧ r.1.size = (limit.toInt + 1).toNat ∧
        r.1.bytes = strncpy (fun _ => 0) (m.userBytes virtAddr) limit.toInt.toNat)
      (fun f => BadLimit limit ∨ CopyFault m f) (m.user2System virtAddr limit junk) := by
  by_cases h : BadLimit limit
  · rw [user2System_bad h]
    exact .error (.inl h)
  rw [user2System_eq h]
  refine (user2SystemLoop_ends virtAddr limit.toInt.toNat 0 _ m (by dsimp only; omega)).mono ?_ fun _ h => .inr h
  rintro ⟨kernelBuf, m'⟩ ⟨htouch, hsize, hbytes⟩
  refine ⟨htouch, hsize, funext fun j => (hbytes j).trans ?_⟩
  unfold strncpy padded
  by_cases hj : j < limit.toInt.toNat
  · rw [if_pos hj]
    exact if_congr ⟨fun h l hl => h.2.2 l (Nat.zero_le _) hl, fun h => ⟨Nat.zero_le _, by omega, fun l _ hl => h l hl⟩⟩ rfl rfl
  · rw [if_neg hj, if_neg (by omega)]

/-- A copy of at most `n` bytes from an address on, up to the first zero, finds them mapped. -/
def Readable (m : Machine) (virtAddr : BitVec 32) (n : Nat) : Prop :=
  ∀ j < n, (∀ l < j, m.userBytes virtAddr l ≠ 0) → (m.physical (virtAddr + BitVec.ofNat 32 j) false).isSome

/-- `User2System` returns exactly when the bytes up to the first zero are mapped. -/
theorem user2System_ok_iff {m : Machine} {virtAddr limit : BitVec 32} {junk : Buf} (h : ¬BadLimit limit) :
    (∃ r, m.user2System virtAddr limit junk = .ok r) ↔ m.Readable virtAddr limit.toInt.toNat := by
  rw [user2System_eq h]
  constructor
  · rintro ⟨r, hr⟩ j hj hall
    exact user2SystemLoop_mapped hr (Nat.zero_le _) (by omega) fun l _ hl => hall l hl
  · intro hmapped
    refine user2SystemLoop_returns virtAddr _ 0 _ m (by dsimp only; omega) ?_
    intro j _ hj hall
    exact hmapped j (by omega) fun l hl => hall l (Nat.zero_le _) hl

theorem user2System_returns {m : Machine} {virtAddr limit : BitVec 32} (h : ¬BadLimit limit)
    (hmapped : m.Readable virtAddr limit.toInt.toNat) (junk : Buf) : ∃ r, m.user2System virtAddr limit junk = .ok r :=
  (user2System_ok_iff h).2 hmapped

/-! ## System2User -/

/-- What a copy to user memory has done: `n` bytes from `i` on, up to the first zero, one after the other. -/
structure Copied (m : Machine) (virtAddr : BitVec 32) (src : Buf) (i n : Nat) (m' : Machine) : Prop extends SameMapping m m' where
  registers : m'.registers = m.registers
  elsewhere : ∀ p, (∀ j, i ≤ j → j < i + n → m.physical (virtAddr + BitVec.ofNat 32 j) true ≠ some p) →
    m'.mainMemory p = m.mainMemory p
  there : (∀ j k p, i ≤ j → j < i + n → i ≤ k → k < i + n → m.physical (virtAddr + BitVec.ofNat 32 j) true = some p →
      m.physical (virtAddr + BitVec.ofNat 32 k) true = some p → j = k) →
    ∀ j p, i ≤ j → j < i + n → m.physical (virtAddr + BitVec.ofNat 32 j) true = some p →
      m'.mainMemory p = if ∀ l, i ≤ l → l < j → src l ≠ 0 then src j else m.mainMemory p

/-- The rounds from `i` on. -/
theorem system2UserLoop_ends (virtAddr : BitVec 32) (buffer : KernelBuffer) (n i : Nat) (m : Machine) :
    Ends (fun r : Int × Machine => Copied m virtAddr buffer.bytes i n r.2) (fun f => buffer.size < i + n ∨ CopyFault m f)
      (system2UserLoop virtAddr buffer n i m) := by
  induction n generalizing i m with
  | zero => exact .ok ⟨⟨rfl, rfl, rfl⟩, rfl, fun p _ => rfl, fun _ j p h h' => by omega⟩
  | succ n ih =>
    unfold system2UserLoop KernelBuffer.load
    by_cases hi : i < buffer.size
    case neg =>
      rw [if_neg hi]
      exact .error (.inl (by omega))
    rw [if_pos hi, ok_bind]
    refine ((kernelWrite_ends m (virtAddr + BitVec.ofNat 32 i) (buffer.bytes i)).mono (fun _ h => h) fun _ h => .inr h).bind ?_
    rintro m' ⟨p₀, hp₀, hw⟩
    have hinside (p) (hp : p ≠ p₀) : m'.mainMemory p = m.mainMemory p := by
      rw [hw.mainMemory, Function.update_of_ne hp]
    by_cases hzero : buffer.bytes i = 0
    · rw [if_pos hzero]
      refine .ok ⟨hw.toSameMapping, hw.registers, fun p hp => hinside p ?_, ?_⟩
      · rintro rfl
        exact hp i (Nat.le_refl _) (by omega) hp₀
      · intro hinj j p hij hjn hj
        by_cases hji : j = i
        · subst hji
          obtain rfl : p = p₀ := by simpa [hp₀] using hj.symm
          rw [hw.mainMemory, Function.update_self, if_pos fun l _ _ => by omega]
        · rw [if_neg fun hall => hall i (Nat.le_refl _) (by omega) hzero]
          refine hinside p ?_
          rintro rfl
          exact hji (hinj j i p hij hjn (Nat.le_refl _) (by omega) hj hp₀)
    · rw [if_neg hzero]
      refine (ih (i + 1) m').mono ?_ ?_
      · rintro ⟨count, m''⟩ hc
        have hphysical := hw.toSameMapping.physical_eq
        refine ⟨⟨hc.pageTableSize.trans hw.pageTableSize, hc.pageTable.trans hw.pageTable, hc.tlb.trans hw.tlb⟩,
          hc.registers.trans hw.registers, ?_, ?_⟩
        · intro p hp
          rw [hc.elsewhere p fun j hij hjn => by rw [hphysical]; exact hp j (by omega) (by omega)]
          refine hinside p ?_
          rintro rfl
          exact hp i (Nat.le_refl _) (by omega) hp₀
        · intro hinj j p hij hjn hj
          by_cases hji : j = i
          · subst hji
            obtain rfl : p = p₀ := by simpa [hp₀] using hj.symm
            rw [if_pos fun l _ _ => by omega]
            refine (hc.elsewhere p ?_).trans (by rw [hw.mainMemory, Function.update_self])
            intro k hik hkn hk
            rw [hphysical] at hk
            exact absurd (hinj j k p hij hjn (by omega) (by omega) hj hk) (by omega)
          · have hpp : p ≠ p₀ := by
              rintro rfl
              exact hji (hinj j i p hij hjn (Nat.le_refl _) (by omega) hj hp₀)
            refine (hc.there ?_ j p (by omega) (by omega) (by rw [hphysical]; exact hj)).trans ?_
            · intro j k p hj hjn hk hkn hpj hpk
              rw [hphysical] at hpj hpk
              exact hinj j k p (by omega) (by omega) (by omega) (by omega) hpj hpk
            · rw [hinside p hpp]
              refine if_congr ⟨?_, fun hall l hil hlj => hall l (by omega) hlj⟩ rfl rfl
              intro hall l hil hlj
              by_cases hl : l = i
              · exact hl ▸ hzero
              · exact hall l (by omega) hlj
      · intro f hf
        exact hf.imp (fun h => by omega) fun h => h.of_same hw.registers hw.toSameMapping

/-- The rounds from `i` on come to their end when the bytes are mapped and writable. -/
theorem system2UserLoop_returns (virtAddr : BitVec 32) (buffer : KernelBuffer) (n i : Nat) (m : Machine)
    (hsize : i + n ≤ buffer.size) (hmapped : ∀ j, i ≤ j → j < i + n → (m.physical (virtAddr + BitVec.ofNat 32 j) true).isSome) :
    ∃ r, system2UserLoop virtAddr buffer n i m = .ok r := by
  induction n generalizing i m with
  | zero => exact ⟨_, rfl⟩
  | succ n ih =>
    obtain ⟨m', hr⟩ := kernelWrite_of (hmapped i (Nat.le_refl _) (by omega)) ((buffer.bytes i).toBitVec.signExtend 32)
    obtain ⟨p₀, hp₀, hw⟩ := (kernelWrite_ends m (virtAddr + BitVec.ofNat 32 i) (buffer.bytes i)).of_ok hr
    unfold system2UserLoop KernelBuffer.load
    rw [if_pos (by omega), ok_bind, hr, ok_bind]
    split
    · exact ⟨_, rfl⟩
    · refine ih (i + 1) m' (by omega) ?_
      intro j hij hjn
      rw [hw.toSameMapping.physical_eq]
      exact hmapped j (by omega) (by omega)

/-- `System2User` copies a string, or its first `len` bytes, out of a buffer that is large enough. -/
theorem system2User_ends (m : Machine) (virtAddr : BitVec 32) (len : Int) (buffer : KernelBuffer) :
    Ends (fun r : Int × Machine => Copied m virtAddr buffer.bytes 0 len.toNat r.2) (fun f => buffer.size < len ∨ CopyFault m f)
      (m.system2User virtAddr len buffer) := by
  have hnone : len ≤ 0 → Copied m virtAddr buffer.bytes 0 len.toNat m := fun h =>
    ⟨⟨rfl, rfl, rfl⟩, rfl, fun p _ => rfl, fun _ j p _ h' => by omega⟩
  unfold system2User
  split
  · exact .ok (hnone (by omega))
  · split
    · exact .ok (hnone (by omega))
    · exact (system2UserLoop_ends virtAddr buffer len.toNat 0 m).mono (fun _ h => h) fun f h => h.imp (fun h => by omega) id

/-- The rounds from `i` on count the bytes up to and with the first zero. -/
theorem system2UserLoop_count {virtAddr : BitVec 32} {buffer : KernelBuffer} {n i : Nat} {m : Machine} {r : Int × Machine}
    (h : system2UserLoop virtAddr buffer n i m = .ok r) :
    r.1 = (i + Input.taken (fun c => decide (c = 0)) n ((stream buffer.bytes).drop i) : Nat) := by
  induction n generalizing i m with
  | zero =>
    cases h
    rfl
  | succ n ih =>
    unfold system2UserLoop KernelBuffer.load at h
    by_cases hi : i < buffer.size
    case neg =>
      rw [if_neg hi] at h
      cases h
    rw [if_pos hi, ok_bind] at h
    obtain ⟨m', -, h⟩ := of_bind_ok h
    rw [Input.taken_succ, Stream'.head_drop, get_stream, Stream'.tail_drop']
    by_cases hzero : buffer.bytes i = 0
    · rw [if_pos hzero] at h
      cases h
      rw [if_pos (decide_eq_true hzero)]
    · rw [if_neg hzero] at h
      rw [if_neg (by simpa using hzero), ih h, Nat.add_right_comm, Nat.add_assoc]

/-- `System2User` returns the number of bytes up to and with the first zero, or `len` if there is none. -/
theorem system2User_count {m : Machine} {virtAddr : BitVec 32} {len : Int} {buffer : KernelBuffer} {r : Int × Machine} (hlen : 0 ≤ len)
    (h : m.system2User virtAddr len buffer = .ok r) : r.1 = (min (strnlen buffer.bytes len.toNat + 1) len.toNat : Nat) := by
  unfold system2User at h
  rw [if_neg (by omega)] at h
  split at h
  · rename_i hzero
    cases h
    simp [hzero]
  · rw [system2UserLoop_count h, Nat.zero_add]
    rfl

/-- `System2User` returns when the bytes are mapped and writable. -/
theorem system2User_returns (m : Machine) (virtAddr : BitVec 32) (len : Int) (buffer : KernelBuffer) (hsize : len ≤ buffer.size)
    (hmapped : ∀ j < len.toNat, (m.physical (virtAddr + BitVec.ofNat 32 j) true).isSome) :
    ∃ r, m.system2User virtAddr len buffer = .ok r := by
  unfold system2User
  split
  · exact ⟨_, rfl⟩
  · split
    · exact ⟨_, rfl⟩
    · exact system2UserLoop_returns virtAddr buffer _ 0 m (by omega) fun j _ hj => hmapped j (by omega)

end Machine

end Nachos
