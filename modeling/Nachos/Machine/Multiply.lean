import Mathlib.Data.BitVec
import Nachos.Prelude.Words
import Nachos.Machine.Mips

/-!
# Multiplication is exact (Mult of machine/mipssim.cc)

The loop of `Mult` is multiplication by shifting and adding, on the 64-bit numbers in pairs of words; the signs are taken off before
and put back behind it.
-/

namespace Nachos

/-- The double word in `hi` and `lo`. -/
def doubleWord (hi lo : BitVec 32) : BitVec 64 := hi ++ lo

theorem toNat_doubleWord (hi lo : BitVec 32) : (doubleWord hi lo).toNat = 4294967296 * hi.toNat + lo.toNat := by
  unfold doubleWord
  rw [BitVec.toNat_append, ← Nat.shiftLeft_add_eq_or_of_lt lo.isLt, Nat.shiftLeft_eq, Nat.mul_comm]

/-- An addition word by word, with the carry out of the low bits. -/
theorem doubleWord_add (hi lo hi' lo' : BitVec 32) :
    doubleWord ((if lo + lo' < lo' then hi + 1 else hi) + hi') (lo + lo') = doubleWord hi lo + doubleWord hi' lo' := by
  have h1 := hi.isLt
  have h2 := lo.isLt
  have h3 := hi'.isLt
  have h4 := lo'.isLt
  refine BitVec.eq_of_toNat_eq ?_
  rw [BitVec.toNat_add, toNat_doubleWord, toNat_doubleWord, toNat_doubleWord, BitVec.toNat_add, BitVec.toNat_add]
  split <;> rename_i hc <;> rw [BitVec.lt_def, BitVec.toNat_add] at hc <;> simp <;> omega

theorem and_one_ne_zero {a : BitVec 32} : a &&& 1 ≠ 0 ↔ a.toNat % 2 = 1 := by
  rw [ne_eq, ← BitVec.toNat_inj, BitVec.toNat_and]
  simp [Nat.and_one_is_mod]

theorem signBit_eq_msb (x : BitVec 32) : signBit x = x.msb := by
  unfold signBit
  rw [show (0x80000000 : BitVec 32) = BitVec.twoPow 32 31 by decide, BitVec.and_twoPow, BitVec.msb_eq_getLsbD_last]
  cases x.getLsbD 31 <;> decide

/-- A shift word by word, with the bit that goes from one word to the other. -/
theorem doubleWord_double (hi lo : BitVec 32) :
    doubleWord (if lo &&& 0x80000000 ≠ 0 then hi <<< 1 ||| (1 : BitVec 32) else hi <<< 1) (lo <<< 1) = 2 * doubleWord hi lo := by
  have h1 := hi.isLt
  have h2 := lo.isLt
  have hor : hi <<< 1 ||| (1 : BitVec 32) = hi <<< 1 + 1 := by
    refine (BitVec.add_eq_or_of_and_eq_zero _ _ ?_).symm
    refine BitVec.eq_of_getLsbD_eq fun i _ => ?_
    cases i <;> simp [BitVec.getLsbD_one]
  have hbit : lo &&& 0x80000000 ≠ 0 ↔ 2147483648 ≤ lo.toNat := by
    have hs : (lo &&& 0x80000000 ≠ 0) ↔ signBit lo = true := by simp [signBit]
    rw [hs, signBit_eq_msb, BitVec.msb_eq_decide]
    simp
  refine BitVec.eq_of_toNat_eq ?_
  rw [BitVec.toNat_mul, toNat_doubleWord, toNat_doubleWord, hor]
  by_cases h : lo &&& 0x80000000 ≠ 0
  · rw [if_pos h]
    have := hbit.1 h
    simp [Nat.shiftLeft_eq]
    omega
  · rw [if_neg h]
    have := mt hbit.2 h
    simp [Nat.shiftLeft_eq]
    omega


/-- Only the lowest bit is set. -/
theorem eq_one_of_and {a : BitVec 32} (h1 : a &&& 1 ≠ 0) (h0 : a &&& 0xfffffffe = 0) : a = 1 := by
  have ha : a = (a &&& 1) ||| (a &&& 0xfffffffe) := by
    rw [← BitVec.and_or_distrib_left, show (1 : BitVec 32) ||| 0xfffffffe = BitVec.allOnes 32 by decide, BitVec.and_allOnes]
  have hlow : (a &&& 1).toNat = 1 := by
    have h := and_one_ne_zero.1 h1
    rw [BitVec.toNat_and]
    simpa [Nat.and_one_is_mod] using h
  rw [ha, h0]
  exact BitVec.or_zero.trans (BitVec.eq_of_toNat_eq hlow)

/-- Shifting a signed number keeps the bits that are still to come. -/
theorem sshiftRight_bits (a : BitVec 32) {n : Nat} (hn : n ≤ 31) : (a.sshiftRight 1).toNat % 2 ^ n = a.toNat / 2 % 2 ^ n := by
  refine Nat.eq_of_testBit_eq fun i => ?_
  rw [Nat.testBit_mod_two_pow, Nat.testBit_mod_two_pow]
  by_cases hi : i < n
  · rw [BitVec.testBit_toNat, BitVec.getLsbD_sshiftRight, Nat.testBit_div_two, BitVec.testBit_toNat]
    simp [show ¬ 32 ≤ i by omega, show i + 1 < 32 by omega, Nat.add_comm 1 i]
  · simp [hi]

/-! ## The loop -/

namespace MultState

/-- What has been added up. -/
def product (s : MultState) : BitVec 64 := doubleWord s.hi s.lo

/-- The shifted value of `b`. -/
def multiplicand (s : MultState) : BitVec 64 := doubleWord s.bHi s.bLo

/-- The first part of a round. -/
def added (s : MultState) : MultState :=
  if s.a &&& 1 ≠ 0 then { s with lo := s.lo + s.bLo, hi := (if s.lo + s.bLo < s.bLo then s.hi + 1 else s.hi) + s.bHi } else s

/-- The second part of a round. -/
def shifted (s : MultState) : MultState :=
  { s with
    bHi := if s.bLo &&& 0x80000000 ≠ 0 then s.bHi <<< 1 ||| 1 else s.bHi <<< 1
    bLo := s.bLo <<< 1
    a := s.a.sshiftRight 1 }

theorem added_product (s : MultState) : s.added.product = if s.a.toNat % 2 = 1 then s.product + s.multiplicand else s.product := by
  unfold added
  by_cases h : s.a &&& 1 ≠ 0
  · rw [if_pos h, if_pos (and_one_ne_zero.1 h)]
    exact doubleWord_add ..
  · rw [if_neg h, if_neg (mt and_one_ne_zero.2 h)]

@[simp] theorem added_multiplicand (s : MultState) : s.added.multiplicand = s.multiplicand := by
  unfold added
  split <;> rfl

@[simp] theorem added_a (s : MultState) : s.added.a = s.a := by
  unfold added
  split <;> rfl

@[simp] theorem shifted_product (s : MultState) : s.shifted.product = s.product := rfl

@[simp] theorem shifted_multiplicand (s : MultState) : s.shifted.multiplicand = 2 * s.multiplicand := doubleWord_double ..

end MultState

theorem multLoop_succ (n : Nat) (s : MultState) :
    multLoop (n + 1) s = if s.a &&& 1 ≠ 0 ∧ s.a &&& 0xfffffffe = 0 then s.added else multLoop n s.added.shifted := rfl

/-- The loop multiplies by shifting and adding, and stops when the rounds that are left would do nothing. -/
theorem multLoop_eq (n : Nat) (hn : n ≤ 32) (s : MultState) :
    (multLoop n s).product = Words.shiftAdd n s.a.toNat s.multiplicand s.product := by
  induction n generalizing s with
  | zero => rfl
  | succ n ih =>
    rw [multLoop_succ]
    by_cases hlast : s.a &&& 1 ≠ 0 ∧ s.a &&& 0xfffffffe = 0
    · have hone : s.a.toNat = 1 := by rw [eq_one_of_and hlast.1 hlast.2]; rfl
      rw [if_pos hlast, s.added_product, hone, Words.shiftAdd_one]
      rfl
    · rw [if_neg hlast, ih (by omega), Words.shiftAdd, ← s.added_product]
      simp only [MultState.shifted_product, MultState.shifted_multiplicand, MultState.added_multiplicand]
      refine Words.shiftAdd_congr ((sshiftRight_bits _ (by omega)).trans ?_) _ _
      rw [s.added_a]

/-- The loop multiplies unsigned numbers. -/
theorem multLoop_product (a b : BitVec 32) :
    (multLoop 32 { a, bLo := b, bHi := 0, lo := 0, hi := 0 }).product.toNat = a.toNat * b.toNat := by
  have hlt : a.toNat * b.toNat < 18446744073709551616 := Nat.mul_lt_mul'' a.isLt b.isLt
  have hzero : doubleWord 0 0 = 0 := by decide
  have hb : (doubleWord 0 b).toNat = b.toNat := by rw [toNat_doubleWord]; simp
  rw [multLoop_eq 32 (Nat.le_refl _), Words.shiftAdd_eq]
  unfold MultState.product MultState.multiplicand
  rw [hzero, zero_add, Nat.mod_eq_of_lt a.isLt, BitVec.toNat_mul, hb]
  rw [BitVec.natCast_eq_ofNat, BitVec.toNat_ofNat, Nat.mod_eq_of_lt (show a.toNat < 2 ^ 64 by have := a.isLt; omega)]
  exact Nat.mod_eq_of_lt hlt

/-! ## Signs -/

/-- The two's complement of a double word. -/
theorem doubleWord_neg (hi lo : BitVec 32) :
    doubleWord (if ~~~lo + 1 = 0 then ~~~hi + 1 else ~~~hi) (~~~lo + 1) = -doubleWord hi lo := by
  have h1 := hi.isLt
  have h2 := lo.isLt
  have hlo : ~~~lo + 1 = 0 ↔ lo.toNat = 0 := by
    rw [← BitVec.toNat_inj, BitVec.toNat_add, BitVec.toNat_not]
    simp
    omega
  refine BitVec.eq_of_toNat_eq ?_
  rw [BitVec.toNat_neg, toNat_doubleWord, toNat_doubleWord]
  by_cases h : ~~~lo + 1 = 0
  · have h0 := hlo.1 h
    rw [if_pos h]
    simp
    omega
  · have h0 := mt hlo.2 h
    rw [if_neg h]
    simp
    omega

/-- Making an operand positive; the least number is 2147483648 as an unsigned number. -/
theorem toNat_positive (a : BitVec 32) : (if a.slt 0 then -a else a).toNat = a.toInt.natAbs := by
  have h := a.isLt
  by_cases hneg : a.toInt < 0
  · rw [if_pos (by simpa [BitVec.slt] using hneg), BitVec.toNat_neg]
    rw [BitVec.toInt_eq_toNat_cond] at hneg ⊢
    split at hneg <;> omega
  · rw [if_neg (by simpa [BitVec.slt] using hneg)]
    rw [BitVec.toInt_eq_toNat_cond] at hneg ⊢
    split at hneg <;> omega

theorem mult_unsigned (a b : BitVec 32) : (doubleWord (mult a b false).1 (mult a b false).2).toNat = a.toNat * b.toNat := by
  unfold mult
  by_cases h : a = 0 ∨ b = 0
  · rw [if_pos h]
    rcases h with rfl | rfl <;> simp [toNat_doubleWord]
  · rw [if_neg h]
    exact multLoop_product a b

/-- A double word far from the ends of the range, and its complement. -/
theorem toInt_doubleWord {p : BitVec 64} (h : p.toNat ≤ 4611686018427387904) : p.toInt = p.toNat ∧ (-p).toInt = -p.toNat := by
  have hp : p.toInt = p.toNat := BitVec.toInt_eq_toNat_of_lt (by omega)
  refine ⟨hp, ?_⟩
  rw [BitVec.toInt_neg, hp]
  exact Int.bmod_eq_of_le (by omega) (by omega)

theorem mult_signed (a b : BitVec 32) : (doubleWord (mult a b true).1 (mult a b true).2).toInt = a.toInt * b.toInt := by
  unfold mult
  by_cases h : a = 0 ∨ b = 0
  · have hzero : (doubleWord 0#32 0#32).toInt = 0 := by decide
    rw [if_pos h]
    rcases h with rfl | rfl <;> simp [hzero]
  rw [if_neg h]
  simp only [Bool.true_and]
  have hp := multLoop_product (if a.slt 0 then -a else a) (if b.slt 0 then -b else b)
  rw [toNat_positive, toNat_positive, ← Int.natAbs_mul] at hp
  generalize multLoop 32 _ = s at hp ⊢
  have hbound : (a.toInt * b.toInt).natAbs ≤ 4611686018427387904 := by
    have ha := BitVec.toInt_lt (x := a)
    have ha' := BitVec.le_toInt (x := a)
    have hb := BitVec.toInt_lt (x := b)
    have hb' := BitVec.le_toInt (x := b)
    rw [Int.natAbs_mul]
    exact Nat.mul_le_mul (show a.toInt.natAbs ≤ 2147483648 by omega) (show b.toInt.natAbs ≤ 2147483648 by omega)
  obtain ⟨hpos, hneg⟩ := toInt_doubleWord (p := s.product) (by omega)
  rw [hp] at hpos hneg
  have hsign (x : BitVec 32) : x.slt 0 = decide (x.toInt < 0) := by simp [BitVec.slt]
  rw [hsign, hsign]
  by_cases hs : decide (a.toInt < 0) = decide (b.toInt < 0)
  · -- the signs are the same
    have hnn : 0 ≤ a.toInt * b.toInt := by
      rcases lt_or_ge a.toInt 0 with ha | ha
      · exact (mul_pos_of_neg_of_neg ha (by simpa [ha] using hs)).le
      · exact mul_nonneg ha (by simpa [Int.not_lt.2 ha] using hs)
    rw [if_neg (by simp [hs])]
    exact hpos.trans (Int.natAbs_of_nonneg hnn)
  · have hnp : a.toInt * b.toInt ≤ 0 := by
      rcases lt_or_ge a.toInt 0 with ha | ha
      · exact mul_nonpos_of_nonpos_of_nonneg ha.le (by simpa [ha] using hs)
      · exact mul_nonpos_of_nonneg_of_nonpos ha (by simpa [Int.not_lt.2 ha] using hs : b.toInt < 0).le
    rw [if_pos (by simpa using hs)]
    refine (congrArg BitVec.toInt (doubleWord_neg s.hi s.lo)).trans (hneg.trans ?_)
    rw [Int.ofNat_natAbs_of_nonpos hnp, Int.neg_neg]

/-- `Mult` stores the product of signed or of unsigned numbers, for all operands. -/
theorem mult_exact (a b : BitVec 32) :
    (doubleWord (mult a b true).1 (mult a b true).2).toInt = a.toInt * b.toInt ∧
      (doubleWord (mult a b false).1 (mult a b false).2).toNat = a.toNat * b.toNat :=
  ⟨mult_signed a b, mult_unsigned a b⟩

end Nachos
