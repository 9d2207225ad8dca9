import Mathlib.Tactic.Ring

/-!
# Multiplication by shifting and adding, and masks

The method of multiplication, in any commutative semiring, and the bits that a mask lets through, in words of any width. Two masks
make one word of two.
-/

namespace Words

section
variable {R : Type} [CommSemiring R]

/-- In each of `n` rounds the multiplicand `b` is added if the lowest bit of the multiplier `a` is set; then `a` is halved and `b`
doubled. -/
def shiftAdd : Nat → Nat → R → R → R
  | 0, _, _, acc => acc
  | n + 1, a, b, acc => shiftAdd n (a / 2) (2 * b) (if a % 2 = 1 then acc + b else acc)

/-- The rounds multiply by the lowest bits of the multiplier. -/
theorem shiftAdd_eq (n a : Nat) (b acc : R) : shiftAdd n a b acc = acc + ((a % 2 ^ n : Nat) : R) * b := by
  induction n generalizing a b acc with
  | zero => simp [shiftAdd, Nat.mod_one]
  | succ n ih =>
    have hbits : a % 2 ^ (n + 1) = a % 2 + 2 * (a / 2 % 2 ^ n) := by rw [pow_succ', Nat.mod_mul]
    rw [shiftAdd, ih, hbits]
    rcases Nat.mod_two_eq_zero_or_one a with h | h
    · rw [h, if_neg (by decide)]
      push_cast
      ring
    · rw [h, if_pos rfl]
      push_cast
      ring

theorem shiftAdd_congr {n a a' : Nat} (h : a % 2 ^ n = a' % 2 ^ n) (b acc : R) : shiftAdd n a b acc = shiftAdd n a' b acc := by
  rw [shiftAdd_eq, shiftAdd_eq, h]

/-- With one bit left, the rounds after the first do nothing. -/
theorem shiftAdd_one (n : Nat) (b acc : R) : shiftAdd (n + 1) 1 b acc = acc + b := by
  rw [shiftAdd_eq, Nat.mod_eq_of_lt (Nat.one_lt_two_pow (Nat.succ_ne_zero n))]
  simp

end

/-! ## Masks -/

variable {w : Nat}

/-- The word whose lowest `n` bits are set. -/
def lowMask (w n : Nat) : BitVec w := (BitVec.allOnes n).setWidth w

theorem getLsbD_and_lowMask (x : BitVec w) (n i : Nat) : (x &&& lowMask w n).getLsbD i = (x.getLsbD i && decide (i < n)) := by
  by_cases h : i < w
  · simp [lowMask, h]
  · simp [BitVec.getLsbD_of_ge x i (Nat.le_of_not_lt h)]

theorem getLsbD_and_highMask (x : BitVec w) (n i : Nat) : (x &&& ~~~lowMask w n).getLsbD i = (x.getLsbD i && !decide (i < n)) := by
  by_cases h : i < w
  · simp [lowMask, h]
  · simp [BitVec.getLsbD_of_ge x i (Nat.le_of_not_lt h)]

/-- A test of one bit. -/
theorem and_twoPow_ne_zero (x : BitVec w) {i : Nat} (hi : i < w) : x &&& BitVec.twoPow w i ≠ 0 ↔ x.getLsbD i = true := by
  rw [BitVec.and_twoPow]
  by_cases h : x.getLsbD i = true
  · rw [if_pos h]
    refine iff_of_true (fun h0 => ?_) h
    have hb := congrArg (fun y => y.getLsbD i) h0
    simp [hi] at hb
  · rw [if_neg h]
    exact iff_of_false (fun h0 => h0 rfl) h

theorem and_lowMask (x : BitVec w) (n : Nat) : x &&& lowMask w n = (x.setWidth n).setWidth w := by
  refine BitVec.eq_of_getLsbD_eq fun i hi => ?_
  rw [getLsbD_and_lowMask]
  simp [hi, Bool.and_comm]

/-- A field of `n` bits is sign-extended by hand: the other bits are set if its highest bit is. -/
theorem signExtend_by_mask (x : BitVec w) (n : Nat) :
    (if x.getLsbD n then x ||| ~~~lowMask w (n + 1) else x &&& lowMask w (n + 1)) = (x.setWidth (n + 1)).signExtend w := by
  refine BitVec.eq_of_getLsbD_eq fun i hi => ?_
  have hmsb : (x.setWidth (n + 1)).msb = x.getLsbD n := by simp [BitVec.msb_eq_getLsbD_last]
  rw [BitVec.getLsbD_signExtend, hmsb]
  cases hx : x.getLsbD n with
  | true =>
    by_cases h : i < n + 1
    · simp [lowMask, hi, h]
    · simp [lowMask, hi, h]
  | false =>
    rw [if_neg Bool.false_ne_true, getLsbD_and_lowMask]
    by_cases h : i < n + 1
    · simp [hi, h]
    · simp [hi, h]

/-! ## Words made of two words -/

/-- The low part of a word is replaced by the high part of another one. -/
def lowField (x y : BitVec w) (s : Nat) : BitVec w := (x &&& ~~~lowMask w (w - s)) ||| (y.sshiftRight s &&& lowMask w (w - s))

/-- The high part of a word is replaced by the low part of another one. -/
def highField (x y : BitVec w) (s : Nat) : BitVec w := (x &&& lowMask w s) ||| (y <<< s)

theorem getLsbD_lowField (x y : BitVec w) (s : Nat) {i : Nat} (hi : i < w) :
    (lowField x y s).getLsbD i = if i < w - s then y.getLsbD (s + i) else x.getLsbD i := by
  unfold lowField
  rw [BitVec.getLsbD_or, getLsbD_and_highMask, getLsbD_and_lowMask, BitVec.getLsbD_sshiftRight]
  by_cases h : i < w - s
  · simp [h, hi, show s + i < w by omega]
  · simp [h]

theorem getLsbD_highField (x y : BitVec w) (s : Nat) {i : Nat} (hi : i < w) :
    (highField x y s).getLsbD i = if i < s then x.getLsbD i else y.getLsbD (i - s) := by
  unfold highField
  rw [BitVec.getLsbD_or, getLsbD_and_lowMask, BitVec.getLsbD_shiftLeft]
  by_cases h : i < s
  · simp [h]
  · simp [h, hi]

end Words
