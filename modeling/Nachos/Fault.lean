import Nachos.Prelude.Bytes

/-!
# How the program stops

Code that can stop the simulator runs in `Except Fault`. The faults are the failing `ASSERT` of debug.h, which calls `Abort`,
the operations whose behaviour C++ leaves undefined (an index outside an array, a negative size given to `new`, a null pointer or
one that was never set followed, a quotient that does not fit), and `Halt`, which ends the simulation from inside the kernel.
-/

namespace Nachos

/-- Why a run ends before its code returns. -/
inductive Fault where
  | assertFailed
  | outOfBounds
  | badAlloc
  | nullDereference
  | wildPointer
  | badQuotient
  | halted
  deriving DecidableEq, Repr

/-- `ASSERT(condition)` (debug.h). -/
def assert (condition : Prop) [Decidable condition] : Except Fault Unit :=
  if condition then .ok () else .error .assertFailed

theorem assert_of {c : Prop} [Decidable c] (h : c) : assert c = .ok () := if_pos h

theorem assert_not {c : Prop} [Decidable c] (h : ¬c) : assert c = .error .assertFailed := if_neg h

/-- An `ASSERT` that went through. -/
theorem of_assert_bind {α : Type} {p : Prop} [Decidable p] {x : Except Fault α} {a : α} (h : (assert p >>= fun _ => x) = .ok a) :
    p ∧ x = .ok a := by
  by_cases hp : p
  · rw [assert_of hp] at h
    exact ⟨hp, h⟩
  · rw [assert_not hp] at h
    cases h

/-- `new char[size]`: a negative size, turned into an unsigned one, cannot be served. The contents of the memory are `junk`. -/
def newChars (size : Int) (junk : Bytes.Buf) : Except Fault Bytes.Buf :=
  if size < 0 then .error .badAlloc else .ok junk

theorem newChars_of {size : Int} (h : 0 ≤ size) (junk : Bytes.Buf) : newChars size junk = .ok junk :=
  if_neg (by omega)

/-! ## utility.h -/

/-- `divRoundDown(n, s)`: C division, which rounds towards zero. -/
def divRoundDown (n s : Int) : Int := n.tdiv s

/-- `divRoundUp(n, s)`. -/
def divRoundUp (n s : Int) : Int := n.tdiv s + if n.tmod s > 0 then 1 else 0

theorem divRoundDown_of_nonneg {n : Int} (h : 0 ≤ n) (s : Int) : divRoundDown n s = n / s := Int.tdiv_eq_ediv_of_nonneg h

/-- The least number of pieces of `s` that hold `n`. -/
theorem divRoundUp_of_nonneg {n s : Int} (h : 0 ≤ n) (hs : 0 < s) : divRoundUp n s = (n + s - 1) / s := by
  unfold divRoundUp
  rw [Int.tdiv_eq_ediv_of_nonneg h, Int.tmod_eq_emod_of_nonneg h]
  have hd := Int.mul_ediv_add_emod n s
  have h0 := Int.emod_nonneg n (show s ≠ 0 by omega)
  have h1 := Int.emod_lt_of_pos n hs
  symm
  rw [Int.ediv_eq_iff_of_pos hs, Int.add_mul, Int.mul_comm (n / s) s]
  split <;> omega

/-- Nothing below zero needs a piece. -/
theorem divRoundUp_nonpos {n s : Int} (h : n ≤ 0) (hs : 0 < s) : divRoundUp n s ≤ 0 := by
  unfold divRoundUp
  have h1 : 0 ≤ (-n).tdiv s := Int.tdiv_nonneg (by omega) (by omega)
  have h2 : 0 ≤ (-n).tmod s := Int.tmod_nonneg s (by omega)
  rw [Int.neg_tdiv] at h1
  rw [Int.neg_tmod] at h2
  rw [if_neg (by omega)]
  omega

end Nachos
