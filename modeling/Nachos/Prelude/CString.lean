import Nachos.Prelude.Input

/-!
# C strings

`strncmp`, `strncpy` and `strnlen` of the C library, on memory given as a function. The first two see a string through `padded`: its
bytes up to the first zero, and zeros from there on.
-/

namespace CString

open Bytes

/-- Byte `i` of a string that is continued with zeros. -/
def padded (s : Buf) (i : Nat) : UInt8 := if ∀ j < i, s j ≠ 0 then s i else 0

/-- The comparison of at most `n` bytes from offset `i` on. -/
def strncmpFrom (s t : Buf) (i : Nat) : Nat → Int
  | 0 => 0
  | n + 1 => if s i ≠ t i then (s i).toNat - (t i).toNat else if s i = 0 then 0 else strncmpFrom s t (i + 1) n

/-- `strncmp(s, t, n)`. -/
def strncmp (s t : Buf) (n : Nat) : Int := strncmpFrom s t 0 n

/-- `strncpy(dst, src, n)`: the memory behind `dst` afterwards. -/
def strncpy (dst src : Buf) (n : Nat) : Buf := fun i => if i < n then padded src i else dst i

/-- The bytes of memory, one after the other. -/
def stream (s : Buf) : Stream' UInt8 := s

@[simp] theorem get_stream (s : Buf) (i : Nat) : (stream s).get i = s i := rfl

/-- `strnlen(s, n)`: how many of the first `n` bytes stand in front of the first zero. -/
def strnlen (s : Buf) (n : Nat) : Nat := Input.front (fun c => decide (c = 0)) n (stream s)

@[simp] theorem padded_zero (s : Buf) : padded s 0 = s 0 := by simp [padded]

/-- A string ends where its padding starts. -/
theorem forall_padded_ne_zero {s : Buf} {n : Nat} : (∀ j < n, padded s j ≠ 0) ↔ ∀ j < n, s j ≠ 0 := by
  constructor
  · intro h j hj hzero
    refine h j hj ?_
    unfold padded
    split
    · exact hzero
    · rfl
  · intro h j hj
    unfold padded
    rw [if_pos fun l hl => h l (by omega)]
    exact h j hj

/-- A string agrees with its padding. -/
theorem padded_of_ne_zero {s : Buf} {i : Nat} (h : ∀ j < i, s j ≠ 0) : padded s i = s i := if_pos h

/-- The padding of a string depends on the bytes up to there. -/
theorem padded_congr {s t : Buf} {i : Nat} (h : ∀ j ≤ i, s j = t j) : padded s i = padded t i := by
  have hiff : (∀ j < i, s j ≠ 0) ↔ ∀ j < i, t j ≠ 0 :=
    forall₂_congr fun j hj => by rw [h j (by omega)]
  unfold padded
  rw [h i (le_refl i)]
  by_cases hne : ∀ j < i, t j ≠ 0
  · rw [if_pos hne, if_pos (hiff.2 hne)]
  · rw [if_neg hne, if_neg fun h' => hne (hiff.1 h')]

/-- Padding a padded string changes nothing. -/
theorem padded_padded (s : Buf) (i : Nat) : padded (padded s) i = padded s i := by
  by_cases hne : ∀ j < i, s j ≠ 0
  · rw [padded_of_ne_zero (forall_padded_ne_zero.2 hne)]
  · have hs : padded s i = 0 := if_neg hne
    have hss : padded (padded s) i = 0 := if_neg fun h => hne (forall_padded_ne_zero.1 h)
    rw [hs, hss]

/-- The two strings have the same first `n` characters. -/
def Same (n : Nat) (s t : Buf) : Prop := ∀ j < n, padded s j = padded t j

instance (n : Nat) (s t : Buf) : Decidable (Same n s t) := inferInstanceAs (Decidable (∀ j < n, padded s j = padded t j))

theorem Same.symm {n : Nat} {s t : Buf} (h : Same n s t) : Same n t s := fun j hj => (h j hj).symm

theorem Same.trans {n : Nat} {s t u : Buf} (h : Same n s t) (h' : Same n t u) : Same n s u :=
  fun j hj => (h j hj).trans (h' j hj)

/-- `strncmp` gives 0 exactly for strings that have the same first `n` characters. -/
theorem strncmp_eq_zero_iff {s t : Buf} {n : Nat} : strncmp s t n = 0 ↔ Same n s t := by
  have hfrom : ∀ k i, (∀ j < i, s j = t j ∧ s j ≠ 0) →
      (strncmpFrom s t i k = 0 ↔ ∀ j < i + k, padded s j = padded t j) := by
    intro k
    induction k with
    | zero =>
      intro i hbefore
      refine iff_of_true rfl ?_
      intro j hj
      exact padded_congr fun l hl => (hbefore l (by omega)).1
    | succ k ih =>
      intro i hbefore
      have hs : padded s i = s i := padded_of_ne_zero fun j hj => (hbefore j hj).2
      have ht : padded t i = t i := padded_of_ne_zero fun j hj => (hbefore j hj).1 ▸ (hbefore j hj).2
      unfold strncmpFrom
      by_cases hne : s i ≠ t i
      · rw [if_pos hne]
        refine iff_of_false ?_ ?_
        · intro e
          exact hne (UInt8.toNat_inj.1 (by omega))
        · intro h
          exact hne (hs ▸ ht ▸ h i (by omega))
      · rw [not_not] at hne
        rw [if_neg (not_not_intro hne)]
        by_cases hzero : s i = 0
        · -- both strings end here
          rw [if_pos hzero]
          refine iff_of_true rfl ?_
          intro j hj
          rcases Nat.lt_or_ge i j with hij | hij
          · have hend (u : Buf) (hu : u i = 0) : padded u j = 0 := if_neg fun h => h i hij hu
            rw [hend s hzero, hend t (hne ▸ hzero)]
          · refine padded_congr ?_
            intro l hl
            rcases Nat.lt_or_eq_of_le (hl.trans hij) with hlt | rfl
            · exact (hbefore l hlt).1
            · exact hne
        · rw [if_neg hzero, show i + (k + 1) = i + 1 + k by omega]
          refine ih (i + 1) ?_
          intro j hj
          rcases Nat.lt_succ_iff_lt_or_eq.1 hj with hlt | rfl
          · exact hbefore j hlt
          · exact ⟨hne, hzero⟩
  unfold strncmp Same
  rw [hfrom n 0 (by omega), Nat.zero_add]

/-- A string that was copied compares as equal. -/
theorem strncmp_of_padded {s t : Buf} {n : Nat} (h : ∀ j < n, s j = padded t j) : strncmp s t n = 0 := by
  refine strncmp_eq_zero_iff.2 ?_
  intro j hj
  rw [padded_congr fun l hl => h l (by omega), padded_padded]

/-- Strings that differ in their first byte are different. -/
theorem strncmp_ne_zero {s t : Buf} (h : s 0 ≠ t 0) (n : Nat) : strncmp s t (n + 1) ≠ 0 := by
  intro e
  refine h ?_
  simpa using strncmp_eq_zero_iff.1 e 0 (by omega)

/-! ## The length of a string -/

theorem strnlen_le (s : Buf) (n : Nat) : strnlen s n ≤ n := Input.front_le

theorem ne_zero_of_lt_strnlen {s : Buf} {n j : Nat} (h : j < strnlen s n) : s j ≠ 0 := by
  have hstop := Input.not_stop_of_lt_front h
  exact of_decide_eq_false hstop

theorem strnlen_end {s : Buf} {n : Nat} (h : strnlen s n < n) : s (strnlen s n) = 0 := by
  have hstop := Input.stop_front h
  exact of_decide_eq_true hstop

/-- Nothing in front of a byte is zero exactly if it is not behind the first zero. -/
theorem forall_ne_zero_iff {s : Buf} {n j : Nat} (hj : j < n) : (∀ l < j, s l ≠ 0) ↔ j ≤ strnlen s n := by
  constructor
  · intro h
    by_contra hlt
    exact h (strnlen s n) (by omega) (strnlen_end (by omega))
  · intro h l hl
    exact ne_zero_of_lt_strnlen (show l < strnlen s n by omega)

/-- The length is where the first zero is. -/
theorem strnlen_eq {s : Buf} {n k : Nat} (hk : k < n) (h : ∀ j < k, s j ≠ 0) (hzero : s k = 0) : strnlen s n = k :=
  Nat.le_antisymm (Nat.le_of_not_lt fun hlt => ne_zero_of_lt_strnlen hlt hzero) ((forall_ne_zero_iff hk).1 h)

theorem strnlen_of_ne_zero {s : Buf} {n : Nat} (h : ∀ j < n, s j ≠ 0) : strnlen s n = n := by
  refine Nat.le_antisymm (strnlen_le s n) (Nat.le_of_not_lt ?_)
  intro hlt
  exact h _ hlt (strnlen_end hlt)

/-- The padding begins behind the length. -/
theorem padded_eq {s : Buf} {n j : Nat} (hj : j < n) : padded s j = if j < strnlen s n then s j else 0 := by
  unfold padded
  rw [if_congr (forall_ne_zero_iff hj) rfl rfl]
  rcases Nat.lt_trichotomy j (strnlen s n) with hlt | heq | hlt
  · rw [if_pos hlt.le, if_pos hlt]
  · have hzero : s j = 0 := by
      rw [heq]
      exact strnlen_end (by omega)
    rw [hzero, ite_self, ite_self]
  · rw [if_neg (by omega), if_neg (by omega)]

/-- Strings that agree up to the first zero of one have the same length. -/
theorem strnlen_congr {s t : Buf} {n : Nat} (h : ∀ j < n, j ≤ strnlen t n → s j = t j) : strnlen s n = strnlen t n := by
  have hs := strnlen_le s n
  have ht := strnlen_le t n
  rcases Nat.lt_trichotomy (strnlen s n) (strnlen t n) with hlt | heq | hlt
  · have hzero := strnlen_end (s := s) (n := n) (by omega)
    rw [h _ (by omega) hlt.le] at hzero
    exact absurd hzero (ne_zero_of_lt_strnlen hlt)
  · exact heq
  · have hzero := strnlen_end (s := t) (n := n) (by omega)
    rw [← h _ (by omega) (Nat.le_refl _)] at hzero
    exact absurd hzero (ne_zero_of_lt_strnlen hlt)

/-- A copy into zeros is the string, and zeros behind it. -/
theorem strncpy_zeros (s : Buf) (n j : Nat) : strncpy (fun _ => 0) s n j = if j < strnlen s n then s j else 0 := by
  have hle := strnlen_le s n
  unfold strncpy
  by_cases hj : j < n
  · rw [if_pos hj, padded_eq hj]
  · rw [if_neg hj, if_neg (by omega)]

/-- A copy into zeros is as long as the string, or as the part of it that was copied. -/
theorem strnlen_strncpy (s : Buf) {n k : Nat} (hk : n < k) : strnlen (strncpy (fun _ => 0) s n) k = strnlen s n := by
  have hle := strnlen_le s n
  refine strnlen_eq (by omega) ?_ ?_
  · intro j hj
    rw [strncpy_zeros, if_pos hj]
    exact ne_zero_of_lt_strnlen hj
  · rw [strncpy_zeros, if_neg (Nat.lt_irrefl _)]

/-- The bytes in front of the first zero. -/
theorem takeWhile_slice (s : Buf) (n : Nat) : ((slice s 0 n).takeWhile fun c => !decide (c = 0)) = slice s 0 (strnlen s n) := by
  have htake (k : Nat) : slice s 0 k = (stream s).take k := by
    refine List.ext_getElem (by simp [length_slice]) ?_
    intro i h₁ h₂
    simp [slice]
  rw [htake, htake]
  exact Input.takeWhile_take _ n (stream s)

end CString
