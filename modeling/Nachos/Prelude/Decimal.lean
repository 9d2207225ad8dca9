import Mathlib.Data.Nat.Digits.Lemmas
import Nachos.Prelude.Bytes

/-!
# Numbers in base 10

The characters of a number, and the number that characters make when one after the other is appended to what is there.
-/

namespace Decimal

/-- The character of a digit. -/
def digit (d : Nat) : UInt8 := UInt8.ofNat (48 + d)

/-- A character from `0` to `9`. -/
def isDigit (c : UInt8) : Bool := 48 ≤ c ∧ c ≤ 57

/-- The characters of a number. -/
def digits (n : Nat) : List UInt8 := if n = 0 then [48] else (Nat.digits 10 n).reverse.map digit

/-- The number that comes of appending digits to another. -/
def append (v : Int) (ds : List UInt8) : Int := ds.foldl (fun v c => v * 10 + (c.toNat - 48)) v

theorem append_append (v : Int) (ds es : List UInt8) : append v (ds ++ es) = append (append v ds) es := List.foldl_append

theorem append_cons (v : Int) (c : UInt8) (ds : List UInt8) : append v (c :: ds) = append (v * 10 + (c.toNat - 48)) ds := rfl

/-- Digits behind a number. -/
theorem append_eq (v : Int) (ds : List UInt8) : append v ds = v * 10 ^ ds.length + append 0 ds := by
  induction ds generalizing v with
  | nil => simp [append]
  | cons c ds ih =>
    rw [append_cons, append_cons, ih, ih (0 * 10 + (c.toNat - 48)), List.length_cons, Int.pow_succ]
    ring

theorem toNat_of_isDigit {c : UInt8} (h : isDigit c = true) : 48 ≤ c.toNat ∧ c.toNat ≤ 57 := by
  unfold isDigit at h
  rw [decide_eq_true_iff, UInt8.le_iff_toNat_le, UInt8.le_iff_toNat_le] at h
  exact h

/-- Digits make a number that is 0 only if all of them are. -/
theorem append_nonneg {ds : List UInt8} (h : ∀ c ∈ ds, isDigit c = true) :
    0 ≤ append 0 ds ∧ (append 0 ds = 0 ↔ ∀ c ∈ ds, c = 48) := by
  induction ds with
  | nil => simp [append]
  | cons c ds ih =>
    obtain ⟨h0, hiff⟩ := ih fun d hd => h d (List.mem_cons_of_mem _ hd)
    have hc := toNat_of_isDigit (h c (List.mem_cons_self ..))
    have hzero : c = 48 ↔ c.toNat = 48 := ⟨fun h => h ▸ rfl, fun h => UInt8.toNat_inj.1 h⟩
    rw [append_cons, append_eq, List.forall_mem_cons, hzero, ← hiff]
    have hpow : (0 : Int) < 10 ^ ds.length := Int.pow_pos (by decide)
    constructor
    · have : (0 : Int) ≤ (0 * 10 + (c.toNat - 48)) * 10 ^ ds.length := Int.mul_nonneg (by omega) (by omega)
      omega
    · constructor
      · intro hsum
        have hprod : (0 : Int) ≤ (0 * 10 + (c.toNat - 48)) * 10 ^ ds.length := Int.mul_nonneg (by omega) (by omega)
        have hprod0 : (0 * 10 + ((c.toNat : Int) - 48)) * 10 ^ ds.length = 0 := by omega
        rcases Int.mul_eq_zero.1 hprod0 with hcz | hpz
        · omega
        · omega
      · rintro ⟨hcz, hds⟩
        rw [hcz, hds]
        norm_num

theorem toNat_digit {d : Nat} (h : d < 10) : (digit d).toNat = 48 + d := by
  unfold digit
  rw [UInt8.toNat_ofNat']
  omega

theorem isDigit_digit {d : Nat} (h : d < 10) : isDigit (digit d) = true := by
  unfold isDigit
  rw [decide_eq_true_iff, UInt8.le_iff_toNat_le, UInt8.le_iff_toNat_le, toNat_digit h]
  exact ⟨Nat.le_add_right .., by change _ ≤ 57; omega⟩

theorem isDigit_digits (n : Nat) : ∀ c ∈ digits n, isDigit c = true := by
  unfold digits
  intro c hc
  split at hc
  · rw [List.mem_singleton.1 hc]
    decide
  · obtain ⟨d, hd, rfl⟩ := List.mem_map.1 hc
    exact isDigit_digit (Nat.digits_lt_base (by decide) (List.mem_reverse.1 hd))

theorem digits_ne_nil (n : Nat) : digits n ≠ [] := by
  unfold digits
  split
  · exact List.cons_ne_nil _ _
  · rename_i h
    rw [Ne, List.map_eq_nil_iff, List.reverse_eq_nil_iff]
    exact Nat.digits_ne_nil_iff_ne_zero.2 h

/-- The digits of a number make the number. -/
theorem append_digits (n : Nat) : append 0 (digits n) = n := by
  have hrev : ∀ l : List Nat, (∀ d ∈ l, d < 10) → append 0 (l.reverse.map digit) = (Nat.ofDigits 10 l : Nat) := by
    intro l hl
    induction l with
    | nil => rfl
    | cons d l ih =>
      rw [List.reverse_cons, List.map_append, append_append, ih fun e he => hl e (List.mem_cons_of_mem _ he), Nat.ofDigits_cons]
      have hd := toNat_digit (hl d (List.mem_cons_self ..))
      change ((Nat.ofDigits 10 l : Nat) : Int) * 10 + ((digit d).toNat - 48) = _
      rw [hd]
      push_cast
      ring
  unfold digits
  split
  · rename_i h
    rw [h]
    rfl
  · rw [hrev _ fun d hd => Nat.digits_lt_base (by decide) hd, Nat.ofDigits_digits]

/-- A number below `10 ^ k` has at most `k` digits. -/
theorem length_digits_le {n k : Nat} (hk : 0 < k) (h : n < 10 ^ k) : (digits n).length ≤ k := by
  unfold digits
  split
  · exact hk
  · rw [List.length_map, List.length_reverse]
    exact (Nat.digits_length_le_iff (by decide) n).2 h

end Decimal
