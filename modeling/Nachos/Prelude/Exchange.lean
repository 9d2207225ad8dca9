import Mathlib.Data.List.Sort
import Mathlib.Logic.Equiv.Basic

/-!
# Sorting by exchanges of neighbours

Passes over the first `n` places of an array, each of which exchanges two neighbours that are out of order and goes on to the next two.
After each pass one more place at the end is final, so that `n` passes sort.
-/

namespace Exchange

variable {α : Type}

/-- The first `n` places. -/
def prefixOf (n : Nat) (a : Nat → α) : List α := (List.range n).map a

section

variable (r : α → α → Prop) [DecidableRel r]

/-- The places `k` and `k + 1` are exchanged if they are out of order. -/
def exchange (a : Nat → α) (k : Nat) : Nat → α := if r (a k) (a (k + 1)) then a else a ∘ Equiv.swap k (k + 1)

/-- The first `k` exchanges of a pass. -/
def pass (a : Nat → α) : Nat → Nat → α
  | 0 => a
  | k + 1 => exchange r (pass a k) k

/-- Passes over `n` places. -/
def passes (n : Nat) (a : Nat → α) : Nat → Nat → α
  | 0 => a
  | i + 1 => pass r (passes n a i) (n - 1)

end

variable {r : α → α → Prop} {a : Nat → α} {n m k : Nat}

theorem prefixOf_succ (n : Nat) (a : Nat → α) : prefixOf (n + 1) a = prefixOf n a ++ [a n] := by
  unfold prefixOf
  rw [List.range_succ, List.map_append]
  rfl

/-! ## The same elements -/

theorem prefixOf_swap (hk : k + 1 < n) : (prefixOf n (a ∘ Equiv.swap k (k + 1))).Perm (prefixOf n a) := by
  unfold prefixOf
  rw [← List.map_map]
  refine List.Perm.map a ((List.perm_ext_iff_of_nodup (List.nodup_range.map (Equiv.injective _)) List.nodup_range).2 fun x => ?_)
  rw [List.mem_map, List.mem_range]
  constructor
  · rintro ⟨y, hy, rfl⟩
    have hlt := List.mem_range.1 hy
    rw [Equiv.swap_apply_def]
    split_ifs <;> omega
  · intro hx
    refine ⟨Equiv.swap k (k + 1) x, List.mem_range.2 ?_, Equiv.swap_apply_self _ _ x⟩
    rw [Equiv.swap_apply_def]
    split_ifs <;> omega

section

variable [DecidableRel r]

theorem exchange_perm (hk : k + 1 < n) : (prefixOf n (exchange r a k)).Perm (prefixOf n a) := by
  unfold exchange
  split
  · exact List.Perm.refl _
  · exact prefixOf_swap hk

theorem pass_perm (hk : k < n) : (prefixOf n (pass r a k)).Perm (prefixOf n a) := by
  induction k with
  | zero => exact List.Perm.refl _
  | succ k ih => exact (exchange_perm hk).trans (ih (by omega))

theorem passes_perm (i : Nat) : (prefixOf n (passes r n a i)).Perm (prefixOf n a) := by
  induction i with
  | zero => exact List.Perm.refl _
  | succ i ih =>
    cases n with
    | zero => exact List.Perm.refl _
    | succ n => exact (pass_perm (Nat.lt_succ_self n)).trans ih

end

/-! ## The order -/

/-- The places from `m` on are final: what is in them comes behind all that is in front of them. -/
def Final (r : α → α → Prop) (n m : Nat) (a : Nat → α) : Prop := ∀ x y, x < y → y < n → m ≤ y → r (a x) (a y)

theorem Final.pairwise (h : Final r n 0 a) : (prefixOf n a).Pairwise r := by
  unfold prefixOf
  rw [List.pairwise_map]
  exact List.pairwise_lt_range.imp_of_mem fun {x y} _ hy hlt => h x y hlt (List.mem_range.1 hy) (Nat.zero_le y)

/-- Place `k` has the last of the elements up to there. -/
def Last (r : α → α → Prop) (k : Nat) (a : Nat → α) : Prop := ∀ x ≤ k, r (a x) (a k)

/-- What is final stays so when neighbours in front of it are exchanged. -/
theorem Final.swap (h : Final r n m a) (hk : k + 1 < m) : Final r n m (a ∘ Equiv.swap k (k + 1)) := by
  intro x y hxy hy hm
  have hsame : Equiv.swap k (k + 1) y = y := Equiv.swap_apply_of_ne_of_ne (by omega) (by omega)
  rw [Function.comp_apply, Function.comp_apply, hsame]
  refine h _ y ?_ hy hm
  rw [Equiv.swap_apply_def]
  split_ifs <;> omega

variable [DecidableRel r] [Std.Total r] [IsTrans α r]

/-- An exchange takes the last element one place further. -/
theorem Last.exchange (h : Last r k a) : Last r (k + 1) (exchange r a k) := by
  intro x hx
  unfold Exchange.exchange
  split
  · rename_i hr
    obtain hx | rfl := Nat.lt_or_eq_of_le hx
    · exact IsTrans.trans _ _ _ (h x (by omega)) hr
    · exact refl_of r _
  · rename_i hr
    have hback : r (a (k + 1)) (a k) := (Std.Total.total (a k) (a (k + 1))).resolve_left hr
    have hself : r (a k) (a k) := h k (Nat.le_refl k)
    simp only [Function.comp_apply, Equiv.swap_apply_right]
    rw [Equiv.swap_apply_def]
    split_ifs
    · exact hback
    · exact hself
    · exact h x (by omega)

/-- In a pass, when the places behind `m` are final: these stay final, and the last of the others goes to `m`. -/
theorem pass_inv (h : Final r n (m + 1) a) (hk : k < n) : Final r n (m + 1) (pass r a k) ∧ Last r (min k m) (pass r a k) := by
  induction k with
  | zero =>
    refine ⟨h, fun x hx => ?_⟩
    obtain rfl : x = 0 := by omega
    rw [Nat.zero_min]
    exact refl_of r _
  | succ k ih =>
    obtain ⟨hf, hl⟩ := ih (by omega)
    by_cases hkm : k < m
    · rw [Nat.min_eq_left hkm.le] at hl
      rw [Nat.min_eq_left (show k + 1 ≤ m from hkm)]
      refine ⟨?_, hl.exchange⟩
      unfold pass Exchange.exchange
      split
      · exact hf
      · exact hf.swap (by omega)
    · -- behind `m` nothing is out of order
      have hr : r (pass r a k k) (pass r a k (k + 1)) := hf k (k + 1) (Nat.lt_succ_self k) hk (by omega)
      have hsame : pass r a (k + 1) = pass r a k := if_pos hr
      rw [Nat.min_eq_right (by omega)] at hl
      rw [hsame, Nat.min_eq_right (by omega)]
      exact ⟨hf, hl⟩

/-- A pass makes one more place final. -/
theorem pass_final (h : Final r n (m + 1) a) (hm : m < n) : Final r n m (pass r a (n - 1)) := by
  obtain ⟨hf, hl⟩ := pass_inv h (show n - 1 < n by omega)
  rw [Nat.min_eq_right (by omega)] at hl
  intro x y hxy hy hmy
  obtain hlt | rfl := Nat.lt_or_eq_of_le hmy
  · exact hf x y hxy hy hlt
  · exact hl x hxy.le

theorem passes_final {i : Nat} (hi : i ≤ n) : Final r n (n - i) (passes r n a i) := by
  induction i with
  | zero => exact fun x y _ hy hn => absurd hy (by omega)
  | succ i ih =>
    have hnext := ih (by omega)
    rw [show n - i = n - (i + 1) + 1 by omega] at hnext
    exact pass_final hnext (by omega)

/-- After `n` passes the elements are in order. -/
theorem passes_pairwise : (prefixOf n (passes r n a n)).Pairwise r := by
  have h : Final r n (n - n) (passes r n a n) := passes_final (Nat.le_refl n)
  rw [Nat.sub_self] at h
  exact h.pairwise

end Exchange
