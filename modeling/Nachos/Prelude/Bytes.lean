import Mathlib.Data.Int.Init
import Mathlib.Tactic.NormNum

/-!
# Raw memory and two's complement integers

Memory behind a pointer is a function from offsets to bytes: a C buffer has no length of its own, and the checks that an
access stays inside an allocation are made where the access is made. Integers are read from memory and stored to it in
little-endian order, and arithmetic on a 32-bit `int` is arithmetic on `Int` followed by `int32`.
-/

namespace Bytes

/-- The bytes behind a pointer, by offset. -/
abbrev Buf := Nat → UInt8

/-- `n` bytes of `src` from offset `so` on, copied over `dst` from offset `o` on. -/
def copy (src : Buf) (so : Nat) (dst : Buf) (o n : Nat) : Buf :=
  fun j => if o ≤ j ∧ j < o + n then src (so + (j - o)) else dst j

/-- Inside the copied range the destination holds the source. -/
theorem copy_inside (src dst : Buf) (so o n : Nat) {j : Nat} (h : j < n) :
    copy src so dst o n (o + j) = src (so + j) := by
  simp [copy, h]

/-- The same for a copy to the beginning of the destination. -/
theorem copy_start (src dst : Buf) (so n : Nat) {j : Nat} (h : j < n) : copy src so dst 0 n j = src (so + j) := by
  simp [copy, h]

/-- Outside the copied range the destination is unchanged. -/
theorem copy_outside (src dst : Buf) (so o n : Nat) {j : Nat} (h : j < o ∨ o + n ≤ j) :
    copy src so dst o n j = dst j := by
  unfold copy
  rw [if_neg (by omega)]

@[simp] theorem copy_zero (src dst : Buf) (so o : Nat) : copy src so dst o 0 = dst := by
  funext j
  exact copy_outside src dst so o 0 (by omega)

/-- The first byte of a copy, and the others. -/
theorem copy_succ (src dst : Buf) (o n : Nat) :
    copy src 0 dst o (n + 1) = copy (fun j => src (j + 1)) 0 (Function.update dst o (src 0)) (o + 1) n := by
  funext j
  unfold copy
  by_cases hj : j = o
  · subst hj
    rw [if_pos (by omega), if_neg (by omega), Function.update_self, Nat.sub_self]
  · rw [Function.update_of_ne hj]
    exact ite_congr (propext (by omega)) (fun _ => congrArg src (by omega)) fun _ => rfl

/-- `n` bytes from offset `o` on. -/
def slice (b : Buf) (o n : Nat) : List UInt8 := (List.range n).map fun j => b (o + j)

theorem length_slice (b : Buf) (o n : Nat) : (slice b o n).length = n := by
  unfold slice
  rw [List.length_map, List.length_range]

theorem getElem?_slice (b : Buf) (o : Nat) {n j : Nat} (hj : j < n) : (slice b o n)[j]? = some (b (o + j)) := by
  unfold slice
  rw [List.getElem?_map, List.getElem?_range hj]
  rfl

/-- Slices depend on the bytes in them. -/
theorem slice_congr {b b' : Buf} {o o' n : Nat} (h : ∀ j < n, b (o + j) = b' (o' + j)) : slice b o n = slice b' o' n := by
  refine List.map_congr_left ?_
  intro j hj
  exact h j (List.mem_range.1 hj)

/-! ## Several copies -/

/-- `len` bytes from offset `source` on belong at offset `target`. -/
structure Patch where
  source : Nat
  target : Nat
  len : Nat

/-- An offset is in the target of a patch. -/
def Patch.Covers (p : Patch) (j : Nat) : Prop := p.target ≤ j ∧ j < p.target + p.len

/-- Patches with no offset in common. -/
def Patch.Apart (p q : Patch) : Prop := ∀ j, p.Covers j → ¬q.Covers j

/-- All patches are copied over `dst`, one after another. -/
def patch (src dst : Buf) (ps : List Patch) : Buf := ps.foldl (fun dst p => copy src p.source dst p.target p.len) dst

/-- What no patch covers is unchanged. -/
theorem patch_outside (src : Buf) {ps : List Patch} {j : Nat} (h : ∀ p ∈ ps, ¬p.Covers j) (dst : Buf) : patch src dst ps j = dst j := by
  induction ps generalizing dst with
  | nil => rfl
  | cons p ps ih =>
    have hp := h p (List.mem_cons_self ..)
    unfold Patch.Covers at hp
    exact (ih (fun q hq => h q (List.mem_cons_of_mem _ hq)) _).trans (copy_outside _ _ _ _ _ (by omega))

/-- Where patches are apart, each holds its own bytes. -/
theorem patch_inside (src : Buf) {ps : List Patch} (hapart : ps.Pairwise Patch.Apart) {p : Patch} (hp : p ∈ ps) {j : Nat}
    (hj : j < p.len) (dst : Buf) : patch src dst ps (p.target + j) = src (p.source + j) := by
  induction ps generalizing dst with
  | nil => cases hp
  | cons q ps ih =>
    rcases List.mem_cons.1 hp with rfl | hp
    · have hcovers : p.Covers (p.target + j) := ⟨by omega, by omega⟩
      exact (patch_outside src (fun q hq => (List.pairwise_cons.1 hapart).1 q hq _ hcovers) _).trans (copy_inside _ _ _ _ _ hj)
    · exact ih (List.pairwise_cons.1 hapart).2 hp _

/-! ## 32-bit integers -/

/-- The value a 32-bit `int` holds after a computation whose exact result is `x`. -/
@[irreducible] def int32 (x : Int) : Int := x.bmod (2 ^ 32)

/-- The range of a 32-bit `int`. -/
def InRange (x : Int) : Prop := -2147483648 ≤ x ∧ x ≤ 2147483647

instance (x : Int) : Decidable (InRange x) := inferInstanceAs (Decidable (_ ∧ _))

theorem inRange_toInt (x : BitVec 32) : InRange x.toInt := by
  have hlt := BitVec.toInt_lt (x := x)
  exact ⟨BitVec.le_toInt x, by omega⟩

/-- A result inside the range is exact. -/
theorem int32_of_inRange {x : Int} (h : InRange x) : int32 x = x := by
  unfold InRange at h
  unfold int32
  exact Int.bmod_eq_of_le (by omega) (by omega)

/-- Every result is brought into the range. -/
theorem inRange_int32 (x : Int) : InRange (int32 x) := by
  unfold InRange int32
  have h1 := Int.le_bmod (x := x) (m := 2 ^ 32) (by decide)
  have h2 := Int.bmod_lt (x := x) (m := 2 ^ 32) (by decide)
  omega

/-- The value depends only on the result modulo `2 ^ 32`. -/
theorem int32_emod (x : Int) : int32 (x % 4294967296) = int32 x := by
  unfold int32
  exact Int.emod_bmod x (2 ^ 32)

/-- A result that left the range by less than `2 ^ 32` at the top comes back at the bottom. -/
theorem int32_of_gt {x : Int} (h : 2147483647 < x) (h' : x ≤ 2147483647 + 4294967296) : int32 x = x - 4294967296 := by
  have e : x = (x - 4294967296) + ((2 ^ 32 : Nat) : Int) := by omega
  have h2 : InRange (x - 4294967296) := by unfold InRange; omega
  rw [← int32_of_inRange h2]
  unfold int32
  conv_lhs => rw [e, Int.add_bmod_right]

/-! ## Little-endian words -/

/-- Byte `k` of the two's complement representation of `x`. -/
def byteOf (x : Int) (k : Nat) : UInt8 := UInt8.ofNat (x / 256 ^ k % 256).toNat

/-- The four bytes at `off`, as an unsigned number. -/
def leWord (b : Buf) (off : Nat) : Int :=
  (b off).toNat + 256 * (b (off + 1)).toNat + 65536 * (b (off + 2)).toNat + 16777216 * (b (off + 3)).toNat

/-- The 32-bit `int` stored at `off`. -/
def intAt (b : Buf) (off : Nat) : Int := int32 (leWord b off)

theorem toNat_byteOf (x : Int) (k : Nat) : ((byteOf x k).toNat : Int) = x / 256 ^ k % 256 := by
  unfold byteOf
  have h0 : 0 ≤ x / 256 ^ k % 256 := Int.emod_nonneg _ (by decide)
  have h1 : x / 256 ^ k % 256 < 256 := Int.emod_lt_of_pos _ (by decide)
  rw [UInt8.toNat_ofNat', Nat.mod_eq_of_lt (by omega), Int.toNat_of_nonneg h0]

/-- Reading back the four bytes of `x` gives `x` modulo `2 ^ 32`. -/
theorem leWord_of_bytes {b : Buf} {off : Nat} {x : Int} (h : ∀ k < 4, b (off + k) = byteOf x k) :
    leWord b off = x % 4294967296 := by
  have h0 : b off = byteOf x 0 := h 0 (by decide)
  unfold leWord
  rw [h0, h 1 (by decide), h 2 (by decide), h 3 (by decide)]
  simp only [toNat_byteOf]
  norm_num
  omega

/-- An `int` survives a trip through memory. -/
theorem intAt_of_bytes {b : Buf} {off : Nat} {x : Int} (h : ∀ k < 4, b (off + k) = byteOf x k) (hx : InRange x) :
    intAt b off = x := by
  unfold intAt
  rw [leWord_of_bytes h, int32_emod, int32_of_inRange hx]

theorem inRange_intAt (b : Buf) (off : Nat) : InRange (intAt b off) := inRange_int32 _

/-- Words read from buffers that agree on the four bytes are equal. -/
theorem leWord_congr {b b' : Buf} {off off' : Nat} (h : ∀ k < 4, b (off + k) = b' (off' + k)) :
    leWord b off = leWord b' off' := by
  have h0 : b off = b' off' := h 0 (by decide)
  unfold leWord
  rw [h0, h 1 (by decide), h 2 (by decide), h 3 (by decide)]

theorem intAt_congr {b b' : Buf} {off off' : Nat} (h : ∀ k < 4, b (off + k) = b' (off' + k)) :
    intAt b off = intAt b' off' := by
  unfold intAt
  rw [leWord_congr h]

end Bytes
