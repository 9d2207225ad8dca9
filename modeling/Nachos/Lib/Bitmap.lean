import Mathlib.Data.List.Nodup
import Mathlib.Data.List.Range
import Nachos.Fault
import Nachos.Prelude.Loop

/-!
# Bitmaps (lib/bitmap.cc)

An array of `numBits` bits stored in 32-bit words. The words are kept in a vector of `numWords` words, so that a bitmap of
the wrong size cannot be built. `bit` is the bit itself; every operation is described by what it does to `bit`.
-/

namespace Nachos

/-- `numWords` of a bitmap: `divRoundUp(numBits, BitsInWord)`. -/
def Bitmap.numWords (numBits : Nat) : Nat := (numBits + 31) / 32

/-- A bitmap of `numBits` bits. -/
structure Bitmap (numBits : Nat) where
  map : Vector (BitVec 32) (Bitmap.numWords numBits)

namespace Bitmap

open Loop

variable {n : Nat}

theorem word_lt {i : Nat} (h : i < n) : i / 32 < numWords n := by
  unfold numWords
  omega

/-- A bitmap whose words are all 0. -/
def zero (n : Nat) : Bitmap n := { map := Vector.replicate (numWords n) 0 }

/-- Bit `i`: `map[i / BitsInWord] & (1 << (i % BitsInWord))` is not zero. -/
def bit (b : Bitmap n) (i : Nat) : Bool := (b.map.toArray.getD (i / 32) 0 &&& 1#32 <<< (i % 32)) != 0

/-- `Bitmap::Test`. -/
def test (b : Bitmap n) (which : Int) : Except Fault Bool := do
  assert (0 ≤ which ∧ which < n)
  return b.bit which.toNat

/-- The word that bit `i` lies in. -/
def wordOf (b : Bitmap n) (i : Nat) (h : i < n) : BitVec 32 := b.map.get ⟨i / 32, word_lt h⟩

/-- `map[i / BitsInWord] |= 1 << (i % BitsInWord)`. -/
def set (b : Bitmap n) (i : Nat) (h : i < n) : Bitmap n :=
  { map := b.map.set (i / 32) (b.wordOf i h ||| 1#32 <<< (i % 32)) (word_lt h) }

/-- `map[i / BitsInWord] &= ~(1 << (i % BitsInWord))`. -/
def reset (b : Bitmap n) (i : Nat) (h : i < n) : Bitmap n :=
  { map := b.map.set (i / 32) (b.wordOf i h &&& ~~~(1#32 <<< (i % 32))) (word_lt h) }

/-- `Bitmap::Mark`. -/
def mark (b : Bitmap n) (which : Int) : Except Fault (Bitmap n) :=
  if h : 0 ≤ which ∧ which < n then do
    let b := b.set which.toNat (by omega)
    assert ((← b.test which) = true)
    return b
  else .error .assertFailed

/-- `Bitmap::Clear`. -/
def clear (b : Bitmap n) (which : Int) : Except Fault (Bitmap n) :=
  if h : 0 ≤ which ∧ which < n then do
    let b := b.reset which.toNat (by omega)
    assert ((← b.test which) = false)
    return b
  else .error .assertFailed

/-- `Bitmap(numItems)`: the words are set to 0, and then every bit is cleared. -/
def new (n : Nat) : Except Fault (Bitmap n) := do
  assert (0 < n)
  forRange (fun i b => b.clear i) n (zero n)

/-- The first clear bit among `0, ..., n - 1`. -/
def firstClear (b : Bitmap n) : Option Nat := (List.range n).find? fun i => !b.bit i

/-- `Bitmap::FindAndSet`: the number of the first clear bit, which is marked, or -1. -/
def findAndSet (b : Bitmap n) : Except Fault (Int × Bitmap n) :=
  match b.firstClear with
  | some i => do
    let b ← b.mark i
    return (i, b)
  | none => return (-1, b)

/-- `Bitmap::NumClear`. -/
def numClear (b : Bitmap n) : Nat := (List.range n).countP fun i => !b.bit i

/-! ## Bits -/

theorem bit_eq_getLsbD (b : Bitmap n) (i : Nat) : b.bit i = (b.map.toArray.getD (i / 32) 0).getLsbD (i % 32) := by
  have hi : i % 32 < 32 := Nat.mod_lt _ (by decide)
  unfold bit
  generalize b.map.toArray.getD (i / 32) 0 = w
  rw [← BitVec.twoPow_eq, BitVec.and_twoPow]
  cases h : w.getLsbD (i % 32) with
  | false => simp
  | true =>
    have hne : BitVec.twoPow 32 (i % 32) ≠ 0#32 := by
      intro e
      have := congrArg (fun v => BitVec.getLsbD v (i % 32)) e
      simp [hi] at this
    simpa using hne

theorem bit_zero (i : Nat) : (zero n).bit i = false := by
  rw [bit_eq_getLsbD]
  by_cases h : i / 32 < numWords n <;> simp [zero, h]

/-- The mask `1 << k` has bit `k` set and no other. -/
theorem getLsbD_mask {k : Nat} (hk : k < 32) (j : Nat) : (1#32 <<< k).getLsbD j = decide (j = k) := by
  rw [← BitVec.twoPow_eq, BitVec.getLsbD_twoPow]
  simp [hk, eq_comm]

/-- Storing a word changes the bits of that word. -/
theorem bit_storeWord (b : Bitmap n) {i : Nat} (h : i < n) (w : BitVec 32) (j : Nat) :
    ({ map := b.map.set (i / 32) w (word_lt h) } : Bitmap n).bit j =
      if j / 32 = i / 32 then w.getLsbD (j % 32) else b.bit j := by
  have hi := word_lt h
  rw [bit_eq_getLsbD, bit_eq_getLsbD]
  split
  · rename_i hw
    simp [hw, hi]
  · rename_i hw
    by_cases hj : j / 32 < numWords n
    · simp [hj, Ne.symm hw]
    · simp [hj]

theorem bit_eq_word (b : Bitmap n) {i j : Nat} (h : i < n) (hw : j / 32 = i / 32) :
    b.bit j = (b.wordOf i h).getLsbD (j % 32) := by
  have hi := word_lt h
  rw [bit_eq_getLsbD]
  simp only [hw, Array.getD_eq_getD_getElem?, Vector.getElem?_toArray, Vector.getElem?_eq_getElem hi, Option.getD_some]
  rfl

/-- Marking a bit sets that bit and no other. -/
theorem bit_set (b : Bitmap n) {i : Nat} (h : i < n) (j : Nat) : (b.set i h).bit j = (decide (j = i) || b.bit j) := by
  unfold set
  rw [bit_storeWord b h]
  split
  · rename_i hw
    rw [BitVec.getLsbD_or, getLsbD_mask (Nat.mod_lt _ (by decide)), ← bit_eq_word b h hw, Bool.or_comm]
    congr 1
    exact decide_eq_decide.2 (by omega)
  · rename_i hw
    have hne : j ≠ i := fun e => hw (by rw [e])
    simp [hne]

/-- Clearing a bit clears that bit and no other. -/
theorem bit_reset (b : Bitmap n) {i : Nat} (h : i < n) (j : Nat) :
    (b.reset i h).bit j = (!decide (j = i) && b.bit j) := by
  unfold reset
  rw [bit_storeWord b h]
  split
  · rename_i hw
    have hj : j % 32 < 32 := Nat.mod_lt _ (by decide)
    rw [BitVec.getLsbD_and, BitVec.getLsbD_not, getLsbD_mask (Nat.mod_lt _ (by decide)), ← bit_eq_word b h hw,
      Bool.and_comm]
    simp only [hj, decide_true, Bool.true_and]
    congr 2
    exact decide_eq_decide.2 (by omega)
  · rename_i hw
    have hne : j ≠ i := fun e => hw (by rw [e])
    simp [hne]

/-! ## The operations -/

theorem test_of (b : Bitmap n) {which : Int} (h : 0 ≤ which ∧ which < n) : b.test which = .ok (b.bit which.toNat) := by
  unfold test
  rw [assert_of h]
  rfl

/-- Marking a bit in range succeeds. -/
theorem mark_of (b : Bitmap n) {i : Nat} (h : i < n) : b.mark i = .ok (b.set i h) := by
  have hr : (0 : Int) ≤ i ∧ (i : Int) < n := by omega
  unfold mark
  rw [dif_pos hr]
  simp only [Int.toNat_natCast]
  rw [test_of _ hr]
  simp only [Int.toNat_natCast, bit_set, decide_true, Bool.true_or]
  rfl

/-- Clearing a bit in range succeeds. -/
theorem clear_of (b : Bitmap n) {i : Nat} (h : i < n) : b.clear i = .ok (b.reset i h) := by
  have hr : (0 : Int) ≤ i ∧ (i : Int) < n := by omega
  unfold clear
  rw [dif_pos hr]
  simp only [Int.toNat_natCast]
  rw [test_of _ hr]
  simp only [Int.toNat_natCast, bit_reset, decide_true, Bool.not_true, Bool.false_and]
  rfl

/-- A new bitmap has every bit clear. -/
theorem new_of (h : 0 < n) : ∃ b, new n = .ok b ∧ ∀ i, b.bit i = false := by
  unfold new
  rw [assert_of h]
  refine forRange_ok (fun _ (b : Bitmap n) => ∀ i, b.bit i = false) bit_zero ?_
  intro i hi b hb
  refine ⟨b.reset i hi, clear_of b hi, ?_⟩
  intro j
  rw [bit_reset, hb, Bool.and_false]

theorem firstClear_eq_some {b : Bitmap n} {i : Nat} (h : b.firstClear = some i) : i < n ∧ b.bit i = false := by
  have h1 := List.mem_of_find?_eq_some h
  have h2 := List.find?_some h
  exact ⟨List.mem_range.1 h1, by simpa using h2⟩

theorem firstClear_eq_none {b : Bitmap n} : b.firstClear = none ↔ b.numClear = 0 := by
  unfold firstClear numClear
  rw [List.find?_eq_none, List.countP_eq_zero]

/-- With a clear bit left, `FindAndSet` marks one that was clear. -/
theorem findAndSet_of_pos {b : Bitmap n} (h : 0 < b.numClear) :
    ∃ i, ∃ hi : i < n, b.bit i = false ∧ b.findAndSet = .ok ((i : Int), b.set i hi) := by
  cases hf : b.firstClear with
  | none =>
    rw [firstClear_eq_none] at hf
    omega
  | some i =>
    obtain ⟨hi, hb⟩ := firstClear_eq_some hf
    refine ⟨i, hi, hb, ?_⟩
    unfold findAndSet
    rw [hf]
    simp only [mark_of b hi]
    rfl

/-- With no clear bit left, `FindAndSet` returns -1 and changes nothing. -/
theorem findAndSet_of_zero {b : Bitmap n} (h : b.numClear = 0) : b.findAndSet = .ok (-1, b) := by
  unfold findAndSet
  rw [firstClear_eq_none.2 h]
  rfl

/-- Marking a clear bit takes one from the number of clear bits. -/
theorem numClear_set {b : Bitmap n} {i : Nat} (hi : i < n) (hb : b.bit i = false) :
    (b.set i hi).numClear + 1 = b.numClear := by
  unfold numClear
  have hperm : (List.range n).Perm (i :: (List.range n).erase i) := List.perm_cons_erase (List.mem_range.2 hi)
  rw [hperm.countP_eq, hperm.countP_eq, List.countP_cons, List.countP_cons]
  have hne : ∀ j ∈ (List.range n).erase i, (!(b.set i hi).bit j) = !b.bit j := by
    intro j hj
    have hji : j ≠ i := by
      rintro rfl
      exact List.nodup_range.not_mem_erase hj
    simp [bit_set, hji]
  rw [List.countP_congr (fun j hj => by rw [hne j hj])]
  simp [bit_set, hb]

/-- All bits of a bitmap without marks are clear. -/
theorem numClear_of_clear {b : Bitmap n} (h : ∀ i, b.bit i = false) : b.numClear = n := by
  unfold numClear
  rw [List.countP_eq_length.2 (fun i _ => by simp [h]), List.length_range]

/-- Marking distinct clear bits takes their number from the number of clear bits. -/
theorem numClear_of_marked {b b' : Bitmap n} {l : List Int} (hnd : l.Nodup)
    (hl : ∀ x ∈ l, 0 ≤ x ∧ x < n ∧ b.bit x.toNat = false) (hb : ∀ i, b'.bit i = (decide ((i : Int) ∈ l) || b.bit i)) :
    b'.numClear + l.length = b.numClear := by
  have hperm : ((List.range n).filter fun i : Nat => decide ((i : Int) ∈ l)).Perm (l.map Int.toNat) := by
    rw [List.perm_ext_iff_of_nodup (List.nodup_range.filter _)
      (hnd.map_on fun x hx y hy e => by have := hl x hx; have := hl y hy; omega)]
    intro i
    simp only [List.mem_filter, List.mem_range, decide_eq_true_eq, List.mem_map]
    constructor
    · exact fun h => ⟨i, h.2, Int.toNat_natCast i⟩
    · rintro ⟨x, hx, rfl⟩
      obtain ⟨h0, hn, -⟩ := hl x hx
      exact ⟨by omega, by rwa [Int.toNat_of_nonneg h0]⟩
  have hin : ((List.range n).filter fun i : Nat => decide ((i : Int) ∈ l)).countP (fun i => !b.bit i) = l.length := by
    rw [hperm.countP_eq, List.countP_eq_length.2, List.length_map]
    intro i hi
    obtain ⟨x, hx, rfl⟩ := List.mem_map.1 hi
    simp [(hl x hx).2.2]
  have hout : ((List.range n).filter fun i : Nat => !decide ((i : Int) ∈ l)).countP (fun i => !b.bit i) = b'.numClear := by
    unfold numClear
    rw [List.countP_filter]
    refine List.countP_congr ?_
    intro i _
    rw [hb]
    cases b.bit i <;> simp
  have hsplit := List.countP_eq_countP_filter_add (List.range n) (fun i => !b.bit i) (fun i : Nat => decide ((i : Int) ∈ l))
  unfold numClear
  rw [hsplit, hin]
  simp only [numClear] at hout
  omega

/-! ## A bitmap in memory and in a file (pbitmap.cc) -/

/-- The words of the map as they lie in memory. -/
def toBuf (b : Bitmap n) : Bytes.Buf := fun j => Bytes.byteOf (b.map.toArray.getD (j / 4) 0).toNat (j % 4)

/-- The map whose words are the ones at a place in memory. -/
def ofBuf (n : Nat) (m : Bytes.Buf) : Bitmap n :=
  { map := Vector.ofFn fun i => BitVec.ofInt 32 (Bytes.leWord m (4 * i)) }

/-- Bitmaps read from memory that agrees are equal. -/
theorem ofBuf_congr {m m' : Bytes.Buf} (h : ∀ j < 4 * numWords n, m j = m' j) : ofBuf n m = ofBuf n m' := by
  unfold ofBuf
  congr 1
  ext1 i hi
  rw [Vector.getElem_ofFn, Vector.getElem_ofFn]
  congr 1
  refine Bytes.leWord_congr fun k hk => h _ ?_
  show 4 * i + k < 4 * numWords n
  omega

/-- A bitmap read from where it was stored is the one stored. -/
theorem ofBuf_of_agree {b : Bitmap n} {m : Bytes.Buf} (h : ∀ j < 4 * numWords n, m j = b.toBuf j) : ofBuf n m = b := by
  obtain ⟨map⟩ := b
  unfold ofBuf
  congr 1
  ext1 i hi
  rw [Vector.getElem_ofFn]
  have hw : Bytes.leWord m (4 * i) = ((map[i].toNat : Nat) : Int) % 4294967296 := by
    refine Bytes.leWord_of_bytes ?_
    intro k hk
    rw [h (4 * i + k) (by omega)]
    have h1 : (4 * i + k) / 4 = i := by omega
    have h2 : (4 * i + k) % 4 = k := by omega
    simp [toBuf, h1, h2, hi]
  rw [hw]
  apply BitVec.eq_of_toNat_eq
  have hlt := map[i].isLt
  rw [BitVec.toNat_ofInt]
  omega

end Bitmap

end Nachos
