import Mathlib.Data.Fintype.Card
import Nachos.Lib.Bitmap

/-!
# A bitmap is a set of indices (lib/bitmap.cc)

After any calls of `Mark`, `Clear` and `FindAndSet` the bits that are set are the members of the set that the corresponding insertions
and deletions make. What is inside of a word shows in no operation.
-/

namespace Nachos

namespace Bitmap

open Loop

variable {n : Nat} {b b' : Bitmap n} {s : Finset (Fin n)}

/-- A call that changes the bitmap, with its index in range. -/
inductive Operation (n : Nat) where
  | mark (which : Fin n)
  | clear (which : Fin n)
  | findAndSet

/-- One call, with the result of `FindAndSet`. -/
def perform (b : Bitmap n) : Operation n → Except Fault (Option Int × Bitmap n)
  | .mark which => do
    let b ← b.mark which
    return (none, b)
  | .clear which => do
    let b ← b.clear which
    return (none, b)
  | .findAndSet => do
    let (i, b) ← b.findAndSet
    return (some i, b)

/-- `Bitmap(numItems)`, and calls one after the other. -/
def run (ops : List (Operation n)) : Except Fault (Bitmap n) := do
  let b ← new n
  ops.foldlM (fun b op => (b.perform op).map Prod.snd) b

/-! ## Sets of indices -/

/-- The least index that is not in a set. -/
def leastOutside (s : Finset (Fin n)) : Option (Fin n) := (List.finRange n).find? fun i => i ∉ s

/-- What a call does to the set. -/
def Operation.effect (s : Finset (Fin n)) : Operation n → Finset (Fin n)
  | .mark which => insert which s
  | .clear which => s.erase which
  | .findAndSet => (leastOutside s).elim s fun i => insert i s

/-- The set after some calls. -/
def members (ops : List (Operation n)) : Finset (Fin n) := ops.foldl Operation.effect ∅

/-- The bits of a bitmap are the members of a set. -/
def Represents (b : Bitmap n) (s : Finset (Fin n)) : Prop := ∀ i : Fin n, b.bit i = decide (i ∈ s)

theorem leastOutside_eq_some {i : Fin n} : leastOutside s = some i ↔ i ∉ s ∧ ∀ j < i, j ∈ s := by
  unfold leastOutside
  rw [List.find?_eq_some_iff_getElem]
  constructor
  · rintro ⟨hi, k, hk, rfl, hbefore⟩
    refine ⟨by simpa using hi, ?_⟩
    intro j hj
    have hjk := hbefore j (by simpa [Fin.lt_def] using hj)
    simpa using hjk
  · rintro ⟨hi, hbefore⟩
    refine ⟨by simpa using hi, i, by simp, by simp, ?_⟩
    intro j hj
    simpa using hbefore ⟨j, hj.trans i.isLt⟩ hj

theorem leastOutside_eq_none : leastOutside s = none ↔ ∀ i, i ∈ s := by
  unfold leastOutside
  simp [List.find?_eq_none]

/-! ## The operations -/

theorem Represents.set (h : Represents b s) (which : Fin n) : Represents (b.set which which.isLt) (insert which s) := by
  intro i
  rw [bit_set, h i]
  simp [Fin.ext_iff]

theorem Represents.reset (h : Represents b s) (which : Fin n) : Represents (b.reset which which.isLt) (s.erase which) := by
  intro i
  rw [bit_reset, h i]
  simp [Fin.ext_iff]

/-- `FindAndSet` looks for the first bit that is clear. -/
theorem Represents.firstClear (h : Represents b s) : b.firstClear = (leastOutside s).map Fin.val := by
  cases hs : leastOutside s with
  | none =>
    rw [leastOutside_eq_none] at hs
    refine List.find?_eq_none.2 ?_
    intro i hi
    have hbit := h ⟨i, List.mem_range.1 hi⟩
    simp [hbit, hs]
  | some i =>
    obtain ⟨hi, hbefore⟩ := leastOutside_eq_some.1 hs
    refine List.find?_range_eq_some.2 ⟨by simp [h i, hi], List.mem_range.2 i.isLt, ?_⟩
    intro j hj
    have hbit := h ⟨j, hj.trans i.isLt⟩
    simp [hbit, hbefore ⟨j, hj.trans i.isLt⟩ hj]

/-- `FindAndSet` inserts the least index that is not in the set, if there is one. -/
theorem Represents.findAndSet (h : Represents b s) :
    leastOutside s = none ∧ b.findAndSet = .ok (-1, b) ∨
      ∃ i b', leastOutside s = some i ∧ b.findAndSet = .ok ((i.val : Int), b') ∧ Represents b' (insert i s) := by
  unfold Bitmap.findAndSet
  rw [h.firstClear]
  cases hs : leastOutside s with
  | none => exact .inl ⟨rfl, rfl⟩
  | some i =>
    dsimp only [Option.map_some]
    rw [mark_of b i.isLt]
    exact .inr ⟨i, _, rfl, rfl, h.set i⟩

/-- `NumClear` counts the indices that are not in the set. -/
theorem Represents.numClear (h : Represents b s) : b.numClear + s.card = n := by
  have hcount : b.numClear = ((List.finRange n).filter fun i => i ∉ s).length := by
    unfold Bitmap.numClear
    rw [← List.map_coe_finRange_eq_range, List.countP_map, List.countP_eq_length_filter]
    congr 1
    refine List.filter_congr ?_
    intro i _
    simp [h i]
  have hcompl : ((List.finRange n).filter fun i => i ∉ s).toFinset = sᶜ := by
    ext i
    simp
  have hcard : b.numClear = sᶜ.card := by
    rw [hcount, ← hcompl, List.toFinset_card_of_nodup ((List.nodup_finRange n).filter _)]
  have hsplit := Finset.card_compl_add_card s
  rw [Fintype.card_fin] at hsplit
  omega

/-- Every call keeps the set. -/
theorem Represents.perform (h : Represents b s) (op : Operation n) :
    ∃ result b', b.perform op = .ok (result, b') ∧ Represents b' (op.effect s) := by
  cases op with
  | mark which =>
    unfold Bitmap.perform
    dsimp only
    rw [mark_of b which.isLt]
    exact ⟨_, _, rfl, h.set which⟩
  | clear which =>
    unfold Bitmap.perform
    dsimp only
    rw [clear_of b which.isLt]
    exact ⟨_, _, rfl, h.reset which⟩
  | findAndSet =>
    unfold Bitmap.perform Operation.effect
    dsimp only
    obtain ⟨hs, hfind⟩ | ⟨i, b', hs, hfind, hb'⟩ := h.findAndSet
    · rw [hs, hfind]
      exact ⟨_, _, rfl, h⟩
    · rw [hs, hfind]
      exact ⟨_, _, rfl, hb'⟩

/-- Calls one after the other. -/
theorem Represents.performs (ops : List (Operation n)) (h : Represents b s) :
    ∃ b', ops.foldlM (fun b op => (b.perform op).map Prod.snd) b = .ok b' ∧ Represents b' (ops.foldl Operation.effect s) := by
  induction ops generalizing b s with
  | nil => exact ⟨b, rfl, h⟩
  | cons op ops ih =>
    obtain ⟨result, b₁, hop, h₁⟩ := h.perform op
    rw [List.foldlM_cons, hop]
    exact ih h₁

/-- After any calls, `Test` is true of the members of the set; `FindAndSet` returns the least index that is not in it, which it
inserts, or -1, and then it changes nothing, when all are; and `NumClear` is the number of those that are not in it. -/
theorem bitmap_refines_set (hn : 0 < n) (ops : List (Operation n)) :
    ∃ b, run ops = .ok b ∧ (∀ i : Fin n, b.test i = .ok (decide (i ∈ members ops))) ∧
      ((∀ i, i ∈ members ops) ∧ b.findAndSet = .ok (-1, b) ∨
        ∃ i b', i ∉ members ops ∧ (∀ j < i, j ∈ members ops) ∧ b.findAndSet = .ok ((i.val : Int), b') ∧
          ∀ j : Fin n, b'.test j = .ok (decide (j ∈ insert i (members ops)))) ∧
      (b.numClear : Int) = n - (members ops).card := by
  obtain ⟨b₀, hnew, hclear⟩ := new_of hn
  have h₀ : Represents b₀ ∅ := fun i => by simp [hclear]
  obtain ⟨b, hrun, h⟩ := h₀.performs ops
  have htest {b : Bitmap n} {s : Finset (Fin n)} (h : Represents b s) (i : Fin n) : b.test i = .ok (decide (i ∈ s)) := by
    rw [test_of b (by omega), Int.toNat_natCast, h i]
  refine ⟨b, ?_, htest h, ?_, ?_⟩
  · unfold run
    rw [hnew, ok_bind]
    exact hrun
  · obtain ⟨hs, hfind⟩ | ⟨i, b', hs, hfind, hb'⟩ := h.findAndSet
    · exact .inl ⟨leastOutside_eq_none.1 hs, hfind⟩
    · obtain ⟨hi, hbefore⟩ := leastOutside_eq_some.1 hs
      exact .inr ⟨i, b', hi, hbefore, hfind, htest hb'⟩
  · have hcount := h.numClear
    unfold members
    omega

/-- The last bit of a word, the first bit of the next one, which is the last of the bitmap, and an allocation. -/
theorem bitmap_refines_set_partial_word :
    ∃ b, run [.mark 31, .mark 32, .findAndSet, .clear (31 : Fin 33)] = .ok b ∧ b.test 31 = .ok false ∧ b.test 32 = .ok true ∧
      (b.numClear : Int) = 31 := by
  obtain ⟨b, hrun, htest, -, hcount⟩ := bitmap_refines_set (by decide) [.mark 31, .mark 32, .findAndSet, .clear (31 : Fin 33)]
  have hmembers : members [.mark 31, .mark 32, .findAndSet, .clear (31 : Fin 33)] = {0, 32} := by decide
  rw [hmembers] at htest hcount
  exact ⟨b, hrun, htest 31, htest 32, hcount⟩

end Bitmap

end Nachos
