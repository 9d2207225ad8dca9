import Mathlib.Data.List.GetD

/-!
# Sequences of a fixed length

What a file that cannot grow is for: a range is read, or written over, as far as the sequence goes.
-/

namespace FixedFile

variable {α : Type}

/-- The elements of a range, as far as the sequence goes. -/
def read (a : List α) (position n : Nat) : List α := (a.drop position).take n

/-- The sequence with `data` from a position on, as far as it goes. -/
def write (a : List α) (position : Nat) (data : List α) : List α :=
  a.take position ++ data.take (a.length - position) ++ a.drop (position + data.length)

theorem length_read (a : List α) (position n : Nat) : (read a position n).length = min n (a.length - position) := by
  unfold read
  rw [List.length_take, List.length_drop]

theorem getElem?_read (a : List α) (position n : Nat) {j : Nat} (hj : j < n) : (read a position n)[j]? = a[position + j]? := by
  unfold read
  rw [List.getElem?_take_of_lt hj, List.getElem?_drop]

theorem length_write (a : List α) (position : Nat) (data : List α) : (write a position data).length = a.length := by
  unfold write
  simp only [List.length_append, List.length_take, List.length_drop]
  omega

/-- Inside the range are the new elements, outside the old ones. -/
theorem getElem?_write (a : List α) (position : Nat) (data : List α) {k : Nat} (hk : k < a.length) :
    (write a position data)[k]? = if position ≤ k ∧ k < position + data.length then data[k - position]? else a[k]? := by
  unfold write
  by_cases hbefore : k < position
  · rw [if_neg (by omega), List.append_assoc, List.getElem?_append_left (by rw [List.length_take]; omega),
      List.getElem?_take_of_lt hbefore]
  · have hlen : (a.take position).length = position := by
      rw [List.length_take]
      omega
    rw [List.append_assoc, List.getElem?_append_right (by omega), hlen]
    by_cases hin : k < position + data.length
    · rw [if_pos ⟨by omega, hin⟩, List.getElem?_append_left (by rw [List.length_take]; omega), List.getElem?_take_of_lt (by omega)]
    · rw [if_neg (by omega), List.getElem?_append_right (by rw [List.length_take]; omega), List.length_take, List.getElem?_drop]
      congr 1
      omega

end FixedFile
