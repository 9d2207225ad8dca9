import Nachos.Prelude.Bytes

/-!
# Blocks of memory that have a size

The size of an array is in its type. A copy that would leave the source or the destination is a fault, so a sequence of copies that
succeeds has stayed inside its arrays.
-/

namespace Bytes

/-- An array of `size` bytes. -/
structure Block (size : Nat) where
  bytes : Buf

namespace Block

variable {ε : Type} {fault : ε} {m size : Nat}

/-- `n` bytes of `src` from offset `so` on, copied over `dst` from offset `o` on. -/
def copy (fault : ε) (src : Block m) (so : Nat) (dst : Block size) (o n : Nat) : Except ε (Block size) :=
  if so + n ≤ m ∧ o + n ≤ size then .ok ⟨Bytes.copy src.bytes so dst.bytes o n⟩ else .error fault

theorem copy_ok {src : Block m} {so : Nat} {dst : Block size} {o n : Nat} (h : so + n ≤ m) (h' : o + n ≤ size) :
    copy fault src so dst o n = .ok ⟨Bytes.copy src.bytes so dst.bytes o n⟩ := if_pos ⟨h, h'⟩

theorem of_copy_ok {src : Block m} {so : Nat} {dst b : Block size} {o n : Nat} (h : copy fault src so dst o n = .ok b) :
    so + n ≤ m ∧ o + n ≤ size ∧ b = ⟨Bytes.copy src.bytes so dst.bytes o n⟩ := by
  unfold copy at h
  split at h
  · rename_i hfits
    exact ⟨hfits.1, hfits.2, (Except.ok.inj h).symm⟩
  · cases h

end Block

/-- A copy depends on the bytes that are copied only. -/
theorem copy_congr {src src' : Buf} {so n : Nat} (h : ∀ j < n, src (so + j) = src' (so + j)) (dst : Buf) (o : Nat) :
    copy src so dst o n = copy src' so dst o n := by
  funext j
  unfold copy
  split
  · exact h _ (by omega)
  · rfl

/-- What two copies, one behind the other, leave: the first `k` bytes of one buffer, and behind them `n` of another. -/
theorem copy_copy (b b' junk : Buf) (k n : Nat) : (∀ j < k, copy b' 0 (copy b 0 junk 0 k) k n j = b j) ∧
    ∀ j < n, copy b' 0 (copy b 0 junk 0 k) k n (k + j) = b' j := by
  constructor
  · intro j hj
    rw [copy_outside _ _ _ _ _ (.inl hj)]
    rw [copy_start _ _ _ _ hj, Nat.zero_add]
  · intro j hj
    rw [copy_inside _ _ _ _ _ hj, Nat.zero_add]

/-! ## Records of words -/

/-- The bytes of words that stand one after the other. -/
def words (ws : List Int) : Buf := fun j => byteOf (ws.getD (j / 4) 0) (j % 4)

theorem words_byte (ws : List Int) (i : Nat) {k : Nat} (hk : k < 4) : words ws (4 * i + k) = byteOf (ws.getD i 0) k := by
  unfold words
  rw [show (4 * i + k) / 4 = i by omega, show (4 * i + k) % 4 = k by omega]

/-- A signed word is read back. -/
theorem intAt_words (ws : List Int) (i : Nat) (h : InRange (ws.getD i 0)) : intAt (words ws) (4 * i) = ws.getD i 0 :=
  intAt_of_bytes (fun _ hk => words_byte ws i hk) h

/-- An unsigned word is read back. -/
theorem leWord_words (ws : List Int) (i : Nat) (h : 0 ≤ ws.getD i 0) (h' : ws.getD i 0 < 4294967296) :
    leWord (words ws) (4 * i) = ws.getD i 0 := by
  rw [leWord_of_bytes fun _ hk => words_byte ws i hk]
  exact Int.emod_eq_of_lt h h'

end Bytes
