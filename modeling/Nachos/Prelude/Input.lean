import Nachos.Prelude.Bytes
import Mathlib.Data.Stream.Init

/-!
# Input that has no end

What a reader takes of a stream when a character can stop it, and the stream that lines make. Lines are given with the character
that ends each of them.
-/

namespace Input

variable {α : Type} {stop : α → Bool} {n : Nat} {input rest : Stream' α} {line : List α} {c : α}

/-- How many of the next `n` characters stand in front of the first one that stops the reader. -/
def front (stop : α → Bool) (n : Nat) (input : Stream' α) : Nat := ((input.take n).takeWhile fun c => !stop c).length

/-- How many characters a reader takes that wants `n` and takes none behind one that stops it. -/
def taken (stop : α → Bool) (n : Nat) (input : Stream' α) : Nat := min (front stop n input + 1) n

@[simp] theorem front_zero : front stop 0 input = 0 := rfl

theorem front_succ : front stop (n + 1) input = if stop input.head then 0 else front stop n input.tail + 1 := by
  unfold front
  rw [Stream'.take_succ, List.takeWhile_cons]
  by_cases h : stop input.head = true <;> simp [h]

theorem front_le : front stop n input ≤ n := by
  have h := (List.takeWhile_sublist (l := input.take n) fun c => !stop c).length_le
  rwa [Stream'.length_take] at h

@[simp] theorem taken_zero : taken stop 0 input = 0 := Nat.min_zero _

theorem taken_succ : taken stop (n + 1) input = if stop input.head then 1 else taken stop n input.tail + 1 := by
  unfold taken
  rw [front_succ]
  split <;> omega

theorem taken_le : taken stop n input ≤ n := Nat.min_le_right _ _

/-- In front of the end of a line nothing stops the reader. -/
theorem front_line (h : ∀ c ∈ line, stop c = false) (hc : stop c = true) :
    front stop n (line ++ₛ rest.cons c) = min line.length n := by
  induction line generalizing n with
  | nil =>
    cases n with
    | zero => rfl
    | succ n => rw [front_succ, if_pos (by simpa using hc), List.length_nil, Nat.zero_min]
  | cons a line ih =>
    cases n with
    | zero => rfl
    | succ n =>
      have ha := h a (List.mem_cons_self ..)
      rw [Stream'.cons_append_stream, front_succ, if_neg (by simp [ha]), Stream'.tail_cons,
        ih fun c hc => h c (List.mem_cons_of_mem _ hc), List.length_cons]
      omega

/-- One of the next `n` characters stops the reader. -/
theorem front_lt_iff : front stop n input < n ↔ ∃ k < n, stop (input.get k) = true := by
  induction n generalizing input with
  | zero => simp
  | succ n ih =>
    rw [front_succ]
    by_cases h : stop input.head = true
    · rw [if_pos h]
      exact iff_of_true (Nat.succ_pos n) ⟨0, Nat.succ_pos n, h⟩
    · rw [if_neg h, Nat.add_lt_add_iff_right, ih]
      constructor
      · rintro ⟨k, hk, hstop⟩
        exact ⟨k + 1, by omega, hstop⟩
      · rintro ⟨k, hk, hstop⟩
        cases k with
        | zero => exact absurd hstop h
        | succ k => exact ⟨k, by omega, hstop⟩

/-- Nothing stops the reader in front of there. -/
theorem not_stop_of_lt_front {k : Nat} (h : k < front stop n input) : stop (input.get k) = false := by
  induction n generalizing input k with
  | zero => exact absurd h (Nat.not_lt_zero k)
  | succ n ih =>
    rw [front_succ] at h
    by_cases hstop : stop input.head = true
    · rw [if_pos hstop] at h
      exact absurd h (Nat.not_lt_zero k)
    · rw [if_neg hstop] at h
      cases k with
      | zero => simpa using hstop
      | succ k =>
        have hk := ih (show k < front stop n input.tail by omega)
        exact hk

/-- The character there stops the reader, if it is not the end of what he wants. -/
theorem stop_front (h : front stop n input < n) : stop (input.get (front stop n input)) = true := by
  induction n generalizing input with
  | zero => exact absurd h (Nat.not_lt_zero _)
  | succ n ih =>
    rw [front_succ] at h ⊢
    by_cases hstop : stop input.head = true
    · rw [if_pos hstop]
      exact hstop
    · rw [if_neg hstop] at h ⊢
      have htail := ih (show front stop n input.tail < n by omega)
      exact htail

/-- The characters in front of there. -/
theorem takeWhile_take (stop : α → Bool) (n : Nat) (input : Stream' α) :
    ((input.take n).takeWhile fun c => !stop c) = input.take (front stop n input) := by
  induction n generalizing input with
  | zero => rfl
  | succ n ih =>
    rw [Stream'.take_succ, List.takeWhile_cons, front_succ, ih]
    by_cases hstop : stop input.head = true
    · simp [hstop]
    · simp [hstop, Stream'.take_succ]

/-- A reader that is not stopped too early takes the whole line with its end. -/
theorem taken_line (h : ∀ c ∈ line, stop c = false) (hc : stop c = true) (hn : line.length < n) :
    taken stop n (line ++ₛ rest.cons c) = line.length + 1 := by
  unfold taken
  rw [front_line h hc]
  omega

/-- What is left behind a line and its end. -/
theorem drop_line (line : List α) (c : α) (rest : Stream' α) : (line ++ₛ rest.cons c).drop (line.length + 1) = rest := by
  rw [← Stream'.drop_drop 1 line.length, Stream'.drop_append_stream]
  rfl

/-- The stream that begins with these lines, each with its end. -/
def lines (stop : α) : List (List α) → Stream' α → Stream' α
  | [], rest => rest
  | line :: ls, rest => line ++ₛ (lines stop ls rest).cons stop

end Input
