import Mathlib.Data.List.Perm.Lattice

/-!
# Lists whose elements own things, and lists that are gone through until something stops

Facts on `flatMap` and `flatten` for a table, kept as a list, each entry of which owns a list of things; and what a walk through a list
reaches that goes on as long as the elements allow it.
-/

namespace Lists

open scoped List

variable {α β : Type}

/-- Replacing one entry of a table exchanges what the old entry owns for what the new one owns. -/
theorem flatMap_set_perm (f : α → List β) {l : List α} {i : Nat} {old : α} (new : α) (h : l[i]? = some old) :
    ((l.set i new).flatMap f ++ f old).Perm (l.flatMap f ++ f new) := by
  induction l generalizing i with
  | nil => simp at h
  | cons a l ih =>
    cases i with
    | zero =>
      obtain rfl : a = old := by simpa using h
      simp only [List.set_cons_zero, List.flatMap_cons]
      calc f new ++ l.flatMap f ++ f a
        _ ~ f a ++ (f new ++ l.flatMap f) := List.perm_append_comm
        _ ~ f a ++ (l.flatMap f ++ f new) := List.perm_append_comm.append_left _
        _ = f a ++ l.flatMap f ++ f new := (List.append_assoc _ _ _).symm
    | succ i =>
      have hi := ih (i := i) (by simpa using h)
      simp only [List.set_cons_succ, List.flatMap_cons, List.append_assoc]
      exact hi.append_left _

/-- A search through several lists, when only one of them has what is looked for. -/
theorem find?_flatten {P : α → Bool} {ls : List (List α)} {i : Nat} {l : List α} (hi : ls[i]? = some l)
    (hother : ∀ (j : Nat) (l' : List α), ls[j]? = some l' → j ≠ i → ∀ x ∈ l', ¬P x = true) : ls.flatten.find? P = l.find? P := by
  induction ls generalizing i with
  | nil => simp at hi
  | cons l₀ ls ih =>
    rw [List.flatten_cons, List.find?_append]
    cases i with
    | zero =>
      obtain rfl : l₀ = l := by simpa using hi
      have hnone : ls.flatten.find? P = none := by
        refine List.find?_eq_none.2 ?_
        intro x hx
        obtain ⟨l', hl', hx⟩ := List.mem_flatten.1 hx
        obtain ⟨j, hj⟩ := List.mem_iff_getElem?.1 hl'
        exact hother (j + 1) l' hj (Nat.succ_ne_zero j) x hx
      rw [hnone, Option.or_none]
    | succ i =>
      have hnone : l₀.find? P = none := List.find?_eq_none.2 (hother 0 l₀ rfl (Nat.succ_ne_zero i).symm)
      rw [hnone, Option.none_or]
      exact ih (by simpa using hi) fun j l' hj hne => hother (j + 1) l' hj (by omega)

/-- An element is reached when all before it let the walk go on: the first one is, and from the first one on the others. -/
theorem exists_reached_cons {P Q : α → Prop} {a : α} {l : List α} :
    (∃ before x after, a :: l = before ++ x :: after ∧ (∀ b ∈ before, P b) ∧ Q x) ↔
      Q a ∨ P a ∧ ∃ before x after, l = before ++ x :: after ∧ (∀ b ∈ before, P b) ∧ Q x := by
  constructor
  · rintro ⟨before, x, after, heq, hbefore, hx⟩
    cases before with
    | nil =>
      cases heq
      exact Or.inl hx
    | cons b before =>
      cases heq
      exact Or.inr ⟨hbefore a List.mem_cons_self, before, x, after, rfl, fun b hb => hbefore b (List.mem_cons_of_mem _ hb), hx⟩
  · rintro (ha | ⟨ha, before, x, after, rfl, hbefore, hx⟩)
    · exact ⟨[], a, l, rfl, nofun, ha⟩
    · refine ⟨a :: before, x, after, rfl, ?_, hx⟩
      intro b hb
      rcases List.mem_cons.1 hb with rfl | hb
      · exact ha
      · exact hbefore b hb

end Lists
