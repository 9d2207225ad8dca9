import Mathlib.Logic.Function.Basic

/-!
# Tables of slots

A table gives a slot an entry or leaves it free. Among the slots of a kind, all entries may have to differ.
-/

namespace Slots

variable {ι α : Type} {P : ι → Prop} {t : ι → Option α}

/-- The slots of the kind `P` that are in use have different entries. -/
def Distinct (P : ι → Prop) (t : ι → Option α) : Prop := ∀ i j a, P i → P j → t i = some a → t j = some a → i = j

variable [DecidableEq ι]

/-- An entry that is not in the table can be put into it. -/
theorem Distinct.set (h : Distinct P t) (i : ι) {a : α} (hnew : ∀ j, P j → t j ≠ some a) :
    Distinct P (Function.update t i (some a)) := by
  intro j k b hj hk hb hb'
  by_cases hji : j = i
  · by_cases hki : k = i
    · exact hji.trans hki.symm
    · rw [hji, Function.update_self] at hb
      rw [Function.update_of_ne hki, ← hb] at hb'
      exact absurd hb' (hnew k hk)
  · rw [Function.update_of_ne hji] at hb
    by_cases hki : k = i
    · rw [hki, Function.update_self] at hb'
      rw [← hb'] at hb
      exact absurd hb (hnew j hj)
    · rw [Function.update_of_ne hki] at hb'
      exact h j k b hj hk hb hb'

/-- A slot can be freed. -/
theorem Distinct.clear (h : Distinct P t) (i : ι) : Distinct P (Function.update t i none) := by
  have hne (j : ι) (b : α) (hb : Function.update t i none j = some b) : j ≠ i ∧ t j = some b := by
    by_cases hji : j = i
    · rw [hji, Function.update_self] at hb
      cases hb
    · rw [Function.update_of_ne hji] at hb
      exact ⟨hji, hb⟩
  exact fun j k b hj hk hb hb' => h j k b hj hk (hne j b hb).2 (hne k b hb').2

/-- Applying a function to the entries, after a change of one slot. -/
theorem map_update {β : Type} (f : α → β) (t : ι → Option α) (i : ι) (a : Option α) :
    (fun j => (Function.update t i a j).map f) = Function.update (fun j => (t j).map f) i (a.map f) := by
  funext j
  by_cases hj : j = i
  · rw [hj, Function.update_self, Function.update_self]
  · rw [Function.update_of_ne hj, Function.update_of_ne hj]

end Slots
