import Mathlib.Data.List.Sort
import Nachos.Prelude.Loop
import Nachos.Fault

/-!
# Sorted lists (lib/list.h, list.cc)

`Insert` puts an item in front of the first one that is bigger, so that items which compare equal stay in the order of their
insertion.
-/

namespace Nachos

open Loop

namespace SortedList

variable {α : Type}

/-- `SortedList<T>::Insert`. -/
def insert [DecidableEq α] (compare : α → α → Int) (item : α) (l : List α) : Except Fault (List α) := do
  assert (item ∉ l)
  let l' := l.orderedInsert (fun x y => compare x y < 0) item
  assert (item ∈ l')
  return l'

theorem insert_of_not_mem [DecidableEq α] (compare : α → α → Int) {item : α} {l : List α} (h : item ∉ l) :
    insert compare item l = .ok (l.orderedInsert (fun x y => compare x y < 0) item) := by
  unfold insert
  rw [assert_of h, ok_bind]
  dsimp only
  rw [assert_of ((List.mem_orderedInsert _).2 (.inl rfl))]
  rfl

/-- What `Insert` does when it returns. -/
theorem of_insert_ok [DecidableEq α] {compare : α → α → Int} {item : α} {l l' : List α} (h : insert compare item l = .ok l') :
    l' = l.orderedInsert (fun x y => compare x y < 0) item := by
  by_cases hmem : item ∈ l
  · unfold insert at h
    rw [assert_not (not_not.2 hmem)] at h
    cases h
  · rw [insert_of_not_mem compare hmem] at h
    exact (Except.ok.inj h).symm

/-- `Insert` stops the program when the item is on the list already. -/
theorem not_mem_of_insert_ok [DecidableEq α] {compare : α → α → Int} {item : α} {l l' : List α}
    (h : insert compare item l = .ok l') : item ∉ l := by
  unfold insert at h
  exact (of_assert_bind h).1

/-- A list stays in order when the test by which the item goes in front is part of the order, and its failure of the reverse. -/
theorem pairwise_orderedInsert {r : α → α → Prop} [DecidableRel r] {R : α → α → Prop} (hR : ∀ a b c, R a b → R b c → R a c)
    {item : α} {l : List α} (h : l.Pairwise R) (hbefore : ∀ b ∈ l, r item b → R item b) (hafter : ∀ b ∈ l, ¬r item b → R b item) :
    (l.orderedInsert r item).Pairwise R := by
  induction l with
  | nil => exact List.pairwise_singleton _ _
  | cons b l ih =>
    obtain ⟨hb, hl⟩ := List.pairwise_cons.1 h
    by_cases hr : r item b
    · rw [List.orderedInsert_cons_of_le _ _ hr]
      have hib : R item b := hbefore b List.mem_cons_self hr
      refine List.pairwise_cons.2 ⟨?_, h⟩
      intro c hc
      obtain rfl | hc := List.mem_cons.1 hc
      · exact hib
      · exact hR _ _ _ hib (hb c hc)
    · rw [List.orderedInsert_of_not_le _ _ hr]
      refine List.pairwise_cons.2 ⟨?_, ?_⟩
      · intro c hc
        obtain rfl | hc := (List.mem_orderedInsert _).1 hc
        · exact hafter b List.mem_cons_self hr
        · exact hb c hc
      · exact ih hl (fun c hc => hbefore c (List.mem_cons_of_mem _ hc)) fun c hc => hafter c (List.mem_cons_of_mem _ hc)

end SortedList

end Nachos
