import Mathlib.Data.Finset.Card
import Mathlib.Data.Finset.Range

/-!
# Chains of linked cells

A memory holds cells, each with an item and the address of the next cell. `Linked` says which cells one comes past when following the
links; it splits where the list of the cells does, depends on those cells only, and its end can be redirected.
-/

namespace Chain

variable {α : Type}

/-- A cell, and the address of the next one. -/
structure Cell (α : Type) where
  item : α
  next : Option Nat

/-- The cells at their addresses. -/
abbrev Memory (α : Type) := Nat → Option (Cell α)

/-- From `p` the links lead past these cells, given by address and item, to `q`. -/
def Linked (m : Memory α) : Option Nat → List (Nat × α) → Option Nat → Prop
  | p, [], q => p = q
  | p, c :: cells, q => p = some c.1 ∧ ∃ next, m c.1 = some ⟨c.2, next⟩ ∧ Linked m next cells q

variable {m m' : Memory α} {p q r : Option Nat} {c : Nat × α} {cells cells' : List (Nat × α)}

@[simp] theorem linked_nil : Linked m p [] q ↔ p = q := Iff.rfl

theorem linked_cons : Linked m p (c :: cells) q ↔ p = some c.1 ∧ ∃ next, m c.1 = some ⟨c.2, next⟩ ∧ Linked m next cells q := Iff.rfl

/-- A chain splits where the list of its cells does. -/
theorem linked_append : Linked m p (cells ++ cells') q ↔ ∃ r, Linked m p cells r ∧ Linked m r cells' q := by
  induction cells generalizing p with
  | nil => simp
  | cons c cells ih =>
    simp only [List.cons_append, linked_cons, ih]
    constructor
    · rintro ⟨hp, next, hm, r, h, h'⟩
      exact ⟨r, ⟨hp, next, hm, h⟩, h'⟩
    · rintro ⟨r, ⟨hp, next, hm, h⟩, h'⟩
      exact ⟨hp, next, hm, r, h, h'⟩

/-- The first cell. -/
theorem Linked.head (h : Linked m p (c :: cells) q) : p = some c.1 := h.1

/-- A chain with an end is empty exactly when it starts there. -/
theorem Linked.eq_nil_iff (h : Linked m p cells none) : cells = [] ↔ p = none := by
  cases cells with
  | nil => simpa using h
  | cons c cells => simp [h.1]

/-- Only the cells of a chain matter. -/
theorem Linked.congr (h : Linked m p cells q) (hm : ∀ c ∈ cells, m' c.1 = m c.1) : Linked m' p cells q := by
  induction cells generalizing p with
  | nil => exact h
  | cons c cells ih =>
    obtain ⟨hp, next, hc, h⟩ := h
    refine ⟨hp, next, ?_, ih h fun d hd => hm d (List.mem_cons_of_mem _ hd)⟩
    rw [hm c List.mem_cons_self]
    exact hc

/-- A write elsewhere leaves a chain alone. -/
theorem Linked.update (h : Linked m p cells q) {a : Nat} (ha : a ∉ cells.map Prod.fst) (cell : Option (Cell α)) :
    Linked (Function.update m a cell) p cells q := by
  refine h.congr ?_
  intro c hc
  refine Function.update_of_ne ?_ _ _
  rintro rfl
  exact ha (List.mem_map_of_mem hc)

/-- The end of a chain is redirected by a write to its last cell. -/
theorem Linked.redirect (h : Linked m p (cells ++ [c]) q) (hnodup : ((cells ++ [c]).map Prod.fst).Nodup) (r : Option Nat) :
    Linked (Function.update m c.1 (some ⟨c.2, r⟩)) p (cells ++ [c]) r := by
  obtain ⟨s, hcells, hs, -⟩ := linked_append.1 h
  rw [List.map_append, List.nodup_append] at hnodup
  have hc : c.1 ∉ cells.map Prod.fst := fun hmem => hnodup.2.2 _ hmem c.1 (by simp) rfl
  exact linked_append.2 ⟨s, hcells.update hc _, hs, r, Function.update_self _ _ _, rfl⟩

/-- There are at most as many different cells as addresses. -/
theorem length_le (hnodup : (cells.map Prod.fst).Nodup) {n : Nat} (hlt : ∀ c ∈ cells, c.1 < n) : cells.length ≤ n := by
  have hsub : (cells.map Prod.fst).toFinset ⊆ Finset.range n := by
    intro a ha
    obtain ⟨c, hc, rfl⟩ := List.mem_map.1 (List.mem_toFinset.1 ha)
    exact Finset.mem_range.2 (hlt c hc)
  have hcard := Finset.card_le_card hsub
  rwa [List.toFinset_card_of_nodup hnodup, List.length_map, Finset.card_range] at hcard

end Chain
