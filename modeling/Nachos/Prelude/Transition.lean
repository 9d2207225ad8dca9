import Mathlib.Logic.Relation

/-!
# Transition systems

Reachable states, the induction rule for invariants, and simulations: a map between the states of two systems under which every
step of the first is a sequence of steps of the second, so that what holds of the second in all reachable states holds of the
image of every reachable state of the first. Steps that carry a label are compared by the labels of their runs.
-/

namespace Transition

variable {σ τ : Type}

/-- A transition system: its initial states and its steps. -/
structure System (σ : Type) where
  init : σ → Prop
  step : σ → σ → Prop

namespace System

/-- The states of the runs of a system. -/
inductive Reachable (M : System σ) : σ → Prop where
  | init {s : σ} : M.init s → Reachable M s
  | step {s s' : σ} : Reachable M s → M.step s s' → Reachable M s'

/-- What holds initially and is kept by every step out of a reachable state holds in every reachable state. -/
theorem Reachable.invariant {M : System σ} {I : σ → Prop} (h0 : ∀ s, M.init s → I s)
    (hs : ∀ s s', M.Reachable s → I s → M.step s s' → I s') {s : σ} (h : M.Reachable s) : I s := by
  induction h with
  | init hi => exact h0 _ hi
  | step hr hst ih => exact hs _ _ hr ih hst

/-- Sequences of steps stay among the reachable states. -/
theorem Reachable.steps {M : System σ} {s s' : σ} (h : M.Reachable s) (hs : Relation.ReflTransGen M.step s s') :
    M.Reachable s' := by
  induction hs with
  | refl => exact h
  | tail _ hst ih => exact .step ih hst

end System

/-- `f` maps the runs of `M` to runs of `N`: a step out of a reachable state becomes no, one or several steps. -/
structure Simulation (M : System σ) (N : System τ) (f : σ → τ) : Prop where
  init : ∀ s, M.init s → N.init (f s)
  step : ∀ s s', M.Reachable s → M.step s s' → Relation.ReflTransGen N.step (f s) (f s')

/-- The image of a reachable state is reachable. -/
theorem Simulation.reachable {M : System σ} {N : System τ} {f : σ → τ} (h : Simulation M N f) {s : σ} (hr : M.Reachable s) :
    N.Reachable (f s) := by
  induction hr with
  | init hi => exact .init (h.init _ hi)
  | step hr hst ih => exact ih.steps (h.step _ _ hr hst)

/-! ## Runs with labels -/

variable {Label : Type}

/-- A run of labelled steps. -/
inductive Run (step : σ → Label → σ → Prop) : σ → List Label → σ → Prop where
  | nil (s : σ) : Run step s [] s
  | cons {s s' s'' : σ} {l : Label} {ls : List Label} : step s l s' → Run step s' ls s'' → Run step s (l :: ls) s''

/-- When every step has a step with the same label on the other side of a relation, so has every run. -/
theorem Run.simulate {step : σ → Label → σ → Prop} {step' : τ → Label → τ → Prop} {R : σ → τ → Prop}
    (h : ∀ s t l s', R s t → step s l s' → ∃ t', step' t l t' ∧ R s' t') {s s' : σ} {t : τ} {ls : List Label} (hR : R s t)
    (hr : Run step s ls s') : ∃ t', Run step' t ls t' ∧ R s' t' := by
  induction hr generalizing t with
  | nil s => exact ⟨t, .nil t, hR⟩
  | cons hs _ ih =>
    obtain ⟨t₁, ht, hR₁⟩ := h _ _ _ _ hR hs
    obtain ⟨t', hr', hR'⟩ := ih hR₁
    exact ⟨t', .cons ht hr', hR'⟩

/-- What every step keeps holds at the end of a run. -/
theorem Run.invariant {step : σ → Label → σ → Prop} {I : σ → Prop} (h : ∀ s l s', I s → step s l s' → I s') {s s' : σ} {ls : List Label}
    (hr : Run step s ls s') (h0 : I s) : I s' := by
  induction hr with
  | nil s => exact h0
  | cons hs _ ih => exact ih (h _ _ _ h0 hs)

/-- When a measure falls with every step, a run has at most as many steps as the measure was high. -/
theorem Run.length_le {step : σ → Label → σ → Prop} {I : σ → Prop} {measure : σ → Nat}
    (h : ∀ s l s', I s → step s l s' → I s' ∧ measure s' < measure s) {s s' : σ} {ls : List Label} (hr : Run step s ls s') (h0 : I s) :
    ls.length + measure s' ≤ measure s := by
  induction hr with
  | nil s => exact Nat.le_of_eq (Nat.zero_add _)
  | cons hs _ ih =>
    obtain ⟨h1, hlt⟩ := h _ _ _ h0 hs
    have hle := ih h1
    rw [List.length_cons]
    omega

/-- Then there is a run to a state without a next step. -/
theorem Run.exists_last {step : σ → Label → σ → Prop} {I : σ → Prop} {measure : σ → Nat}
    (h : ∀ s l s', I s → step s l s' → I s' ∧ measure s' < measure s) {s : σ} (h0 : I s) :
    ∃ ls s', Run step s ls s' ∧ I s' ∧ ∀ l s'', ¬step s' l s'' := by
  induction hn : measure s using Nat.strongRecOn generalizing s with
  | ind n ih =>
    by_cases hlast : ∀ l s', ¬step s l s'
    · exact ⟨[], s, .nil s, h0, hlast⟩
    · obtain ⟨l, hl⟩ := Classical.not_forall.1 hlast
      obtain ⟨s₁, hne⟩ := Classical.not_forall.1 hl
      have hs : step s l s₁ := Classical.not_not.1 hne
      obtain ⟨h1, hlt⟩ := h _ _ _ h0 hs
      obtain ⟨ls, s', hr, hend⟩ := ih (measure s₁) (hn ▸ hlt) h1 rfl
      exact ⟨l :: ls, s', .cons hs hr, hend⟩

/-- A run of some of the steps is a run. -/
theorem Run.mono {step step' : σ → Label → σ → Prop} (h : ∀ s l s', step s l s' → step' s l s') {s s' : σ} {ls : List Label}
    (hr : Run step s ls s') : Run step' s ls s' := by
  induction hr with
  | nil s => exact .nil s
  | cons hs _ ih => exact .cons (h _ _ _ hs) ih

end Transition
