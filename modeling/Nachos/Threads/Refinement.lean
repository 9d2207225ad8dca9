import Nachos.Threads.StepSpec

/-!
# The kernel refines threads without a scheduler

The start of a client has the invariants, every step keeps them, and every step is a sequence of steps of Abstract. So the
invariants hold in all reachable states, and every invariant of Abstract holds of the kernel.
-/

namespace Nachos

open Loop Transition

variable {c : Client}

/-- A new semaphore has an empty queue. -/
theorem Boot.queue_empty (b : Boot c) {s : SemId} {x : Semaphore} (h : b.kernel.semaphore s = some x) : x.queue = [] := by
  obtain ⟨v, -, rfl⟩ := Option.map_eq_some_iff.1 h
  rfl

theorem Boot.stack_main (b : Boot c) : b.kernel.stack mainThread = [.setLevel .on, .code b.pc] := rfl

theorem Boot.stack_other (b : Boot c) {t : Tid} (ht : t ≠ mainThread) : b.kernel.stack t = [] := if_neg ht

namespace Kernel

/-- At the start only the main thread is there, about to enable interrupts. -/
theorem inv_boot (b : Boot c) : Inv b.kernel (fun _ => .nowhere) := by
  refine ⟨⟨List.nodup_nil, ?_, ?_, ?_⟩, ?_, ?_, fun h => absurd rfl h⟩
  · intro t
    exact iff_of_false List.not_mem_nil (fun h => by cases h)
  · intro s x hx
    rw [b.queue_empty hx]
    exact List.nodup_nil
  · intro s t
    refine iff_of_false (fun h => by cases h) ?_
    rintro ⟨x, hx, ht⟩
    rw [b.queue_empty hx] at ht
    exact List.not_mem_nil ht
  · intro t
    by_cases ht : t = mainThread
    · subst ht
      exact .setLevel (.code .on b.pc)
    · rw [decide_eq_false (show t ≠ b.kernel.currentThread from ht), b.stack_other ht]
      exact .absent _
  · intro t
    refine iff_of_false (fun h => by cases h) ?_
    by_cases ht : t = mainThread
    · subst ht
      rw [b.stack_main]
      exact fun h => by cases h
    · rw [b.stack_other ht]
      exact fun h => by cases h

theorem good_boot (b : Boot c) : Good b.kernel := by
  have hrec : Recorded b.kernel := by
    refine ⟨rfl, rfl, ?_, ?_, ?_, ?_, ?_, ?_, ?_⟩
    · intro t h
      by_contra hns
      exact h (b.stack_other fun ht => hns (Or.inl ht))
    · intro t hs _
      rcases hs with rfl | hs
      · rw [b.stack_main]
        exact (Base.code b.pc).alive_cons _
      · cases hs
    · intro t h
      cases h
    · intro t h
      cases h
    · intro t h
      cases h
    · intro t
      exact Nat.zero_le 1
    · intro new old t h
      cases new <;> cases h
  have hC : Calm b.kernel := ⟨⟨_, inv_boot b⟩, hrec, rfl⟩
  refine hC.good ⟨rfl, ?_, fun _ => rfl⟩
  intro h
  have hb : Base (b.kernel.stack mainThread) := h
  rw [b.stack_main] at hb
  cases hb

/-- The invariants hold in every reachable state. -/
theorem good_of_reachable {b : Boot c} {k : Kernel c} (hk : (system b).Reachable k) : Good k := by
  refine hk.invariant (I := Good) ?_ ?_
  · rintro k rfl
    exact good_boot b
  · rintro k k' - hG ⟨ch, hallowed, hstep⟩
    exact ((step_ends hG hallowed).of_ok hstep).1

theorem abs_boot (b : Boot c) : b.kernel.abs = Abs.ofBoot b := by
  unfold abs Abs.ofBoot
  congr 1
  funext t
  by_cases ht : t = mainThread
  · subst ht
    rfl
  · rw [b.stack_other ht, if_neg ht]
    rfl

/-- The kernel refines threads without a scheduler. -/
theorem refines (b : Boot c) : Simulation (system b) (Abs.system b) Kernel.abs := by
  refine ⟨?_, ?_⟩
  · rintro k rfl
    exact abs_boot b
  · rintro k k' hk ⟨ch, hallowed, hstep⟩
    exact ((step_ends (good_of_reachable hk) hallowed).of_ok hstep).2.steps

/-- What holds of the abstraction in every reachable state holds of the kernel. -/
theorem abs_reachable {b : Boot c} {k : Kernel c} (hk : (system b).Reachable k) : (Abs.system b).Reachable k.abs :=
  (refines b).reachable hk

end Kernel

end Nachos
