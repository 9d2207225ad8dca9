import Nachos.Threads.Refinement

/-!
# Semaphores count

The counting invariant of semaphores, over all interleavings of threads without a scheduler: the value is the initial value with
the calls of `V` and `P` counted, and while threads wait there are at least as many woken threads that have not looked at the value
again as the value counts. Each way in which a step touches a semaphore keeps it.
-/

namespace Nachos

variable {c : Client}

namespace Abs

variable {a : Abs c}

/-- The threads queued on semaphore `s`. -/
def queue (a : Abs c) (s : SemId) : List Tid := (a.semaphore s).elim [] Semaphore.queue

/-- Thread `t` is in the loop of `P` on `s`. -/
def InP (a : Abs c) (s : SemId) (t : Tid) : Prop := ∃ pc, a.ctl t = .inP s pc

/-- Thread `t` is in the loop of `P` on `s` and was removed from its queue: it has not looked at the value again yet. -/
def Woken (a : Abs c) (s : SemId) (t : Tid) : Prop := a.InP s t ∧ t ∉ a.queue s

theorem queue_of {s : SemId} {x : Semaphore} (hs : a.semaphore s = some x) : a.queue s = x.queue := by
  unfold queue
  rw [hs]
  rfl

theorem setSemaphore_self (a : Abs c) (s : SemId) (y : Option Semaphore) : (a.setSemaphore s y).semaphore s = y :=
  Function.update_self _ _ _

theorem setSemaphore_other (a : Abs c) {s s' : SemId} (h : s' ≠ s) (y : Option Semaphore) :
    (a.setSemaphore s y).semaphore s' = a.semaphore s' := Function.update_of_ne h _ _

theorem queue_setSemaphore_other (a : Abs c) {s s' : SemId} (h : s' ≠ s) (y : Option Semaphore) :
    (a.setSemaphore s y).queue s' = a.queue s' := by
  unfold queue
  rw [setSemaphore_other a h]

theorem InP.unique {s s' : SemId} {t : Tid} (h : a.InP s t) (h' : a.InP s' t) : s' = s := by
  obtain ⟨pc, hpc⟩ := h
  obtain ⟨pc', hpc'⟩ := h'
  rw [hpc] at hpc'
  cases hpc'
  rfl

/-! ## The invariant -/

/-- What is counted of one semaphore. -/
structure SemCounted (x : Semaphore) : Prop where
  value_eq : x.value = x.initialValue + x.completedV - x.completedP
  value_nonneg : 0 ≤ x.initialValue → 0 ≤ x.value

/-- The woken threads are the elements of a list, which is as long as the value when somebody waits. -/
def Covered (a : Abs c) (s : SemId) : Prop :=
  ∃ woken : List Tid, woken.Nodup ∧ (∀ t, t ∈ woken ↔ a.Woken s t) ∧
    ∀ x, a.semaphore s = some x → x.queue ≠ [] → x.value ≤ woken.length

/-- The counting invariant. -/
structure Counted (a : Abs c) : Prop where
  queue_nodup : ∀ s, (a.queue s).Nodup
  queue_inP : ∀ s, ∀ t ∈ a.queue s, a.InP s t
  counted : ∀ s x, a.semaphore s = some x → SemCounted x
  covered : ∀ s, a.Covered s

/-- The invariant does not look at the shared memory, nor at the code a thread is at. -/
theorem Counted.congr (hC : Counted a) {a' : Abs c} (hs : a'.semaphore = a.semaphore) (hp : ∀ s t, a'.InP s t ↔ a.InP s t) :
    Counted a' := by
  have hq : ∀ s, a'.queue s = a.queue s := fun s => by
    unfold queue
    rw [hs]
  have hw : ∀ s t, a'.Woken s t ↔ a.Woken s t := fun s t => by
    unfold Woken
    rw [hp, hq]
  refine ⟨fun s => by rw [hq]; exact hC.queue_nodup s, ?_, by rw [hs]; exact hC.counted, ?_⟩
  · intro s t ht
    rw [hq] at ht
    exact (hp s t).2 (hC.queue_inP s t ht)
  · intro s
    obtain ⟨l, hnd, hl, hv⟩ := hC.covered s
    exact ⟨l, hnd, fun t => (hl t).trans (hw s t).symm, by rw [hs]; exact hv⟩

/-- A thread that is in no call of `P`, and goes on in code or ends. -/
theorem Counted.setCtl (hC : Counted a) {t : Tid} (ht : ∀ s, ¬a.InP s t) {y : Ctl c.Pc} (hy : ∀ s pc, y ≠ .inP s pc) :
    Counted (a.setCtl t y) := by
  refine hC.congr rfl ?_
  intro s t'
  unfold InP
  rcases eq_or_ne t' t with rfl | hne
  · rw [setCtl_self]
    exact iff_of_false (fun ⟨pc, h⟩ => hy s pc h) (ht s)
  · rw [setCtl_other a hne]

/-! ## V -/

/-- `V` keeps the counts of its semaphore. -/
theorem SemCounted.wake {x : Semaphore} (h : SemCounted x) : SemCounted x.wake := by
  have hv := h.value_eq
  refine ⟨?_, ?_⟩
  · show x.value + 1 = x.initialValue + (x.completedV + 1 : Nat) - x.completedP
    omega
  · intro hi
    have := h.value_nonneg hi
    show 0 ≤ x.value + 1
    omega

/-- The thread that `V` wakes accounts for the increment. -/
theorem Counted.covered_wake (hC : Counted a) {s : SemId} {x : Semaphore} (hs : a.semaphore s = some x) :
    (a.setSemaphore s (some x.wake)).Covered s := by
  have hq := queue_of hs
  have hq' : (a.setSemaphore s (some x.wake)).queue s = x.queue.tail := queue_of (setSemaphore_self a s _)
  obtain ⟨l, hnd, hl, hv⟩ := hC.covered s
  have hwoken : ∀ t, (a.setSemaphore s (some x.wake)).Woken s t ↔ a.InP s t ∧ t ∉ x.queue.tail := fun t => by
    unfold Woken
    rw [hq']
    rfl
  cases hx : x.queue with
  | nil =>
    refine ⟨l, hnd, ?_, ?_⟩
    · intro t
      rw [hl, hwoken, hx]
      unfold Woken
      rw [hq, hx]
      rfl
    · intro y hy hne
      rw [setSemaphore_self] at hy
      obtain rfl := Option.some.inj hy
      exact absurd (show x.queue.tail = [] by rw [hx]; rfl) hne
  | cons t₀ q =>
    have hnodup : (t₀ :: q).Nodup := by
      have := hC.queue_nodup s
      rwa [hq, hx] at this
    have hin : a.InP s t₀ := hC.queue_inP s t₀ (by rw [hq, hx]; exact List.mem_cons_self)
    have hold : ∀ t, t ∈ l ↔ a.InP s t ∧ t ∉ t₀ :: q := fun t => by
      rw [hl]
      unfold Woken
      rw [hq, hx]
    refine ⟨t₀ :: l, ?_, ?_, ?_⟩
    · refine List.nodup_cons.2 ⟨?_, hnd⟩
      intro h
      exact ((hold t₀).1 h).2 List.mem_cons_self
    · intro t
      rw [hwoken, hx, List.mem_cons, hold]
      constructor
      · rintro (rfl | ⟨h, hnot⟩)
        · exact ⟨hin, (List.nodup_cons.1 hnodup).1⟩
        · exact ⟨h, fun hm => hnot (List.mem_cons_of_mem _ hm)⟩
      · rintro ⟨h, hnot⟩
        by_cases ht : t = t₀
        · exact Or.inl ht
        · exact Or.inr ⟨h, fun hm => hnot ((List.mem_cons.1 hm).resolve_left ht)⟩
    · intro y hy _
      rw [setSemaphore_self] at hy
      obtain rfl := Option.some.inj hy
      have := hv x hs (by rw [hx]; exact List.cons_ne_nil _ _)
      show x.value + 1 ≤ ((t₀ :: l).length : Int)
      rw [List.length_cons]
      omega

theorem Counted.wake (hC : Counted a) {s : SemId} {x : Semaphore} (hs : a.semaphore s = some x) :
    Counted (a.setSemaphore s (some x.wake)) := by
  have hq := queue_of hs
  have hq' : (a.setSemaphore s (some x.wake)).queue s = x.queue.tail := queue_of (setSemaphore_self a s _)
  refine ⟨?_, ?_, ?_, ?_⟩
  · intro s'
    rcases eq_or_ne s' s with rfl | hne
    · rw [hq']
      exact (hq ▸ hC.queue_nodup s').tail
    · rw [queue_setSemaphore_other a hne]
      exact hC.queue_nodup s'
  · intro s' t ht
    rcases eq_or_ne s' s with rfl | hne
    · rw [hq'] at ht
      exact hC.queue_inP s' t (hq ▸ List.mem_of_mem_tail ht)
    · rw [queue_setSemaphore_other a hne] at ht
      exact hC.queue_inP s' t ht
  · intro s' y hy
    rcases eq_or_ne s' s with rfl | hne
    · rw [setSemaphore_self] at hy
      obtain rfl := Option.some.inj hy
      exact (hC.counted s' x hs).wake
    · rw [setSemaphore_other a hne] at hy
      exact hC.counted s' y hy
  · intro s'
    rcases eq_or_ne s' s with rfl | hne
    · exact hC.covered_wake hs
    · obtain ⟨l, hnd, hl, hv⟩ := hC.covered s'
      refine ⟨l, hnd, ?_, ?_⟩
      · intro t
        rw [hl]
        unfold Woken
        rw [queue_setSemaphore_other a hne]
        rfl
      · rw [setSemaphore_other a hne]
        exact hv

/-! ## P -/

/-- Thread `t` is about to look at the value of `s`: it is not in `P`, or was woken in `P` on `s`. -/
def Tests (a : Abs c) (s : SemId) (t : Tid) : Prop := ∀ s', a.InP s' t → s' = s ∧ t ∉ a.queue s

theorem Counted.tests_not_queued (hC : Counted a) {s : SemId} {t : Tid} (ht : a.Tests s t) (s' : SemId) : t ∉ a.queue s' := by
  intro h
  obtain ⟨rfl, hnot⟩ := ht s' (hC.queue_inP s' t h)
  exact hnot h

/-- The thread that has looked is no longer one of the woken. -/
theorem Counted.covered_test (hC : Counted a) {s : SemId} {x : Semaphore} (hs : a.semaphore s = some x) {t : Tid}
    (ht : a.Tests s t) {a' : Abs c} (hw : ∀ s' t', a'.Woken s' t' ↔ a.Woken s' t' ∧ t' ≠ t)
    (hother : ∀ s', s' ≠ s → a'.semaphore s' = a.semaphore s')
    (hself : ∀ (n : Nat) y, a'.semaphore s = some y → y.queue ≠ [] → (x.queue ≠ [] → x.value ≤ n + 1) → y.value ≤ n)
    (s' : SemId) : a'.Covered s' := by
  obtain ⟨l, hnd, hl, hv⟩ := hC.covered s'
  have hmem : ∀ t', t' ∈ l.erase t ↔ a'.Woken s' t' := fun t' => by
    rw [hnd.mem_erase_iff, hl, hw, and_comm]
  rcases eq_or_ne s' s with rfl | hne
  · refine ⟨l.erase t, hnd.erase t, hmem, fun y hy hne => hself _ y hy hne fun hx => (hv x hs hx).trans ?_⟩
    have := List.le_length_erase (a := t) (l := l)
    omega
  · have hnot : t ∉ l := fun h => hne (ht s' ((hl t).1 h).1).1
    rw [List.erase_of_not_mem hnot] at hmem
    refine ⟨l, hnd, hmem, ?_⟩
    rw [hother s' hne]
    exact hv

theorem SemCounted.take {x : Semaphore} (h : SemCounted x) (hv : x.value ≠ 0) : SemCounted x.take := by
  have heq := h.value_eq
  refine ⟨?_, ?_⟩
  · show x.value - 1 = x.initialValue + x.completedV - (x.completedP + 1 : Nat)
    omega
  · intro hi
    have := h.value_nonneg hi
    show 0 ≤ x.value - 1
    omega

/-- The end of `P`. -/
theorem Counted.take (hC : Counted a) {s : SemId} {x : Semaphore} (hs : a.semaphore s = some x) (hv : x.value ≠ 0) {t : Tid}
    (ht : a.Tests s t) (pc : c.Pc) : Counted ((a.setCtl t (.run pc)).setSemaphore s (some x.take)) := by
  obtain ⟨a', ha'⟩ : ∃ a', a' = (a.setCtl t (.run pc)).setSemaphore s (some x.take) := ⟨_, rfl⟩
  rw [← ha']
  have hself : a'.semaphore s = some x.take := by
    rw [ha']
    exact setSemaphore_self _ s _
  have hother : ∀ s', s' ≠ s → a'.semaphore s' = a.semaphore s' := fun s' hne => by
    rw [ha']
    exact setSemaphore_other _ hne _
  have hq : ∀ s', a'.queue s' = a.queue s' := fun s' => by
    rcases eq_or_ne s' s with rfl | hne
    · rw [queue_of hself, queue_of hs]
      rfl
    · unfold queue
      rw [hother s' hne]
  have hin : ∀ s' t', a'.InP s' t' ↔ a.InP s' t' ∧ t' ≠ t := fun s' t' => by
    rw [ha']
    show (∃ pc', (a.setCtl t (.run pc)).ctl t' = .inP s' pc') ↔ _
    rcases eq_or_ne t' t with rfl | hne
    · rw [setCtl_self]
      exact iff_of_false (fun ⟨_, h⟩ => by cases h) (fun h => h.2 rfl)
    · rw [setCtl_other a hne]
      exact (and_iff_left hne).symm
  have hw : ∀ s' t', a'.Woken s' t' ↔ a.Woken s' t' ∧ t' ≠ t := fun s' t' => by
    unfold Woken
    rw [hin, hq]
    exact and_right_comm
  refine ⟨fun s' => by rw [hq]; exact hC.queue_nodup s', ?_, ?_, ?_⟩
  · intro s' t' h
    rw [hq] at h
    refine (hin s' t').2 ⟨hC.queue_inP s' t' h, ?_⟩
    rintro rfl
    exact hC.tests_not_queued ht s' h
  · intro s' y hy
    rcases eq_or_ne s' s with rfl | hne
    · rw [hself] at hy
      obtain rfl := Option.some.inj hy
      exact (hC.counted s' x hs).take hv
    · rw [hother s' hne] at hy
      exact hC.counted s' y hy
  · refine hC.covered_test hs ht hw hother ?_
    intro n y hy hne hle
    rw [hself] at hy
    obtain rfl := Option.some.inj hy
    have := hle hne
    show x.value - 1 ≤ n
    omega

/-- A thread goes to sleep in `P`: the value is 0, so no increment is left for the woken threads. -/
theorem Counted.sleep (hC : Counted a) {s : SemId} {x : Semaphore} (hs : a.semaphore s = some x) (hv : x.value = 0) {t : Tid}
    (ht : a.Tests s t) (pc : c.Pc) : Counted ((a.setCtl t (.inP s pc)).setSemaphore s (some (x.enqueue t))) := by
  obtain ⟨a', ha'⟩ : ∃ a', a' = (a.setCtl t (.inP s pc)).setSemaphore s (some (x.enqueue t)) := ⟨_, rfl⟩
  rw [← ha']
  have hself : a'.semaphore s = some (x.enqueue t) := by
    rw [ha']
    exact setSemaphore_self _ s _
  have hother : ∀ s', s' ≠ s → a'.semaphore s' = a.semaphore s' := fun s' hne => by
    rw [ha']
    exact setSemaphore_other _ hne _
  have hq : a'.queue s = a.queue s ++ [t] := by
    rw [queue_of hself, queue_of hs]
    rfl
  have hqo : ∀ s', s' ≠ s → a'.queue s' = a.queue s' := fun s' hne => by
    unfold queue
    rw [hother s' hne]
  have hin : a'.InP s t := ⟨pc, by rw [ha']; exact setCtl_self a t _⟩
  have hino : ∀ s' t', t' ≠ t → (a'.InP s' t' ↔ a.InP s' t') := fun s' t' hne => by
    rw [ha']
    show (∃ pc', (a.setCtl t (.inP s pc)).ctl t' = .inP s' pc') ↔ _
    rw [setCtl_other a hne]
    rfl
  have hw : ∀ s' t', a'.Woken s' t' ↔ a.Woken s' t' ∧ t' ≠ t := fun s' t' => by
    unfold Woken
    rcases eq_or_ne t' t with rfl | hne
    · refine iff_of_false ?_ (fun h => h.2 rfl)
      intro h
      obtain rfl := hin.unique h.1
      exact h.2 (by rw [hq]; exact List.mem_append_right _ (List.mem_singleton_self _))
    · rw [hino s' t' hne, and_iff_left hne]
      rcases eq_or_ne s' s with rfl | hs'
      · rw [hq, List.mem_append, List.mem_singleton, or_iff_left hne]
      · rw [hqo s' hs']
  refine ⟨?_, ?_, ?_, ?_⟩
  · intro s'
    rcases eq_or_ne s' s with rfl | hne
    · rw [hq]
      refine List.nodup_append.2 ⟨hC.queue_nodup s', List.nodup_singleton t, ?_⟩
      intro u hu v hv
      rintro rfl
      exact hC.tests_not_queued ht s' (List.mem_singleton.1 hv ▸ hu)
    · rw [hqo s' hne]
      exact hC.queue_nodup s'
  · intro s' t' h
    rcases eq_or_ne s' s with rfl | hne
    · rw [hq] at h
      rcases List.mem_append.1 h with hm | hm
      · refine (hino s' t' ?_).2 (hC.queue_inP s' t' hm)
        rintro rfl
        exact hC.tests_not_queued ht s' hm
      · obtain rfl := List.mem_singleton.1 hm
        exact hin
    · rw [hqo s' hne] at h
      refine (hino s' t' ?_).2 (hC.queue_inP s' t' h)
      rintro rfl
      exact hC.tests_not_queued ht s' h
  · intro s' y hy
    rcases eq_or_ne s' s with rfl | hne
    · rw [hself] at hy
      obtain rfl := Option.some.inj hy
      have := hC.counted s' x hs
      exact ⟨this.value_eq, this.value_nonneg⟩
    · rw [hother s' hne] at hy
      exact hC.counted s' y hy
  · refine hC.covered_test hs ht hw hother ?_
    intro n y hy _ _
    rw [hself] at hy
    obtain rfl := Option.some.inj hy
    show x.value ≤ n
    omega

/-! ## Semaphores that come and go -/

theorem SemCounted.new (v : Int) : SemCounted (Semaphore.new v) := by
  refine ⟨?_, fun h => h⟩
  show v = v + (0 : Nat) - (0 : Nat)
  omega

/-- A semaphore with an empty queue is made or deleted. -/
theorem Counted.setSemaphore_empty (hC : Counted a) {s : SemId} (h : ∀ x, a.semaphore s = some x → x.queue = [])
    {y : Option Semaphore} (hy : ∀ x, y = some x → x.queue = [] ∧ SemCounted x) : Counted (a.setSemaphore s y) := by
  have hq : ∀ s', (a.setSemaphore s y).queue s' = a.queue s' := fun s' => by
    rcases eq_or_ne s' s with rfl | hne
    · have hold : a.queue s' = [] := by
        unfold queue
        cases hs : a.semaphore s' with
        | none => rfl
        | some x => exact h x hs
      rw [hold]
      unfold queue
      rw [setSemaphore_self]
      cases y with
      | none => rfl
      | some x => exact (hy x rfl).1
    · exact queue_setSemaphore_other a hne _
  refine ⟨fun s' => by rw [hq]; exact hC.queue_nodup s', ?_, ?_, ?_⟩
  · intro s' t ht
    rw [hq] at ht
    exact hC.queue_inP s' t ht
  · intro s' x hx
    rcases eq_or_ne s' s with rfl | hne
    · rw [setSemaphore_self] at hx
      exact (hy x hx).2
    · rw [setSemaphore_other a hne] at hx
      exact hC.counted s' x hx
  · intro s'
    obtain ⟨l, hnd, hl, hv⟩ := hC.covered s'
    refine ⟨l, hnd, ?_, ?_⟩
    · intro t
      rw [hl]
      unfold Woken
      rw [hq]
      rfl
    · intro x hx hne
      rcases eq_or_ne s' s with rfl | hs'
      · rw [setSemaphore_self] at hx
        exact absurd (hy x hx).1 hne
      · rw [setSemaphore_other a hs'] at hx
        exact hv x hx hne

/-! ## Runs -/

theorem not_inP_of_run {t : Tid} {pc : c.Pc} (h : a.ctl t = .run pc) (s : SemId) : ¬a.InP s t := by
  rintro ⟨pc', h'⟩
  rw [h] at h'
  cases h'

theorem not_inP_of_gone {t : Tid} (h : a.ctl t = .gone) (s : SemId) : ¬a.InP s t := by
  rintro ⟨pc', h'⟩
  rw [h] at h'
  cases h'

theorem Counted.wakes {ss : List SemId} {a' : Abs c} (h : Wakes ss a a') : Counted a → Counted a' := by
  induction h with
  | nil a => exact id
  | cons hs h ih => exact fun hC => ih (hC.wake hs)

/-- The effect of a call keeps the counts. -/
theorem Counted.effect (hC : Counted a) {t : Tid} {pc₀ pc : c.Pc} (ht : a.ctl t = .run pc₀) {call : Call c.Pc} {a' : Abs c}
    (h : Effect t pc call a a') : Counted a' := by
  have hnot := not_inP_of_run ht
  have hrun : Counted (a.setCtl t (.run pc)) := hC.setCtl hnot (fun s pc' h => by cases h)
  have htests : ∀ s, a.Tests s t := fun s s' hin => absurd hin (hnot s')
  cases h with
  | none => exact hrun
  | yield => exact hrun
  | setStatus => exact hrun
  | setLevel => exact hrun
  | oneTick => exact hrun
  | v hs => exact hrun.wake hs
  | take hs hv => exact hC.take hs hv (htests _) pc
  | sleep hs hv => exact hC.sleep hs hv (htests _) pc
  | fork hne hgone =>
    refine hrun.setCtl (not_inP_of_gone ?_) (fun s pc' h => by cases h)
    rwa [setCtl_other a hne]
  | finish => exact hC.setCtl hnot (fun s pc' h => by cases h)
  | newSemaphore v hs =>
    refine hrun.setSemaphore_empty ?_ ?_
    · intro x hx
      rw [show (a.setCtl t (.run pc)).semaphore = a.semaphore from rfl, hs] at hx
      cases hx
    · intro x hx
      obtain rfl := Option.some.inj hx
      exact ⟨rfl, .new v⟩
  | deleteSemaphore hs => exact hrun.setSemaphore_empty hs (fun x hx => by cases hx)

theorem Counted.threadStep (hC : Counted a) {t : Tid} {a' : Abs c} (h : ThreadStep t a a') : Counted a' := by
  cases h with
  | code ht hcode heff =>
    rename_i sh call
    have hC' : Counted { a with shared := sh } := hC.congr rfl (fun _ _ => Iff.rfl)
    exact hC'.effect ht heff
  | retestTake ht hs hq hv =>
    refine hC.take hs hv ?_ _
    intro s' hin
    rw [queue_of hs]
    exact ⟨InP.unique ⟨_, ht⟩ hin, hq⟩
  | retestSleep ht hs hq hv =>
    rename_i s pc x
    have hsleep := hC.sleep hs hv (t := t) (fun s' hin => ⟨InP.unique ⟨_, ht⟩ hin, by rwa [queue_of hs]⟩) pc
    rwa [setCtl_eq_self a ht] at hsleep

theorem Counted.step (hC : Counted a) {a' : Abs c} (h : Step a a') : Counted a' := by
  rcases h with ⟨t, h⟩ | ⟨d, hw⟩
  · exact hC.threadStep h
  · have hC' : Counted { a with shared := (c.device a.shared d).1 } := hC.congr rfl (fun _ _ => Iff.rfl)
    exact hC'.wakes hw

theorem counted_ofBoot (b : Boot c) : Counted (ofBoot b) := by
  have hctl : ∀ t s, ¬(ofBoot b).InP s t := by
    rintro t s ⟨pc, h⟩
    have h' : (if t = mainThread then Ctl.run b.pc else .gone) = .inP s pc := h
    split at h' <;> cases h'
  have hsem : ∀ s x, (ofBoot b).semaphore s = some x → ∃ v, x = Semaphore.new v := by
    intro s x hx
    obtain ⟨v, -, rfl⟩ := Option.map_eq_some_iff.1 hx
    exact ⟨v, rfl⟩
  have hq : ∀ s, (ofBoot b).queue s = [] := by
    intro s
    cases hs : (ofBoot b).semaphore s with
    | none =>
      unfold queue
      rw [hs]
      rfl
    | some x =>
      obtain ⟨v, rfl⟩ := hsem s x hs
      exact queue_of hs
  refine ⟨fun s => by rw [hq]; exact List.nodup_nil, ?_, ?_, ?_⟩
  · intro s t ht
    rw [hq] at ht
    cases ht
  · intro s x hx
    obtain ⟨v, rfl⟩ := hsem s x hx
    exact .new v
  · intro s
    refine ⟨[], List.nodup_nil, ?_, ?_⟩
    · intro t
      exact iff_of_false List.not_mem_nil (fun h => hctl t s h.1)
    · intro x hx hne
      obtain ⟨v, rfl⟩ := hsem s x hx
      exact absurd rfl hne

theorem counted_of_reachable {b : Boot c} (ha : (system b).Reachable a) : Counted a := by
  refine ha.invariant (I := Counted) ?_ (fun _ _ _ hC h => hC.step h)
  rintro a rfl
  exact counted_ofBoot b

end Abs

/-! ## The frames of P -/

/-- A stack has a frame of the loop of `P` exactly when its abstraction is in `P`. -/
def FramesOfP {Pc : Type} (st : List (Frame Pc)) : Prop :=
  ∀ s, (∃ oldLevel, .semaphoreP s oldLevel ∈ st) ↔ ∃ pc, ctl st = .inP s pc

section FramesOfP

variable {Pc : Type} {st : List (Frame Pc)}

theorem FramesOfP.cons (h : FramesOfP st) {f : Frame Pc} (hf : ∀ s l, f ≠ .semaphoreP s l) (hctl : ctl (f :: st) = ctl st) :
    FramesOfP (f :: st) := by
  intro s
  rw [hctl, ← h s]
  refine exists_congr ?_
  intro l
  rw [List.mem_cons, or_iff_right (fun h => hf s l h.symm)]

theorem Base.framesOfP (h : Base st) : FramesOfP st := by
  induction h with
  | code pc =>
    intro s
    refine iff_of_false ?_ ?_
    · rintro ⟨l, hl⟩
      cases List.mem_singleton.1 hl
    · rintro ⟨pc', hpc⟩
      cases hpc
  | restore m h ih => exact ih.cons (fun s l h => by cases h) rfl

theorem Base.framesOfP_semaphoreP (h : Base st) (s : SemId) (old : IntStatus) : FramesOfP (.semaphoreP s old :: st) := by
  obtain ⟨pc, hpc⟩ := h.ctl_eq
  have hctl : ctl (.semaphoreP s old :: st) = .inP s pc := by simp only [ctl, hpc]
  intro s'
  rw [hctl]
  constructor
  · rintro ⟨l, hl⟩
    rcases List.mem_cons.1 hl with h' | h'
    · cases h'
      exact ⟨pc, rfl⟩
    · obtain ⟨pc', hpc'⟩ := (h.framesOfP s').1 ⟨l, h'⟩
      rw [hpc] at hpc'
      cases hpc'
  · rintro ⟨pc', hpc'⟩
    cases hpc'
    exact ⟨old, List.mem_cons_self⟩

theorem Parked.framesOfP {o : Option SemId} (h : Parked o st) : FramesOfP st := by
  cases h with
  | yielded h => exact (h.base.framesOfP.cons (fun s l h => by cases h) rfl).cons (fun s l h => by cases h) rfl
  | new h => exact h.framesOfP.cons (fun s l h => by cases h) rfl
  | inP s h => exact (h.base.framesOfP_semaphoreP s _).cons (fun s l h => by cases h) rfl

theorem framesOfP_nil : FramesOfP ([] : List (Frame Pc)) := by
  intro s
  refine iff_of_false ?_ ?_
  · rintro ⟨l, hl⟩
    cases hl
  · rintro ⟨pc, hpc⟩
    cases hpc

theorem Placed.framesOfP {b : Bool} {l : Loc} {ts : ThreadStatus} (h : Placed b l ts st) : FramesOfP st := by
  cases h with
  | user h => exact h.framesOfP
  | setLevel h => exact h.base.framesOfP.cons (fun s l h => by cases h) rfl
  | retest s h => exact h.base.framesOfP_semaphoreP s _
  | dispatched h => exact h.framesOfP
  | ready h => exact h.framesOfP
  | waiting h => exact h.framesOfP
  | asleep s h => exact (h.base.framesOfP_semaphoreP s _).cons (fun s l h => by cases h) rfl
  | awake s h => exact (h.base.framesOfP_semaphoreP s _).cons (fun s l h => by cases h) rfl
  | finishing => exact framesOfP_nil.cons (fun s l h => by cases h) rfl
  | carcass => exact framesOfP_nil.cons (fun s l h => by cases h) rfl
  | absent => exact framesOfP_nil

end FramesOfP

/-! ## The semaphores of the kernel -/

namespace Kernel

variable {k : Kernel c}

/-- Thread `t` was removed from the queue of `s` by `V`, inside `P`, and has not looked at the value again: it still has the frame
of the loop of `P`, and is not queued. -/
def WokenOn (k : Kernel c) (s : SemId) (t : Tid) : Prop :=
  (∃ oldLevel, .semaphoreP s oldLevel ∈ k.stack t) ∧ ∀ x, k.semaphore s = some x → t ∉ x.queue

theorem woken_iff (hG : Good k) {s : SemId} {x : Semaphore} (hx : k.semaphore s = some x) (t : Tid) :
    k.abs.Woken s t ↔ k.WokenOn s t := by
  obtain ⟨loc, hI⟩ := hG.inv
  unfold Abs.Woken WokenOn
  rw [(hI.placed t).framesOfP s, Abs.queue_of (a := k.abs) hx]
  refine and_congr Iff.rfl ⟨?_, fun h => h x hx⟩
  intro h y hy
  rw [hx] at hy
  cases hy
  exact h

/-- In every reachable state of every client, the value of a semaphore is what the calls of `V` and `P` make it, it is not negative
when it was not at the start, and no thread stays queued while the value counts more than the woken threads. -/
theorem semaphore_counts {b : Boot c} (hk : (system b).Reachable k) {s : SemId} {x : Semaphore} (hx : k.semaphore s = some x) :
    (0 ≤ x.initialValue → 0 ≤ x.value) ∧ x.value = x.initialValue + x.completedV - x.completedP ∧
      ∃ woken : List Tid, woken.Nodup ∧ (∀ t, t ∈ woken ↔ k.WokenOn s t) ∧ (x.queue ≠ [] → x.value ≤ woken.length) := by
  have hC := Abs.counted_of_reachable (abs_reachable hk)
  have hcounted := hC.counted s x hx
  obtain ⟨l, hnd, hl, hv⟩ := hC.covered s
  exact ⟨hcounted.value_nonneg, hcounted.value_eq, l, hnd, fun t => (hl t).trans (woken_iff (good_of_reachable hk) hx t),
    hv x hx⟩

/-- A client with two threads that wait on a semaphore and a main thread that calls `V` on it. -/
def waiters : Client where
  Shared := Unit
  Pc := Nat
  Input := Unit
  Device := Empty
  code := fun _ _ pc _ =>
    match pc with
    | 0 => .ok ((), .fork 1 5, 1)
    | 1 => .ok ((), .fork 2 5, 2)
    | 2 => .ok ((), .yield, 3)
    | 3 => .ok ((), .v 0, 4)
    | 4 => .ok ((), .none, 4)
    | 5 => .ok ((), .p 0, 6)
    | _ => .ok ((), .finish, 6)
  device := nofun

/-- Its run up to the point where thread 1 was woken and thread 2 still waits. -/
def waitersRun : Option (Kernel waiters) :=
  (Boot.kernel (c := waiters) { shared := (), pc := (0 : Nat), semaphores := fun s => if s = 0 then some 0 else none }).execute
    (List.replicate 18 { input := (), due := [] })

theorem semaphore_counts_waiters : ∃ (k : Kernel waiters) (x : Semaphore), k.semaphore 0 = some x ∧ x.value = 1 ∧ x.queue = [2] ∧
    ∃ woken : List Tid, woken.Nodup ∧ (∀ t, t ∈ woken ↔ k.WokenOn 0 t) ∧ (x.queue ≠ [] → x.value ≤ woken.length) := by
  have hrun : (waitersRun.bind fun k => (k.semaphore 0).map fun x => (x.value, x.queue)) = some (1, [2]) := by decide +kernel
  obtain ⟨k, hk, hh⟩ := Option.bind_eq_some_iff.1 hrun
  obtain ⟨x, hx, hh⟩ := Option.map_eq_some_iff.1 hh
  obtain ⟨hv, hq⟩ := Prod.mk.inj hh
  exact ⟨k, x, hx, hv, hq, (semaphore_counts (reachable_of_execute (.init rfl) hk) hx).2.2⟩

end Kernel

end Nachos
