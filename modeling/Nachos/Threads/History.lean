import Nachos.Threads.Placement

/-!
# What the history of the scheduler says

`History` ties the events recorded so far to the state: the ready list is what was made ready and not dispatched yet, in the order
it was made ready, and a thread that has finished is deleted once, by the thread dispatched after it.
-/

namespace Nachos

open Loop

variable {c : Client}

/-- The threads made ready so far, the last one first. -/
def readied (h : List Event) : List Tid :=
  h.filterMap fun
    | .readied t => some t
    | _ => none

/-- The threads dispatched so far, the last one first. -/
def dispatched (h : List Event) : List Tid :=
  h.filterMap fun
    | .dispatched t => some t
    | _ => none

/-- The stack of a thread that has started and has not finished. -/
structure Alive {Pc : Type} (st : List (Frame Pc)) : Prop where
  ne_nil : st ≠ []
  ne_carcass : st ≠ [.runTail]
  ne_finishing : st ≠ [.sleep true]

namespace Kernel

/-- The main thread, and every thread that was forked. -/
def Started (k : Kernel c) (t : Tid) : Prop := t = mainThread ∨ .forked t ∈ k.history

/-- What the events say about the ready list and the threads. -/
structure Recorded (k : Kernel c) : Prop where
  order : readied k.history = k.readyList.reverse ++ dispatched k.history
  current : k.currentThread = (dispatched k.history).headD mainThread
  started : ∀ t, k.stack t ≠ [] → k.Started t
  alive : ∀ t, k.Started t → .finished t ∉ k.history → Alive (k.stack t)
  finished : ∀ t, .finished t ∈ k.history → ¬Alive (k.stack t) ∧ k.threadStatus t = .blocked
  deleted : ∀ t, .finished t ∈ k.history → k.stack t = [] → .deleted t ∈ k.history
  absent : ∀ t, .deleted t ∈ k.history → k.stack t = [] ∧ .finished t ∈ k.history
  once : ∀ t, k.history.count (.deleted t) ≤ 1
  deleted_after : ∀ new old t, k.history = new ++ .deleted t :: old →
    ∃ t' before, t' ≠ t ∧ old = .dispatched t' :: before ∧ .finished t ∈ before

/-- The history invariant: besides, a thread that waits to be deleted has finished before the current thread was dispatched. -/
structure History (k : Kernel c) : Prop extends Recorded k where
  carcass : ∀ t, k.toBeDestroyed = some t →
    ∃ old, k.history = .dispatched k.currentThread :: old ∧ .finished t ∈ old

theorem Started.cons {k k' : Kernel c} {t : Tid} (h : k.Started t) {e : Event} (hh : k'.history = e :: k.history) :
    k'.Started t := by
  rcases h with h | h
  · exact Or.inl h
  · exact Or.inr (by rw [hh]; exact List.mem_cons_of_mem _ h)

end Kernel

/-! ## Stacks that are alive -/

section Alive

variable {Pc : Type} {st : List (Frame Pc)}

theorem Base.alive (h : Base st) : Alive st := by
  cases h with
  | code pc => exact ⟨by simp, by simp, by simp⟩
  | restore m h => exact ⟨by simp, by simp, by simp⟩

theorem Parked.alive {o : Option SemId} (h : Parked o st) : Alive st := by
  cases h with
  | yielded h => exact ⟨by simp, by simp, by simp⟩
  | new h => exact ⟨by simp, by cases h <;> simp, by simp⟩
  | inP s h => exact ⟨by simp, by simp, by simp⟩

/-- Above the frames of a thread that is alive there are only frames of threads that are alive. -/
theorem Base.alive_cons (h : Base st) (f : Frame Pc) : Alive (f :: st) := by
  cases h with
  | code pc => exact ⟨by simp, by simp, by simp⟩
  | restore m h => exact ⟨by simp, by simp, by simp⟩

theorem Base.not_parked (h : Base st) (o : Option SemId) : ¬Parked o st := by
  intro hp
  cases h <;> cases hp

/-- A thread that is queued is alive. -/
theorem Placed.alive_of_queued {b : Bool} {l : Loc} {ts : ThreadStatus} (h : Placed b l ts st) (hl : l ≠ .nowhere) :
    Alive st := by
  cases h with
  | ready h => exact h.alive
  | waiting h => exact h.alive
  | asleep s h => exact ⟨by simp, by simp, by simp⟩
  | awake s h => exact ⟨by simp, by simp, by simp⟩
  | _ => exact absurd rfl hl

/-- The current thread is never a carcass. -/
theorem Placed.current {l : Loc} {ts : ThreadStatus} (h : Placed true l ts st) : st ≠ [] ∧ st ≠ [.runTail] := by
  cases h with
  | user h => exact ⟨h.alive.ne_nil, h.alive.ne_carcass⟩
  | dispatched h => exact ⟨h.alive.ne_nil, h.alive.ne_carcass⟩
  | setLevel h => exact ⟨by simp, by simp⟩
  | retest s h => exact ⟨by simp, by simp⟩
  | asleep s h => exact ⟨by simp, by simp⟩
  | awake s h => exact ⟨by simp, by simp⟩
  | finishing => exact ⟨by simp, by simp⟩

end Alive

namespace Kernel

variable {k : Kernel c} {loc : Tid → Loc}

/-! ## Changes that leave the lists alone -/

/-- The invariant does not look at the level, the flags, the status of the machine, the shared memory or the history. -/
theorem Inv.congr (hI : Inv k loc) {k' : Kernel c} (hr : k'.readyList = k.readyList) (hs : k'.semaphore = k.semaphore)
    (hc : k'.currentThread = k.currentThread) (ht : k'.threadStatus = k.threadStatus) (hst : k'.stack = k.stack)
    (hd : k'.toBeDestroyed = k.toBeDestroyed) : Inv k' loc := by
  refine ⟨⟨?_, ?_, ?_, ?_⟩, ?_, ?_, ?_⟩
  · rw [hr]; exact hI.ready_nodup
  · rw [hr]; exact hI.ready_iff
  · rw [hs]; exact hI.queue_nodup
  · rw [hs]; exact hI.queue_iff
  · rw [hc, ht, hst]; exact hI.placed
  · rw [hd, hst]; exact hI.carcass_iff
  · rw [hd, hst, hc]; exact hI.carcass_parked

/-- While the current thread is not parked, no thread waits to be deleted. -/
theorem Inv.no_carcass (hI : Inv k loc) (h : ∀ o, ¬Parked o (k.stack k.currentThread)) : k.toBeDestroyed = none := by
  by_contra hne
  obtain ⟨o, hp⟩ := hI.carcass_parked hne
  exact h o hp

/-- The place of the current thread. -/
theorem Inv.placed_current (hI : Inv k loc) :
    Placed true (loc k.currentThread) (k.threadStatus k.currentThread) (k.stack k.currentThread) := by
  have := hI.placed k.currentThread
  rwa [decide_eq_true rfl] at this

/-- The place of another thread. -/
theorem Inv.placed_other (hI : Inv k loc) {t : Tid} (ht : t ≠ k.currentThread) :
    Placed false (loc t) (k.threadStatus t) (k.stack t) := by
  have := hI.placed t
  rwa [decide_eq_false ht] at this

/-- The current thread changes its stack and stays where it is. -/
theorem Inv.setCurrentStack (hI : Inv k loc) (hd : k.toBeDestroyed = none) {st : List (Frame c.Pc)}
    (hp : Placed true (loc k.currentThread) (k.threadStatus k.currentThread) st) : Inv (k.setCurrentStack st) loc := by
  have hother : ∀ t, t ≠ k.currentThread → (k.setCurrentStack st).stack t = k.stack t :=
    fun t ht => Function.update_of_ne ht _ _
  have hcur : (k.setCurrentStack st).stack k.currentThread = st := Function.update_self _ _ _
  refine ⟨⟨hI.ready_nodup, hI.ready_iff, hI.queue_nodup, hI.queue_iff⟩, ?_, ?_, fun h => absurd hd h⟩
  · intro t
    by_cases ht : t = k.currentThread
    · subst ht
      rw [hcur]
      rwa [show decide (k.currentThread = (k.setCurrentStack st).currentThread) = true from decide_eq_true rfl]
    · rw [hother t ht]
      exact hI.placed t
  · intro t
    by_cases ht : t = k.currentThread
    · subst ht
      rw [hcur]
      refine iff_of_false ?_ hp.current.2
      intro h
      cases hd.symm.trans h
    · rw [hother t ht]
      exact hI.carcass_iff t

/-- With no thread waiting to be deleted the two forms of the invariant are the same. -/
theorem Recorded.history (hH : Recorded k) (hd : k.toBeDestroyed = none) : History k :=
  ⟨hH, fun t ht => by rw [hd] at ht; cases ht⟩

/-- The history stays true when every thread keeps being alive or not, there or not. -/
theorem Recorded.congr (hH : Recorded k) {k' : Kernel c} (hh : k'.history = k.history) (hr : k'.readyList = k.readyList)
    (hc : k'.currentThread = k.currentThread) (hst : ∀ t, Alive (k'.stack t) ↔ Alive (k.stack t))
    (hnil : ∀ t, k'.stack t = [] ↔ k.stack t = []) (hts : ∀ t, ¬Alive (k.stack t) → k'.threadStatus t = k.threadStatus t) :
    Recorded k' := by
  refine ⟨?_, ?_, ?_, ?_, ?_, ?_, ?_, ?_, ?_⟩
  · rw [hh, hr]; exact hH.order
  · rw [hc, hh]; exact hH.current
  · intro t hne
    unfold Started
    rw [hh]
    exact hH.started t (fun h => hne ((hnil t).2 h))
  · intro t hs hf
    unfold Started at hs
    rw [hh] at hs hf
    exact (hst t).2 (hH.alive t hs hf)
  · intro t hf
    rw [hh] at hf
    obtain ⟨h1, h2⟩ := hH.finished t hf
    exact ⟨fun h => h1 ((hst t).1 h), (hts t h1).trans h2⟩
  · intro t hf hn
    rw [hh] at hf ⊢
    exact hH.deleted t hf ((hnil t).1 hn)
  · intro t hf
    rw [hh] at hf ⊢
    exact ⟨(hnil t).2 (hH.absent t hf).1, (hH.absent t hf).2⟩
  · rw [hh]; exact hH.once
  · rw [hh]; exact hH.deleted_after

/-- Adding an event that is no deletion. -/
theorem Recorded.deleted_after_cons (hH : Recorded k) {e : Event} (he : ∀ t, e ≠ .deleted t) :
    ∀ new old t, e :: k.history = new ++ .deleted t :: old →
      ∃ t' before, t' ≠ t ∧ old = .dispatched t' :: before ∧ .finished t ∈ before := by
  intro new old t h
  cases new with
  | nil => exact absurd (List.cons.inj h).1 (he t)
  | cons e' new => exact hH.deleted_after new old t (List.cons.inj h).2

/-- A thread is put on the ready list. -/
theorem Recorded.readied (hH : Recorded k) {k' : Kernel c} {t : Tid} (ha : Alive (k.stack t))
    (hh : k'.history = .readied t :: k.history) (hr : k'.readyList = k.readyList ++ [t])
    (hc : k'.currentThread = k.currentThread) (hst : k'.stack = k.stack)
    (hts : ∀ t', t' ≠ t → k'.threadStatus t' = k.threadStatus t') : Recorded k' := by
  refine ⟨?_, ?_, ?_, ?_, ?_, ?_, ?_, ?_, ?_⟩
  · rw [hh, hr, List.reverse_append]
    show t :: Nachos.readied k.history = t :: (k.readyList.reverse ++ Nachos.dispatched k.history)
    rw [hH.order]
  · rw [hc, hh]
    exact hH.current
  · intro t' hne
    rw [hst] at hne
    exact (hH.started t' hne).cons hh
  · intro t' hs hf
    unfold Started at hs
    rw [hh] at hs hf
    rw [hst]
    exact hH.alive t' (by simpa [Started] using hs) (fun h => hf (List.mem_cons_of_mem _ h))
  · intro t' hf
    rw [hh] at hf
    have hf' : .finished t' ∈ k.history := by simpa using hf
    obtain ⟨h1, h2⟩ := hH.finished t' hf'
    refine ⟨by rwa [hst], (hts t' ?_).trans h2⟩
    rintro rfl
    exact h1 ha
  · intro t' hf hn
    rw [hh] at hf ⊢
    rw [hst] at hn
    exact List.mem_cons_of_mem _ (hH.deleted t' (by simpa using hf) hn)
  · intro t' hf
    rw [hh] at hf ⊢
    obtain ⟨h1, h2⟩ := hH.absent t' (by simpa using hf)
    exact ⟨by rwa [hst], List.mem_cons_of_mem _ h2⟩
  · intro t'
    rw [hh, List.count_cons]
    simpa using hH.once t'
  · rw [hh]
    exact hH.deleted_after_cons (by simp)

end Kernel

end Nachos
