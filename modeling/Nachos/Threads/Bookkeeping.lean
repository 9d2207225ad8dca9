import Nachos.Threads.Refinement

/-!
# Thread bookkeeping

What the invariants say about every reachable state: where each thread is, in which order threads are dispatched, when a finished
thread is deleted, and that no `ASSERT` of the scheduler fails.
-/

namespace Nachos

open Loop

variable {c : Client}

namespace Kernel

variable {k : Kernel c} {loc : Tid → Loc}

/-- The thread is the current one, with status RUNNING, or it is once on the ready list, with status READY, or once on one semaphore
queue, with status BLOCKED; and it is in no other of these places. -/
inductive InOnePlace (k : Kernel c) (t : Tid) : Prop where
  | current (hc : k.currentThread = t) (hs : k.threadStatus t = .running) (hr : t ∉ k.readyList)
      (hq : ∀ s x, k.semaphore s = some x → t ∉ x.queue)
  | ready (hc : k.currentThread ≠ t) (hs : k.threadStatus t = .ready) (hr : k.readyList.count t = 1)
      (hq : ∀ s x, k.semaphore s = some x → t ∉ x.queue)
  | blocked (hc : k.currentThread ≠ t) (hs : k.threadStatus t = .blocked) (hr : t ∉ k.readyList) {s : SemId} {x : Semaphore}
      (hx : k.semaphore s = some x) (hq : x.queue.count t = 1)
      (hothers : ∀ s' x', s' ≠ s → k.semaphore s' = some x' → t ∉ x'.queue)

/-- The bookkeeping of the scheduler. -/
structure Bookkeeping (k : Kernel c) : Prop where
  /-- Whenever interrupts are enabled, a thread that has started and has not finished is in one place. -/
  one_place : k.level = .on → ∀ t, k.Started t → .finished t ∉ k.history → k.InOnePlace t
  /-- The threads dispatched so far and then the ready list are the threads made ready, in the order in which they were. -/
  order : (dispatched k.history).reverse ++ k.readyList = (readied k.history).reverse
  /-- The current thread is the one dispatched last. -/
  current : k.currentThread = (dispatched k.history).headD mainThread
  deleted_once : ∀ t, k.history.count (.deleted t) ≤ 1
  /-- A thread is deleted after it has finished, right after another thread was dispatched. -/
  deleted_after : ∀ new old t, k.history = new ++ .deleted t :: old →
    ∃ t' before, t' ≠ t ∧ old = .dispatched t' :: before ∧ .finished t ∈ before
  /-- Whenever interrupts are enabled, every finished thread is deleted. -/
  deleted_in_time : k.level = .on → ∀ t, .finished t ∈ k.history → .deleted t ∈ k.history
  deleted_not_current : ∀ t, .deleted t ∈ k.history → k.currentThread ≠ t
  /-- No step fails an `ASSERT` of the kernel: it stops only by `Halt`, at a semaphore that is not there, or at an `ASSERT` of the
  code of the client. -/
  no_assert : ∀ ch, k.AllowedStep ch → ∀ e, k.step ch = .error e → e = .halted ∨ e = .nullDereference ∨ k.ClientFails ch e

/-- A located thread is in the queue of at most that semaphore. -/
theorem Located.not_queued (hL : Located k loc) {t : Tid} {s : SemId} {x : Semaphore} (hx : k.semaphore s = some x)
    (h : loc t ≠ .queue s) : t ∉ x.queue := fun ht => h ((hL.queue_iff s t).2 ⟨x, hx, ht⟩)

/-- Between two steps with interrupts enabled, every thread is in one place. -/
theorem Good.inOnePlace (hG : Good k) (hl : k.level = .on) {t : Tid} (ha : Alive (k.stack t)) : k.InOnePlace t := by
  obtain ⟨loc, hI⟩ := hG.inv
  have hb : Base (k.stack k.currentThread) := by
    by_contra hb
    rw [hG.settled.off hb] at hl
    cases hl
  by_cases ht : t = k.currentThread
  · subst ht
    obtain ⟨-, hloc, hs⟩ := hI.placed_current.of_base hb
    refine .current rfl hs ?_ (fun s x hx => hI.not_queued hx ?_)
    · rw [hI.ready_iff, hloc]
      exact fun h => by cases h
    · rw [hloc]
      exact fun h => by cases h
  · have hne : k.currentThread ≠ t := fun h => ht h.symm
    have hp := hI.placed_other ht
    generalize hloc : loc t = l at hp
    generalize hts : k.threadStatus t = ts at hp
    generalize k.stack t = st at hp ha
    cases hp with
    | ready h =>
      refine .ready hne hts ?_ (fun s x hx => hI.not_queued hx (by rw [hloc]; exact fun h => by cases h))
      exact List.count_eq_one_of_mem hI.ready_nodup ((hI.ready_iff t).2 hloc)
    | @waiting s st h =>
      obtain ⟨x, hx, hq⟩ := (hI.queue_iff s t).1 hloc
      refine .blocked hne hts ?_ hx (List.count_eq_one_of_mem (hI.queue_nodup s x hx) hq) ?_
      · rw [hI.ready_iff, hloc]
        exact fun h => by cases h
      · intro s' x' hs' hx'
        refine hI.not_queued hx' ?_
        rw [hloc]
        exact fun h => hs' (Loc.queue.inj h).symm
    | carcass => exact absurd rfl ha.ne_carcass
    | absent => exact absurd rfl ha.ne_nil

/-- Between two steps with interrupts enabled, no thread waits to be deleted. -/
theorem Good.deleted_of_finished (hG : Good k) (hl : k.level = .on) {t : Tid} (hf : .finished t ∈ k.history) :
    .deleted t ∈ k.history := by
  have hb : Base (k.stack k.currentThread) := by
    by_contra hb
    rw [hG.settled.off hb] at hl
    cases hl
  obtain ⟨loc, hI⟩ := hG.inv
  have hdead := (hG.history.finished t hf).1
  refine hG.history.deleted t hf ?_
  have hne : t ≠ k.currentThread := by
    rintro rfl
    exact hdead hb.alive
  have hp := hI.placed_other hne
  have hcar := hI.carcass_iff t
  rw [hI.no_carcass fun o => hb.not_parked o] at hcar
  generalize k.stack t = st at hp hdead hcar
  generalize loc t = l at hp
  generalize k.threadStatus t = ts at hp
  cases hp with
  | ready h => exact absurd h.alive hdead
  | waiting h => exact absurd h.alive hdead
  | carcass => cases hcar.2 rfl
  | absent => rfl

/-- A step stops only because of the client. -/
theorem Good.no_assert (hG : Good k) {ch : Choice c} (hallowed : k.AllowedStep ch) {e : Fault} (he : k.step ch = .error e) :
    e = .halted ∨ e = .nullDereference ∨ k.ClientFails ch e := by
  rcases (step_ends hG hallowed).of_error he with (rfl | ⟨rfl, -⟩) | h
  · exact Or.inl rfl
  · exact Or.inr (Or.inl rfl)
  · exact Or.inr (Or.inr h)

/-- The bookkeeping of the scheduler holds in every reachable state of every client. -/
theorem bookkeeping {b : Boot c} (hk : (system b).Reachable k) : k.Bookkeeping := by
  have hG := good_of_reachable hk
  refine ⟨?_, ?_, hG.history.current, hG.history.once, hG.history.deleted_after, ?_,
    ?_, fun ch hallowed e he => hG.no_assert hallowed he⟩
  · intro hl t hs hf
    exact hG.inOnePlace hl (hG.history.alive t hs hf)
  · rw [hG.history.order, List.reverse_append, List.reverse_reverse]
  · intro hl t hf
    exact hG.deleted_of_finished hl hf
  · intro t hd h
    subst h
    obtain ⟨loc, hI⟩ := hG.inv
    exact hI.placed_current.current.1 (hG.history.absent _ hd).1

/-- A client whose main thread forks thread 1 and yields to it, while thread 1 finishes at once. -/
def forkYield : Client where
  Shared := Unit
  Pc := Nat
  Input := Unit
  Device := Empty
  code := fun _ _ pc _ =>
    match pc with
    | 0 => .ok ((), .fork 1 3, 1)
    | 1 => .ok ((), .yield, 2)
    | 2 => .ok ((), .none, 2)
    | _ => .ok ((), .finish, 3)
  device := nofun

/-- Its run up to the point where thread 1 is deleted and the main thread runs again. -/
def forkYieldRun : Option (Kernel forkYield) :=
  (Boot.kernel (c := forkYield) { shared := (), pc := (0 : Nat), semaphores := fun _ => none }).execute
    (List.replicate 11 { input := (), due := [] })

theorem bookkeeping_forkYield : ∃ k : Kernel forkYield, k.level = .on ∧ .finished 1 ∈ k.history ∧ k.Bookkeeping := by
  have hrun : (forkYieldRun.map fun k => (k.level, k.history)) = some (.on, [.deleted 1, .dispatched 0, .finished 1, .dispatched 1,
      .readied 0, .readied 1, .forked 1]) := by decide
  obtain ⟨k, hk, hh⟩ := Option.map_eq_some_iff.1 hrun
  obtain ⟨hl, hh⟩ := Prod.mk.inj hh
  refine ⟨k, hl, by rw [hh]; decide, bookkeeping (reachable_of_execute (.init rfl) hk)⟩

end Kernel

end Nachos
