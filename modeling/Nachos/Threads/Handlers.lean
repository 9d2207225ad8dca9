import Nachos.Prelude.Outcome
import Nachos.Threads.Abstract
import Nachos.Threads.History

/-!
# Semaphore::V and the interrupt handlers

What a handler does to the kernel is that some waiting threads become ready. The thread that was interrupted keeps the processor
and its stack; it can itself be one of those made ready.
-/

namespace Nachos

open Loop

variable {c : Client}

namespace Kernel

variable {k : Kernel c} {loc : Tid → Loc}

/-- The invariants between two context switches, whatever the interrupt level is. -/
structure Calm (k : Kernel c) : Prop where
  inv : ∃ loc, Inv k loc
  recorded : Recorded k
  toBeDestroyed : k.toBeDestroyed = none

/-! ## Waking a thread -/

/-- The state after `Scheduler::ReadyToRun`. -/
def makeReady (k : Kernel c) (t : Tid) : Kernel c :=
  { k.setStatus t .ready with readyList := k.readyList ++ [t] }.record (.readied t)

/-- The state after `Semaphore::V` on `s`, up to its last statement. -/
def wake (k : Kernel c) (s : SemId) (x : Semaphore) : Kernel c :=
  match x.queue with
  | [] => (k.changeLevel .off).setSemaphore s (some x.wake)
  | t :: _ => ((k.changeLevel .off).makeReady t).setSemaphore s (some x.wake)

section Wake

variable (k : Kernel c) (s : SemId) (x : Semaphore)

theorem wake_stack : (k.wake s x).stack = k.stack := by unfold wake; cases x.queue <;> rfl
theorem wake_currentThread : (k.wake s x).currentThread = k.currentThread := by unfold wake; cases x.queue <;> rfl
theorem wake_toBeDestroyed : (k.wake s x).toBeDestroyed = k.toBeDestroyed := by unfold wake; cases x.queue <;> rfl
theorem wake_level : (k.wake s x).level = .off := by unfold wake; cases x.queue <;> rfl
theorem wake_inHandler : (k.wake s x).inHandler = k.inHandler := by unfold wake; cases x.queue <;> rfl
theorem wake_shared : (k.wake s x).shared = k.shared := by unfold wake; cases x.queue <;> rfl
theorem wake_semaphore : (k.wake s x).semaphore = Function.update k.semaphore s (some x.wake) := by
  unfold wake; cases x.queue <;> rfl

theorem wake_abs : (k.wake s x).abs = k.abs.setSemaphore s (some x.wake) := by
  unfold abs Abs.setSemaphore
  rw [wake_stack, wake_semaphore, wake_shared]

end Wake

/-- A thread in a queue is there once, and not on the ready list. -/
theorem Inv.queued (hI : Inv k loc) {s : SemId} {x : Semaphore} (hs : k.semaphore s = some x) {t : Tid} (ht : t ∈ x.queue) :
    loc t = .queue s ∧ t ∉ k.readyList := by
  have hloc : loc t = .queue s := (hI.queue_iff s t).2 ⟨x, hs, ht⟩
  refine ⟨hloc, ?_⟩
  intro h
  have := (hI.ready_iff t).1 h
  rw [hloc] at this
  cases this

/-- `Scheduler::ReadyToRun` goes through for a thread that is not on the ready list. -/
theorem readyToRun_of (hl : k.level = .off) {t : Tid} (ht : t ∉ k.readyList) :
    k.readyToRun t = .ok (k.makeReady t) := by
  unfold readyToRun
  rw [assert_of hl, ok_bind]
  dsimp only
  rw [assert_of (show t ∉ (k.setStatus t .ready).readyList from ht), ok_bind]
  rfl

/-- `Semaphore::V` goes through: a thread that waits is not on the ready list. -/
theorem semaphoreV_of (hI : Inv k loc) {s : SemId} {x : Semaphore} (hs : k.semaphore s = some x) :
    k.semaphoreV s = .ok (k.level, k.wake s x) := by
  have hqueued : ∀ t ∈ x.queue, t ∉ k.readyList := fun t ht => (hI.queued hs ht).2
  unfold semaphoreV wake
  rw [hs]
  rcases x with ⟨value, _ | ⟨t, q⟩, iv, cv, cp⟩
  · rfl
  · have hready := readyToRun_of (k := k.changeLevel .off) rfl (hqueued t List.mem_cons_self)
    dsimp only
    rw [hready, ok_bind]
    rfl

end Kernel

/-- A thread that waits becomes ready where it is. -/
theorem Placed.wake {Pc : Type} {b : Bool} {s : SemId} {ts : ThreadStatus} {st : List (Frame Pc)}
    (h : Placed b (.queue s) ts st) : Placed b .ready .ready st := by
  cases h with
  | waiting h => exact .ready h
  | asleep s h => exact .awake s h

namespace Kernel

variable {k : Kernel c} {loc : Tid → Loc}

/-- When nobody waits, `V` only changes the value. -/
theorem Located.wake_nil (hL : Located k loc) {s : SemId} {x : Semaphore} (hs : k.semaphore s = some x) (hq : x.queue = []) :
    Located (k.wake s x) loc := by
  have hsem := wake_semaphore k s x
  have hr : (k.wake s x).readyList = k.readyList := by unfold wake; rw [hq]; rfl
  have htail : x.wake.queue = x.queue := by
    show x.queue.tail = x.queue
    rw [hq]
    rfl
  refine ⟨?_, ?_, ?_, ?_⟩
  · rw [hr]; exact hL.ready_nodup
  · rw [hr]; exact hL.ready_iff
  · intro s' y hy
    rw [hsem] at hy
    rcases eq_or_ne s' s with rfl | hne
    · rw [Function.update_self] at hy
      obtain rfl := Option.some.inj hy
      rw [htail]
      exact hL.queue_nodup s' x hs
    · rw [Function.update_of_ne hne] at hy
      exact hL.queue_nodup s' y hy
  · intro s' t
    rw [hL.queue_iff, hsem]
    rcases eq_or_ne s' s with rfl | hne
    · rw [Function.update_self, hs]
      constructor
      · rintro ⟨y, hy, ht⟩
        obtain rfl := Option.some.inj hy
        exact ⟨_, rfl, by rwa [htail]⟩
      · rintro ⟨y, hy, ht⟩
        obtain rfl := Option.some.inj hy
        exact ⟨_, rfl, by rwa [htail] at ht⟩
    · rw [Function.update_of_ne hne]

/-- A thread at the end of the ready list that was not on it. -/
theorem Located.ready_append (hL : Located k loc) {t : Tid} (ht : loc t ≠ .ready) : (k.readyList ++ [t]).Nodup ∧
    ∀ t', t' ∈ k.readyList ++ [t] ↔ Function.update loc t .ready t' = .ready := by
  have hnot : t ∉ k.readyList := fun h => ht ((hL.ready_iff t).1 h)
  constructor
  · exact List.nodup_append.2 ⟨hL.ready_nodup, List.nodup_singleton t, fun a ha b hb => by
      rintro rfl
      exact hnot (List.mem_singleton.1 hb ▸ ha)⟩
  · intro t'
    rw [List.mem_append, List.mem_singleton]
    rcases eq_or_ne t' t with rfl | hne
    · rw [Function.update_self]
      exact iff_of_true (Or.inr rfl) rfl
    · rw [Function.update_of_ne hne, ← hL.ready_iff]
      exact or_iff_left hne

/-- When `t` waits first, it goes from the queue to the end of the ready list. -/
theorem Located.wake_cons (hL : Located k loc) {s : SemId} {x : Semaphore} (hs : k.semaphore s = some x) {t : Tid}
    {q : List Tid} (hq : x.queue = t :: q) : Located (k.wake s x) (Function.update loc t .ready) := by
  have hsem := wake_semaphore k s x
  have hr : (k.wake s x).readyList = k.readyList ++ [t] := by unfold wake; rw [hq]; rfl
  have htail : x.wake.queue = q := by
    show x.queue.tail = q
    rw [hq]
    rfl
  have hloc : loc t = .queue s := (hL.queue_iff s t).2 ⟨x, hs, by rw [hq]; exact List.mem_cons_self⟩
  have hnd : (t :: q).Nodup := hq ▸ hL.queue_nodup s x hs
  have hready := hL.ready_append (t := t) (by rw [hloc]; exact nofun)
  rw [← hr] at hready
  refine ⟨hready.1, hready.2, ?_, ?_⟩
  · intro s' y hy
    rw [hsem] at hy
    rcases eq_or_ne s' s with rfl | hne
    · rw [Function.update_self] at hy
      obtain rfl := Option.some.inj hy
      rw [htail]
      exact (List.nodup_cons.1 hnd).2
    · rw [Function.update_of_ne hne] at hy
      exact hL.queue_nodup s' y hy
  · intro s' t'
    rw [hsem]
    rcases eq_or_ne t' t with rfl | hne
    · rw [Function.update_self]
      refine iff_of_false (fun h => by cases h) ?_
      rintro ⟨y, hy, ht⟩
      rcases eq_or_ne s' s with rfl | hne
      · rw [Function.update_self] at hy
        obtain rfl := Option.some.inj hy
        rw [htail] at ht
        exact (List.nodup_cons.1 hnd).1 ht
      · rw [Function.update_of_ne hne] at hy
        have := (hL.queue_iff s' t').2 ⟨y, hy, ht⟩
        rw [hloc] at this
        exact hne (Loc.queue.inj this).symm
    · rw [Function.update_of_ne hne, hL.queue_iff]
      rcases eq_or_ne s' s with rfl | hne'
      · rw [Function.update_self, hs]
        constructor
        · rintro ⟨y, hy, ht⟩
          obtain rfl := Option.some.inj hy
          rw [hq] at ht
          exact ⟨_, rfl, by rw [htail]; exact (List.mem_cons.1 ht).resolve_left hne⟩
        · rintro ⟨y, hy, ht⟩
          obtain rfl := Option.some.inj hy
          rw [htail] at ht
          exact ⟨_, rfl, by rw [hq]; exact List.mem_cons_of_mem _ ht⟩
      · rw [Function.update_of_ne hne']

/-- `V` keeps the placement of the threads up to that of the thread it wakes. -/
theorem Inv.wake (hI : Inv k loc) {s : SemId} {x : Semaphore} (hs : k.semaphore s = some x) :
    ∃ loc', Inv (k.wake s x) loc' := by
  have hst := wake_stack k s x
  have hcur := wake_currentThread k s x
  have htbd := wake_toBeDestroyed k s x
  cases hq : x.queue with
  | nil =>
    have hts : (k.wake s x).threadStatus = k.threadStatus := by unfold Kernel.wake; rw [hq]; rfl
    refine ⟨loc, hI.toLocated.wake_nil hs hq, ?_, ?_, ?_⟩
    · rw [hst, hcur, hts]; exact hI.placed
    · rw [hst, htbd]; exact hI.carcass_iff
    · rw [hst, hcur, htbd]; exact hI.carcass_parked
  | cons t q =>
    have hts : (k.wake s x).threadStatus = Function.update k.threadStatus t .ready := by
      unfold Kernel.wake
      rw [hq]
      rfl
    have hloc : loc t = .queue s := (hI.queued hs (by rw [hq]; exact List.mem_cons_self)).1
    refine ⟨Function.update loc t .ready, hI.toLocated.wake_cons hs hq, ?_, ?_, ?_⟩
    · intro t'
      rw [hst, hcur, hts]
      have hp := hI.placed t'
      rcases eq_or_ne t' t with rfl | hne
      · rw [hloc] at hp
        rw [Function.update_self, Function.update_self]
        exact hp.wake
      · rwa [Function.update_of_ne hne, Function.update_of_ne hne]
    · rw [hst, htbd]; exact hI.carcass_iff
    · rw [hst, hcur, htbd]; exact hI.carcass_parked

/-- `V` keeps what the history says. -/
theorem Recorded.wake (hR : Recorded k) (hI : Inv k loc) {s : SemId} {x : Semaphore} (hs : k.semaphore s = some x) :
    Recorded (k.wake s x) := by
  cases hq : x.queue with
  | nil =>
    have hts : (k.wake s x).threadStatus = k.threadStatus := by unfold Kernel.wake; rw [hq]; rfl
    refine hR.congr ?_ ?_ (wake_currentThread k s x) (fun t => by rw [wake_stack]) (fun t => by rw [wake_stack]) (fun t _ => by rw [hts])
    · unfold Kernel.wake; rw [hq]; rfl
    · unfold Kernel.wake; rw [hq]; rfl
  | cons t q =>
    have hloc : loc t = .queue s := (hI.queued hs (by rw [hq]; exact List.mem_cons_self)).1
    have ha : Alive (k.stack t) := (hI.placed t).alive_of_queued (by rw [hloc]; exact fun h => by cases h)
    refine hR.readied ha ?_ ?_ (wake_currentThread k s x) (wake_stack k s x) ?_
    · unfold Kernel.wake; rw [hq]; rfl
    · unfold Kernel.wake; rw [hq]; rfl
    · intro t' hne
      unfold Kernel.wake
      rw [hq]
      exact Function.update_of_ne hne _ _

theorem Calm.wake (hC : Calm k) {s : SemId} {x : Semaphore} (hs : k.semaphore s = some x) : Calm (k.wake s x) := by
  obtain ⟨loc, hI⟩ := hC.inv
  exact ⟨hI.wake hs, hC.recorded.wake hI hs, (wake_toBeDestroyed k s x).trans hC.toBeDestroyed⟩

/-- The invariants do not look at the level, the flags, the status of the machine or the shared memory. -/
theorem Calm.congr (hC : Calm k) {k' : Kernel c} (hr : k'.readyList = k.readyList) (hs : k'.semaphore = k.semaphore)
    (hc : k'.currentThread = k.currentThread) (ht : k'.threadStatus = k.threadStatus) (hst : k'.stack = k.stack)
    (hd : k'.toBeDestroyed = k.toBeDestroyed) (hh : k'.history = k.history) : Calm k' := by
  obtain ⟨loc, hI⟩ := hC.inv
  exact ⟨⟨loc, hI.congr hr hs hc ht hst hd⟩,
    hC.recorded.congr hh hr hc (fun t => by rw [hst]) (fun t => by rw [hst]) (fun t _ => by rw [ht]), hd.trans hC.toBeDestroyed⟩

/-! ## The handlers -/

/-- What the handlers leave as it was. -/
structure Served (k k' : Kernel c) : Prop where
  stack : k'.stack = k.stack
  currentThread : k'.currentThread = k.currentThread
  level : k'.level = .off
  inHandler : k'.inHandler = k.inHandler

/-- The `V` calls of a handler go through as long as the semaphores are there. -/
theorem foldlM_handlerV_ends (ss : List SemId) : ∀ {k : Kernel c}, Calm k → k.level = .off →
    Ends (fun k' => Calm k' ∧ Served k k' ∧ Abs.Wakes ss k.abs k'.abs)
      (fun e => e = .nullDereference ∧ ∃ before s after a, ss = before ++ s :: after ∧ Abs.Wakes before k.abs a ∧ a.semaphore s = none)
      (ss.foldlM handlerV k) := by
  induction ss with
  | nil => exact fun hC hl => .ok ⟨hC, ⟨rfl, rfl, hl, rfl⟩, .nil _⟩
  | cons s ss ih =>
    intro k hC hl
    rw [List.foldlM_cons]
    unfold handlerV
    cases hs : k.semaphore s with
    | none =>
      unfold semaphoreV
      rw [hs]
      exact .error ⟨rfl, [], s, ss, k.abs, rfl, .nil _, hs⟩
    | some x =>
      obtain ⟨loc, hI⟩ := hC.inv
      rw [semaphoreV_of hI hs, ok_bind]
      dsimp only
      rw [assert_of (Or.inl hl), ok_bind, hl]
      have hC' : Calm ((k.wake s x).changeLevel .off) := (hC.wake hs).congr rfl rfl rfl rfl rfl rfl rfl
      have habs : ((k.wake s x).changeLevel .off).abs = k.abs.setSemaphore s (some x.wake) := wake_abs k s x
      refine (ih hC' rfl).mono ?_ ?_
      · rintro k' ⟨hk', hserved, hw⟩
        rw [habs] at hw
        exact ⟨hk', ⟨hserved.stack.trans (wake_stack k s x), hserved.currentThread.trans (wake_currentThread k s x),
          hserved.level, hserved.inHandler.trans (wake_inHandler k s x)⟩, .cons hs hw⟩
      · rintro e ⟨he, before, s', after, a, hss, hw, hnone⟩
        rw [habs] at hw
        exact ⟨he, s :: before, s', after, a, by rw [hss]; rfl, .cons hs hw, hnone⟩

/-- How a step of the kernel may stop the machine, without a failing `ASSERT` of its own. -/
def Stops (a : Abs c) (e : Fault) : Prop :=
  e = .halted ∨ e = .nullDereference ∧ ∃ a', a.Steps a' ∧ a'.Missing

theorem Stops.of_steps {a a' : Abs c} (h : a.Steps a') {e : Fault} (he : Stops a' e) : Stops a e := by
  rcases he with rfl | ⟨rfl, a'', hs, hm⟩
  · exact Or.inl rfl
  · exact Or.inr ⟨rfl, a'', h.trans hs, hm⟩

/-- A handler goes through, and is one step. -/
theorem callBack_ends {k : Kernel c} (hC : Calm k) (hl : k.level = .off) (hh : k.inHandler = true) (h : Handler c) :
    Ends (fun k' => Calm k' ∧ Served k k' ∧ k.abs.Handled k'.abs) (Stops k.abs) (k.callBack h) := by
  unfold callBack
  cases h with
  | timer =>
    dsimp only
    split
    · rw [assert_of hh, ok_bind]
      exact .ok ⟨hC.congr rfl rfl rfl rfl rfl rfl rfl, ⟨rfl, rfl, hl, rfl⟩, .refl⟩
    · exact .ok ⟨hC, ⟨rfl, rfl, hl, rfl⟩, .refl⟩
  | device d =>
    have hC' : Calm { k with shared := (c.device k.shared d).1 } := hC.congr rfl rfl rfl rfl rfl rfl rfl
    refine (foldlM_handlerV_ends (c.device k.shared d).2 hC' hl).mono ?_ ?_
    · rintro k' ⟨hk', hserved, hw⟩
      exact ⟨hk', ⟨hserved.stack, hserved.currentThread, hserved.level, hserved.inHandler⟩, .single ⟨d, hw⟩⟩
    · rintro e ⟨rfl, before, s, after, a, hd, hw, hnone⟩
      exact Or.inr ⟨rfl, k.abs, .refl, .device hd hw hnone⟩

/-- `Interrupt::CheckIfDue` serves the interrupts, and leaves the handler mode. -/
theorem checkIfDue_ends {k : Kernel c} (hC : Calm k) (hl : k.level = .off) (hh : k.inHandler = false) (due : List (Handler c)) :
    Ends (fun r => Calm r.2 ∧ Served k r.2 ∧ k.abs.Handled r.2.abs) (Stops k.abs) (k.checkIfDue due) := by
  unfold checkIfDue
  rw [assert_of hl, ok_bind]
  split
  · exact .ok ⟨hC, ⟨rfl, rfl, hl, rfl⟩, .refl⟩
  · have hstart : Calm { k with inHandler := true } := hC.congr rfl rfl rfl rfl rfl rfl rfl
    refine Ends.bind (Q := fun k' => Calm k' ∧ Served { k with inHandler := true } k' ∧ k.abs.Handled k'.abs) ?_ ?_
    · refine Ends.foldlM ?_ due ⟨hstart, ⟨rfl, rfl, hl, rfl⟩, .refl⟩
      intro k' h hk'
      obtain ⟨hk', hserved, hsteps⟩ := hk'
      refine (callBack_ends hk' hserved.level hserved.inHandler h).mono ?_ (fun e he => he.of_steps hsteps.steps)
      rintro k'' ⟨hk'', hserved', hsteps'⟩
      exact ⟨hk'', ⟨hserved'.stack.trans hserved.stack, hserved'.currentThread.trans hserved.currentThread, hserved'.level,
        hserved'.inHandler.trans hserved.inHandler⟩, hsteps.trans hsteps'⟩
    · rintro k' ⟨hk', hserved, hsteps⟩
      exact .ok ⟨hk'.congr rfl rfl rfl rfl rfl rfl rfl, ⟨hserved.stack, hserved.currentThread, hserved.level, hh.symm⟩, hsteps⟩

end Kernel

end Nachos
