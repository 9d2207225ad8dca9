import Nachos.Threads.Bookkeeping
import Nachos.Threads.Moves

/-!
# Time slices (threads/alarm.cc, scheduler.cc, machine/interrupt.cc)

When the timer has interrupted a thread, it yields before it goes on. The ready list is a queue, so the threads that wait run in turn,
whatever the others do: a thread that has `i` others in front of it runs after `i + 1` timer interrupts at the latest.
-/

namespace Nachos

open Loop

variable {c : Client}

namespace Kernel

variable {k k' : Kernel c}

/-! ## What the handlers do -/

/-- The handlers put threads on the ready list and dispatch none. -/
structure Handled (k k' : Kernel c) : Prop where
  history : k.history <:+ k'.history
  ready : k.readyList <+: k'.readyList
  yields : k.yieldOnReturn = true → k'.yieldOnReturn = true

theorem Handled.refl (k : Kernel c) : Handled k k := ⟨List.suffix_refl _, List.prefix_refl _, id⟩

theorem Handled.trans {k₁ : Kernel c} (h : Handled k k₁) (h' : Handled k₁ k') : Handled k k' :=
  ⟨h.history.trans h'.history, h.ready.trans h'.ready, fun hy => h'.yields (h.yields hy)⟩

theorem readyToRun_handled {t : Tid} (h : k.readyToRun t = .ok k') : Handled k k' := by
  unfold readyToRun at h
  obtain ⟨-, h⟩ := of_assert_bind h
  obtain ⟨-, h⟩ := of_assert_bind h
  cases h
  exact ⟨List.suffix_cons _ _, List.prefix_append _ _, id⟩

theorem semaphoreV_handled {s : SemId} {old : IntStatus} (h : k.semaphoreV s = .ok (old, k')) : Handled k k' := by
  unfold semaphoreV at h
  split at h
  · cases h
  · dsimp only at h
    split at h
    · cases h
      exact ⟨List.suffix_refl _, List.prefix_refl _, id⟩
    · obtain ⟨k₁, hk₁, h⟩ := of_bind_ok h
      cases h
      have hf := readyToRun_handled hk₁
      exact ⟨hf.history, hf.ready, hf.yields⟩

theorem handlerV_handled {s : SemId} (h : k.handlerV s = .ok k') : Handled k k' := by
  unfold handlerV at h
  obtain ⟨⟨old, k₁⟩, hk₁, h⟩ := of_bind_ok h
  obtain ⟨-, h⟩ := of_assert_bind h
  cases h
  have hf := semaphoreV_handled hk₁
  exact ⟨hf.history, hf.ready, hf.yields⟩

theorem foldlM_handled {α : Type} {body : Kernel c → α → Except Fault (Kernel c)}
    (hbody : ∀ k k' a, body k a = .ok k' → Handled k k')
    (l : List α) {k : Kernel c} (h : l.foldlM body k = .ok k') : Handled k k' := by
  induction l generalizing k with
  | nil =>
    cases h
    exact Handled.refl _
  | cons a l ih =>
    rw [List.foldlM_cons] at h
    obtain ⟨k₁, hk₁, h⟩ := of_bind_ok h
    exact (hbody k k₁ a hk₁).trans (ih h)

theorem callBack_handled {handler : Handler c} (h : k.callBack handler = .ok k') : Handled k k' := by
  unfold callBack at h
  split at h
  · split at h
    · obtain ⟨-, h⟩ := of_assert_bind h
      cases h
      exact ⟨List.suffix_refl _, List.prefix_refl _, fun _ => rfl⟩
    · cases h
      exact Handled.refl k
  · have hf := foldlM_handled (fun _ _ _ h => handlerV_handled h) _ h
    exact ⟨hf.history, hf.ready, hf.yields⟩

/-- The timer is among the interrupts that are due. -/
def timerDue (due : List (Handler c)) : Bool :=
  due.any fun
    | .timer => true
    | .device _ => false

/-- When the timer is served and the machine is not idle, the interrupted thread will yield. -/
theorem foldlM_callBack_yields {due : List (Handler c)} (hd : timerDue due = true) {k : Kernel c} (hs : k.status ≠ .idle)
    (h : due.foldlM callBack k = .ok k') : k'.yieldOnReturn = true := by
  induction due generalizing k with
  | nil => cases hd
  | cons handler due ih =>
    rw [List.foldlM_cons] at h
    cases handler with
    | timer =>
      obtain ⟨k₁, hk₁, h⟩ := of_bind_ok h
      have hf := foldlM_handled (fun _ _ _ h => callBack_handled h) _ h
      refine hf.yields ?_
      unfold callBack at hk₁
      rw [if_pos hs] at hk₁
      obtain ⟨-, hk₁⟩ := of_assert_bind hk₁
      cases hk₁
      rfl
    | device d =>
      obtain ⟨k₁, hk₁, h⟩ := of_bind_ok h
      have hstatus : k₁.status = k.status := congrArg Processor.status (callBack_processor hk₁)
      exact ih hd (by rwa [hstatus]) h

/-! ## What the scheduler does -/

/-- A thread is dispatched, and nothing is forgotten. -/
def Dispatches (k k' : Kernel c) : Prop := ∃ n h, k'.history = .dispatched n :: h ∧ k.history <:+ h

theorem Dispatches.history (h : Dispatches k k') : k.history <:+ k'.history := by
  obtain ⟨n, h, hh, hs⟩ := h
  rw [hh]
  exact hs.trans (List.suffix_cons _ _)

theorem findNextToRun_history {n : Option Tid} (h : k.findNextToRun = .ok (n, k')) :
    k'.history = k.history ∧ n = k.readyList.head? := by
  unfold findNextToRun at h
  obtain ⟨-, h⟩ := of_assert_bind h
  split at h <;> rename_i hr
  · cases h
    exact ⟨rfl, by rw [hr]; rfl⟩
  · cases h
    exact ⟨rfl, by rw [hr]; rfl⟩

theorem run_dispatches {n : Tid} {finishing : Bool} (h : k.run n finishing = .ok k') : Dispatches k k' := by
  unfold run at h
  obtain ⟨-, h⟩ := of_assert_bind h
  dsimp only at h
  split at h
  · obtain ⟨-, h⟩ := of_assert_bind h
    cases h
    exact ⟨n, _, rfl, List.suffix_refl _⟩
  · cases h
    exact ⟨n, _, rfl, List.suffix_refl _⟩

theorem checkToBeDestroyed_history {k : Kernel c} (h : k.checkToBeDestroyed = .ok k') : k.history <:+ k'.history := by
  unfold checkToBeDestroyed at h
  split at h
  · cases h
    exact List.suffix_refl _
  · obtain ⟨-, h⟩ := of_assert_bind h
    cases h
    exact List.suffix_cons _ _

/-- `Yield` dispatches a thread if one is ready. -/
theorem yield_history (h : k.yield = .ok k') : k.history <:+ k'.history ∧ (k.readyList ≠ [] → Dispatches k k') := by
  unfold yield at h
  obtain ⟨⟨n, k₁⟩, hk₁, h⟩ := of_bind_ok h
  obtain ⟨hh, hn⟩ := findNextToRun_history hk₁
  have hhist : k₁.history = k.history := hh
  cases n with
  | none =>
    cases h
    refine ⟨by rw [← hhist]; exact List.suffix_refl _, fun hne => absurd ?_ hne⟩
    exact List.head?_eq_none_iff.1 hn.symm
  | some n =>
    obtain ⟨k₂, hk₂, h⟩ := of_bind_ok h
    obtain ⟨n', h', hd, hs⟩ := run_dispatches h
    have hready : k.history <:+ k₂.history := by
      rw [← hhist]
      exact (readyToRun_handled hk₂).history
    have hdisp : Dispatches k k' := ⟨n', h', hd, hready.trans hs⟩
    exact ⟨hdisp.history, fun _ => hdisp⟩

theorem sleep_history {finishing : Bool} (h : k.sleep finishing = .ok k') : k'.history = k.history := by
  unfold sleep at h
  obtain ⟨-, h⟩ := of_assert_bind h
  cases h
  rfl

theorem semaphorePLoop_history {s : SemId} {old : IntStatus} (h : k.semaphorePLoop s old = .ok k') : k'.history = k.history := by
  unfold semaphorePLoop at h
  split at h
  · cases h
  · split at h
    · obtain ⟨-, h⟩ := of_assert_bind h
      exact (sleep_history h).trans rfl
    · cases h
      rfl

/-! ## Interrupts -/

theorem checkIfDue_handled {due : List (Handler c)} {fired : Bool} (h : k.checkIfDue due = .ok (fired, k')) :
    Handled k k' ∧ (timerDue due = true → k.status ≠ .idle → k'.yieldOnReturn = true) := by
  unfold checkIfDue at h
  obtain ⟨-, h⟩ := of_assert_bind h
  split at h <;> rename_i hdue
  · cases h
    refine ⟨Handled.refl k, fun ht => ?_⟩
    rw [List.isEmpty_iff.1 hdue] at ht
    cases ht
  · obtain ⟨k₁, hk₁, h⟩ := of_bind_ok h
    cases h
    have hf := foldlM_handled (fun _ _ _ h => callBack_handled h) _ hk₁
    refine ⟨⟨hf.history, hf.ready, hf.yields⟩, fun ht hs => ?_⟩
    have hy : k₁.yieldOnReturn = true := foldlM_callBack_yields ht (k := { k with inHandler := true }) hs hk₁
    exact hy

/-- `OneTick` that serves the timer dispatches a thread if one is ready. -/
theorem oneTick_history {due : List (Handler c)} (h : k.oneTick due = .ok k') : k.history <:+ k'.history ∧
    (timerDue due = true → k.status ≠ .idle → k.readyList ≠ [] → Dispatches k k') := by
  unfold oneTick at h
  obtain ⟨⟨fired, k₁⟩, hk₁, h⟩ := of_bind_ok h
  obtain ⟨hf, ht⟩ := checkIfDue_handled hk₁
  have hgrows : k.history <:+ k₁.history := hf.history
  have hready : k.readyList <+: k₁.readyList := hf.ready
  dsimp only at h
  split at h <;> rename_i hy
  · obtain ⟨hgrows', hdisp⟩ := yield_history h
    refine ⟨hgrows.trans hgrows', fun _ _ hne => ?_⟩
    have hne₁ : k₁.readyList ≠ [] := by
      intro he
      rw [he] at hready
      exact hne (List.prefix_nil.1 hready)
    obtain ⟨n, h', hh, hs⟩ := hdisp hne₁
    exact ⟨n, h', hh, hgrows.trans hs⟩
  · cases h
    exact ⟨hgrows, fun hd hs _ => absurd (ht hd hs) hy⟩

theorem setLevel_history {now : IntStatus} {due : List (Handler c)} (h : k.setLevel now due = .ok k') : k.history <:+ k'.history ∧
    (now = .on ∧ k.level = .off → timerDue due = true → k.status ≠ .idle → k.readyList ≠ [] → Dispatches k k') := by
  unfold setLevel at h
  obtain ⟨-, h⟩ := of_assert_bind h
  split at h <;> rename_i hon
  · obtain ⟨hgrows, hdisp⟩ := oneTick_history h
    exact ⟨hgrows, fun _ => hdisp⟩
  · cases h
    exact ⟨List.suffix_refl _, fun h => absurd h hon⟩

theorem idle_history {due : List (Handler c)} {when : Int} (h : k.idle due when = .ok k') : k.history <:+ k'.history := by
  unfold idle at h
  obtain ⟨⟨fired, k₁⟩, hk₁, h⟩ := of_bind_ok h
  have hf := (checkIfDue_handled hk₁).1
  cases fired with
  | false => cases h
  | true =>
    cases h
    exact hf.history

theorem sleepLoop_history {finishing : Bool} {rest : List (Frame c.Pc)} {due : List (Handler c)} {when : Int}
    (h : k.sleepLoop finishing rest due when = .ok k') : k.history <:+ k'.history := by
  unfold sleepLoop at h
  obtain ⟨⟨n, k₁⟩, hk₁, h⟩ := of_bind_ok h
  rw [← (findNextToRun_history hk₁).1]
  cases n with
  | none => exact idle_history h
  | some n => exact (run_dispatches h).history

/-! ## Steps -/

/-- The call advances the time. -/
def callTicks (level : IntStatus) : Call c.Pc → Bool
  | .oneTick => true
  | .setLevel .on => decide (level = .off)
  | _ => false

theorem call_history {call : Call c.Pc} {due : List (Handler c)} (h : k.call due call = .ok k') : k.history <:+ k'.history ∧
    (callTicks k.level call = true → timerDue due = true → k.status ≠ .idle → k.readyList ≠ [] → Dispatches k k') := by
  unfold Kernel.call at h
  split at h
  · cases h
    exact ⟨List.suffix_refl _, nofun⟩
  · rw [semaphorePLoop_history h]
    exact ⟨List.suffix_refl _, nofun⟩
  · obtain ⟨⟨old, k₁⟩, hk₁, h⟩ := of_bind_ok h
    cases h
    exact ⟨(semaphoreV_handled hk₁).history, nofun⟩
  · exact ⟨(yield_history h).1, nofun⟩
  · unfold fork at h
    obtain ⟨k₁, hk₁, h⟩ := of_bind_ok h
    cases h
    exact ⟨(List.suffix_cons _ _).trans (readyToRun_handled hk₁).history, nofun⟩
  · rw [sleep_history h]
    exact ⟨List.suffix_cons _ _, nofun⟩
  · cases h
    exact ⟨List.suffix_refl _, nofun⟩
  · cases h
    exact ⟨List.suffix_refl _, nofun⟩
  · cases h
    exact ⟨List.suffix_refl _, nofun⟩
  · obtain ⟨hgrows, hdisp⟩ := setLevel_history h
    refine ⟨hgrows, fun ht => hdisp ?_⟩
    rename_i now
    cases now with
    | off => cases ht
    | on => exact ⟨rfl, of_decide_eq_true ht⟩
  · obtain ⟨hgrows, hdisp⟩ := oneTick_history h
    exact ⟨hgrows, fun _ => hdisp⟩

/-- The next step advances the time: it enables interrupts, or is that of a user instruction. -/
def ticks (k : Kernel c) (ch : Choice c) : Bool :=
  match k.stack k.currentThread with
  | .setLevel .on :: _ => decide (k.level = .off)
  | .code _ :: _ => (k.nextCall ch).any fun call => callTicks k.level call
  | _ => false

/-- The next step serves the timer, and ends the time slice of the current thread. -/
def timeSlice (k : Kernel c) (ch : Choice c) : Bool := k.ticks ch && timerDue ch.due && decide (k.status ≠ .idle)

/-- A step never forgets an event, and dispatches a thread when it ends a time slice and one is ready. -/
theorem step_history {ch : Choice c} (h : k.step ch = .ok k') : k.history <:+ k'.history ∧
    (k.timeSlice ch = true → k.readyList ≠ [] → Dispatches k k') := by
  have hslice : k.timeSlice ch = true → k.ticks ch = true ∧ timerDue ch.due = true ∧ k.status ≠ .idle := by
    unfold timeSlice
    simp only [Bool.and_eq_true, decide_eq_true_eq, and_assoc]
    exact id
  unfold ticks nextCall at hslice
  unfold Kernel.step at h
  split at h <;> rename_i hst <;> rw [hst] at hslice <;> dsimp only at hslice
  · cases h
  · obtain ⟨⟨shared, call, pc⟩, hcode, h⟩ := of_bind_ok h
    rw [hcode] at hslice
    obtain ⟨hgrows, hdisp⟩ := call_history h
    refine ⟨hgrows, fun hs => ?_⟩
    obtain ⟨ht, hd, hidle⟩ := hslice hs
    have ht' : callTicks k.level call = true := by simpa using ht
    exact hdisp ht' hd hidle
  · obtain ⟨hgrows, hdisp⟩ := setLevel_history h
    refine ⟨hgrows, fun hs => ?_⟩
    obtain ⟨ht, hd, hidle⟩ := hslice hs
    rename_i now _
    cases now with
    | off => cases ht
    | on => exact hdisp ⟨rfl, of_decide_eq_true ht⟩ hd hidle
  · cases h
    exact ⟨List.suffix_refl _, fun hs => nomatch (hslice hs).1⟩
  · refine ⟨?_, fun hs => nomatch (hslice hs).1⟩
    unfold runTail at h
    obtain ⟨-, h⟩ := of_assert_bind h
    have hgrows := checkToBeDestroyed_history h
    exact hgrows
  · refine ⟨?_, fun hs => nomatch (hslice hs).1⟩
    unfold begin at h
    obtain ⟨k₁, hk₁, h⟩ := of_bind_ok h
    cases h
    have hgrows := checkToBeDestroyed_history hk₁
    exact hgrows
  · exact ⟨sleepLoop_history h, fun hs => nomatch (hslice hs).1⟩
  · rw [semaphorePLoop_history h]
    exact ⟨List.suffix_refl _, fun hs => nomatch (hslice hs).1⟩

/-! ## Runs -/

/-- How many time slices end in a run with these choices. -/
def slices (k : Kernel c) : List (Choice c) → Nat
  | [] => 0
  | ch :: chs =>
    (if k.timeSlice ch then 1 else 0) +
      match k.step ch with
      | .ok k' => k'.slices chs
      | .error _ => 0

/-- Threads are dispatched from the front of the ready list and made ready at its end. -/
theorem turns {b : Boot c} (hk : (system b).Reachable k) (hk' : (system b).Reachable k') {new : List Event}
    (h : k'.history = new ++ k.history) : (dispatched new).reverse ++ k'.readyList = k.readyList ++ (readied new).reverse := by
  have ho := (bookkeeping hk).order
  have ho' := (bookkeeping hk').order
  have hd : dispatched k'.history = dispatched new ++ dispatched k.history := by rw [h]; exact List.filterMap_append
  have hr : readied k'.history = readied new ++ readied k.history := by rw [h]; exact List.filterMap_append
  rw [hd, hr, List.reverse_append, List.reverse_append, ← ho, List.append_assoc, List.append_assoc] at ho'
  exact List.append_cancel_left ho'

/-- A run dispatches a thread for each of its time slices, until all that were ready have had their turn. -/
theorem dispatched_of_slices {b : Boot c} (chs : List (Choice c)) : ∀ {k : Kernel c}, (system b).Reachable k →
    k.execute chs = some k' → ∃ new, k'.history = new ++ k.history ∧ min (k.slices chs) k.readyList.length ≤ (dispatched new).length := by
  induction chs with
  | nil =>
    intro k _ h
    cases h
    exact ⟨[], rfl, Nat.min_le_left 0 _⟩
  | cons ch chs ih =>
    intro k hk h
    unfold execute at h
    split at h
    · rename_i hallowed
      cases hstep : k.step ch with
      | error e =>
        rw [hstep] at h
        cases h
      | ok k₁ =>
        rw [hstep] at h
        have hk₁ := hk.step ⟨ch, hallowed, hstep⟩
        obtain ⟨new, hnew, hmin⟩ := ih hk₁ h
        obtain ⟨⟨first, hfirst⟩, hdisp⟩ := step_history hstep
        have hlen := congrArg List.length (turns hk hk₁ hfirst.symm)
        simp only [List.length_append, List.length_reverse] at hlen
        have hslice : k.timeSlice ch = true → k.readyList ≠ [] → 1 ≤ (dispatched first).length := by
          intro hs hne
          obtain ⟨n, h', hh, hs'⟩ := hdisp hs hne
          obtain ⟨rest, rfl⟩ := hs'
          have hf : first = .dispatched n :: rest := List.append_cancel_right (hfirst.trans hh)
          rw [hf]
          exact Nat.le_add_left 1 _
        refine ⟨new ++ first, by rw [hnew, ← hfirst, List.append_assoc], ?_⟩
        have hd : dispatched (new ++ first) = dispatched new ++ dispatched first := List.filterMap_append
        have hcount : k.slices (ch :: chs) = (if k.timeSlice ch then 1 else 0) + k₁.slices chs := by
          show (if k.timeSlice ch then 1 else 0) + _ = _
          rw [hstep]
        rw [hd, hcount, List.length_append]
        by_cases hr : k.readyList = []
        · rw [hr]
          exact (Nat.min_le_right _ 0).trans (Nat.zero_le _)
        · split
          · have h1 := hslice ‹_› hr
            omega
          · omega
    · cases h

/-- Whatever the threads do: when the timer has been served `n` times, the first `n` threads of the ready list have run, in this
order, and before all others. A thread with `i` others in front of it runs after `i + 1` timer interrupts at the latest. -/
theorem round_robin {b : Boot c} (hk : (system b).Reachable k) {chs : List (Choice c)} (h : k.execute chs = some k') {n : Nat}
    (hn : n ≤ k.slices chs) : ∃ new, k'.history = new ++ k.history ∧ k.readyList.take n <+: (dispatched new).reverse := by
  obtain ⟨new, hnew, hmin⟩ := dispatched_of_slices chs hk h
  have hturns := turns hk (reachable_of_execute hk h) hnew
  refine ⟨new, hnew, ?_⟩
  have hlen : (k.readyList.take n).length ≤ (dispatched new).reverse.length := by
    rw [List.length_take, List.length_reverse]
    omega
  have hready : k.readyList.take n <+: k.readyList ++ (readied new).reverse := (List.take_prefix _ _).trans (List.prefix_append _ _)
  rw [← hturns] at hready
  exact List.prefix_of_prefix_length_le hready (List.prefix_append _ _) hlen

/-- A client of two threads that compute for ever: each round of theirs is a user instruction. -/
def busy : Client where
  Shared := Unit
  Pc := Bool
  Input := Unit
  Device := Empty
  code := fun _ _ pc _ => .ok (if pc then ((), .oneTick, true) else ((), .fork 1 true, true))
  device := nofun

/-- The main thread has forked the other one. -/
def busyRun : Option (Kernel busy) :=
  (Boot.kernel (c := busy) { shared := (), pc := (false : Bool), semaphores := fun _ => none }).execute
    (List.replicate 3 { input := (), due := [] })

theorem round_robin_busy : ∃ (k k' : Kernel busy) (new : List Event), k.readyList = [1] ∧ k'.history = new ++ k.history ∧
    [1] <+: (dispatched new).reverse := by
  have hrun : (busyRun.map fun k => (k.readyList, k.slices [{ input := (), due := [.timer] }],
      (k.execute [{ input := (), due := [.timer] }]).isSome)) = some ([1], 1, true) := by decide
  obtain ⟨k, hk, hh⟩ := Option.map_eq_some_iff.1 hrun
  obtain ⟨hr, hh⟩ := Prod.mk.inj hh
  obtain ⟨hs, he⟩ := Prod.mk.inj hh
  obtain ⟨k', hk'⟩ := Option.isSome_iff_exists.1 he
  obtain ⟨new, hnew, hfirst⟩ := round_robin (reachable_of_execute (.init rfl) hk) hk' (Nat.le_of_eq hs.symm)
  rw [hr] at hfirst
  exact ⟨k, k', new, hr, hnew, hfirst⟩

end Kernel

end Nachos
