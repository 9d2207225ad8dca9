import Nachos.Threads.Refinement

/-!
# What a step does to the stacks, the interrupt level and the clock

`Processor` is the part of the kernel that the rules on interrupt levels and on time are about, and `Moves` says once what a step does to
it: which frames the current thread has afterwards, whether it has lost the processor, and what happens to the level, to the status
of the machine and to the clock. The handlers touch none of these.
-/

namespace Nachos

open Loop

variable {c : Client}

/-- The stacks, the level, the status of the machine and the clock: what the processor is at work on. -/
structure Processor (Pc : Type) where
  currentThread : Tid
  stack : Tid → List (Frame Pc)
  level : IntStatus
  status : MachineStatus
  stats : Statistics

namespace Processor

variable {Pc : Type}

/-- The stack of the current thread. -/
def here (v : Processor Pc) : List (Frame Pc) := v.stack v.currentThread

/-- The stack of the current thread becomes `st`. -/
def put (v : Processor Pc) (st : List (Frame Pc)) : Processor Pc := { v with stack := Function.update v.stack v.currentThread st }

/-- The stack of the current thread becomes `st`, and it keeps the processor or loses it in `Scheduler::Run`. -/
inductive Gives (v : Processor Pc) (st : List (Frame Pc)) : Processor Pc → Prop where
  | keeps : Gives v st (v.put st)
  | loses (n : Tid) : Gives v st { v.put (.runTail :: st) with currentThread := n }

/-- `Interrupt::OneTick`. -/
inductive Ticks (v : Processor Pc) : Processor Pc → Prop where
  | done : Ticks v { v with stats := v.stats.tick v.status, level := .on }
  | yields {v' : Processor Pc}
      (h : Gives { v with stats := v.stats.tick v.status, level := .off, status := .system }
        (.setLevel .on :: .restoreStatus v.status :: v.here) v') : Ticks v v'

/-- `Interrupt::SetLevel`. -/
inductive Sets (v : Processor Pc) (now : IntStatus) : Processor Pc → Prop where
  | plain (h : now = .off ∨ v.level = .on) : Sets v now { v with level := now }
  | ticks {v' : Processor Pc} (hnow : now = .on) (hoff : v.level = .off) (h : Ticks { v with level := .on } v') : Sets v now v'

/-- The calls of client code. -/
inductive Calls (v : Processor Pc) : Call Pc → Processor Pc → Prop where
  | none : Calls v .none v
  | take (s : SemId) : Calls v (.p s) ({ v with level := .off }.put (.setLevel v.level :: v.here))
  | wait (s : SemId) : Calls v (.p s) ({ v with level := .off }.put (.sleep false :: .semaphoreP s v.level :: v.here))
  | v (s : SemId) : Calls v (.v s) ({ v with level := .off }.put (.setLevel v.level :: v.here))
  | yield {v' : Processor Pc} (h : Gives { v with level := .off } (.setLevel v.level :: v.here) v') : Calls v .yield v'
  | fork {t : Tid} (ht : t ≠ v.currentThread) (hst : v.stack t = []) (pc : Pc) : Calls v (.fork t pc)
      ({ v with level := .off, stack := Function.update v.stack t [.begin, .code pc] }.put (.setLevel v.level :: v.here))
  | finish : Calls v .finish ({ v with level := .off }.put [.sleep true])
  | newSemaphore (s : SemId) (initialValue : Int) : Calls v (.newSemaphore s initialValue) v
  | deleteSemaphore (s : SemId) : Calls v (.deleteSemaphore s) v
  | setStatus (st : MachineStatus) : Calls v (.setStatus st) { v with status := st }
  | setLevel {now : IntStatus} {v' : Processor Pc} (h : Sets v now v') : Calls v (.setLevel now) v'
  | oneTick {v' : Processor Pc} (h : Ticks v v') : Calls v .oneTick v'

/-- `Scheduler::CheckToBeDestroyed`. -/
inductive Reaps (v : Processor Pc) : Processor Pc → Prop where
  | none : Reaps v v
  | reap {t : Tid} (ht : t ≠ v.currentThread) (hst : v.stack t = [.runTail]) :
      Reaps v { v with stack := Function.update v.stack t [] }

theorem put_put (v : Processor Pc) (st st' : List (Frame Pc)) : (v.put st).put st' = v.put st' := by
  unfold put
  dsimp only
  rw [Function.update_idem]

theorem here_put (v : Processor Pc) (st : List (Frame Pc)) : (v.put st).here = st := Function.update_self _ _ _

/-- The stack is replaced, whatever it was. -/
theorem Gives.of_put {v v' : Processor Pc} {st₀ st : List (Frame Pc)} (h : Gives (v.put st₀) st v') : Gives v st v' := by
  cases h with
  | keeps =>
    rw [put_put]
    exact .keeps
  | loses n =>
    rw [put_put]
    exact .loses n

theorem Gives.stack_other {v v' : Processor Pc} {st : List (Frame Pc)} (h : Gives v st v') {t : Tid} (ht : t ≠ v.currentThread) :
    v'.stack t = v.stack t := by
  cases h with
  | keeps => exact Function.update_of_ne ht _ _
  | loses n => exact Function.update_of_ne ht _ _

theorem Ticks.stack_other {v v' : Processor Pc} (h : Ticks v v') {t : Tid} (ht : t ≠ v.currentThread) : v'.stack t = v.stack t := by
  cases h with
  | done => rfl
  | yields h => exact h.stack_other ht

theorem Sets.stack_other {v v' : Processor Pc} {now : IntStatus} (h : Sets v now v') {t : Tid} (ht : t ≠ v.currentThread) :
    v'.stack t = v.stack t := by
  cases h with
  | plain h => rfl
  | ticks hnow hoff h => exact h.stack_other ht

/-- What happens to the stack of another thread: it stays, or the thread is deleted or forked. -/
inductive Other (t : Tid) (v : Processor Pc) (call : Option (Call Pc)) (v' : Processor Pc) : Prop where
  | same (h : v'.stack t = v.stack t)
  | reaped (h : v.stack t = [.runTail]) (h' : v'.stack t = [])
  | forked {pc : Pc} (hcall : call = some (.fork t pc)) (h : v.stack t = []) (h' : v'.stack t = [.begin, .code pc])

theorem Calls.other {v v' : Processor Pc} {call : Call Pc} (h : Calls v call v') {t : Tid} (ht : t ≠ v.currentThread) :
    Other t v (some call) v' := by
  cases h with
  | none | newSemaphore | deleteSemaphore | setStatus => exact .same rfl
  | take | wait | v | finish => exact .same (Function.update_of_ne ht _ _)
  | yield h => exact .same (h.stack_other ht)
  | @fork t' hne hst pc =>
    by_cases htt : t = t'
    · subst htt
      exact .forked rfl hst ((Function.update_of_ne ht _ _).trans (Function.update_self _ _ _))
    · exact .same ((Function.update_of_ne ht _ _).trans (Function.update_of_ne htt _ _))
  | setLevel h => exact .same (h.stack_other ht)
  | oneTick h => exact .same (h.stack_other ht)

theorem Reaps.here {v v' : Processor Pc} (h : Reaps v v') : v'.here = v.here ∧ v'.currentThread = v.currentThread := by
  cases h with
  | none => exact ⟨rfl, rfl⟩
  | reap ht => exact ⟨Function.update_of_ne ht.symm _ _, rfl⟩

theorem Reaps.other {v v' : Processor Pc} (h : Reaps v v') (t : Tid) : Other t v Option.none v' := by
  cases h with
  | none => exact .same rfl
  | @reap t' ht hst =>
    by_cases htt : t = t'
    · subst htt
      exact .reaped hst (Function.update_self _ _ _)
    · exact .same (Function.update_of_ne htt _ _)

/-- Another change of the stack of the current thread does not matter to the others. -/
theorem Other.congr {t : Tid} {v v' w w' : Processor Pc} {call : Option (Call Pc)} (h : Other t v call v') (hw : w.stack t = v.stack t)
    (hw' : w'.stack t = v'.stack t) : Other t w call w' := by
  cases h with
  | same h => exact .same (hw'.trans (h.trans hw.symm))
  | reaped h h' => exact .reaped (hw.trans h) (hw'.trans h')
  | forked hcall h h' => exact .forked hcall (hw.trans h) (hw'.trans h')

end Processor

/-- What the current thread does next, by the frame on top of its stack: `Code` says which calls its code makes where, and how it goes
on; the option is the call made. -/
inductive Processor.Moves {Pc : Type} (Code : Pc → Call Pc → Pc → Prop) (v : Processor Pc) : Option (Call Pc) → Processor Pc → Prop where
  | code {pc pc' : Pc} {rest : List (Frame Pc)} {call : Call Pc} {v' : Processor Pc} (hst : v.here = .code pc :: rest)
      (hcode : Code pc call pc') (h : Processor.Calls (v.put (.code pc' :: rest)) call v') : Moves Code v (some call) v'
  | setLevel {now : IntStatus} {rest : List (Frame Pc)} {v' : Processor Pc} (hst : v.here = .setLevel now :: rest)
      (h : Processor.Sets (v.put rest) now v') : Moves Code v none v'
  | restoreStatus {m : MachineStatus} {rest : List (Frame Pc)} (hst : v.here = .restoreStatus m :: rest) :
      Moves Code v none { v.put rest with status := m }
  | runTail {rest : List (Frame Pc)} {v' : Processor Pc} (hst : v.here = .runTail :: rest) (h : Processor.Reaps (v.put rest) v') :
      Moves Code v none v'
  | begin {rest : List (Frame Pc)} {v' : Processor Pc} (hst : v.here = .begin :: rest) (h : Processor.Reaps (v.put rest) v') :
      Moves Code v none (v'.put (.setLevel .on :: rest))
  | idle {finishing : Bool} {rest : List (Frame Pc)} (hst : v.here = .sleep finishing :: rest) (when : Int) :
      Moves Code v none { v with status := .system, stats := v.stats.advance when }
  | switch {finishing : Bool} {rest : List (Frame Pc)} (hst : v.here = .sleep finishing :: rest) (n : Tid) :
      Moves Code v none { v.put (.runTail :: rest) with currentThread := n }
  | take {s : SemId} {old : IntStatus} {rest : List (Frame Pc)} (hst : v.here = .semaphoreP s old :: rest) :
      Moves Code v none (v.put (.setLevel old :: rest))
  | wait {s : SemId} {old : IntStatus} {rest : List (Frame Pc)} (hst : v.here = .semaphoreP s old :: rest) :
      Moves Code v none (v.put (.sleep false :: .semaphoreP s old :: rest))

/-- A step does not touch the other threads, but for the ones that it deletes or forks. -/
theorem Processor.Moves.other {Pc : Type} {Code : Pc → Call Pc → Pc → Prop} {v v' : Processor Pc} {call : Option (Call Pc)}
    (h : v.Moves Code call v') {t : Tid}
    (ht : t ≠ v.currentThread) : Processor.Other t v call v' := by
  have hput (st : List (Frame Pc)) : v.stack t = (v.put st).stack t := (Function.update_of_ne ht _ _).symm
  cases h with
  | code hst hcode h => exact (h.other ht).congr (hput _) rfl
  | setLevel hst h => exact .same ((h.stack_other ht).trans (hput _).symm)
  | runTail hst h => exact (h.other t).congr (hput _) rfl
  | @begin rest v₁ hst h =>
    have hne : t ≠ v₁.currentThread := by
      rw [h.here.2]
      exact ht
    exact (h.other t).congr (hput _) (Function.update_of_ne hne _ _)
  | idle => exact .same rfl
  | restoreStatus | switch | take | wait => exact .same (Function.update_of_ne ht _ _)

namespace Kernel

variable {k k' : Kernel c}

/-- This part of a kernel. -/
def processor (k : Kernel c) : Processor c.Pc where
  currentThread := k.currentThread
  stack := k.stack
  level := k.level
  status := k.status
  stats := k.stats

theorem push_processor (k : Kernel c) (f : Frame c.Pc) : (k.push f).processor = k.processor.put (f :: k.processor.here) := rfl

theorem setCurrentStack_processor (k : Kernel c) (st : List (Frame c.Pc)) : (k.setCurrentStack st).processor = k.processor.put st := rfl

/-! ## Scheduler and semaphores -/

theorem readyToRun_processor {t : Tid} (h : k.readyToRun t = .ok k') : k'.processor = k.processor := by
  unfold readyToRun at h
  obtain ⟨-, h⟩ := of_assert_bind h
  obtain ⟨-, h⟩ := of_assert_bind h
  cases h
  rfl

theorem findNextToRun_processor {n : Option Tid} (h : k.findNextToRun = .ok (n, k')) : k'.processor = k.processor := by
  unfold findNextToRun at h
  obtain ⟨-, h⟩ := of_assert_bind h
  split at h
  · cases h
    rfl
  · cases h
    rfl

theorem run_processor {n : Tid} {finishing : Bool} (h : k.run n finishing = .ok k') :
    k'.processor = { k.processor.put (.runTail :: k.processor.here) with currentThread := n } := by
  unfold run at h
  obtain ⟨-, h⟩ := of_assert_bind h
  dsimp only at h
  split at h
  · obtain ⟨-, h⟩ := of_assert_bind h
    cases h
    rfl
  · cases h
    rfl

/-- Only the carcass of a thread is deleted. -/
theorem checkToBeDestroyed_processor (hcarcass : ∀ t, k.toBeDestroyed = some t → t ≠ k.currentThread → k.stack t = [.runTail])
    (h : k.checkToBeDestroyed = .ok k') : Processor.Reaps k.processor k'.processor := by
  unfold checkToBeDestroyed at h
  split at h
  · cases h
    exact .none
  · rename_i t ht
    obtain ⟨hne, h⟩ := of_assert_bind h
    cases h
    exact .reap (v := k.processor) hne (hcarcass t ht hne)

theorem semaphoreV_processor {s : SemId} {old : IntStatus} (h : k.semaphoreV s = .ok (old, k')) :
    old = k.level ∧ k'.processor = { k.processor with level := .off } := by
  unfold semaphoreV at h
  split at h
  · cases h
  · dsimp only at h
    split at h
    · cases h
      exact ⟨rfl, rfl⟩
    · obtain ⟨k₁, hk₁, h⟩ := of_bind_ok h
      cases h
      exact ⟨rfl, readyToRun_processor hk₁⟩

theorem yield_processor (h : k.yield = .ok k') :
    Processor.Gives { k.processor with level := .off } (.setLevel k.level :: k.processor.here) k'.processor := by
  unfold yield at h
  obtain ⟨⟨n, k₁⟩, hk₁, h⟩ := of_bind_ok h
  have hv₁ : k₁.processor = { k.processor with level := .off } := findNextToRun_processor hk₁
  have hpush : (k₁.push (.setLevel k.level)).processor =
      { k.processor with level := .off }.put (.setLevel k.level :: k.processor.here) := by
    rw [push_processor, hv₁]
    rfl
  cases n with
  | none =>
    cases h
    rw [hpush]
    exact .keeps
  | some n =>
    obtain ⟨k₂, hk₂, h⟩ := of_bind_ok h
    rw [run_processor h, readyToRun_processor hk₂, hpush, Processor.here_put, Processor.put_put]
    exact .loses n

theorem sleep_processor {finishing : Bool} (h : k.sleep finishing = .ok k') :
    k'.processor = k.processor.put (.sleep finishing :: k.processor.here) := by
  unfold sleep at h
  obtain ⟨-, h⟩ := of_assert_bind h
  cases h
  rfl

theorem fork_processor {t : Tid} {pc : c.Pc} (ht : t ≠ k.currentThread) (h : k.fork t pc = .ok k') :
    k'.processor = { k.processor with level := .off, stack := Function.update k.stack t [.begin, .code pc] }.put
      (.setLevel k.level :: k.processor.here) := by
  unfold fork at h
  obtain ⟨k₁, hk₁, h⟩ := of_bind_ok h
  cases h
  have hv₁ := readyToRun_processor hk₁
  have hhere : k₁.processor.here = k.processor.here := by
    rw [hv₁]
    exact Function.update_of_ne ht.symm _ _
  rw [push_processor, hhere, hv₁]
  rfl

theorem begin_processor (hcarcass : ∀ t, k.toBeDestroyed = some t → t ≠ k.currentThread → k.stack t = [.runTail])
    (h : k.begin = .ok k') : ∃ v, Processor.Reaps k.processor v ∧ k'.processor = v.put (.setLevel .on :: v.here) := by
  unfold begin at h
  obtain ⟨k₁, hk₁, h⟩ := of_bind_ok h
  cases h
  exact ⟨k₁.processor, checkToBeDestroyed_processor hcarcass hk₁, rfl⟩

theorem finish_processor (h : k.finish = .ok k') : k'.processor = { k.processor with level := .off }.put [.sleep true] := by
  unfold finish at h
  rw [sleep_processor h]
  have hhere : (((k.changeLevel .off).setCurrentStack []).record (.finished k.currentThread)).processor.here = [] :=
    Processor.here_put k.processor []
  rw [hhere]
  exact Processor.put_put { k.processor with level := .off } [] [.sleep true]

theorem semaphorePLoop_processor {s : SemId} {old : IntStatus} (h : k.semaphorePLoop s old = .ok k') :
    k'.processor = k.processor.put (.setLevel old :: k.processor.here) ∨
      k'.processor = k.processor.put (.sleep false :: .semaphoreP s old :: k.processor.here) := by
  unfold semaphorePLoop at h
  split at h
  · cases h
  · split at h
    · obtain ⟨-, h⟩ := of_assert_bind h
      right
      rw [sleep_processor h, push_processor, Processor.here_put, Processor.put_put]
      rfl
    · cases h
      exact Or.inl rfl

/-! ## Interrupts -/

/-- A handler that calls `V` has the level back that it had. -/
theorem handlerV_processor {s : SemId} (h : k.handlerV s = .ok k') : k'.processor = k.processor := by
  unfold handlerV at h
  obtain ⟨⟨old, k₁⟩, hk₁, h⟩ := of_bind_ok h
  obtain ⟨rfl, hv₁⟩ := semaphoreV_processor hk₁
  obtain ⟨-, h⟩ := of_assert_bind h
  cases h
  show { k₁.processor with level := k.level } = k.processor
  rw [hv₁]
  rfl

/-- A loop that changes nothing of it. -/
theorem foldlM_processor {α : Type} {body : Kernel c → α → Except Fault (Kernel c)}
    (hbody : ∀ k k' a, body k a = .ok k' → k'.processor = k.processor) {l : List α}
    (h : l.foldlM body k = .ok k') : k'.processor = k.processor := by
  induction l generalizing k with
  | nil =>
    cases h
    rfl
  | cons a l ih =>
    rw [List.foldlM_cons] at h
    obtain ⟨k₁, hk₁, h⟩ := of_bind_ok h
    exact (ih h).trans (hbody k k₁ a hk₁)

theorem callBack_processor {handler : Handler c} (h : k.callBack handler = .ok k') : k'.processor = k.processor := by
  unfold callBack at h
  split at h
  · split at h
    · obtain ⟨-, h⟩ := of_assert_bind h
      cases h
      rfl
    · cases h
      rfl
  · have hbody (k k' : Kernel c) (s : SemId) (h : k.handlerV s = .ok k') : k'.processor = k.processor := handlerV_processor h
    have hview := foldlM_processor hbody h
    exact hview

theorem checkIfDue_processor {due : List (Handler c)} {fired : Bool} (h : k.checkIfDue due = .ok (fired, k')) :
    k'.processor = k.processor ∧ fired = !due.isEmpty := by
  unfold checkIfDue at h
  obtain ⟨-, h⟩ := of_assert_bind h
  split at h
  · rename_i hdue
    cases h
    exact ⟨rfl, by rw [hdue]; rfl⟩
  · rename_i hdue
    obtain ⟨k₁, hk₁, h⟩ := of_bind_ok h
    cases h
    have hbody (k k' : Kernel c) (handler : Handler c) (h : k.callBack handler = .ok k') : k'.processor = k.processor :=
      callBack_processor h
    have hview := foldlM_processor hbody hk₁
    exact ⟨hview, by simp [hdue]⟩

theorem oneTick_processor {due : List (Handler c)} (h : k.oneTick due = .ok k') : Processor.Ticks k.processor k'.processor := by
  unfold oneTick at h
  obtain ⟨⟨fired, k₁⟩, hk₁, h⟩ := of_bind_ok h
  have hv₁ : k₁.processor = { k.processor with stats := k.stats.tick k.status, level := .off } := (checkIfDue_processor hk₁).1
  dsimp only at h
  split at h
  · have hpush : (({ k₁.changeLevel .on with yieldOnReturn := false, status := .system } : Kernel c).push
          (.restoreStatus k.status)).processor =
        { k.processor with stats := k.stats.tick k.status, level := .on, status := .system }.put
          (.restoreStatus k.status :: k.processor.here) := by
      show { k₁.processor with level := .on, status := .system }.put (.restoreStatus k.status :: k₁.processor.here) = _
      rw [hv₁]
      rfl
    have hy := yield_processor h
    rw [hpush, Processor.here_put] at hy
    exact .yields (Processor.Gives.of_put (v := { k.processor with stats := k.stats.tick k.status, level := .off, status := .system }) hy)
  · cases h
    show Processor.Ticks k.processor { k₁.processor with level := .on }
    rw [hv₁]
    exact .done

theorem setLevel_processor {now : IntStatus} {due : List (Handler c)} (h : k.setLevel now due = .ok k') :
    Processor.Sets k.processor now k'.processor := by
  unfold setLevel at h
  obtain ⟨-, h⟩ := of_assert_bind h
  split at h
  · rename_i hon
    obtain ⟨rfl, hoff⟩ := hon
    exact .ticks rfl hoff (oneTick_processor h)
  · rename_i hnot
    cases h
    refine .plain ?_
    rcases now with _ | _
    · exact Or.inl rfl
    · right
      cases hl : k.level with
      | off => exact absurd ⟨rfl, hl⟩ hnot
      | on => exact hl

theorem idle_processor {due : List (Handler c)} {when : Int} (h : k.idle due when = .ok k') :
    k'.processor = { k.processor with status := .system, stats := k.processor.stats.advance when } := by
  unfold idle at h
  obtain ⟨⟨fired, k₁⟩, hk₁, h⟩ := of_bind_ok h
  obtain ⟨hv₁, hfired⟩ := checkIfDue_processor hk₁
  dsimp only at h hfired
  split at h
  · rename_i hf
    cases h
    have hdue : due.isEmpty = false := by
      rw [hf] at hfired
      simpa using hfired
    rw [hdue] at hv₁
    show { k₁.processor with status := .system } = _
    rw [hv₁]
    rfl
  · cases h

theorem sleepLoop_processor {finishing : Bool} {rest : List (Frame c.Pc)} {due : List (Handler c)} {when : Int}
    (h : k.sleepLoop finishing rest due when = .ok k') :
    k'.processor = { k.processor with status := .system, stats := k.processor.stats.advance when } ∨
      ∃ n, k'.processor = { k.processor.put (.runTail :: rest) with currentThread := n } := by
  unfold sleepLoop at h
  obtain ⟨⟨n, k₁⟩, hk₁, h⟩ := of_bind_ok h
  have hv₁ := findNextToRun_processor hk₁
  cases n with
  | none =>
    left
    rw [idle_processor h, hv₁]
  | some n =>
    right
    refine ⟨n, ?_⟩
    rw [run_processor h, setCurrentStack_processor, Processor.here_put, Processor.put_put, hv₁]

/-! ## Steps -/

theorem call_processor {call : Call c.Pc} {due : List (Handler c)}
    (hfork : ∀ t pc, call = .fork t pc → t ≠ k.currentThread ∧ k.stack t = [])
    (h : k.call due call = .ok k') : Processor.Calls k.processor call k'.processor := by
  unfold Kernel.call at h
  cases call with
  | none =>
    cases h
    exact .none
  | p s =>
    rcases semaphorePLoop_processor h with h | h
    · rw [h]
      exact .take s
    · rw [h]
      exact .wait s
  | v s =>
    obtain ⟨⟨old, k₁⟩, hk₁, h⟩ := of_bind_ok h
    obtain ⟨rfl, hv₁⟩ := semaphoreV_processor hk₁
    cases h
    rw [push_processor, hv₁]
    exact .v s
  | yield => exact .yield (yield_processor h)
  | fork t pc =>
    obtain ⟨ht, hst⟩ := hfork t pc rfl
    rw [fork_processor ht h]
    exact .fork (v := k.processor) ht hst pc
  | finish =>
    rw [finish_processor h]
    exact .finish
  | newSemaphore s v =>
    cases h
    exact .newSemaphore s v
  | deleteSemaphore s =>
    cases h
    exact .deleteSemaphore s
  | setStatus st =>
    cases h
    exact .setStatus st
  | setLevel now => exact .setLevel (setLevel_processor h)
  | oneTick => exact .oneTick (oneTick_processor h)

/-- A carcass is a thread that has only the rest of `Scheduler::Run` left. -/
theorem Good.carcass (hG : Good k) {t : Tid} (ht : k.toBeDestroyed = some t) : k.stack t = [.runTail] := by
  obtain ⟨loc, hI⟩ := hG.inv
  exact (hI.carcass_iff t).1 ht

/-- The code of the current thread makes a call, and goes on at another program point. -/
def Codes (k : Kernel c) (pc : c.Pc) (call : Call c.Pc) (pc' : c.Pc) : Prop :=
  ∃ i sh, c.code k.currentThread k.shared pc i = .ok (sh, call, pc')

/-- What a step does. -/
theorem step_moves (hG : Good k) {ch : Choice c} (hallowed : k.AllowedStep ch) (h : k.step ch = .ok k') :
    k.processor.Moves k.Codes (k.nextCall ch) k'.processor := by
  unfold step at h
  cases hst : k.stack k.currentThread with
  | nil =>
    rw [hst] at h
    cases h
  | cons f rest =>
    rw [hst] at h
    have hnone (hf : ∀ pc, f ≠ .code pc) : k.nextCall ch = none := by
      unfold nextCall
      rw [hst]
      cases f <;> first | rfl | exact absurd rfl (hf _)
    have hcarcass : ∀ t, (k.setCurrentStack rest).toBeDestroyed = some t → t ≠ (k.setCurrentStack rest).currentThread →
        (k.setCurrentStack rest).stack t = [.runTail] := fun t ht hne =>
      (setCurrentStack_other k rest hne).trans (hG.carcass ht)
    cases f with
    | code pc =>
      obtain ⟨⟨sh, call, pc'⟩, hcode, h⟩ := of_bind_ok h
      have hnext : k.nextCall ch = some call := by
        unfold nextCall
        rw [hst]
        dsimp only
        rw [hcode]
      rw [hnext]
      refine .code (v := k.processor) hst ⟨_, _, hcode⟩ (call_processor ?_ h)
      intro t pc₁ hc
      have hallowed' := hallowed call hnext
      rw [hc] at hallowed'
      have hR := hG.running (by rw [hst]; obtain ⟨l, ts, hp⟩ := hG.placed_current hst; obtain rfl := hp.cur_code; exact .code pc)
      obtain ⟨hne, -, hnil, -⟩ := forked_running hR hallowed' pc₁
      exact ⟨hne, (setCurrentStack_other _ _ hne).trans hnil⟩
    | setLevel now =>
      rw [hnone nofun]
      exact .setLevel (v := k.processor) hst (setLevel_processor h)
    | restoreStatus m =>
      rw [hnone nofun]
      cases h
      exact .restoreStatus (v := k.processor) hst
    | runTail =>
      rw [hnone nofun]
      dsimp only at h
      unfold runTail at h
      obtain ⟨-, h⟩ := of_assert_bind h
      exact .runTail (v := k.processor) hst (checkToBeDestroyed_processor hcarcass h)
    | begin =>
      rw [hnone nofun]
      obtain ⟨v, hv, hk'⟩ := begin_processor hcarcass h
      have hhere : v.here = rest := hv.here.1.trans (Processor.here_put k.processor rest)
      rw [hk', hhere]
      exact .begin (v := k.processor) hst hv
    | sleep finishing =>
      rw [hnone nofun]
      rcases sleepLoop_processor h with h | ⟨n, h⟩
      · rw [h]
        exact .idle (v := k.processor) hst ch.when
      · rw [h]
        exact .switch (v := k.processor) hst n
    | semaphoreP s old =>
      rw [hnone nofun]
      rcases semaphorePLoop_processor h with h | h
      · rw [h, setCurrentStack_processor, Processor.here_put, Processor.put_put]
        exact .take (v := k.processor) hst
      · rw [h, setCurrentStack_processor, Processor.here_put, Processor.put_put]
        exact .wait (v := k.processor) hst

end Kernel

end Nachos
