import Nachos.Threads.Bookkeeping
import Nachos.Threads.Moves

/-!
# Interrupt-level discipline (threads/thread.cc, synch.cc, scheduler.cc, machine/interrupt.cc)

The level is one variable, and each call of the kernel that disables interrupts keeps the level of its caller in a frame. `resumeLevel`
reads it off the frames, whatever other threads do in between; when the frames of the call are gone it is the level.
-/

namespace Nachos

open Loop Transition

variable {c : Client}

/-- The interrupt level with which the code of a thread goes on after the call it is in; nothing if it is in none. -/
def resumeLevel {Pc : Type} : List (Frame Pc) → Option IntStatus
  | [] => none
  | .code _ :: _ => none
  | .setLevel now :: _ => some now
  | .restoreStatus _ :: _ => some .on
  | .runTail :: st => resumeLevel st
  | .begin :: _ => some .on
  | .sleep _ :: st => resumeLevel st
  | .semaphoreP _ oldLevel :: _ => some oldLevel

/-- The functions that set the level back: `Semaphore::P`, `Semaphore::V`, `Thread::Yield` and `Thread::Fork`. -/
inductive Call.SetsBack {Pc : Type} : Call Pc → Prop where
  | p (s : SemId) : SetsBack (.p s)
  | v (s : SemId) : SetsBack (.v s)
  | yield : SetsBack .yield
  | fork (t : Tid) (pc : Pc) : SetsBack (.fork t pc)

theorem BaseAt.resume {Pc : Type} {l : IntStatus} {st : List (Frame Pc)} (h : BaseAt l st) :
    resumeLevel st = some l ∨ ∃ pc, st = [.code pc] := by
  cases h with
  | code l pc => exact Or.inr ⟨pc, rfl⟩
  | restore m h => exact Or.inl rfl

/-- The thread is in its own code, in no call of the kernel. -/
def Processor.InCode {Pc : Type} (v : Processor Pc) (t : Tid) : Prop := ∃ pc, v.stack t = [.code pc]

/-- The thread goes on with that level: it is in a call, or its code runs. -/
def Processor.GoesOn {Pc : Type} (v : Processor Pc) (t : Tid) (l : IntStatus) : Prop :=
  resumeLevel (v.stack t) = some l ∨ v.InCode t ∧ v.currentThread = t ∧ v.level = l

/-- A thread is back at the frames that a call found. -/
theorem Processor.goesOn_here {Pc : Type} {v : Processor Pc} (h : BaseAt v.level v.here) : v.GoesOn v.currentThread v.level := by
  rcases h.resume with h | ⟨pc, hpc⟩
  · exact Or.inl h
  · exact Or.inr ⟨⟨pc, hpc⟩, rfl, rfl⟩

/-- Giving up the processor does not change with which level the thread goes on. -/
theorem Processor.Gives.resume {Pc : Type} {v v' : Processor Pc} {st : List (Frame Pc)} (h : v.Gives st v') :
    resumeLevel (v'.stack v.currentThread) = resumeLevel st := by
  cases h with
  | keeps => exact congrArg resumeLevel (Processor.here_put v st)
  | loses n =>
    show resumeLevel (v.put (.runTail :: st)).here = resumeLevel st
    rw [Processor.here_put]
    rfl

/-- A call that sets the level back has the level of its caller in its frames. -/
theorem Processor.Calls.resume {Pc : Type} {v v' : Processor Pc} {call : Call Pc} (h : v.Calls call v') (hcall : call.SetsBack) :
    resumeLevel (v'.stack v.currentThread) = some v.level := by
  cases h with
  | take | wait | v => exact congrArg resumeLevel (Processor.here_put _ _)
  | yield h => exact h.resume
  | fork ht hst pc => exact congrArg resumeLevel (Processor.here_put _ _)
  | _ => cases hcall

/-- `Interrupt::OneTick` goes on with interrupts enabled. -/
theorem Processor.Ticks.goesOn {Pc : Type} {v v' : Processor Pc} (h : v.Ticks v') (hb : Base v.here) : v'.GoesOn v.currentThread .on := by
  cases h with
  | done => exact Processor.goesOn_here (v := { v with stats := v.stats.tick v.status, level := .on }) hb.at_on
  | yields h => exact Or.inl h.resume

/-- `Interrupt::SetLevel`, called with interrupts disabled, goes on with the level given. -/
theorem Processor.Sets.goesOn {Pc : Type} {v v' : Processor Pc} {now : IntStatus} (h : v.Sets now v')
    (hb : BaseAt now v.here) : v'.GoesOn v.currentThread now := by
  cases h with
  | plain h => exact Processor.goesOn_here (v := { v with level := now }) hb
  | ticks hnow _ h =>
    subst hnow
    exact h.goesOn (v := { v with level := .on }) hb.base

namespace Kernel

variable {k k' : Kernel c}

/-- While the current thread has a call to go on with, interrupts are disabled, but for the end of a tick. -/
theorem Good.level_off (hG : Good k) {f : Frame c.Pc} {rest : List (Frame c.Pc)} (hst : k.stack k.currentThread = f :: rest)
    (hf : ∀ st, ¬Base (f :: st)) : k.level = .off := by
  refine hG.settled.off ?_
  intro h
  rw [hst] at h
  exact hf rest h

/-- At the end of a tick they are enabled. -/
theorem Good.level_on (hG : Good k) {m : MachineStatus} {rest : List (Frame c.Pc)}
    (hst : k.stack k.currentThread = .restoreStatus m :: rest) : k.level = .on ∧ Base rest := by
  obtain ⟨l, ts, hp⟩ := hG.placed_current hst
  have hb : Base rest := hp.cur_restoreStatus
  have hat := hG.settled.base (by rw [hst]; exact .restore m hb)
  rw [hst] at hat
  generalize k.level = l at hat
  cases hat
  exact ⟨rfl, hb⟩

/-- The step lemma: a thread keeps the level with which it goes on until its code runs with it. -/
theorem Good.step_goesOn (hG : Good k) {ch : Choice c} (hallowed : k.AllowedStep ch) (h : k.step ch = .ok k') {t : Tid}
    {l : IntStatus} (hl : resumeLevel (k.stack t) = some l) : k'.processor.GoesOn t l := by
  have hmoves := step_moves hG hallowed h
  by_cases ht : t = k.currentThread
  · subst ht
    obtain ⟨loc, hI⟩ := hG.inv
    have hplaced := hI.placed_current
    generalize k'.processor = v' at hmoves
    generalize k.nextCall ch = call at hmoves
    cases hmoves with
    | code hst hcode h =>
      rw [show k.stack k.currentThread = _ from hst] at hl
      cases hl
    | @setLevel now rest _ hst h =>
      have hst' : k.stack k.currentThread = .setLevel now :: rest := hst
      rw [hst'] at hl hplaced
      obtain rfl := Option.some.inj hl
      have hoff := hG.level_off hst' nofun
      refine h.goesOn ?_
      rw [Processor.here_put]
      exact hplaced.cur_setLevel.2.2
    | @restoreStatus m rest hst =>
      have hst' : k.stack k.currentThread = .restoreStatus m :: rest := hst
      obtain ⟨hon, hb⟩ := hG.level_on hst'
      rw [hst'] at hl
      obtain rfl := Option.some.inj hl
      have hgo := Processor.goesOn_here (v := { k.processor.put rest with status := m }) (by
        show BaseAt k.level (k.processor.put rest).here
        rw [hon, Processor.here_put]
        exact hb.at_on)
      rw [show ({ k.processor.put rest with status := m } : Processor c.Pc).level = .on from hon] at hgo
      exact hgo
    | @runTail rest _ hst h =>
      have hhere := h.here
      rw [Processor.here_put] at hhere
      have hcur : v'.currentThread = k.currentThread := hhere.2
      rw [show k.stack k.currentThread = _ from hst] at hl
      exact Or.inl (by rw [← hcur, show v'.stack v'.currentThread = rest from hhere.1]; exact hl)
    | @begin rest v₁ hst h =>
      rw [show k.stack k.currentThread = _ from hst] at hl
      obtain rfl := Option.some.inj hl
      rw [show k.currentThread = v₁.currentThread from h.here.2.symm]
      exact Or.inl (congrArg resumeLevel (Processor.here_put v₁ _))
    | idle hst when => exact Or.inl hl
    | @switch fin rest hst n =>
      rw [show k.stack k.currentThread = _ from hst] at hl
      exact Or.inl ((congrArg resumeLevel (Processor.here_put k.processor (.runTail :: rest))).trans hl)
    | @take s old rest hst =>
      rw [show k.stack k.currentThread = _ from hst] at hl
      exact Or.inl ((congrArg resumeLevel (Processor.here_put k.processor (.setLevel old :: rest))).trans hl)
    | @wait s old rest hst =>
      rw [show k.stack k.currentThread = _ from hst] at hl
      exact Or.inl ((congrArg resumeLevel (Processor.here_put k.processor (.sleep false :: .semaphoreP s old :: rest))).trans hl)
  · rcases hmoves.other ht with hsame | ⟨hst, -⟩ | ⟨-, hst, -⟩
    · exact Or.inl ((congrArg resumeLevel hsame).trans hl)
    · rw [show k.stack t = _ from hst] at hl
      cases hl
    · rw [show k.stack t = _ from hst] at hl
      cases hl

/-- A call that sets the level back is to go on with the level at its entry. -/
theorem Good.call_goesOn (hG : Good k) {ch : Choice c} (hallowed : k.AllowedStep ch) (h : k.step ch = .ok k') {call : Call c.Pc}
    (hnext : k.nextCall ch = some call) (hcall : call.SetsBack) : resumeLevel (k'.stack k.currentThread) = some k.level := by
  have hmoves := step_moves hG hallowed h
  rw [hnext] at hmoves
  generalize hv : k'.processor = v' at hmoves
  cases hmoves with
  | code hst hcode h =>
    have := h.resume hcall
    rw [← hv] at this
    exact this

/-- The run lemma: until thread `t` is back in its code, it goes on with the level at the entry of the call it is in. -/
theorem goesOn_of_run {b : Boot c} (hk : (system b).Reachable k) {t : Tid} {l : IntStatus} (hl : resumeLevel (k.stack t) = some l)
    (hrun : Relation.ReflTransGen (fun k k' => ¬k.processor.InCode t ∧ (system b).step k k') k k') : k'.processor.GoesOn t l := by
  have hboth : (system b).Reachable k' ∧ k'.processor.GoesOn t l := by
    induction hrun with
    | refl => exact ⟨hk, Or.inl hl⟩
    | tail _ hstep ih =>
      obtain ⟨hnot, ch, hallowed, hstep⟩ := hstep
      obtain ⟨hr, hgo⟩ := ih
      rcases hgo with hl | ⟨hin, -⟩
      · exact ⟨hr.step ⟨ch, hallowed, hstep⟩, (good_of_reachable hr).step_goesOn hallowed hstep hl⟩
      · exact absurd hin hnot
  exact hboth.2

/-- The discipline of the interrupt level. -/
structure Disciplined (b : Boot c) (k : Kernel c) : Prop where
  /-- No step fails an `ASSERT` of the kernel, those on the level included: it stops only by `Halt`, at a semaphore that is not there,
  or at an `ASSERT` of the code of the client. -/
  no_assert : ∀ ch, k.AllowedStep ch → ∀ e, k.step ch = .error e → e = .halted ∨ e = .nullDereference ∨ k.ClientFails ch e
  /-- A thread that goes on inside a call of the kernel, after `SWITCH` for example, finds interrupts disabled. -/
  off : ∀ f rest, k.stack k.currentThread = f :: rest → (∀ st, ¬Base (f :: st)) → k.level = .off
  inHandler : k.inHandler = false
  /-- A call of `P`, `V`, `Yield` or `Fork` by the code of a thread: when the thread is back in its code for the first time, it is the
  current one and the level is what it was at the entry, whatever ran in between. -/
  restored : ∀ ch call k₁, k.AllowedStep ch → k.nextCall ch = some call → call.SetsBack → k.step ch = .ok k₁ → ∀ k₂,
    Relation.ReflTransGen (fun x y => ¬x.processor.InCode k.currentThread ∧ (system b).step x y) k₁ k₂ →
    k₂.processor.InCode k.currentThread → k₂.currentThread = k.currentThread ∧ k₂.level = k.level
  /-- The `Yield` of a tick returns to it with interrupts enabled, as it was called. -/
  tick : ∀ m rest, k.stack k.currentThread = .restoreStatus m :: rest → k.level = .on
  /-- `V` called by a handler. -/
  handler : ∀ (k₁ k₂ : Kernel c) s, k₁.handlerV s = .ok k₂ → k₂.level = k₁.level

/-- The level discipline holds in every reachable state of every client. -/
theorem disciplined {b : Boot c} (hk : (system b).Reachable k) : k.Disciplined b := by
  have hG := good_of_reachable hk
  refine ⟨fun ch hallowed e he => hG.no_assert hallowed he, fun f rest hst hf => hG.level_off hst hf, hG.settled.inHandler, ?_,
    fun m rest hst => (hG.level_on hst).1, fun k₁ k₂ s h => congrArg Processor.level (handlerV_processor h)⟩
  intro ch call k₁ hallowed hnext hcall hstep k₂ hrun hin
  have hgo := goesOn_of_run (hk.step ⟨ch, hallowed, hstep⟩) (hG.call_goesOn hallowed hstep hnext hcall) hrun
  rcases hgo with hl | ⟨-, hcur, hlevel⟩
  · obtain ⟨pc, hpc⟩ := hin
    rw [hpc] at hl
    cases hl
  · exact ⟨hcur, hlevel⟩

/-- A client whose main thread forks thread 1 and yields to it with interrupts disabled. -/
def forkYieldOff : Client where
  Shared := Unit
  Pc := Nat
  Input := Unit
  Device := Empty
  code := fun _ _ pc _ =>
    match pc with
    | 0 => .ok ((), .setLevel .off, 1)
    | 1 => .ok ((), .fork 1 4, 2)
    | 2 => .ok ((), .yield, 3)
    | 3 => .ok ((), .none, 3)
    | _ => .ok ((), .finish, 4)
  device := nofun

/-- Its run up to the point where the main thread is back from the yield. -/
def forkYieldOffRun : Option (Kernel forkYieldOff) :=
  (Boot.kernel (c := forkYieldOff) { shared := (), pc := (0 : Nat), semaphores := fun _ => none }).execute
    (List.replicate 11 { input := (), due := [] })

theorem disciplined_forkYieldOff : ∃ k : Kernel forkYieldOff, k.level = .off ∧ .deleted 1 ∈ k.history ∧
    k.Disciplined { shared := (), pc := (0 : Nat), semaphores := fun _ => none } := by
  have hrun : (forkYieldOffRun.map fun k => (k.level, k.history)) = some (.off, [.deleted 1, .dispatched 0, .finished 1, .dispatched 1,
      .readied 0, .readied 1, .forked 1]) := by decide
  obtain ⟨k, hk, hh⟩ := Option.map_eq_some_iff.1 hrun
  obtain ⟨hl, hh⟩ := Prod.mk.inj hh
  exact ⟨k, hl, by rw [hh]; decide, disciplined (reachable_of_execute (.init rfl) hk)⟩

end Kernel

end Nachos
