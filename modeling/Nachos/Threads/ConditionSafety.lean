import Nachos.Threads.LockSafety

/-!
# Condition variables lose no signal

A call of `Wait` owns its semaphore from its creation to its deletion. The semaphore is at 0 while it is on `waitQueue`, at 1 from
the signal that takes it off until the `P` of its owner, and at 0 again after that. The log says which signal that was.
-/

namespace Nachos

namespace Synch

variable {T : Type}

/-- How far a call of `Wait` is: its semaphore is made; it was put on the queue and its `P` is ahead; its `P` is done. -/
inductive Stage where
  | created
  | waiting
  | done
  deriving DecidableEq

/-- The semaphore of the call of `Wait` that a thread is in, and how far it is. -/
def Pc.stage : Pc T → Option (SemId × Stage)
  | .waitAppend s _ => some (s, .created)
  | .releaseAssert (.wait s _) => some (s, .waiting)
  | .releaseHolder (.wait s _) => some (s, .waiting)
  | .releaseV (.wait s _) => some (s, .waiting)
  | .waitP s _ => some (s, .waiting)
  | .acquireP (.wait s _) => some (s, .done)
  | .acquireHolder (.wait s _) => some (s, .done)
  | .waitDelete s _ => some (s, .done)
  | _ => none

theorem Pc.waiter_of_stage {pc : Pc T} {s : SemId} {st : Stage} (h : pc.stage = some (s, st)) : pc.waiter = some s := by
  cases pc with
  | waitAppend s f =>
    cases h
    rfl
  | waitP s f =>
    cases h
    rfl
  | waitDelete s f =>
    cases h
    rfl
  | releaseAssert f =>
    cases f <;> cases h
    rfl
  | releaseHolder f =>
    cases f <;> cases h
    rfl
  | releaseV f =>
    cases f <;> cases h
    rfl
  | acquireP f =>
    cases f <;> cases h
    rfl
  | acquireHolder f =>
    cases f <;> cases h
    rfl
  | _ => cases h

/-- Semaphore `s`, put on the queue by `t`, was taken off by a signal, and not put on it since. -/
def Released (log : List CondEvent) (t : Tid) (s : SemId) : Prop :=
  ∃ t' new old, log = new ++ .signals t' (some s) :: old ∧ .waits t s ∈ old ∧ ∀ t'', .waits t'' s ∉ new

/-- What holds of the semaphore of a call of `Wait` by `t`. -/
def StageOk (v : View T) (t : Tid) (s : SemId) : Stage → Prop
  | .created => s ∉ v.monitor.waitQueue ∧ v.value s = some 0
  | .waiting => s ∈ v.monitor.waitQueue ∧ v.value s = some 0 ∧ .waits t s ∈ v.monitor.log ∨
      s ∉ v.monitor.waitQueue ∧ v.value s = some 1 ∧ Released v.monitor.log t s
  | .done => s ∉ v.monitor.waitQueue ∧ v.value s = some 0 ∧ Released v.monitor.log t s

/-- The invariant of the waiters. -/
structure Waiting (v : View T) : Prop where
  unique : ∀ t t' s st st', (v.pc t).bind Pc.stage = some (s, st) → (v.pc t').bind Pc.stage = some (s, st') → t' = t
  stage : ∀ t s st, (v.pc t).bind Pc.stage = some (s, st) → StageOk v t s st
  queued : ∀ s ∈ v.monitor.waitQueue, ∃ t, (v.pc t).bind Pc.stage = some (s, .waiting)
  nodup : v.monitor.waitQueue.Nodup

theorem StageOk.value_ne {v : View T} {t : Tid} {s : SemId} {st : Stage} (h : StageOk v t s st) : v.value s ≠ none := by
  cases st with
  | created =>
    rw [h.2]
    exact fun h => by cases h
  | waiting =>
    rcases h with ⟨-, h, -⟩ | ⟨-, h, -⟩ <;> rw [h] <;> exact fun h => by cases h
  | done =>
    rw [h.2.1]
    exact fun h => by cases h

/-- These events put `s` on no queue. -/
def Quiet (new : List CondEvent) (s : SemId) : Prop := ∀ t, .waits t s ∉ new

theorem quiet_nil (s : SemId) : Quiet [] s := fun _ => List.not_mem_nil

theorem Quiet.cons {new : List CondEvent} {s : SemId} (h : Quiet new s) {e : CondEvent} (he : ∀ t, e ≠ .waits t s) :
    Quiet (e :: new) s := by
  intro t hmem
  rcases List.mem_cons.1 hmem with h₁ | h₁
  · exact he t h₁.symm
  · exact h t h₁

/-- A release stays one when other semaphores are put on the queue and signalled. -/
theorem Released.append {log : List CondEvent} {t : Tid} {s : SemId} (h : Released log t s) {new : List CondEvent}
    (hnew : Quiet new s) : Released (new ++ log) t s := by
  obtain ⟨t', new₁, old, hlog, hw, hnew₁⟩ := h
  refine ⟨t', new ++ new₁, old, by rw [hlog, List.append_assoc], hw, ?_⟩
  intro t'' hmem
  rcases List.mem_append.1 hmem with h | h
  · exact hnew t'' h
  · exact hnew₁ t'' h

/-- What holds of a semaphore does not change with the others. -/
theorem StageOk.congr {v v' : View T} {t : Tid} {s : SemId} {st : Stage} (h : StageOk v t s st)
    (hq : s ∈ v'.monitor.waitQueue ↔ s ∈ v.monitor.waitQueue) (hv : v'.value s = v.value s) {new : List CondEvent}
    (hl : v'.monitor.log = new ++ v.monitor.log) (hnew : Quiet new s) : StageOk v' t s st := by
  cases st with
  | created => exact ⟨fun hs => h.1 (hq.1 hs), hv.trans h.2⟩
  | waiting =>
    rcases h with ⟨hmem, hval, hw⟩ | ⟨hmem, hval, hr⟩
    · exact Or.inl ⟨hq.2 hmem, hv.trans hval, by rw [hl]; exact List.mem_append_right _ hw⟩
    · exact Or.inr ⟨fun hs => hmem (hq.1 hs), hv.trans hval, by rw [hl]; exact hr.append hnew⟩
  | done => exact ⟨fun hs => h.1 (hq.1 hs), hv.trans h.2.1, by rw [hl]; exact h.2.2.append hnew⟩

namespace Waiting

variable {v : View T} {t : Tid}

/-- Only thread `t` moves, to `o`. -/
theorem update (hW : Waiting v) {v' : View T} {o : Option (Pc T)} (hpc : v'.pc = Function.update v.pc t o)
    (hother : ∀ t' s st, t' ≠ t → (v.pc t').bind Pc.stage = some (s, st) → StageOk v' t' s st)
    (hself : ∀ s st, o.bind Pc.stage = some (s, st) →
      StageOk v' t s st ∧ ∀ t' st', (v.pc t').bind Pc.stage = some (s, st') → t' = t)
    (hq : ∀ s ∈ v'.monitor.waitQueue, (∃ t' ≠ t, (v.pc t').bind Pc.stage = some (s, .waiting)) ∨
      o.bind Pc.stage = some (s, .waiting)) (hnd : v'.monitor.waitQueue.Nodup) : Waiting v' := by
  have hme : (v'.pc t).bind Pc.stage = o.bind Pc.stage := by rw [hpc, Function.update_self]
  have hst : ∀ t' ≠ t, (v'.pc t').bind Pc.stage = (v.pc t').bind Pc.stage := by
    intro t' hne
    rw [hpc, Function.update_of_ne hne]
  refine ⟨?_, ?_, ?_, hnd⟩
  · intro t₁ t₂ s st st' h₁ h₂
    by_cases e₁ : t₁ = t <;> by_cases e₂ : t₂ = t
    · rw [e₁, e₂]
    · rw [e₁, hme] at h₁
      rw [hst t₂ e₂] at h₂
      exact ((hself s st h₁).2 t₂ st' h₂).trans e₁.symm
    · rw [hst t₁ e₁] at h₁
      rw [e₂, hme] at h₂
      exact e₂.trans ((hself s st' h₂).2 t₁ st h₁).symm
    · rw [hst t₁ e₁] at h₁
      rw [hst t₂ e₂] at h₂
      exact hW.unique t₁ t₂ s st st' h₁ h₂
  · intro t' s st h
    rcases eq_or_ne t' t with rfl | hne
    · rw [hme] at h
      exact (hself s st h).1
    · rw [hst t' hne] at h
      exact hother t' s st hne h
  · intro s hs
    rcases hq s hs with ⟨t', hne, h⟩ | h
    · exact ⟨t', (hst t' hne).trans h⟩
    · exact ⟨t, hme.trans h⟩

/-- The waiters do not look at the lock and at the list: what they see is the queue, the values of their semaphores, and the log,
where events that do not put a semaphore on the queue can come. -/
theorem congr (hW : Waiting v) {v' : View T} (hst : ∀ t, (v'.pc t).bind Pc.stage = (v.pc t).bind Pc.stage)
    (hq : v'.monitor.waitQueue = v.monitor.waitQueue) {new : List CondEvent} (hl : v'.monitor.log = new ++ v.monitor.log)
    (hnew : ∀ s, Quiet new s) (hv : ∀ t s st, (v.pc t).bind Pc.stage = some (s, st) → v'.value s = v.value s) :
    Waiting v' := by
  refine ⟨?_, ?_, ?_, by rw [hq]; exact hW.nodup⟩
  · intro t t' s st st' h h'
    rw [hst] at h h'
    exact hW.unique t t' s st st' h h'
  · intro t s st h
    rw [hst] at h
    exact (hW.stage t s st h).congr (by rw [hq]) (hv t s st h) hl (hnew s)
  · intro s hs
    rw [hq] at hs
    obtain ⟨t, ht⟩ := hW.queued s hs
    exact ⟨t, by rw [hst]; exact ht⟩

/-- A thread moves within a stage. -/
theorem move (hW : Waiting v) {o : Option (Pc T)} (hst : o.bind Pc.stage = (v.pc t).bind Pc.stage) {m : Monitor T}
    (hq : m.waitQueue = v.monitor.waitQueue) {new : List CondEvent} (hl : m.log = new ++ v.monitor.log)
    (hnew : ∀ s, Quiet new s) : Waiting (v.move t o m) := by
  refine hW.congr ?_ hq hl hnew (fun _ _ _ _ => rfl)
  intro t'
  rcases eq_or_ne t' t with rfl | hne
  · rw [View.move_pc_self]
    exact hst
  · rw [View.move_pc_other v hne]

/-- As `move`, from one statement to another, with nothing to log. -/
theorem goto (hW : Waiting v) {pc pc' : Pc T} (h : v.pc t = some pc) (hst : pc'.stage = pc.stage) {m : Monitor T}
    (hq : m.waitQueue = v.monitor.waitQueue) (hl : m.log = v.monitor.log) : Waiting (v.move t (some pc') m) := by
  have hlog : m.log = [] ++ v.monitor.log := hl
  refine hW.move ?_ hq hlog quiet_nil
  rw [h]
  exact hst

/-- A semaphore that no call of `Wait` owns changes. -/
theorem setValue (hW : Waiting v) {s : SemId} (hs : ∀ t st, (v.pc t).bind Pc.stage ≠ some (s, st)) (x : Option Int) :
    Waiting (v.setValue s x) := by
  refine hW.congr (fun _ => rfl) rfl (rfl : _ = [] ++ v.monitor.log) quiet_nil (fun t s' st h => v.setValue_other ?_ x)
  rintro rfl
  exact hs t st h

/-- The semaphore of the lock is owned by no call of `Wait`. -/
theorem lock_ne {o : Option Tid} (hO : Owned v o) (t : Tid) (st : Stage) : (v.pc t).bind Pc.stage ≠ some (lockSemaphore, st) := by
  intro h
  cases hpc : v.pc t with
  | none =>
    rw [hpc] at h
    cases h
  | some pc =>
    rw [hpc] at h
    exact hO.waiter_ne t pc _ hpc (Pc.waiter_of_stage h) rfl

/-- The stage of a thread that is at `pc`. -/
theorem stage_at {pc : Pc T} {r : Option (SemId × Stage)} (h : v.pc t = some pc) (hst : pc.stage = r) :
    (v.pc t).bind Pc.stage = r := by
  rw [h]
  exact hst

/-- A semaphore that is not there is on no queue and in no call of `Wait`. -/
theorem fresh (hW : Waiting v) {s : SemId} (hs : v.value s = none) (t : Tid) (st : Stage) :
    (v.pc t).bind Pc.stage ≠ some (s, st) := fun h => (hW.stage t s st h).value_ne hs

theorem fresh_not_queued (hW : Waiting v) {s : SemId} (hs : v.value s = none) : s ∉ v.monitor.waitQueue := by
  intro hmem
  obtain ⟨t, h⟩ := hW.queued s hmem
  exact hW.fresh hs t .waiting h

/-- A semaphore is made. -/
theorem waitNew (hW : Waiting v) {f : WaitFrom} {s : SemId} (h : v.pc t = some (.waitNew f)) (hs : v.value s = none) :
    Waiting ((v.move t (some (.waitAppend s f)) v.monitor).setValue s (some 0)) := by
  have hne : ∀ t' s' st, (v.pc t').bind Pc.stage = some (s', st) → s' ≠ s := by
    rintro t' s' st h rfl
    exact hW.fresh hs t' st h
  have hnone : (v.pc t).bind Pc.stage = none := stage_at h rfl
  refine hW.update rfl ?_ ?_ ?_ hW.nodup
  · intro t' s' st hne' h'
    have hlog : v.monitor.log = [] ++ v.monitor.log := rfl
    exact (hW.stage t' s' st h').congr Iff.rfl (View.setValue_other _ (hne t' s' st h') _) hlog (quiet_nil s')
  · intro s' st h'
    cases h'
    exact ⟨⟨hW.fresh_not_queued hs, View.setValue_self _ _ _⟩, fun t' st' h₁ => absurd h₁ (hW.fresh hs t' st')⟩
  · intro s' hs'
    obtain ⟨t', h₁⟩ := hW.queued s' hs'
    refine Or.inl ⟨t', ?_, h₁⟩
    rintro rfl
    cases hnone.symm.trans h₁

/-- It is put on the queue. -/
theorem waitAppend (hW : Waiting v) {f : WaitFrom} {s : SemId} (h : v.pc t = some (.waitAppend s f)) :
    Waiting (v.move t (some (.releaseAssert (.wait s f)))
      ({ v.monitor with waitQueue := v.monitor.waitQueue ++ [s] }.record (.waits t s))) := by
  have hst : (v.pc t).bind Pc.stage = some (s, .created) := stage_at h rfl
  obtain ⟨hq, hval⟩ := hW.stage t s _ hst
  refine hW.update rfl ?_ ?_ ?_ ?_
  · intro t' s' st hne h'
    have hs' : s' ≠ s := by
      rintro rfl
      exact hne (hW.unique t t' s' _ _ hst h')
    have hlog : .waits t s :: v.monitor.log = [CondEvent.waits t s] ++ v.monitor.log := rfl
    refine (hW.stage t' s' st h').congr ?_ rfl hlog ((quiet_nil s').cons ?_)
    · refine ⟨fun hmem => (List.mem_append.1 hmem).resolve_right fun hmem => hs' (List.mem_singleton.1 hmem), ?_⟩
      intro hmem
      exact List.mem_append_left _ hmem
    · intro t'' e
      cases e
      exact hs' rfl
  · intro s' st h'
    cases h'
    exact ⟨Or.inl ⟨List.mem_append_right _ (List.mem_singleton_self s), hval, List.mem_cons_self⟩,
      fun t' st' h₁ => hW.unique t t' s _ _ hst h₁⟩
  · intro s' hs'
    rcases List.mem_append.1 hs' with hs' | hs'
    · obtain ⟨t', h₁⟩ := hW.queued s' hs'
      refine Or.inl ⟨t', ?_, h₁⟩
      rintro rfl
      cases hst.symm.trans h₁
    · rw [List.mem_singleton.1 hs']
      exact Or.inr rfl
  · exact List.Nodup.append hW.nodup (List.nodup_singleton s) (List.disjoint_singleton.2 hq)

/-- Its `P` goes through, because it was released. -/
theorem waitP (hW : Waiting v) {f : WaitFrom} {s : SemId} {x : Int} (h : v.pc t = some (.waitP s f)) (hx : v.value s = some x)
    (h0 : x ≠ 0) : Waiting ((v.move t (some (.acquireP (.wait s f))) v.monitor).setValue s (some (x - 1))) := by
  have hst : (v.pc t).bind Pc.stage = some (s, .waiting) := stage_at h rfl
  obtain ⟨hq, hval, hr⟩ : s ∉ v.monitor.waitQueue ∧ v.value s = some 1 ∧ Released v.monitor.log t s := by
    rcases hW.stage t s _ hst with ⟨-, hval, -⟩ | h
    · exact absurd (Option.some.inj (hx.symm.trans hval)) h0
    · exact h
  obtain rfl : x = 1 := Option.some.inj (hx.symm.trans hval)
  refine hW.update rfl ?_ ?_ ?_ hW.nodup
  · intro t' s' st hne h'
    have hs' : s' ≠ s := by
      rintro rfl
      exact hne (hW.unique t t' s' _ _ hst h')
    have hlog : v.monitor.log = [] ++ v.monitor.log := rfl
    exact (hW.stage t' s' st h').congr Iff.rfl (View.setValue_other _ hs' _) hlog (quiet_nil s')
  · intro s' st h'
    cases h'
    exact ⟨⟨hq, View.setValue_self _ _ _, hr⟩, fun t' st' h₁ => hW.unique t t' s _ _ hst h₁⟩
  · intro s' hs'
    obtain ⟨t', h₁⟩ := hW.queued s' hs'
    refine Or.inl ⟨t', ?_, h₁⟩
    rintro rfl
    cases hst.symm.trans h₁
    exact hq hs'

/-- It is deleted. -/
theorem waitDelete (hW : Waiting v) {f : WaitFrom} {s : SemId} (h : v.pc t = some (.waitDelete s f)) :
    Waiting ((v.move t (some f.next) v.monitor).setValue s none) := by
  have hst : (v.pc t).bind Pc.stage = some (s, .done) := stage_at h rfl
  have hnext : (f.next : Pc T).stage = none := by cases f <;> rfl
  refine hW.update rfl ?_ ?_ ?_ hW.nodup
  · intro t' s' st hne h'
    have hs' : s' ≠ s := by
      rintro rfl
      exact hne (hW.unique t t' s' _ _ hst h')
    have hlog : v.monitor.log = [] ++ v.monitor.log := rfl
    exact (hW.stage t' s' st h').congr Iff.rfl (View.setValue_other _ hs' _) hlog (quiet_nil s')
  · intro s' st h'
    cases hnext.symm.trans h'
  · intro s' hs'
    obtain ⟨t', h₁⟩ := hW.queued s' hs'
    refine Or.inl ⟨t', ?_, h₁⟩
    rintro rfl
    cases hst.symm.trans h₁

/-- A `Signal` takes the first semaphore off the queue and increments it, or finds none. -/
theorem signals (hW : Waiting v) {pc pc' : Pc T} (h : v.pc t = some pc) (hpc : pc.stage = none) (hpc' : pc'.stage = none)
    {m m' : Monitor T} {w : Option SemId} (hs : Signals t m w m') (hq : m.waitQueue = v.monitor.waitQueue)
    {new : List CondEvent} (hl : m.log = new ++ v.monitor.log) (hnew : ∀ s, Quiet new s) :
    Waiting ((v.move t (some pc') m').bump w) := by
  have hquiet : ∀ s, Quiet (.signals t w :: new) s := fun s => (hnew s).cons fun t' e => by cases e
  have hmove : ∀ {m₁ : Monitor T}, m₁.log = .signals t w :: m.log → m₁.log = .signals t w :: new ++ v.monitor.log := by
    intro m₁ h₁
    rw [h₁, hl]
    rfl
  cases hs with
  | none hheld hnil =>
    refine hW.move ?_ hq (hmove rfl) hquiet
    rw [h]
    exact hpc'.trans hpc.symm
  | @some w rest hheld hcons =>
    rw [hq] at hcons
    have hnone : (v.pc t).bind Pc.stage = none := stage_at h hpc
    have hnd : (w :: rest).Nodup := by
      rw [← hcons]
      exact hW.nodup
    obtain ⟨t', hst⟩ := hW.queued w (by rw [hcons]; exact List.mem_cons_self)
    have hne : t' ≠ t := by
      rintro rfl
      cases hnone.symm.trans hst
    have hpcs : ∀ t₁, (((v.move t (some pc') ({ m with waitQueue := rest }.record (.signals t (some w)))).bump (some w)).pc t₁).bind
        Pc.stage = (v.pc t₁).bind Pc.stage := by
      intro t₁
      rw [View.bump_pc]
      rcases eq_or_ne t₁ t with rfl | hne₁
      · rw [View.move_pc_self, hnone]
        exact hpc'
      · rw [View.move_pc_other v hne₁]
    refine ⟨?_, ?_, ?_, (List.nodup_cons.1 hnd).2⟩
    · intro t₁ t₂ s st st' h₁ h₂
      rw [hpcs] at h₁ h₂
      exact hW.unique t₁ t₂ s st st' h₁ h₂
    · intro t₁ s st h₁
      rw [hpcs] at h₁
      rcases eq_or_ne s w with rfl | hs
      · obtain rfl := hW.unique t₁ t' s _ _ h₁ hst
        cases hst.symm.trans h₁
        obtain ⟨hval, hw⟩ : v.value s = some 0 ∧ .waits t' s ∈ v.monitor.log := by
          rcases hW.stage t' s _ hst with ⟨-, hval, hw⟩ | ⟨hmem, -⟩
          · exact ⟨hval, hw⟩
          · exact absurd (by rw [hcons]; exact List.mem_cons_self) hmem
        refine Or.inr ⟨(List.nodup_cons.1 hnd).1, ?_, t, [], m.log, rfl, ?_, quiet_nil s⟩
        · rw [View.bump_self]
          show (v.value s).map (· + 1) = _
          rw [hval]
          rfl
        · rw [hl]
          exact List.mem_append_right _ hw
      · refine (hW.stage t₁ s st h₁).congr ?_ (View.bump_other _ fun e => hs (Option.some.inj e).symm) (hmove rfl) (hquiet s)
        rw [hcons]
        exact ⟨fun hmem => List.mem_cons_of_mem _ hmem, fun hmem => (List.mem_cons.1 hmem).resolve_left hs⟩
    · intro s hs
      obtain ⟨t₁, h₁⟩ := hW.queued s (by rw [hcons]; exact List.mem_cons_of_mem _ hs)
      exact ⟨t₁, (hpcs t₁).trans h₁⟩

/-- Whatever a thread does, the waiters keep their semaphores. -/
theorem step {ops : Op T → Bool} {v' : View T} {o : Option Tid} (hW : Waiting v) (hO : Owned v o) (hstep : Step ops t v v') :
    Waiting v' := by
  cases hstep with
  | start h hop hb =>
    rename_i op pc
    refine hW.goto h ?_ rfl rfl
    cases op <;> cases hb <;> rfl
  | @fork t' h hnew =>
    have hlog : v.monitor.log = [] ++ v.monitor.log := rfl
    exact hW.move (by rw [hnew]; rfl) rfl hlog quiet_nil
  | finish h =>
    have hlog : v.monitor.log = [] ++ v.monitor.log := rfl
    exact hW.move (by rw [h]; rfl) rfl hlog quiet_nil
  | @acquireP f x h hx h0 =>
    have hW' : Waiting (v.move t (some (.acquireHolder f)) v.monitor) := hW.goto h (by cases f <;> rfl) rfl rfl
    refine hW'.setValue ?_ _
    intro t' st h'
    rcases eq_or_ne t' t with rfl | hne
    · refine lock_ne hO t' st ?_
      rw [View.move_pc_self] at h'
      cases f <;> exact (stage_at h rfl).trans h'
    · rw [View.move_pc_other v hne] at h'
      exact lock_ne hO t' st h'
  | acquireHolder h =>
    rename_i f
    exact hW.goto h (by cases f <;> rfl) rfl rfl
  | releaseAssert h held =>
    rename_i f
    exact hW.goto h (by cases f <;> rfl) rfl rfl
  | releaseHolder h =>
    rename_i f
    exact hW.goto h (by cases f <;> rfl) rfl rfl
  | @releaseV f x h hx =>
    have hnext : (f.next : Pc T).stage = (Pc.releaseV f : Pc T).stage := by cases f <;> rfl
    have hW' : Waiting (v.move t (some f.next) { v.monitor with critical := v.monitor.critical.erase t }) :=
      hW.goto h hnext rfl rfl
    refine hW'.setValue ?_ _
    intro t' st h'
    rcases eq_or_ne t' t with rfl | hne
    · refine lock_ne hO t' st ?_
      rw [View.move_pc_self] at h'
      exact (stage_at h hnext.symm).trans h'
    · rw [View.move_pc_other v hne] at h'
      exact lock_ne hO t' st h'
  | waitAssert h held => exact hW.goto h (by rfl) rfl rfl
  | waitNew h hs => exact hW.waitNew h hs
  | waitAppend h hq => exact hW.waitAppend h
  | waitP h hx h0 => exact hW.waitP h hx h0
  | waitDelete h => exact hW.waitDelete h
  | signal h hs =>
    have hlog : v.monitor.log = [] ++ v.monitor.log := rfl
    exact hW.signals h rfl rfl hs rfl hlog quiet_nil
  | broadcastEnd h hq =>
    rename_i again
    cases again with
    | false => exact hW.goto h (by rfl) rfl rfl
    | true =>
      have hlog : .broadcastEnds t :: v.monitor.log = [CondEvent.broadcastEnds t] ++ v.monitor.log := rfl
      exact hW.move (by rw [h]; rfl) rfl hlog fun s => (quiet_nil s).cons fun t' e => by cases e
  | broadcast h hq hs =>
    rename_i again w m
    cases again with
    | false =>
      have hlog : .broadcasts t v.monitor.waitQueue :: v.monitor.log =
        [CondEvent.broadcasts t v.monitor.waitQueue] ++ v.monitor.log := rfl
      exact hW.signals h rfl rfl hs rfl hlog fun s => (quiet_nil s).cons fun t' e => by cases e
    | true =>
      have hlog : v.monitor.log = [] ++ v.monitor.log := rfl
      exact hW.signals h rfl rfl hs rfl hlog quiet_nil
  | append h hi hs =>
    have hlog : v.monitor.log = [] ++ v.monitor.log := rfl
    exact hW.signals h rfl rfl hs rfl hlog quiet_nil
  | removeEmpty h hl => exact hW.goto h (by rfl) rfl rfl
  | removeFront h hl => exact hW.goto h (by rfl) rfl rfl

end Waiting

/-- A thread in user code or nowhere is in no call of `Wait`. -/
theorem waiting_new : Waiting (View.new (T := T)) := by
  have hnone : ∀ t, ((View.new (T := T)).pc t).bind Pc.stage = none := by
    intro t
    show (if t = mainThread then some Pc.user else none).bind Pc.stage = none
    split <;> rfl
  refine ⟨?_, ?_, (fun s hs => by cases hs), List.nodup_nil⟩
  · intro t t' s st st' h
    cases (hnone t).symm.trans h
  · intro t s st h
    cases (hnone t).symm.trans h

/-- In every reachable state the waiters have their semaphores. -/
theorem waiting_of_reachable {ops : Op T → Bool} {v : View T} (hv : (system ops).Reachable v) : Waiting v := by
  refine hv.invariant ?_ ?_
  · rintro v rfl
    exact waiting_new
  · rintro v v' hv hW ⟨t, hstep⟩
    obtain ⟨o, hO⟩ := owned_of_reachable hv
    exact hW.step hO hstep

/-! ## The order of the signals -/

/-- The semaphores put on the queue, newest first. -/
def enqueued (log : List CondEvent) : List SemId :=
  log.filterMap fun
    | .waits _ s => some s
    | _ => none

/-- The semaphores that signals took off the queue, newest first. -/
def dequeued (log : List CondEvent) : List SemId :=
  log.filterMap fun
    | .signals _ w => w
    | _ => none

/-- The rounds of a `Broadcast` by `t`, newest first: its signals to `done`, in this order. -/
def rounds (t : Tid) (done : List SemId) : List CondEvent := done.reverse.map fun s => .signals t (some s)

theorem rounds_append (t : Tid) (done : List SemId) (s : SemId) :
    rounds t (done ++ [s]) = .signals t (some s) :: rounds t done := by
  unfold rounds
  rw [List.reverse_append]
  rfl

/-- The log in order: signals release the waiters first come, first served; a `Broadcast` begins with those on the queue, and when
it is over it has released them, and nothing else has happened meanwhile. -/
structure Ordered (v : View T) : Prop where
  fifo : enqueued v.monitor.log = v.monitor.waitQueue.reverse ++ dequeued v.monitor.log
  begun : ∀ new t q old, v.monitor.log = new ++ .broadcasts t q :: old → enqueued old = q.reverse ++ dequeued old
  running : ∀ t, v.pc t = some (.broadcast true) →
    ∃ done old, v.monitor.log = rounds t done ++ .broadcasts t (done ++ v.monitor.waitQueue) :: old
  ended : ∀ new t rest, v.monitor.log = new ++ .broadcastEnds t :: rest → ∃ q old, rest = rounds t q ++ .broadcasts t q :: old

/-- Whoever is in the loop of `Broadcast` after a step of `t` was there before it, and is not `t`. -/
def Back (v v' : View T) (t : Tid) : Prop :=
  ∀ t', v'.pc t' = some (.broadcast true) → t' ≠ t ∧ v.pc t' = some (.broadcast true)

/-- What a step of `t` does to the queue and the log: nothing; a semaphore is put on the queue; a `Signal`, on its own or in a
round of a `Broadcast`; the end of a `Broadcast`. -/
inductive Logs (v v' : View T) (t : Tid) : Prop where
  | same (hq : v'.monitor.waitQueue = v.monitor.waitQueue) (hl : v'.monitor.log = v.monitor.log)
      (back : ∀ t', v'.pc t' = some (.broadcast true) → v.pc t' = some (.broadcast true))
  | waits (s : SemId) (f : WaitFrom) (h : v.pc t = some (.waitAppend s f))
      (hq : v'.monitor.waitQueue = v.monitor.waitQueue ++ [s]) (hl : v'.monitor.log = .waits t s :: v.monitor.log)
      (back : Back v v' t)
  | signals (w : Option SemId) (held : v.monitor.lockHolder = some t) (hq : v.monitor.waitQueue = w.toList ++ v'.monitor.waitQueue)
      (hl : v'.monitor.log = .signals t w :: v.monitor.log) (back : Back v v' t)
  | firstRound (s : SemId) (held : v.monitor.lockHolder = some t) (hq : v.monitor.waitQueue = s :: v'.monitor.waitQueue)
      (hl : v'.monitor.log = .signals t (some s) :: .broadcasts t v.monitor.waitQueue :: v.monitor.log)
      (back : ∀ t', v'.pc t' = some (.broadcast true) → t' = t ∨ v.pc t' = some (.broadcast true))
  | nextRound (s : SemId) (h : v.pc t = some (.broadcast true)) (hq : v.monitor.waitQueue = s :: v'.monitor.waitQueue)
      (hl : v'.monitor.log = .signals t (some s) :: v.monitor.log)
      (back : ∀ t', v'.pc t' = some (.broadcast true) → t' = t ∨ v.pc t' = some (.broadcast true))
  | broadcastEnds (h : v.pc t = some (.broadcast true)) (hnil : v.monitor.waitQueue = []) (hq : v'.monitor.waitQueue = [])
      (hl : v'.monitor.log = .broadcastEnds t :: v.monitor.log) (back : Back v v' t)

section

variable {v : View T} {t : Tid} {m m' : Monitor T} {w : Option SemId}

theorem signals_logs (hs : Signals t m w m') : m.waitQueue = w.toList ++ m'.waitQueue ∧ m'.log = .signals t w :: m.log := by
  cases hs with
  | none h hq =>
    refine ⟨?_, rfl⟩
    show m.waitQueue = [] ++ m.waitQueue
    rfl
  | some h hq => exact ⟨hq, rfl⟩

/-- A thread that goes anywhere but to the loop of `Broadcast`. -/
theorem back_move {o : Option (Pc T)} (ho : o ≠ some (.broadcast true)) (w : Option SemId) : Back v ((v.move t o m).bump w) t := by
  intro t' h
  rw [View.bump_pc] at h
  rcases View.move_pc_cases h with ⟨-, h⟩ | h
  · exact absurd h ho
  · exact h

theorem back_round {pc : Pc T} (w : Option SemId) (t' : Tid) (h : ((v.move t (some pc) m).bump w).pc t' = some (.broadcast true)) :
    t' = t ∨ v.pc t' = some (.broadcast true) := by
  rw [View.bump_pc] at h
  rcases View.move_pc_cases h with ⟨h, -⟩ | ⟨-, h⟩
  · exact Or.inl h
  · exact Or.inr h

/-- A thread moves; nothing is logged. -/
theorem logs_move {t₀ : Tid} {o : Option (Pc T)} (ho : o ≠ some (.broadcast true)) (hq : m.waitQueue = v.monitor.waitQueue)
    (hl : m.log = v.monitor.log) : Logs v (v.move t₀ o m) t :=
  .same hq hl fun t' h => (back_move ho none t' h).2

/-- So it is, when a semaphore changes as well. -/
theorem logs_setValue {o : Option (Pc T)} (ho : o ≠ some (.broadcast true)) (hq : m.waitQueue = v.monitor.waitQueue)
    (hl : m.log = v.monitor.log) (s : SemId) (x : Option Int) : Logs v ((v.move t o m).setValue s x) t :=
  .same hq hl fun t' h => (back_move (m := m) ho none t' h).2

theorem logs_of_step {ops : Op T → Bool} {v' : View T} (hstep : Step ops t v v') : Logs v v' t := by
  cases hstep with
  | start h hop hb =>
    rename_i op pc
    refine logs_move ?_ rfl rfl
    cases op <;> cases hb <;> exact fun h => by cases h
  | fork h hnew => exact logs_move (fun h => by cases h) rfl rfl
  | finish h => exact logs_move (fun h => by cases h) rfl rfl
  | acquireP h hx h0 => exact logs_setValue (fun h => by cases h) rfl rfl _ _
  | acquireHolder h =>
    rename_i f
    refine logs_move ?_ rfl rfl
    cases f <;> exact fun h => by cases h
  | releaseAssert h held => exact logs_move (fun h => by cases h) rfl rfl
  | releaseHolder h => exact logs_move (fun h => by cases h) rfl rfl
  | releaseV h hx =>
    rename_i f x
    have hnext : (some f.next : Option (Pc T)) ≠ some (.broadcast true) := by cases f <;> exact fun h => by cases h
    exact logs_setValue (m := { v.monitor with critical := v.monitor.critical.erase t }) hnext rfl rfl _ _
  | waitAssert h held => exact logs_move (fun h => by cases h) rfl rfl
  | waitNew h hs => exact logs_setValue (fun h => by cases h) rfl rfl _ _
  | waitAppend h hq => exact .waits _ _ h rfl rfl (back_move (fun h => by cases h) none)
  | waitP h hx h0 => exact logs_setValue (fun h => by cases h) rfl rfl _ _
  | waitDelete h =>
    rename_i f s
    refine logs_setValue ?_ rfl rfl _ _
    cases f <;> exact fun h => by cases h
  | signal h hs =>
    rename_i w m
    obtain ⟨hq, hl⟩ := signals_logs hs
    refine .signals w (Owned.signals_held hs) ?_ ?_ (back_move (fun h => by cases h) w)
    · rw [View.bump_monitor]
      exact hq
    · rw [View.bump_monitor]
      exact hl
  | broadcastEnd h hq =>
    rename_i again
    cases again with
    | false => exact logs_move (fun h => by cases h) rfl rfl
    | true => exact .broadcastEnds h hq hq rfl (back_move (fun h => by cases h) none)
  | broadcast h hne hs =>
    rename_i again w m
    obtain ⟨hq, hl⟩ := signals_logs hs
    cases w with
    | none =>
      cases hs with
      | none hheld hnil => cases again <;> exact absurd hnil hne
    | some s =>
      cases again with
      | false =>
        have hheld := Owned.signals_held hs
        have held : v.monitor.lockHolder = some t := hheld
        refine .firstRound s held ?_ ?_ (back_round _)
        · rw [View.bump_monitor]
          exact hq
        · rw [View.bump_monitor]
          exact hl
      | true =>
        refine .nextRound s h ?_ ?_ (back_round _)
        · rw [View.bump_monitor]
          exact hq
        · rw [View.bump_monitor]
          exact hl
  | append h hi hs =>
    rename_i item w m
    obtain ⟨hq, hl⟩ := signals_logs hs
    have hheld := Owned.signals_held hs
    have held : v.monitor.lockHolder = some t := hheld
    refine .signals w held ?_ ?_ (back_move (fun h => by cases h) w)
    · rw [View.bump_monitor]
      exact hq
    · rw [View.bump_monitor]
      exact hl
  | removeEmpty h hl => exact logs_move (fun h => by cases h) rfl rfl
  | removeFront h hl => exact logs_move (fun h => by cases h) rfl rfl

end

namespace Ordered

variable {v v' : View T} {t : Tid} {o : Option Tid}

/-- Who is in the loop of `Broadcast` holds the lock. -/
theorem only (hO : Owned v o) (held : v.monitor.lockHolder = some t) {t' : Tid} (h : v.pc t' = some (.broadcast true)) : t' = t :=
  Option.some.inj ((hO.holding t' _ h rfl).symm.trans held)

/-- An event that begins and ends no `Broadcast` keeps what is said of those in the log. -/
theorem begun_cons (hR : Ordered v) {e : CondEvent} (he : ∀ t q, e ≠ .broadcasts t q) {new old : List CondEvent} {t : Tid}
    {q : List SemId} (h : e :: v.monitor.log = new ++ .broadcasts t q :: old) : enqueued old = q.reverse ++ dequeued old := by
  cases new with
  | nil => exact absurd (List.cons.inj h).1 (he t q)
  | cons e' new => exact hR.begun new t q old (List.cons.inj h).2

theorem ended_cons (hR : Ordered v) {e : CondEvent} (he : ∀ t, e ≠ .broadcastEnds t) {new rest : List CondEvent} {t : Tid}
    (h : e :: v.monitor.log = new ++ .broadcastEnds t :: rest) : ∃ q old, rest = rounds t q ++ .broadcasts t q :: old := by
  cases new with
  | nil => exact absurd (List.cons.inj h).1 (he t)
  | cons e' new => exact hR.ended new t rest (List.cons.inj h).2

/-- Whoever holds the lock and leaves no `Broadcast` running logs one event that begins and ends none. -/
theorem event (hR : Ordered v) (hO : Owned v o) (held : v.monitor.lockHolder = some t) (back : Back v v' t) {e : CondEvent}
    (hb : ∀ t q, e ≠ .broadcasts t q) (he : ∀ t, e ≠ .broadcastEnds t) (hl : v'.monitor.log = e :: v.monitor.log)
    (hf : enqueued v'.monitor.log = v'.monitor.waitQueue.reverse ++ dequeued v'.monitor.log) : Ordered v' := by
  refine ⟨hf, ?_, ?_, ?_⟩
  · intro new t₁ q old h
    rw [hl] at h
    exact hR.begun_cons hb h
  · intro t₁ h
    obtain ⟨hne, h⟩ := back t₁ h
    exact absurd (only hO held h) hne
  · intro new t₁ rest h
    rw [hl] at h
    exact hR.ended_cons he h

/-- The steps keep the order. -/
theorem step (hR : Ordered v) (hO : Owned v o) (hlogs : Logs v v' t) : Ordered v' := by
  have hfifo := hR.fifo
  cases hlogs with
  | same hq hl back =>
    refine ⟨by rw [hl, hq]; exact hfifo, ?_, ?_, ?_⟩
    · intro new t₁ q old h
      rw [hl] at h
      exact hR.begun new t₁ q old h
    · intro t₁ h
      rw [hl, hq]
      exact hR.running t₁ (back t₁ h)
    · intro new t₁ rest h
      rw [hl] at h
      exact hR.ended new t₁ rest h
  | waits s f h hq hl back =>
    refine hR.event hO (hO.holding t _ h rfl) back (fun _ _ e => by cases e) (fun _ e => by cases e) hl ?_
    rw [hl, hq, List.reverse_append]
    exact congrArg (s :: ·) hfifo
  | signals w held hq hl back =>
    refine hR.event hO held back (fun _ _ e => by cases e) (fun _ e => by cases e) hl ?_
    rw [hl]
    cases w with
    | none =>
      rw [show v'.monitor.waitQueue = v.monitor.waitQueue from hq.symm]
      exact hfifo
    | some s =>
      rw [show v.monitor.waitQueue = s :: v'.monitor.waitQueue from hq, List.reverse_cons, List.append_assoc] at hfifo
      exact hfifo
  | firstRound s held hq hl back =>
    refine ⟨?_, ?_, ?_, ?_⟩
    · rw [hl]
      rw [hq, List.reverse_cons, List.append_assoc] at hfifo
      exact hfifo
    · intro new t₁ q old h
      rw [hl] at h
      rcases new with _ | ⟨e₁, _ | ⟨e₂, new⟩⟩
      · cases h
      · cases h
        exact hfifo
      · exact hR.begun new t₁ q old (List.cons.inj (List.cons.inj h).2).2
    · intro t₁ h
      obtain rfl : t₁ = t := (back t₁ h).elim id (only hO held)
      exact ⟨[s], v.monitor.log, by rw [hl, hq]; rfl⟩
    · intro new t₁ rest h
      rw [hl] at h
      rcases new with _ | ⟨e₁, _ | ⟨e₂, new⟩⟩
      · cases h
      · cases h
      · exact hR.ended new t₁ rest (List.cons.inj (List.cons.inj h).2).2
  | nextRound s h hq hl back =>
    refine ⟨?_, ?_, ?_, ?_⟩
    · rw [hl]
      rw [hq, List.reverse_cons, List.append_assoc] at hfifo
      exact hfifo
    · intro new t₁ q old h₁
      rw [hl] at h₁
      exact hR.begun_cons (fun _ _ e => by cases e) h₁
    · intro t₁ h₁
      obtain rfl : t₁ = t := (back t₁ h₁).elim id (only hO (hO.holding t _ h rfl))
      obtain ⟨done, old, hlog⟩ := hR.running t₁ h
      refine ⟨done ++ [s], old, ?_⟩
      rw [hl, hlog, hq, rounds_append, List.append_assoc]
      rfl
    · intro new t₁ rest h₁
      rw [hl] at h₁
      exact hR.ended_cons (fun _ e => by cases e) h₁
  | broadcastEnds h hnil hq hl back =>
    refine ⟨?_, ?_, ?_, ?_⟩
    · rw [hl, hq]
      rw [hnil] at hfifo
      exact hfifo
    · intro new t₁ q old h₁
      rw [hl] at h₁
      exact hR.begun_cons (fun _ _ e => by cases e) h₁
    · intro t₁ h₁
      obtain ⟨hne, h₁⟩ := back t₁ h₁
      exact absurd (only hO (hO.holding t _ h rfl) h₁) hne
    · intro new t₁ rest h₁
      rw [hl] at h₁
      cases new with
      | nil =>
        cases h₁
        obtain ⟨done, old, hlog⟩ := hR.running t h
        rw [hnil, List.append_nil] at hlog
        exact ⟨done, old, hlog⟩
      | cons e new => exact hR.ended new t₁ rest (List.cons.inj h₁).2

end Ordered

theorem ordered_new : Ordered (View.new (T := T)) := by
  refine ⟨rfl, ?_, ?_, ?_⟩
  · intro new t q old h
    cases new <;> cases h
  · intro t h
    have h' : (if t = mainThread then some Pc.user else none) = some (Pc.broadcast (T := T) true) := h
    split at h' <;> cases h'
  · intro new t rest h
    cases new <;> cases h

/-- In every reachable state the log is in order. -/
theorem ordered_of_reachable {ops : Op T → Bool} {v : View T} (hv : (system ops).Reachable v) : Ordered v := by
  refine hv.invariant ?_ ?_
  · rintro v rfl
    exact ordered_new
  · rintro v v' hv hR ⟨t, hstep⟩
    obtain ⟨o, hO⟩ := owned_of_reachable hv
    exact hR.step hO (logs_of_step hstep)

/-! ## No semaphore is used after it is deleted -/

section

variable [DecidableEq T] {ops : Op T → Bool} {a : Abs (client T ops)}

theorem stage_exists (hW : Waiting (view a)) {t : Tid} {s : SemId} {st : Stage} {pc : Pc T} (h : (view a).pc t = some pc)
    (hst : pc.stage = some (s, st)) : a.semaphore s ≠ none := by
  intro hs
  exact (hW.stage t s st (Waiting.stage_at h hst)).value_ne (view_value_none a hs)

theorem lock_exists {o : Option Tid} (hO : Owned (view a) o) : a.semaphore lockSemaphore ≠ none := by
  intro hs
  have hv := hO.value
  rw [view_value_none a hs] at hv
  cases hv

/-- Whatever semaphore is used is there. -/
theorem not_missing (ha : (Abs.system (boot ops)).Reachable a) : ¬a.Missing := by
  have hv := view_refines.reachable ha
  have hW := waiting_of_reachable hv
  obtain ⟨o, hO⟩ := owned_of_reachable hv
  rintro (⟨h, hcode, hcall, hs⟩ | ⟨h, hs⟩ | ⟨hd, -, -⟩)
  · rename_i t pc pc' i sh call s
    have hpc : (view a).pc t = some pc := congrArg here h
    rcases code_uses hcode hcall with rfl | ⟨f, rfl⟩ | hq
    · exact lock_exists hO hs
    · exact stage_exists hW hpc rfl hs
    · obtain ⟨t', hst⟩ := hW.queued s hq
      exact (hW.stage t' s _ hst).value_ne (view_value_none a hs)
  · rename_i t s pc
    rcases shaped_of_reachable ha t s pc h with ⟨rfl, f, rfl⟩ | ⟨f, rfl⟩
    · exact lock_exists hO hs
    · have hpc : (view a).pc t = some (.waitP s f) := congrArg here h
      exact stage_exists hW hpc rfl hs
  · rename_i d _ _ _ _
    exact d.elim

/-- A waiter that was signalled is on the queue of no semaphore. -/
theorem off_queues (ha : (Abs.system (boot ops)).Reachable a) {t : Tid} {s : SemId} {x : Semaphore}
    (hst : ((view a).pc t).bind Pc.stage = some (s, .waiting)) (hx : a.semaphore s = some x) (h1 : x.value = 1) (s' : SemId) :
    t ∉ a.queue s' := by
  have hC := Abs.counted_of_reachable ha
  have hW := waiting_of_reachable (view_refines.reachable ha)
  -- in the loop of `P`, the statement decides which semaphore it is
  have hwho : ∀ t' s', a.InP s' t' → ((view a).pc t').bind Pc.stage = some (s, .waiting) → s' = s := by
    rintro t' s' ⟨pc, hpc⟩ h
    have hhere : (view a).pc t' = here (.inP s' pc) := congrArg here hpc
    rw [hhere] at h
    rcases shaped_of_reachable ha t' s' pc hpc with ⟨rfl, f, rfl⟩ | ⟨f, rfl⟩
    · cases f <;> cases h
    · cases h
      rfl
  intro hmem
  obtain rfl := hwho t s' (hC.queue_inP s' t hmem) hst
  obtain ⟨woken, hnd, hwoken, hcov⟩ := hC.covered s'
  have hlen : x.value ≤ woken.length := by
    refine hcov x hx ?_
    intro hnil
    rw [Abs.queue_of hx, hnil] at hmem
    cases hmem
  have hpos : woken ≠ [] := by
    rintro rfl
    rw [h1] at hlen
    exact absurd hlen (by decide)
  obtain ⟨t', ht'⟩ := List.exists_mem_of_ne_nil woken hpos
  obtain ⟨⟨pc, hpc⟩, hnot⟩ := (hwoken t').1 ht'
  have hhere : (view a).pc t' = here (.inP s' pc) := congrArg here hpc
  rcases shaped_of_reachable ha t' s' pc hpc with ⟨rfl, f, rfl⟩ | ⟨f, rfl⟩
  · obtain ⟨o, hO⟩ := owned_of_reachable (view_refines.reachable ha)
    exact Waiting.lock_ne hO t _ hst
  · have heq : t' = t := hW.unique t t' s' _ _ hst (Waiting.stage_at hhere rfl)
    rw [heq] at hnot
    exact hnot hmem

end

end Synch

namespace Kernel

variable {T : Type} [DecidableEq T] {ops : Synch.Op T → Bool} {k : Kernel (Synch.client T ops)}

/-- Thread `t` is in a call of `Wait` whose semaphore is `s`, at this stage. -/
def InWait (k : Kernel (Synch.client T ops)) (t : Tid) (s : SemId) (st : Synch.Stage) : Prop :=
  (k.view.pc t).bind Synch.Pc.stage = some (s, st)

/-- The safety of the condition. -/
structure ConditionSafe (k : Kernel (Synch.client T ops)) : Prop where
  /-- From the `Append` of `Wait` to its `P`, the semaphore is on the queue with value 0, or it was signalled, has value 1 and the
  thread is on the queue of no semaphore. -/
  waiting : ∀ t s, k.InWait t s .waiting → ∃ x, k.semaphore s = some x ∧
    (s ∈ k.shared.waitQueue ∧ x.value = 0 ∨ s ∉ k.shared.waitQueue ∧ x.value = 1 ∧ Synch.Released k.shared.log t s ∧
      ∀ s' y, k.semaphore s' = some y → t ∉ y.queue)
  /-- After its `P`, it was signalled once, and the `P` has taken that. -/
  done : ∀ t s, k.InWait t s .done → s ∉ k.shared.waitQueue ∧ Synch.Released k.shared.log t s ∧
    ∃ x, k.semaphore s = some x ∧ x.value = 0
  /-- Each semaphore on the queue is that of one waiting thread. -/
  queued : k.shared.waitQueue.Nodup ∧ ∀ s ∈ k.shared.waitQueue, ∃ t, k.InWait t s .waiting ∧ ∀ t' st, k.InWait t' s st → t' = t
  /-- Semaphores leave the queue in the order in which they came. -/
  fifo : (Synch.enqueued k.shared.log).reverse = (Synch.dequeued k.shared.log).reverse ++ k.shared.waitQueue
  /-- A step takes at most one semaphore off the queue, the first one, and only by a signal of a thread that holds the lock. -/
  one_at_most : ∀ ch k', k.AllowedStep ch → k.step ch = .ok k' → k'.shared.waitQueue = k.shared.waitQueue ∨
    (∃ s, k.InWait k.currentThread s .created ∧ k'.shared.waitQueue = k.shared.waitQueue ++ [s]) ∨
    ∃ s old, k.shared.waitQueue = s :: k'.shared.waitQueue ∧ k.shared.lockHolder = some k.currentThread ∧
      k'.shared.log = .signals k.currentThread (some s) :: old
  /-- A `Broadcast` has released those that were put on the queue and not released before it, and no others. -/
  broadcast : ∀ new t rest, k.shared.log = new ++ .broadcastEnds t :: rest → ∃ q old,
    rest = Synch.rounds t q ++ .broadcasts t q :: old ∧ Synch.enqueued old = q.reverse ++ Synch.dequeued old
  /-- `Wait` returns with the lock held. -/
  returns : ∀ ch k' s f rest, k.stack k.currentThread = .code (.waitDelete s f) :: rest → k.step ch = .ok k' →
    k'.stack k.currentThread = .code f.next :: rest ∧ k'.shared.lockHolder = some k.currentThread
  /-- A semaphore that is deleted is there, and nobody waits on it. -/
  deletes : ∀ s f rest, k.stack k.currentThread = .code (.waitDelete s f) :: rest → ∃ x, k.semaphore s = some x ∧ x.queue = []
  /-- No step uses a semaphore that is not there. -/
  uses : ∀ ch, k.AllowedStep ch → k.step ch ≠ .error .nullDereference

theorem view_pc_code {pc : Synch.Pc T} {rest : List (Frame (Synch.Pc T))} {t : Tid} (hst : k.stack t = .code pc :: rest) :
    k.view.pc t = some pc := by
  show Synch.here (ctl (k.stack t)) = _
  rw [hst]
  rfl

/-- The semaphore of a view, in the kernel. -/
theorem semaphore_of_value {s : SemId} {v : Int} (h : k.view.value s = some v) : ∃ x, k.semaphore s = some x ∧ x.value = v :=
  Option.map_eq_some_iff.1 h

/-- The condition is safe in every reachable state, whatever operations user code calls. -/
theorem condition_safe (hk : (system (Synch.boot ops)).Reachable k) : k.ConditionSafe := by
  have hv := view_reachable hk
  have ha := abs_reachable hk
  have hW := Synch.waiting_of_reachable hv
  have hR := Synch.ordered_of_reachable hv
  obtain ⟨o, hO⟩ := Synch.owned_of_reachable hv
  refine ⟨?_, ?_, ⟨hW.nodup, ?_⟩, ?_, ?_,
    ?_, ?_, ?_, ?_⟩
  · intro t s h
    rcases hW.stage t s _ h with ⟨hmem, hval, -⟩ | ⟨hmem, hval, hr⟩
    · obtain ⟨x, hx, hxv⟩ := semaphore_of_value hval
      exact ⟨x, hx, Or.inl ⟨hmem, hxv⟩⟩
    · obtain ⟨x, hx, hxv⟩ := semaphore_of_value hval
      refine ⟨x, hx, Or.inr ⟨hmem, hxv, hr, ?_⟩⟩
      intro s' y hy
      have hoff := Synch.off_queues ha h hx hxv s'
      rwa [Abs.queue_of hy] at hoff
  · intro t s h
    obtain ⟨hmem, hval, hr⟩ := hW.stage t s _ h
    exact ⟨hmem, hr, semaphore_of_value hval⟩
  · intro s hs
    obtain ⟨t, ht⟩ := hW.queued s hs
    exact ⟨t, ht, fun t' st h => hW.unique t t' s _ _ ht h⟩
  · have hf := congrArg List.reverse hR.fifo
    rw [List.reverse_append, List.reverse_reverse] at hf
    exact hf
  · intro ch k' hallowed hstep
    rcases view_step hk hallowed hstep with heq | hs
    · exact Or.inl (congrArg (fun v => v.monitor.waitQueue) heq)
    · cases Synch.logs_of_step hs with
      | same hq hl back => exact Or.inl hq
      | waits s f h hq hl back => exact Or.inr (Or.inl ⟨s, Synch.Waiting.stage_at h rfl, hq⟩)
      | signals w held hq hl back =>
        cases w with
        | none => exact Or.inl hq.symm
        | some s => exact Or.inr (Or.inr ⟨s, _, hq, held, hl⟩)
      | firstRound s held hq hl back => exact Or.inr (Or.inr ⟨s, _, hq, held, hl⟩)
      | nextRound s h hq hl back => exact Or.inr (Or.inr ⟨s, _, hq, hO.holding _ _ h rfl, hl⟩)
      | broadcastEnds h hnil hq hl back => exact Or.inl (hq.trans hnil.symm)
  · intro new t rest h
    obtain ⟨q, old, hrest⟩ := hR.ended new t rest h
    refine ⟨q, old, hrest, hR.begun (new ++ .broadcastEnds t :: Synch.rounds t q) t q old ?_⟩
    rw [List.append_assoc, List.cons_append, ← hrest]
    exact h
  · intro ch k' s f rest hst hstep
    have held : k.shared.lockHolder = some k.currentThread := hO.holding _ _ (view_pc_code hst) rfl
    unfold step at hstep
    rw [hst] at hstep
    cases hstep
    exact ⟨Function.update_self _ _ _, held⟩
  · intro s f rest hst
    have hstage : k.InWait k.currentThread s .done := Synch.Waiting.stage_at (view_pc_code hst) rfl
    obtain ⟨-, hval, -⟩ := hW.stage _ s _ hstage
    obtain ⟨x, hx, -⟩ := semaphore_of_value hval
    refine ⟨x, hx, List.eq_nil_iff_forall_not_mem.2 ?_⟩
    intro t ht
    -- a thread on its queue would be at its `P`
    have hmem : t ∈ k.abs.queue s := by
      rw [Abs.queue_of hx]
      exact ht
    obtain ⟨pc, hpc⟩ := (Abs.counted_of_reachable ha).queue_inP s t hmem
    have hhere : k.view.pc t = Synch.here (.inP s pc) := congrArg Synch.here hpc
    rcases Synch.shaped_of_reachable ha t s pc hpc with ⟨rfl, f, rfl⟩ | ⟨f, rfl⟩
    · exact Synch.Waiting.lock_ne hO _ _ hstage
    · have hthere := Synch.Waiting.stage_at (r := some (s, .waiting)) hhere rfl
      obtain rfl := hW.unique _ _ s _ _ hstage hthere
      cases hstage.symm.trans hthere
  · intro ch hallowed he
    rcases (step_ends (good_of_reachable hk) hallowed).of_error he with hstops | ⟨pc, rest, -, hcode⟩
    · rcases hstops with h | ⟨-, a, hreach, hmiss⟩
      · cases h
      · exact Synch.not_missing (ha.steps hreach) hmiss
    · cases (Synch.code_error hcode).1

/-- A run in which thread 1 loses the processor inside `Wait`, after its `Release` and before its `P`, and the main thread comes
to broadcast. -/
def lateWaiter : Option (Kernel (Synch.client Nat fun _ => true)) :=
  let go (op : Synch.Op Nat) : Choice (Synch.client Nat fun _ => true) := { input := { op, fresh := 1 }, due := [] }
  let tick : Choice (Synch.client Nat fun _ => true) := { input := { op := .none, fresh := 1 }, due := [.timer] }
  (Synch.boot fun _ => true).kernel.execute
    ([go .none, go (.fork 1), go .none, go .yield, go .none, go .none, go .acquire, go .none, go .none, go .none, go .wait] ++
      List.replicate 6 (go .none) ++ [tick, go .none, go .none, go .acquire, go .none, go .none, go .none, go .broadcast, go .none,
      go .none, go .none])

theorem condition_safe_lateWaiter : ∃ k : Kernel (Synch.client Nat fun _ => true), k.InWait 1 1 .waiting ∧
    k.shared.waitQueue = [] ∧ (k.semaphore 1).map Semaphore.value = some 1 ∧ k.ConditionSafe := by
  have hrun : (lateWaiter.map fun k => ((k.view.pc 1).bind Synch.Pc.stage, k.shared.waitQueue,
      (k.semaphore 1).map Semaphore.value)) = some (some (1, .waiting), [], some 1) := by decide +kernel
  obtain ⟨k, hk, hh⟩ := Option.map_eq_some_iff.1 hrun
  obtain ⟨hst, hh⟩ := Prod.mk.inj hh
  obtain ⟨hq, hval⟩ := Prod.mk.inj hh
  exact ⟨k, hst, hq, hval, condition_safe (reachable_of_execute (.init rfl) hk)⟩

end Kernel

end Nachos
