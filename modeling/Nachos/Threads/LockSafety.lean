import Nachos.Threads.Monitor

/-!
# Mutual exclusion

The lock has at most one owner: the thread that has taken its semaphore and not given it back. `lockHolder` is the owner or NULL,
and it is NULL while the owner is between the semaphore and the assignment.
-/

namespace Nachos

namespace Synch

variable {T : Type}

/-- The statements at which the owner of the lock is not in `lockHolder`. -/
def Pc.passing : Pc T → Bool
  | .acquireHolder _ => true
  | .releaseV _ => true
  | _ => false

/-- The statements that only the thread in `lockHolder` comes to. -/
def Pc.holding : Pc T → Bool
  | .releaseAssert .user => false
  | .releaseAssert _ => true
  | .releaseHolder _ => true
  | .waitAssert .user => false
  | .waitAssert .removeFront => true
  | .waitNew _ => true
  | .waitAppend _ _ => true
  | .waitDelete _ _ => true
  | .broadcast again => again
  | .append _ => true
  | .removeFront _ => true
  | _ => false

/-- The semaphore of the call of `Condition::Wait` that a thread is in. -/
def Pc.waiter : Pc T → Option SemId
  | .waitAppend s _ => some s
  | .releaseAssert (.wait s _) => some s
  | .releaseHolder (.wait s _) => some s
  | .releaseV (.wait s _) => some s
  | .waitP s _ => some s
  | .acquireP (.wait s _) => some s
  | .acquireHolder (.wait s _) => some s
  | .waitDelete s _ => some s
  | _ => none

/-- The lock is owned by `o`, or free. -/
structure Owned (v : View T) (o : Option Tid) : Prop where
  value : v.value lockSemaphore = some (if o = none then 1 else 0)
  free : o = none → v.monitor.critical = []
  owner : ∀ t, o = some t → v.monitor.lockHolder = some t ∨ ∃ pc, v.pc t = some pc ∧ pc.passing = true
  holder : ∀ t, v.monitor.lockHolder = some t → o = some t ∧ v.monitor.critical = [t]
  entering : ∀ t f, v.pc t = some (.acquireHolder f) → o = some t ∧ v.monitor.lockHolder = none ∧ v.monitor.critical = []
  leaving : ∀ t f, v.pc t = some (.releaseV f) → o = some t ∧ v.monitor.lockHolder = none ∧ v.monitor.critical = [t]
  holding : ∀ t pc, v.pc t = some pc → pc.holding = true → v.monitor.lockHolder = some t
  waiter_ne : ∀ t pc s, v.pc t = some pc → pc.waiter = some s → s ≠ lockSemaphore
  queued_ne : lockSemaphore ∉ v.monitor.waitQueue

namespace Owned

variable {v : View T} {o : Option Tid} {t : Tid}

/-- A semaphore that is not that of the lock changes. -/
theorem setValue (hO : Owned v o) {s : SemId} (hs : s ≠ lockSemaphore) (x : Option Int) : Owned (v.setValue s x) o :=
  ⟨(v.setValue_other hs.symm x).trans hO.value, hO.free, hO.owner, hO.holder, hO.entering, hO.leaving, hO.holding, hO.waiter_ne,
    hO.queued_ne⟩

theorem bump (hO : Owned v o) {w : Option SemId} (hw : ∀ s, w = some s → s ≠ lockSemaphore) : Owned (v.bump w) o := by
  cases w with
  | none => exact hO
  | some s => exact hO.setValue (hw s rfl) _

/-- What a thread that is not about to change the lock may go to. -/
structure MayGo (v : View T) (t : Tid) (pc : Pc T) : Prop where
  passing : pc.passing = false
  holding : pc.holding = true → v.monitor.lockHolder = some t
  waiter_ne : ∀ s, pc.waiter = some s → s ≠ lockSemaphore

/-- A thread moves; the lock is not touched. -/
theorem move (hO : Owned v o) (hpc : ∀ pc, v.pc t = some pc → pc.passing = false) {o' : Option (Pc T)}
    (hgo : ∀ pc, o' = some pc → MayGo v t pc) {m : Monitor T} (hm : m.lockHolder = v.monitor.lockHolder)
    (hc : m.critical = v.monitor.critical) (hq : lockSemaphore ∉ m.waitQueue) : Owned (v.move t o' m) o := by
  have hpass : ∀ t' pc, (v.move t o' m).pc t' = some pc → pc.passing = true → v.pc t' = some pc := by
    intro t' pc h hp
    rcases View.move_pc_cases h with ⟨-, h⟩ | ⟨-, h⟩
    · rw [(hgo pc h).passing] at hp
      cases hp
    · exact h
  refine ⟨hO.value, ?_, ?_, ?_, ?_, ?_, ?_, ?_,
    hq⟩
  · show o = none → m.critical = []
    rw [hc]
    exact hO.free
  · intro t' ho
    show m.lockHolder = some t' ∨ _
    rw [hm]
    refine (hO.owner t' ho).imp id ?_
    rintro ⟨pc, h, hp⟩
    have hne : t' ≠ t := by
      rintro rfl
      rw [hpc pc h] at hp
      cases hp
    exact ⟨pc, by rwa [View.move_pc_other v hne], hp⟩
  · show ∀ t', m.lockHolder = some t' → o = some t' ∧ m.critical = [t']
    rw [hm, hc]
    exact hO.holder
  · intro t' f h
    show o = some t' ∧ m.lockHolder = none ∧ m.critical = []
    rw [hm, hc]
    exact hO.entering t' f (hpass t' _ h rfl)
  · intro t' f h
    show o = some t' ∧ m.lockHolder = none ∧ m.critical = [t']
    rw [hm, hc]
    exact hO.leaving t' f (hpass t' _ h rfl)
  · intro t' pc h hh
    show m.lockHolder = some t'
    rw [hm]
    rcases View.move_pc_cases h with ⟨rfl, h₁⟩ | ⟨-, h₁⟩
    · exact (hgo pc h₁).holding hh
    · exact hO.holding t' pc h₁ hh
  · intro t' pc s h hs
    rcases View.move_pc_cases h with ⟨-, h⟩ | ⟨-, h⟩
    · exact (hgo pc h).waiter_ne s hs
    · exact hO.waiter_ne t' pc s h hs

/-- As `move`, from one statement to another. -/
theorem goto (hO : Owned v o) {pc pc' : Pc T} (h : v.pc t = some pc) (hp : pc.passing = false) (hp' : pc'.passing = false)
    (hh : pc'.holding = true → v.monitor.lockHolder = some t) (hw : ∀ s, pc'.waiter = some s → s ≠ lockSemaphore)
    {m : Monitor T} (hm : m.lockHolder = v.monitor.lockHolder) (hc : m.critical = v.monitor.critical)
    (hq : lockSemaphore ∉ m.waitQueue) : Owned (v.move t (some pc') m) o := by
  refine hO.move ?_ ?_ hm hc hq
  · intro pc₀ h₀
    rw [h] at h₀
    cases h₀
    exact hp
  · intro pc₀ h₀
    cases h₀
    exact ⟨hp', hh, hw⟩

/-- Only the owner passes. -/
theorem eq_of_passing (hO : Owned v o) (ho : o = some t) {t' : Tid} {pc : Pc T} (h : v.pc t' = some pc)
    (hp : pc.passing = true) : t' = t := by
  cases pc with
  | acquireHolder f => exact Option.some.inj ((hO.entering t' f h).1.symm.trans ho)
  | releaseV f => exact Option.some.inj ((hO.leaving t' f h).1.symm.trans ho)
  | _ => cases hp

/-- Nobody passes while the lock is free. -/
theorem not_passing (hO : Owned v o) (ho : o = none) {t' : Tid} {pc : Pc T} (h : v.pc t' = some pc) : pc.passing = false := by
  cases pc with
  | acquireHolder f => cases ho.symm.trans (hO.entering t' f h).1
  | releaseV f => cases ho.symm.trans (hO.leaving t' f h).1
  | _ => rfl

/-- The semaphore of the lock is taken. -/
theorem acquireP (hO : Owned v o) {f : AcquireFrom T} {x : Int} (h : v.pc t = some (.acquireP f))
    (hx : v.value lockSemaphore = some x) (h0 : x ≠ 0) :
    Owned ((v.move t (some (.acquireHolder f)) v.monitor).setValue lockSemaphore (some (x - 1))) (some t) := by
  have ho : o = none := by
    by_contra ho
    have hv := hO.value
    rw [hx, if_neg ho] at hv
    exact h0 (Option.some.inj hv)
  have hx1 : x = 1 := by
    have hv := hO.value
    rw [hx, if_pos ho] at hv
    exact Option.some.inj hv
  have hnone : v.monitor.lockHolder = none := by
    cases hh : v.monitor.lockHolder with
    | none => rfl
    | some t' => cases ho.symm.trans (hO.holder t' hh).1
  refine ⟨?_, (fun h => by cases h), ?_, ?_, ?_, ?_, ?_,
    ?_, hO.queued_ne⟩
  · rw [View.setValue_self, hx1]
    rfl
  · intro t' h
    cases h
    exact Or.inr ⟨_, Function.update_self _ _ _, rfl⟩
  · intro t' h
    cases hnone.symm.trans h
  · intro t' f' h
    rcases View.move_pc_cases h with ⟨rfl, -⟩ | ⟨-, h⟩
    · exact ⟨rfl, hnone, hO.free ho⟩
    · cases hO.not_passing ho h
  · intro t' f' h
    rcases View.move_pc_cases h with ⟨-, h⟩ | ⟨-, h⟩
    · cases h
    · cases hO.not_passing ho h
  · intro t' pc h hh
    rcases View.move_pc_cases h with ⟨-, h⟩ | ⟨-, h⟩
    · cases h
      cases hh
    · cases hnone.symm.trans (hO.holding t' pc h hh)
  · intro t' pc s h' hs
    rcases View.move_pc_cases h' with ⟨-, h'⟩ | ⟨-, h'⟩
    · cases h'
      refine hO.waiter_ne t _ s h ?_
      cases f <;> exact hs
    · exact hO.waiter_ne t' pc s h' hs

/-- The owner is written down. -/
theorem acquireHolder (hO : Owned v o) {f : AcquireFrom T} (h : v.pc t = some (.acquireHolder f)) :
    Owned (v.move t (some f.next) { v.monitor with lockHolder := some t, critical := t :: v.monitor.critical }) o := by
  obtain ⟨ho, hnone, hcrit⟩ := hO.entering t f h
  have hnext : f.next.passing = false := by cases f <;> rfl
  refine ⟨hO.value, (fun h => by cases h.symm.trans ho), ?_, ?_, ?_, ?_,
    ?_, ?_, hO.queued_ne⟩
  · intro t' h
    cases ho.symm.trans h
    exact Or.inl rfl
  · intro t' h
    cases h
    exact ⟨ho, by rw [← hcrit]; rfl⟩
  · intro t' f' h
    rcases View.move_pc_cases h with ⟨-, h⟩ | ⟨hne, h⟩
    · rw [Option.some.inj h] at hnext
      cases hnext
    · exact absurd (hO.eq_of_passing ho h rfl) hne
  · intro t' f' h
    rcases View.move_pc_cases h with ⟨-, h⟩ | ⟨hne, h⟩
    · rw [Option.some.inj h] at hnext
      cases hnext
    · exact absurd (hO.eq_of_passing ho h rfl) hne
  · intro t' pc h hh
    rcases View.move_pc_cases h with ⟨rfl, -⟩ | ⟨-, h⟩
    · rfl
    · cases hnone.symm.trans (hO.holding t' pc h hh)
  · intro t' pc s h' hs
    rcases View.move_pc_cases h' with ⟨-, h'⟩ | ⟨-, h'⟩
    · cases h'
      refine hO.waiter_ne t _ s h ?_
      cases f with
      | wait s' w => exact hs
      | _ => cases hs
    · exact hO.waiter_ne t' pc s h' hs

/-- The owner is about to give the semaphore back. -/
theorem releaseHolder (hO : Owned v o) {f : ReleaseFrom} (h : v.pc t = some (.releaseHolder f)) :
    Owned (v.move t (some (.releaseV f)) { v.monitor with lockHolder := none }) o := by
  have hheld := hO.holding t _ h rfl
  obtain ⟨ho, hcrit⟩ := hO.holder t hheld
  refine ⟨hO.value, (fun h => by cases h.symm.trans ho), ?_, (fun t' h => by cases h), ?_,
    ?_, ?_, ?_, hO.queued_ne⟩
  · intro t' h
    cases ho.symm.trans h
    exact Or.inr ⟨_, Function.update_self _ _ _, rfl⟩
  · intro t' f' h
    rcases View.move_pc_cases h with ⟨-, h⟩ | ⟨-, h⟩
    · cases h
    · cases hheld.symm.trans (hO.entering t' f' h).2.1
  · intro t' f' h
    rcases View.move_pc_cases h with ⟨rfl, -⟩ | ⟨-, h⟩
    · exact ⟨ho, rfl, hcrit⟩
    · cases hheld.symm.trans (hO.leaving t' f' h).2.1
  · intro t' pc h hh
    rcases View.move_pc_cases h with ⟨-, h⟩ | ⟨hne, h⟩
    · cases h
      cases hh
    · exact absurd (Option.some.inj (hheld.symm.trans (hO.holding t' pc h hh))).symm hne
  · intro t' pc s h' hs
    rcases View.move_pc_cases h' with ⟨-, h'⟩ | ⟨-, h'⟩
    · cases h'
      refine hO.waiter_ne t _ s h ?_
      cases f <;> exact hs
    · exact hO.waiter_ne t' pc s h' hs

/-- The semaphore is given back. -/
theorem releaseV (hO : Owned v o) {f : ReleaseFrom} {x : Int} (h : v.pc t = some (.releaseV f))
    (hx : v.value lockSemaphore = some x) :
    Owned ((v.move t (some f.next) { v.monitor with critical := v.monitor.critical.erase t }).setValue lockSemaphore
      (some (x + 1))) none := by
  obtain ⟨ho, hnone, hcrit⟩ := hO.leaving t f h
  have hx0 : x = 0 := by
    have hv := hO.value
    rw [hx, ho] at hv
    exact Option.some.inj hv
  have hnext : (f.next (T := T)).passing = false ∧ (f.next (T := T)).holding = false := by cases f <;> exact ⟨rfl, rfl⟩
  refine ⟨?_, ?_, (fun t' h => by cases h), ?_, ?_, ?_, ?_,
    ?_, hO.queued_ne⟩
  · rw [View.setValue_self, hx0]
    rfl
  · intro _
    show v.monitor.critical.erase t = []
    rw [hcrit, List.erase_cons_head]
  · intro t' h
    cases hnone.symm.trans h
  · intro t' f' h
    rcases View.move_pc_cases h with ⟨-, h⟩ | ⟨hne, h⟩
    · rw [Option.some.inj h] at hnext
      cases hnext.1
    · exact absurd (hO.eq_of_passing ho h rfl) hne
  · intro t' f' h
    rcases View.move_pc_cases h with ⟨-, h⟩ | ⟨hne, h⟩
    · rw [Option.some.inj h] at hnext
      cases hnext.1
    · exact absurd (hO.eq_of_passing ho h rfl) hne
  · intro t' pc h hh
    rcases View.move_pc_cases h with ⟨-, h⟩ | ⟨-, h⟩
    · cases h
      rw [hnext.2] at hh
      cases hh
    · cases hnone.symm.trans (hO.holding t' pc h hh)
  · intro t' pc s h' hs
    rcases View.move_pc_cases h' with ⟨-, h'⟩ | ⟨-, h'⟩
    · cases h'
      refine hO.waiter_ne t _ s h ?_
      cases f with
      | wait s' w => exact hs
      | _ => cases hs
    · exact hO.waiter_ne t' pc s h' hs

/-- A thread that holds the lock signals. -/
theorem signals_lock {m m' : Monitor T} {w : Option SemId} (hs : Signals t m w m') : m'.lockHolder = m.lockHolder ∧
    m'.critical = m.critical ∧ (∀ s, w = some s → s ∈ m.waitQueue) ∧ ∀ s, s ∈ m'.waitQueue → s ∈ m.waitQueue := by
  cases hs with
  | none h hq => exact ⟨rfl, rfl, (fun s h => by cases h), fun s h => h⟩
  | some h hq =>
    refine ⟨rfl, rfl, ?_, ?_⟩
    · intro s h
      cases h
      rw [hq]
      exact List.mem_cons_self
    · intro s h
      rw [hq]
      exact List.mem_cons_of_mem _ h

theorem signals_held {m m' : Monitor T} {w : Option SemId} (hs : Signals t m w m') : m.IsHeldBy t := by
  cases hs with
  | none h hq => exact h
  | some h hq => exact h

/-- A thread releases a waiter, or none, and goes on. -/
theorem signals (hO : Owned v o) {pc pc' : Pc T} (h : v.pc t = some pc) (hp : pc.passing = false) (hp' : pc'.passing = false)
    (hh : pc'.holding = true → v.monitor.lockHolder = some t) (hw : pc'.waiter = none) {m m' : Monitor T} {w : Option SemId}
    (hs : Signals t m w m') (hm : m.lockHolder = v.monitor.lockHolder) (hc : m.critical = v.monitor.critical)
    (hq : m.waitQueue = v.monitor.waitQueue) : Owned ((v.move t (some pc') m').bump w) o := by
  obtain ⟨hm', hc', hin, hsub⟩ := signals_lock hs
  have hne : ∀ s, s ∈ m.waitQueue → s ≠ lockSemaphore := by
    rintro s hs rfl
    rw [hq] at hs
    exact hO.queued_ne hs
  refine bump ?_ (fun s hs => hne s (hin s hs))
  refine hO.goto h hp hp' hh ?_ (hm'.trans hm) (hc'.trans hc) (fun hs => hne _ (hsub _ hs) rfl)
  intro s hs
  rw [hw] at hs
  cases hs

/-- Whatever a thread does, the lock stays owned by one thread or free. -/
theorem step {ops : Op T → Bool} {v' : View T} (hO : Owned v o) (hstep : Step ops t v v') : ∃ o', Owned v' o' := by
  have hq := hO.queued_ne
  cases hstep with
  | start h hop hb =>
    rename_i op pc
    refine ⟨o, ?_⟩
    cases op <;> cases hb <;>
      exact hO.goto h rfl rfl (fun h => by cases h) (fun s hs => by cases hs) rfl rfl hq
  | fork h hnew =>
    refine ⟨o, hO.move ?_ ?_ rfl rfl hq⟩
    · intro pc h'
      rw [hnew] at h'
      cases h'
    · intro pc h'
      cases h'
      exact ⟨rfl, (fun h => by cases h), fun s hs => by cases hs⟩
  | finish h =>
    refine ⟨o, hO.move ?_ (fun pc h' => by cases h') rfl rfl hq⟩
    intro pc h'
    rw [h] at h'
    cases h'
    rfl
  | acquireP h hx h0 => exact ⟨_, hO.acquireP h hx h0⟩
  | acquireHolder h => exact ⟨_, hO.acquireHolder h⟩
  | releaseAssert h held =>
    rename_i f
    refine ⟨o, hO.goto h rfl rfl (fun _ => held) (fun s hs => hO.waiter_ne t _ s h ?_) rfl rfl hq⟩
    cases f <;> exact hs
  | releaseHolder h => exact ⟨_, hO.releaseHolder h⟩
  | releaseV h hx => exact ⟨_, hO.releaseV h hx⟩
  | waitAssert h held => exact ⟨o, hO.goto h rfl rfl (fun _ => held) (fun s hs => by cases hs) rfl rfl hq⟩
  | waitNew h hs =>
    rename_i f s
    have hne : s ≠ lockSemaphore := by
      rintro rfl
      cases hs.symm.trans hO.value
    refine ⟨o, setValue (hO.goto h rfl rfl (fun _ => hO.holding t _ h rfl) ?_ rfl rfl hq) hne _⟩
    intro s' hs'
    cases hs'
    exact hne
  | waitAppend h hnot =>
    rename_i f s
    have hne := hO.waiter_ne t _ s h rfl
    refine ⟨o, hO.goto h rfl rfl (fun _ => hO.holding t _ h rfl) ?_ rfl rfl ?_⟩
    · intro s' hs'
      cases hs'
      exact hne
    · intro hmem
      rcases List.mem_append.1 hmem with hmem | hmem
      · exact hq hmem
      · exact hne (List.mem_singleton.1 hmem).symm
  | waitP h hx h0 =>
    rename_i f s x
    have hne := hO.waiter_ne t _ s h rfl
    refine ⟨o, setValue (hO.goto h rfl rfl (fun h => by cases h) ?_ rfl rfl hq) hne _⟩
    intro s' hs'
    cases hs'
    exact hne
  | waitDelete h =>
    rename_i f s
    have hne := hO.waiter_ne t _ s h rfl
    refine ⟨o, setValue (hO.goto h rfl ?_ (fun _ => hO.holding t _ h rfl) ?_ rfl rfl hq) hne _⟩
    · cases f <;> rfl
    · intro s' hs'
      cases f <;> cases hs'
  | signal h hs => exact ⟨o, hO.signals h rfl rfl (fun h => by cases h) rfl hs rfl rfl rfl⟩
  | broadcastEnd h hnil =>
    rename_i again
    cases again <;> exact ⟨o, hO.goto h rfl rfl (fun h => by cases h) (fun s hs => by cases hs) rfl rfl hq⟩
  | broadcast h hne hs =>
    rename_i again w m
    have hheld := signals_held hs
    cases again
    · exact ⟨o, hO.signals h rfl rfl (fun _ => hheld) rfl hs rfl rfl rfl⟩
    · exact ⟨o, hO.signals h rfl rfl (fun _ => hheld) rfl hs rfl rfl rfl⟩
  | append h hi hs => exact ⟨o, hO.signals h rfl rfl (fun _ => hO.holding t _ h rfl) rfl hs rfl rfl rfl⟩
  | removeEmpty h hl => exact ⟨o, hO.goto h rfl rfl (fun _ => hO.holding t _ h rfl) (fun s hs => by cases hs) rfl rfl hq⟩
  | removeFront h hl => exact ⟨o, hO.goto h rfl rfl (fun _ => hO.holding t _ h rfl) (fun s hs => by cases hs) rfl rfl hq⟩

end Owned

theorem owned_new : Owned (View.new (T := T)) none := by
  have hpc : ∀ t pc, (View.new (T := T)).pc t = some pc → pc = .user := by
    intro t pc h
    have h' : (if t = mainThread then some Pc.user else none) = some pc := h
    split at h'
    · exact (Option.some.inj h').symm
    · cases h'
  refine ⟨rfl, fun _ => rfl, (fun t h => by cases h), (fun t h => by cases h), ?_, ?_, ?_,
    ?_, List.not_mem_nil⟩
  · intro t f h
    cases hpc t _ h
  · intro t f h
    cases hpc t _ h
  · intro t pc h hh
    obtain rfl := hpc t pc h
    cases hh
  · intro t pc s h hs
    obtain rfl := hpc t pc h
    cases hs

/-- In every reachable state the lock is owned by one thread or free. -/
theorem owned_of_reachable {ops : Op T → Bool} {v : View T} (hv : (system ops).Reachable v) : ∃ o, Owned v o := by
  refine hv.invariant (I := fun v => ∃ o, Owned v o) ?_ ?_
  · rintro v rfl
    exact ⟨none, owned_new⟩
  · rintro v v' - ⟨o, hO⟩ ⟨t, hstep⟩
    exact hO.step hstep

/-- Only the assignments in `Acquire` and `Release` write `lockHolder`, and `Release` only that of the thread itself. -/
theorem Owned.holder_step {ops : Op T → Bool} {v v' : View T} {o : Option Tid} {t t' : Tid} (hO : Owned v o)
    (hstep : Step ops t' v v') (ht : v.monitor.lockHolder = some t) (hne : t' ≠ t) : v'.monitor.lockHolder = some t := by
  cases hstep with
  | acquireHolder h => cases ht.symm.trans (hO.entering t' _ h).2.1
  | releaseHolder h => exact absurd (Option.some.inj ((hO.holding t' _ h rfl).symm.trans ht)) hne
  | signal h hs =>
    rw [View.bump_monitor]
    exact (signals_lock hs).1.trans ht
  | broadcast h hq hs =>
    rename_i again w m
    rw [View.bump_monitor]
    refine (signals_lock hs).1.trans ?_
    cases again <;> exact ht
  | broadcastEnd h hq =>
    rename_i again
    cases again <;> exact ht
  | append h hi hs =>
    rw [View.bump_monitor]
    exact (signals_lock hs).1.trans ht
  | _ => exact ht

end Synch

namespace Kernel

variable {T : Type} [DecidableEq T] {ops : Synch.Op T → Bool} {k : Kernel (Synch.client T ops)}

/-- Thread `t` has completed the `P` of `Acquire`, and has not come to the `V` of `Release`. -/
def InCritical (k : Kernel (Synch.client T ops)) (t : Tid) : Prop :=
  (∃ f, k.view.pc t = some (.acquireHolder f)) ∨ t ∈ k.shared.critical

/-- The safety of the lock. -/
structure LockSafe (k : Kernel (Synch.client T ops)) : Prop where
  mutual_exclusion : ∀ t t', k.InCritical t → k.InCritical t' → t' = t
  /-- The value is 1 while the lock is free, and 0 while a thread is inside. -/
  value : ∃ x, k.semaphore Synch.lockSemaphore = some x ∧
    (x.value = 1 ∧ (∀ t, ¬k.InCritical t) ∨ x.value = 0 ∧ ∃ t, k.InCritical t)
  /-- `lockHolder` is NULL or the thread inside. -/
  holder : ∀ t, k.shared.lockHolder = some t → k.InCritical t
  /-- No step of another thread overwrites it. -/
  not_overwritten : ∀ ch k', k.AllowedStep ch → k.step ch = .ok k' → ∀ t, k.shared.lockHolder = some t → k.currentThread ≠ t →
    k'.shared.lockHolder = some t
  /-- A `Release` by a thread that is not the holder fails its `ASSERT`, before it has changed anything. -/
  release_aborts : ∀ ch f rest, k.stack k.currentThread = .code (.releaseAssert f) :: rest →
    k.shared.lockHolder ≠ some k.currentThread → k.step ch = .error .assertFailed

theorem inCritical_iff {o : Option Tid} (hO : Synch.Owned k.view o) (t : Tid) : k.InCritical t ↔ o = some t := by
  constructor
  · rintro (⟨f, h⟩ | h)
    · exact (hO.entering t f h).1
    · have hcrit : k.view.monitor.critical = k.shared.critical := rfl
      cases o with
      | none =>
        rw [← hcrit, hO.free rfl] at h
        cases h
      | some t' =>
        rcases hO.owner t' rfl with hh | ⟨pc, hpc, hp⟩
        · rw [← hcrit, (hO.holder t' hh).2] at h
          rw [List.mem_singleton.1 h]
        · cases pc with
          | acquireHolder f =>
            rw [← hcrit, (hO.entering t' f hpc).2.2] at h
            cases h
          | releaseV f =>
            rw [← hcrit, (hO.leaving t' f hpc).2.2] at h
            rw [List.mem_singleton.1 h]
          | _ => cases hp
  · intro ho
    rcases hO.owner t ho with hh | ⟨pc, hpc, hp⟩
    · refine Or.inr ?_
      show t ∈ k.view.monitor.critical
      rw [(hO.holder t hh).2]
      exact List.mem_singleton_self t
    · cases pc with
      | acquireHolder f => exact Or.inl ⟨f, hpc⟩
      | releaseV f =>
        refine Or.inr ?_
        show t ∈ k.view.monitor.critical
        rw [(hO.leaving t f hpc).2.2]
        exact List.mem_singleton_self t
      | _ => cases hp

/-- The lock is safe in every reachable state, whatever operations user code calls. -/
theorem lock_safe (hk : (system (Synch.boot ops)).Reachable k) : k.LockSafe := by
  obtain ⟨o, hO⟩ := Synch.owned_of_reachable (view_reachable hk)
  refine ⟨?_, ?_, ?_, ?_, ?_⟩
  · intro t t' h h'
    rw [inCritical_iff hO] at h h'
    exact Option.some.inj (h'.symm.trans h)
  · obtain ⟨x, hx, hv⟩ := Option.map_eq_some_iff.1 hO.value
    refine ⟨x, hx, ?_⟩
    cases o with
    | none => exact Or.inl ⟨hv, fun t h => by cases (inCritical_iff hO t).1 h⟩
    | some t => exact Or.inr ⟨hv, t, (inCritical_iff hO t).2 rfl⟩
  · intro t h
    exact (inCritical_iff hO t).2 (hO.holder t h).1
  · intro ch k' hallowed hstep t ht hne
    rcases view_step hk hallowed hstep with heq | hs
    · show k'.view.monitor.lockHolder = some t
      rw [heq]
      exact ht
    · exact hO.holder_step hs ht hne
  · intro ch f rest hst hne
    unfold step
    rw [hst]
    show ((assert (k.shared.lockHolder = some k.currentThread)) >>= _) >>= _ = _
    rw [assert_not hne]
    rfl

/-- A run in which the main thread loses the processor inside the `P` of `Acquire`, before it is written down as the holder, and
thread 1 comes to wait for the lock. -/
def contention : Option (Kernel (Synch.client Nat fun _ => true)) :=
  let go (op : Synch.Op Nat) : Choice (Synch.client Nat fun _ => true) := { input := { op, fresh := 1 }, due := [] }
  let tick : Choice (Synch.client Nat fun _ => true) := { input := { op := .none, fresh := 1 }, due := [.timer] }
  (Synch.boot fun _ => true).kernel.execute
    ([go .none, go (.fork 1), go .none, go .acquire, go .none, tick, go .none, go .none, go .acquire] ++
      List.replicate 6 (go .none))

theorem lock_safe_contention : ∃ k : Kernel (Synch.client Nat fun _ => true), k.shared.lockHolder = some 0 ∧
    ((k.semaphore Synch.lockSemaphore).map Semaphore.queue) = some [1] ∧ k.LockSafe := by
  have hrun : (contention.map fun k => (k.shared.lockHolder, (k.semaphore Synch.lockSemaphore).map Semaphore.queue)) =
      some (some 0, some [1]) := by decide +kernel
  obtain ⟨k, hk, hh⟩ := Option.map_eq_some_iff.1 hrun
  obtain ⟨hh, hq⟩ := Prod.mk.inj hh
  exact ⟨k, hh, hq, lock_safe (reachable_of_execute (.init rfl) hk)⟩

end Kernel

end Nachos
