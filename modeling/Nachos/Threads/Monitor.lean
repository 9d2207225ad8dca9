import Nachos.Threads.Counting
import Nachos.Threads.Synch

/-!
# The steps of a monitor

What the code of Synch does, one rule for each statement, over the statement each thread is at, the values of the semaphores and
the state of the monitor. A thread in the loop of `P` counts as being at the statement that calls `P`. The threads without a
scheduler, and so the kernel, refine this.
-/

namespace Nachos

namespace Synch

variable {T : Type}

/-- The statement each thread is at, the value of each semaphore, and the monitor. -/
structure View (T : Type) where
  pc : Tid → Option (Pc T)
  value : SemId → Option Int
  monitor : Monitor T

namespace View

/-- Thread `t` goes to `o`, and the monitor becomes `m`. -/
def move (v : View T) (t : Tid) (o : Option (Pc T)) (m : Monitor T) : View T :=
  { v with pc := Function.update v.pc t o, monitor := m }

/-- The value of `s` becomes `x`. -/
def setValue (v : View T) (s : SemId) (x : Option Int) : View T := { v with value := Function.update v.value s x }

/-- The waiter released, if any, has its value incremented. -/
def bump (v : View T) : Option SemId → View T
  | none => v
  | some s => v.setValue s ((v.value s).map (· + 1))

theorem move_pc_self (v : View T) (t : Tid) (o : Option (Pc T)) (m : Monitor T) : (v.move t o m).pc t = o :=
  Function.update_self _ _ _

theorem move_pc_other (v : View T) {t t' : Tid} (h : t' ≠ t) (o : Option (Pc T)) (m : Monitor T) :
    (v.move t o m).pc t' = v.pc t' := Function.update_of_ne h _ _

/-- The statement of a thread after a move. -/
theorem move_pc_cases {p : Tid → Option (Pc T)} {t t' : Tid} {o : Option (Pc T)} {pc : Pc T}
    (h : Function.update p t o t' = some pc) : t' = t ∧ o = some pc ∨ t' ≠ t ∧ p t' = some pc := by
  rcases eq_or_ne t' t with rfl | hne
  · rw [Function.update_self] at h
    exact Or.inl ⟨rfl, h⟩
  · rw [Function.update_of_ne hne] at h
    exact Or.inr ⟨hne, h⟩

theorem setValue_self (v : View T) (s : SemId) (x : Option Int) : (v.setValue s x).value s = x := Function.update_self _ _ _

theorem setValue_other (v : View T) {s s' : SemId} (h : s' ≠ s) (x : Option Int) :
    (v.setValue s x).value s' = v.value s' := Function.update_of_ne h _ _

@[simp] theorem bump_pc (v : View T) (o : Option SemId) : (v.bump o).pc = v.pc := by cases o <;> rfl
@[simp] theorem bump_monitor (v : View T) (o : Option SemId) : (v.bump o).monitor = v.monitor := by cases o <;> rfl

theorem bump_other (v : View T) {o : Option SemId} {s : SemId} (h : s ∉ o) : (v.bump o).value s = v.value s := by
  cases o with
  | none => rfl
  | some s' => exact setValue_other v (fun e => h (congrArg some e.symm)) _

theorem bump_self (v : View T) (s : SemId) : (v.bump (some s)).value s = (v.value s).map (· + 1) := setValue_self v s _

end View

/-- What `Condition::Signal` does to the monitor, and the waiter that it releases. -/
inductive Signals (t : Tid) (m : Monitor T) : Option SemId → Monitor T → Prop where
  | none (h : m.IsHeldBy t) (hq : m.waitQueue = []) : Signals t m none (m.record (.signals t none))
  | some {waiter : SemId} {rest : List SemId} (h : m.IsHeldBy t) (hq : m.waitQueue = waiter :: rest) :
      Signals t m (some waiter) ({ m with waitQueue := rest }.record (.signals t (some waiter)))

/-- The steps of thread `t`, one rule for each statement and outcome. -/
inductive Step (ops : Op T → Bool) (t : Tid) : View T → View T → Prop where
  | start {v : View T} {op : Op T} {pc : Pc T} (h : v.pc t = some .user) (hop : ops op = true)
      (hb : begin v.monitor op = (v.monitor, .none, pc)) : Step ops t v (v.move t (some pc) v.monitor)
  | fork {v : View T} {t' : Tid} (h : v.pc t = some .user) (hnew : v.pc t' = none) :
      Step ops t v (v.move t' (some .user) v.monitor)
  | finish {v : View T} (h : v.pc t = some .user) : Step ops t v (v.move t none v.monitor)
  | acquireP {v : View T} {f : AcquireFrom T} {x : Int} (h : v.pc t = some (.acquireP f))
      (hx : v.value lockSemaphore = some x) (h0 : x ≠ 0) :
      Step ops t v ((v.move t (some (.acquireHolder f)) v.monitor).setValue lockSemaphore (some (x - 1)))
  | acquireHolder {v : View T} {f : AcquireFrom T} (h : v.pc t = some (.acquireHolder f)) :
      Step ops t v (v.move t (some f.next) { v.monitor with lockHolder := some t, critical := t :: v.monitor.critical })
  | releaseAssert {v : View T} {f : ReleaseFrom} (h : v.pc t = some (.releaseAssert f)) (held : v.monitor.IsHeldBy t) :
      Step ops t v (v.move t (some (.releaseHolder f)) v.monitor)
  | releaseHolder {v : View T} {f : ReleaseFrom} (h : v.pc t = some (.releaseHolder f)) :
      Step ops t v (v.move t (some (.releaseV f)) { v.monitor with lockHolder := none })
  | releaseV {v : View T} {f : ReleaseFrom} {x : Int} (h : v.pc t = some (.releaseV f)) (hx : v.value lockSemaphore = some x) :
      Step ops t v ((v.move t (some f.next) { v.monitor with critical := v.monitor.critical.erase t }).setValue lockSemaphore
        (some (x + 1)))
  | waitAssert {v : View T} {f : WaitFrom} (h : v.pc t = some (.waitAssert f)) (held : v.monitor.IsHeldBy t) :
      Step ops t v (v.move t (some (.waitNew f)) v.monitor)
  | waitNew {v : View T} {f : WaitFrom} {s : SemId} (h : v.pc t = some (.waitNew f)) (hs : v.value s = none) :
      Step ops t v ((v.move t (some (.waitAppend s f)) v.monitor).setValue s (some 0))
  | waitAppend {v : View T} {f : WaitFrom} {s : SemId} (h : v.pc t = some (.waitAppend s f)) (hq : s ∉ v.monitor.waitQueue) :
      Step ops t v (v.move t (some (.releaseAssert (.wait s f)))
        ({ v.monitor with waitQueue := v.monitor.waitQueue ++ [s] }.record (.waits t s)))
  | waitP {v : View T} {f : WaitFrom} {s : SemId} {x : Int} (h : v.pc t = some (.waitP s f)) (hx : v.value s = some x)
      (h0 : x ≠ 0) : Step ops t v ((v.move t (some (.acquireP (.wait s f))) v.monitor).setValue s (some (x - 1)))
  | waitDelete {v : View T} {f : WaitFrom} {s : SemId} (h : v.pc t = some (.waitDelete s f)) :
      Step ops t v ((v.move t (some f.next) v.monitor).setValue s none)
  | signal {v : View T} {o : Option SemId} {m : Monitor T} (h : v.pc t = some .signal) (hs : Signals t v.monitor o m) :
      Step ops t v ((v.move t (some .user) m).bump o)
  | broadcastEnd {v : View T} {again : Bool} (h : v.pc t = some (.broadcast again)) (hq : v.monitor.waitQueue = []) :
      Step ops t v (v.move t (some .user) (if again then v.monitor.record (.broadcastEnds t) else v.monitor))
  | broadcast {v : View T} {again : Bool} {o : Option SemId} {m : Monitor T} (h : v.pc t = some (.broadcast again))
      (hq : v.monitor.waitQueue ≠ [])
      (hs : Signals t (if again then v.monitor else v.monitor.record (.broadcasts t v.monitor.waitQueue)) o m) :
      Step ops t v ((v.move t (some (.broadcast true)) m).bump o)
  | append {v : View T} {item : T} {o : Option SemId} {m : Monitor T} (h : v.pc t = some (.append item))
      (hi : item ∉ v.monitor.list)
      (hs : Signals t { v.monitor with list := v.monitor.list ++ [item], appended := v.monitor.appended ++ [item] } o m) :
      Step ops t v ((v.move t (some (.releaseAssert .append)) m).bump o)
  | removeEmpty {v : View T} {again : Bool} (h : v.pc t = some (.removeFront again)) (hl : v.monitor.list = []) :
      Step ops t v (v.move t (some (.waitAssert .removeFront)) v.monitor)
  | removeFront {v : View T} {again : Bool} {item : T} {rest : List T} (h : v.pc t = some (.removeFront again))
      (hl : v.monitor.list = item :: rest) :
      Step ops t v (v.move t (some (.releaseAssert .removeFront))
        { v.monitor with list := rest, removed := v.monitor.removed ++ [item] })

/-- The start. -/
def View.new : View T where
  pc := fun t => if t = mainThread then some .user else none
  value := fun s => if s = lockSemaphore then some 1 else none
  monitor := Monitor.new

/-- The runs of a monitor. -/
def system (ops : Op T → Bool) : Transition.System (View T) where
  init := fun v => v = View.new
  step := fun v v' => ∃ t, Step ops t v v'

/-! ## The view of the threads without a scheduler -/

/-- The statement a thread is at; in the loop of `P`, the one that calls `P`. -/
def here : Ctl (Pc T) → Option (Pc T)
  | .gone => none
  | .run pc => some pc
  | .inP _ (.acquireHolder f) => some (.acquireP f)
  | .inP _ (.acquireP (.wait s f)) => some (.waitP s f)
  | .inP _ pc => some pc

theorem move_here {v : View T} {o : Option (Pc T)} (h : v.pc t = o) : v.move t o v.monitor = v := by
  unfold View.move
  rw [← h, Function.update_eq_self]

/-- The call that a `Signal` ends with: `V` on the semaphore of the waiter it releases, if there is one. -/
def release {P : Type} : Option SemId → Call P
  | none => .none
  | some s => .v s

theorem signal_ok {P : Type} {m m' : Monitor T} {call : Call P} (h : m.signal t = .ok (m', call)) :
    ∃ o, Signals t m o m' ∧ call = release o := by
  unfold Monitor.signal at h
  by_cases hheld : m.IsHeldBy t
  · rw [assert_of hheld, Loop.ok_bind] at h
    cases hq : m.waitQueue with
    | nil =>
      rw [hq] at h
      cases h
      exact ⟨none, .none hheld hq, rfl⟩
    | cons s rest =>
      rw [hq] at h
      cases h
      exact ⟨some s, .some hheld hq, rfl⟩
  · rw [assert_not hheld] at h
    cases h

/-- What the statements of the monitor do, one rule for each statement and outcome. -/
inductive Codes (t : Tid) (m : Monitor T) (i : Input T) : Pc T → Monitor T → Call (Pc T) → Pc T → Prop where
  | acquireP (f : AcquireFrom T) : Codes t m i (.acquireP f) m (.p lockSemaphore) (.acquireHolder f)
  | acquireHolder (f : AcquireFrom T) :
      Codes t m i (.acquireHolder f) { m with lockHolder := some t, critical := t :: m.critical } .none f.next
  | releaseAssert {f : ReleaseFrom} (held : m.IsHeldBy t) : Codes t m i (.releaseAssert f) m .none (.releaseHolder f)
  | releaseHolder (f : ReleaseFrom) : Codes t m i (.releaseHolder f) { m with lockHolder := none } .none (.releaseV f)
  | releaseV (f : ReleaseFrom) :
      Codes t m i (.releaseV f) { m with critical := m.critical.erase t } (.v lockSemaphore) f.next
  | waitAssert {f : WaitFrom} (held : m.IsHeldBy t) : Codes t m i (.waitAssert f) m .none (.waitNew f)
  | waitNew (f : WaitFrom) : Codes t m i (.waitNew f) m (.newSemaphore i.fresh 0) (.waitAppend i.fresh f)
  | waitAppend {f : WaitFrom} {s : SemId} (hq : s ∉ m.waitQueue) :
      Codes t m i (.waitAppend s f) ({ m with waitQueue := m.waitQueue ++ [s] }.record (.waits t s)) .none
        (.releaseAssert (.wait s f))
  | waitP (s : SemId) (f : WaitFrom) : Codes t m i (.waitP s f) m (.p s) (.acquireP (.wait s f))
  | waitDelete (s : SemId) (f : WaitFrom) : Codes t m i (.waitDelete s f) m (.deleteSemaphore s) f.next
  | signal {o : Option SemId} {m' : Monitor T} (hs : Signals t m o m') : Codes t m i .signal m' (release o) .user
  | broadcastEnd {again : Bool} (hq : m.waitQueue = []) :
      Codes t m i (.broadcast again) (if again then m.record (.broadcastEnds t) else m) .none .user
  | broadcast {again : Bool} {o : Option SemId} {m' : Monitor T} (hq : m.waitQueue ≠ [])
      (hs : Signals t (if again then m else m.record (.broadcasts t m.waitQueue)) o m') :
      Codes t m i (.broadcast again) m' (release o) (.broadcast true)
  | append {item : T} {o : Option SemId} {m' : Monitor T} (hi : item ∉ m.list)
      (hs : Signals t { m with list := m.list ++ [item], appended := m.appended ++ [item] } o m') :
      Codes t m i (.append item) m' (release o) (.releaseAssert .append)
  | removeEmpty {again : Bool} (hl : m.list = []) : Codes t m i (.removeFront again) m .none (.waitAssert .removeFront)
  | removeFront {again : Bool} {item : T} {rest : List T} (hl : m.list = item :: rest) :
      Codes t m i (.removeFront again) { m with list := rest, removed := m.removed ++ [item] } .none
        (.releaseAssert .removeFront)

variable [DecidableEq T] {ops : Op T → Bool}

omit [DecidableEq T] in
/-- A `Signal` at the end of a statement. -/
theorem of_signal_ok {m m' : Monitor T} {call : Call (Pc T)} {pc pc' : Pc T}
    (h : ((m.signal t : Except Fault (Monitor T × Call (Pc T))) >>= fun r => .ok (r.1, r.2, pc)) = .ok (m', call, pc')) :
    ∃ o, Signals t m o m' ∧ call = release o ∧ pc' = pc := by
  obtain ⟨⟨m₁, call₁⟩, hsig, h⟩ := Loop.of_bind_ok h
  obtain ⟨o, hs, hcall⟩ := signal_ok hsig
  cases h
  exact ⟨o, hs, hcall, rfl⟩

/-- The code does what the rules say. -/
theorem codes_of_code {m m' : Monitor T} {i : Input T} {pc pc' : Pc T} {call : Call (Pc T)} (hpc : pc ≠ .user)
    (h : code ops t m pc i = .ok (m', call, pc')) : Codes t m i pc m' call pc' := by
  cases pc with
  | user => exact absurd rfl hpc
  | acquireP f =>
    cases h
    exact .acquireP f
  | acquireHolder f =>
    cases h
    exact .acquireHolder f
  | releaseAssert f =>
    obtain ⟨held, h⟩ := of_assert_bind h
    cases h
    exact .releaseAssert held
  | releaseHolder f =>
    cases h
    exact .releaseHolder f
  | releaseV f =>
    cases h
    exact .releaseV f
  | waitAssert f =>
    obtain ⟨held, h⟩ := of_assert_bind h
    cases h
    exact .waitAssert held
  | waitNew f =>
    cases h
    exact .waitNew f
  | waitAppend s f =>
    obtain ⟨hq, h⟩ := of_assert_bind h
    cases h
    exact .waitAppend hq
  | waitP s f =>
    cases h
    exact .waitP s f
  | waitDelete s f =>
    cases h
    exact .waitDelete s f
  | signal =>
    obtain ⟨o, hs, rfl, rfl⟩ := of_signal_ok h
    exact .signal hs
  | broadcast again =>
    simp only [code] at h
    split at h
    · rename_i hq
      cases h
      exact .broadcastEnd hq
    · rename_i hq
      obtain ⟨o, hs, rfl, rfl⟩ := of_signal_ok h
      exact .broadcast hq hs
  | append item =>
    obtain ⟨m₁, hm₁, h⟩ := Loop.of_bind_ok h
    obtain ⟨hi, hm₁⟩ := of_assert_bind hm₁
    cases hm₁
    obtain ⟨o, hs, rfl, rfl⟩ := of_signal_ok h
    exact .append hi hs
  | removeFront again =>
    simp only [code, Monitor.listRemoveFront] at h
    split at h
    · rename_i hl
      cases h
      exact .removeEmpty hl
    · cases hl : m.list with
      | nil =>
        rename_i hne
        exact absurd hl hne
      | cons item rest =>
        rw [hl] at h
        cases h
        exact .removeFront hl

/-- The view of a state. -/
def view (a : Abs (client T ops)) : View T where
  pc := fun t => here (a.ctl t)
  value := fun s => (a.semaphore s).map Semaphore.value
  monitor := a.shared

/-- A thread in the loop of `P` came there from a statement that calls `P` on that semaphore. -/
def Shaped (a : Abs (client T ops)) : Prop :=
  ∀ t s pc, a.ctl t = .inP s pc →
    (s = lockSemaphore ∧ ∃ f, pc = .acquireHolder f) ∨ ∃ f, pc = .acquireP (.wait s f)

section View

variable (a : Abs (client T ops))

theorem view_setCtl (t : Tid) (y : Ctl (Pc T)) : view (a.setCtl t y) = (view a).move t (here y) (view a).monitor := by
  unfold view View.move Abs.setCtl
  congr 1
  funext t'
  exact Function.apply_update (fun _ => here) a.ctl t y t'

theorem view_setSemaphore (s : SemId) (y : Option Semaphore) :
    view (a.setSemaphore s y) = (view a).setValue s (y.map Semaphore.value) := by
  unfold view View.setValue Abs.setSemaphore
  congr 1
  funext s'
  exact Function.apply_update (fun _ => Option.map Semaphore.value) a.semaphore s y s'

theorem view_value {s : SemId} {x : Semaphore} (hs : a.semaphore s = some x) : (view a).value s = some x.value := by
  show (a.semaphore s).map Semaphore.value = _
  rw [hs]
  rfl

theorem view_value_none {s : SemId} (hs : a.semaphore s = none) : (view a).value s = none := by
  show (a.semaphore s).map Semaphore.value = _
  rw [hs]
  rfl

/-- A state in which only the control of `t` and the monitor have changed. -/
theorem view_run (t : Tid) (pc : Pc T) (m : Monitor T) :
    view (Abs.setCtl { a with shared := m } t (.run pc)) = (view a).move t (some pc) m := view_setCtl { a with shared := m } t _

end View

section Effects

variable {a a' : Abs (client T ops)} {t : Tid} {pc' : Pc T} {m : Monitor T}

theorem view_effect_none (h : Abs.Effect t pc' .none { a with shared := m } a') : view a' = (view a).move t (some pc') m := by
  cases h
  exact view_run a t pc' m

theorem view_effect_yield (h : Abs.Effect t pc' .yield { a with shared := m } a') :
    view a' = (view a).move t (some pc') m := by
  cases h
  exact view_run a t pc' m

theorem view_effect_finish (h : Abs.Effect t pc' .finish { a with shared := m } a') : view a' = (view a).move t none m := by
  cases h
  exact view_setCtl { a with shared := m } t .gone

theorem view_effect_fork {t' : Tid} {pc : Pc T} (h : Abs.Effect t pc' (.fork t' pc) { a with shared := m } a') :
    (view a).pc t' = none ∧ view a' = ((view a).move t (some pc') m).move t' (some pc) m := by
  cases h with
  | fork hne hgone =>
    refine ⟨congrArg here hgone, ?_⟩
    rw [view_setCtl, view_run]
    rfl

theorem view_effect_v {s : SemId} (h : Abs.Effect t pc' (.v s) { a with shared := m } a') :
    ∃ x, (view a).value s = some x ∧ view a' = ((view a).move t (some pc') m).setValue s (some (x + 1)) := by
  cases h with
  | v hs =>
    refine ⟨_, view_value a hs, ?_⟩
    rw [view_setSemaphore, view_run]
    rfl

/-- A call of `P` that does not go through leaves the thread at the statement. -/
theorem view_effect_p {s : SemId} (h : Abs.Effect t pc' (.p s) { a with shared := m } a') :
    (∃ x, (view a).value s = some x ∧ x ≠ 0 ∧ view a' = ((view a).move t (some pc') m).setValue s (some (x - 1))) ∨
      view a' = (view a).move t (here (.inP s pc')) m := by
  cases h with
  | take hs h0 =>
    refine Or.inl ⟨_, view_value a hs, h0, ?_⟩
    rw [view_setSemaphore, view_run]
    rfl
  | @sleep _ _ x hs h0 =>
    refine Or.inr ?_
    have hval : (view a).value s = some x.value := view_value a hs
    rw [view_setSemaphore, view_setCtl]
    show ((view a).move t (here (.inP s pc')) m).setValue s (some x.value) = _
    unfold View.setValue
    congr 1
    rw [← hval]
    exact Function.update_eq_self s _

theorem view_effect_new {s : SemId} (h : Abs.Effect t pc' (.newSemaphore s 0) { a with shared := m } a') :
    (view a).value s = none ∧ view a' = ((view a).move t (some pc') m).setValue s (some 0) := by
  cases h with
  | newSemaphore _ hs =>
    refine ⟨view_value_none a hs, ?_⟩
    rw [view_setSemaphore, view_run]
    rfl

theorem view_effect_delete {s : SemId} (h : Abs.Effect t pc' (.deleteSemaphore s) { a with shared := m } a') :
    view a' = ((view a).move t (some pc') m).setValue s none := by
  cases h with
  | deleteSemaphore hs =>
    rw [view_setSemaphore, view_run]
    rfl

end Effects

section Code

variable {a a' : Abs (client T ops)} {t : Tid} {pc' : Pc T} {m : Monitor T} {call : Call (Pc T)} {i : Input T}

/-- The effect of the call that a `Signal` ends with. -/
theorem view_effect_signal {o : Option SemId} (h : Abs.Effect t pc' (release o) { a with shared := m } a') :
    view a' = ((view a).move t (some pc') m).bump o := by
  cases o with
  | none => exact view_effect_none h
  | some s =>
    obtain ⟨x, hx, hv⟩ := view_effect_v h
    rw [hv]
    show _ = ((view a).move t (some pc') m).setValue s (((view a).value s).map (· + 1))
    rw [hx]
    rfl

/-- User code begins an operation. -/
theorem step_user (hpc : (view a).pc t = some .user) (hcode : code ops t a.shared .user i = .ok (m, call, pc'))
    (h : Abs.Effect t pc' call { a with shared := m } a') : view a' = view a ∨ Step ops t (view a) (view a') := by
  simp only [code] at hcode
  split at hcode
  · rename_i hop
    obtain ⟨op, fresh⟩ := i
    cases op with
    | yield =>
      cases hcode
      exact Or.inl ((view_effect_yield h).trans (move_here hpc))
    | fork t' =>
      cases hcode
      obtain ⟨hnew, hv⟩ := view_effect_fork h
      have hself : (view a).move t (some .user) a.shared = view a := move_here hpc
      rw [hv, hself]
      exact Or.inr (.fork hpc hnew)
    | finish =>
      cases hcode
      rw [view_effect_finish h]
      exact Or.inr (.finish hpc)
    | _ =>
      cases hcode
      rw [view_effect_none h]
      exact Or.inr (.start hpc hop rfl)
  · cases hcode
    refine Or.inl ?_
    rw [view_effect_none h]
    exact move_here hpc

/-- A step of client code is a step of the monitor, or none. -/
theorem step_code {pc : Pc T} (hpc : (view a).pc t = some pc) (hcode : code ops t a.shared pc i = .ok (m, call, pc'))
    (h : Abs.Effect t pc' call { a with shared := m } a') : view a' = view a ∨ Step ops t (view a) (view a') := by
  by_cases huser : pc = .user
  · subst huser
    exact step_user hpc hcode h
  cases codes_of_code huser hcode with
  | acquireP f =>
    rcases view_effect_p h with ⟨x, hx, h0, hv⟩ | hv
    · rw [hv]
      exact Or.inr (.acquireP hpc hx h0)
    · exact Or.inl (hv.trans (move_here hpc))
  | acquireHolder f =>
    rw [view_effect_none h]
    exact Or.inr (.acquireHolder hpc)
  | releaseAssert held =>
    rw [view_effect_none h]
    exact Or.inr (.releaseAssert hpc held)
  | releaseHolder f =>
    rw [view_effect_none h]
    exact Or.inr (.releaseHolder hpc)
  | releaseV f =>
    obtain ⟨x, hx, hv⟩ := view_effect_v h
    rw [hv]
    exact Or.inr (.releaseV hpc hx)
  | waitAssert held =>
    rw [view_effect_none h]
    exact Or.inr (.waitAssert hpc held)
  | waitNew f =>
    obtain ⟨hs, hv⟩ := view_effect_new h
    rw [hv]
    exact Or.inr (.waitNew hpc hs)
  | waitAppend hq =>
    rw [view_effect_none h]
    exact Or.inr (.waitAppend hpc hq)
  | waitP s f =>
    rcases view_effect_p h with ⟨x, hx, h0, hv⟩ | hv
    · rw [hv]
      exact Or.inr (.waitP hpc hx h0)
    · exact Or.inl (hv.trans (move_here hpc))
  | waitDelete s f =>
    rw [view_effect_delete h]
    exact Or.inr (.waitDelete hpc)
  | signal hs =>
    rw [view_effect_signal h]
    exact Or.inr (.signal hpc hs)
  | broadcastEnd hq =>
    rw [view_effect_none h]
    exact Or.inr (.broadcastEnd hpc hq)
  | broadcast hq hs =>
    rw [view_effect_signal h]
    exact Or.inr (.broadcast hpc hq hs)
  | append hi hs =>
    rw [view_effect_signal h]
    exact Or.inr (.append hpc hi hs)
  | removeEmpty hl =>
    rw [view_effect_none h]
    exact Or.inr (.removeEmpty hpc hl)
  | removeFront hl =>
    rw [view_effect_none h]
    exact Or.inr (.removeFront hpc hl)

end Code

/-! ## The simulation -/

/-- Only the statements that call `P` call `P`. -/
theorem code_p {t : Tid} {m m' : Monitor T} {pc pc' : Pc T} {i : Input T} {s : SemId}
    (h : code ops t m pc i = .ok (m', .p s, pc')) :
    (s = lockSemaphore ∧ ∃ f, pc' = .acquireHolder f) ∨ ∃ f, pc' = .acquireP (.wait s f) := by
  by_cases huser : pc = .user
  · subst huser
    simp only [code] at h
    split at h
    · obtain ⟨op, fresh⟩ := i
      cases op <;> cases h
    · cases h
  generalize hcall : Call.p s = call at h
  cases codes_of_code huser h with
  | acquireP f =>
    cases hcall
    exact Or.inl ⟨rfl, f, rfl⟩
  | waitP s' f =>
    cases hcall
    exact Or.inr ⟨f, rfl⟩
  | @signal o m' hs => cases o <;> cases hcall
  | @broadcast again o m' hq hs => cases o <;> cases hcall
  | @append item o m' hi hs => cases o <;> cases hcall
  | _ => cases hcall

/-- The statements that check who holds the lock. -/
def Pc.checks : Pc T → Bool
  | .releaseAssert _ => true
  | .waitAssert _ => true
  | .signal => true
  | .broadcast _ => true
  | .append _ => true
  | _ => false

omit [DecidableEq T] in
/-- A `Signal` calls `V` on a semaphore of the queue. -/
theorem Signals.mem_of_call {t : Tid} {m m' : Monitor T} {o : Option SemId} (hs : Signals t m o m') {s : SemId}
    (hcall : release (P := Pc T) o = .p s ∨ release (P := Pc T) o = .v s) : s ∈ m.waitQueue := by
  cases hs with
  | none h hq => rcases hcall with hcall | hcall <;> cases hcall
  | some h hq =>
    rcases hcall with hcall | hcall <;> cases hcall
    rw [hq]
    exact List.mem_cons_self

/-- The semaphores that the code calls: that of the lock, that of the call of `Wait` it is in, and one on the queue. -/
theorem code_uses {t : Tid} {m m' : Monitor T} {pc pc' : Pc T} {i : Input T} {call : Call (Pc T)} {s : SemId}
    (h : code ops t m pc i = .ok (m', call, pc')) (hcall : call = .p s ∨ call = .v s) :
    s = lockSemaphore ∨ (∃ f, pc = .waitP s f) ∨ s ∈ m.waitQueue := by
  by_cases huser : pc = .user
  · subst huser
    simp only [code] at h
    split at h
    · obtain ⟨op, fresh⟩ := i
      cases op <;> cases h <;> rcases hcall with hcall | hcall <;> cases hcall
    · cases h
      rcases hcall with hcall | hcall <;> cases hcall
  cases codes_of_code huser h with
  | acquireP f =>
    rcases hcall with hcall | hcall <;> cases hcall
    exact Or.inl rfl
  | releaseV f =>
    rcases hcall with hcall | hcall <;> cases hcall
    exact Or.inl rfl
  | waitP s' f =>
    rcases hcall with hcall | hcall <;> cases hcall
    exact Or.inr (Or.inl ⟨f, rfl⟩)
  | signal hs => exact Or.inr (Or.inr (hs.mem_of_call hcall))
  | @broadcast again o m' hq hs =>
    have hmem := hs.mem_of_call hcall
    refine Or.inr (Or.inr ?_)
    cases again <;> exact hmem
  | append hi hs =>
    have hmem := hs.mem_of_call hcall
    exact Or.inr (Or.inr hmem)
  | _ => rcases hcall with hcall | hcall <;> cases hcall

/-- The code fails only at an `ASSERT`: the lock is not held by the thread, or something is put on a list twice. -/
theorem code_error {t : Tid} {m : Monitor T} {pc : Pc T} {i : Input T} {e : Fault} (h : code ops t m pc i = .error e) :
    e = .assertFailed ∧ (pc.checks = true ∧ ¬m.IsHeldBy t ∨ (∃ s f, pc = .waitAppend s f ∧ s ∈ m.waitQueue) ∨
      ∃ item, pc = .append item ∧ item ∈ m.list) := by
  have hsignal : ∀ {m₁ : Monitor T} {f : Pc T},
      ((m₁.signal t : Except Fault (Monitor T × Call (Pc T))) >>= fun r => .ok (r.1, r.2, f)) = .error e →
      m₁.lockHolder = m.lockHolder → e = .assertFailed ∧ ¬m.IsHeldBy t := by
    intro m₁ f h hm
    unfold Monitor.signal at h
    by_cases hheld : m₁.IsHeldBy t
    · rw [assert_of hheld, Loop.ok_bind] at h
      cases hq : m₁.waitQueue <;> rw [hq] at h <;> cases h
    · rw [assert_not hheld] at h
      cases h
      refine ⟨rfl, fun hmem => hheld ?_⟩
      unfold Monitor.IsHeldBy
      rw [hm]
      exact hmem
  cases pc with
  | user =>
    simp only [code] at h
    split at h <;> cases h
  | releaseAssert f =>
    simp only [code] at h
    by_cases hheld : m.IsHeldBy t
    · rw [assert_of hheld] at h
      cases h
    · rw [assert_not hheld] at h
      cases h
      exact ⟨rfl, Or.inl ⟨rfl, hheld⟩⟩
  | waitAssert f =>
    simp only [code] at h
    by_cases hheld : m.IsHeldBy t
    · rw [assert_of hheld] at h
      cases h
    · rw [assert_not hheld] at h
      cases h
      exact ⟨rfl, Or.inl ⟨rfl, hheld⟩⟩
  | waitAppend s f =>
    simp only [code] at h
    by_cases hq : s ∉ m.waitQueue
    · rw [assert_of hq] at h
      cases h
    · rw [assert_not hq] at h
      cases h
      exact ⟨rfl, Or.inr (Or.inl ⟨s, f, rfl, not_not.1 hq⟩)⟩
  | signal =>
    simp only [code] at h
    obtain ⟨he, hheld⟩ := hsignal h rfl
    exact ⟨he, Or.inl ⟨rfl, hheld⟩⟩
  | broadcast again =>
    simp only [code] at h
    split at h
    · cases h
    · obtain ⟨he, hheld⟩ := hsignal h (by cases again <;> rfl)
      exact ⟨he, Or.inl ⟨rfl, hheld⟩⟩
  | append item =>
    simp only [code, Monitor.listAppend] at h
    by_cases hi : item ∉ m.list
    · rw [assert_of hi] at h
      obtain ⟨he, hheld⟩ := hsignal h rfl
      exact ⟨he, Or.inl ⟨rfl, hheld⟩⟩
    · rw [assert_not hi] at h
      cases h
      exact ⟨rfl, Or.inr (Or.inr ⟨item, rfl, not_not.1 hi⟩)⟩
  | removeFront again =>
    simp only [code, Monitor.listRemoveFront] at h
    split at h
    · cases h
    · rename_i hne
      cases hl : m.list with
      | nil => exact absurd hl hne
      | cons item rest =>
        rw [hl] at h
        cases h
  | _ =>
    simp only [code] at h
    cases h

variable {a a' : Abs (client T ops)} {t : Tid}

theorem Shaped.setCtl (hS : Shaped a) {y : Ctl (Pc T)} (hy : ∀ s pc, y = .inP s pc →
    (s = lockSemaphore ∧ ∃ f, pc = .acquireHolder f) ∨ ∃ f, pc = .acquireP (.wait s f)) : Shaped (a.setCtl t y) := by
  intro t' s pc h
  rcases eq_or_ne t' t with rfl | hne
  · rw [Abs.setCtl_self] at h
    exact hy s pc h
  · rw [Abs.setCtl_other a hne] at h
    exact hS t' s pc h

theorem Shaped.threadStep (hS : Shaped a) (h : Abs.ThreadStep t a a') : Shaped a' := by
  have hrun : ∀ (a : Abs (client T ops)), Shaped a → ∀ t' pc, Shaped (a.setCtl t' (.run pc)) :=
    fun a hS t' pc => hS.setCtl (fun s pc' h => by cases h)
  cases h with
  | code ht hcode heff =>
    cases heff with
    | sleep hs h0 =>
      refine Shaped.setCtl (a := { a with shared := _ }) hS ?_
      intro s pc h
      cases h
      exact code_p hcode
    | fork hne hgone => exact hrun _ (hrun { a with shared := _ } hS _ _) _ _
    | finish => exact Shaped.setCtl (a := { a with shared := _ }) hS (fun s pc h => by cases h)
    | _ => exact hrun { a with shared := _ } hS _ _
  | retestTake ht hs hq hv => exact hrun a hS _ _
  | retestSleep ht hs hq hv => exact hS

/-- A step of a thread is a step of the monitor, or none. -/
theorem view_threadStep (hS : Shaped a) (h : Abs.ThreadStep t a a') : view a' = view a ∨ Step ops t (view a) (view a') := by
  cases h with
  | code ht hcode heff => exact step_code (congrArg here ht) hcode heff
  | @retestTake s pc x ht hs hq h0 =>
    refine Or.inr ?_
    have hx := view_value a hs
    rcases hS t s pc ht with ⟨rfl, f, rfl⟩ | ⟨f, rfl⟩
    · have hpc : (view a).pc t = some (.acquireP f) := congrArg here ht
      rw [view_setSemaphore, view_setCtl]
      exact .acquireP hpc hx h0
    · have hpc : (view a).pc t = some (.waitP s f) := congrArg here ht
      rw [view_setSemaphore, view_setCtl]
      exact .waitP hpc hx h0
  | @retestSleep s pc x ht hs hq h0 =>
    refine Or.inl ?_
    have hx := view_value a hs
    rw [view_setSemaphore]
    show (view a).setValue s (some x.value) = _
    unfold View.setValue
    rw [← hx, Function.update_eq_self]

/-- There are no handlers. -/
theorem eq_of_handled (h : a.Handled a') : a' = a := by
  induction h with
  | refl => rfl
  | tail _ hst ih =>
    obtain ⟨d, -⟩ := hst
    exact d.elim

theorem shaped_of_reachable (ha : (Abs.system (boot ops)).Reachable a) : Shaped a := by
  refine ha.invariant (I := Shaped) ?_ ?_
  · rintro a rfl t s pc h
    have h' : (if t = mainThread then Ctl.run (boot ops).pc else .gone) = .inP s pc := h
    split at h' <;> cases h'
  · rintro a a' - hS (⟨t, h⟩ | ⟨d, -⟩)
    · exact hS.threadStep h
    · exact d.elim

theorem view_boot : view (Abs.ofBoot (boot ops)) = View.new := by
  unfold view View.new
  congr 1
  · funext t
    show here (if t = mainThread then .run .user else .gone) = _
    split <;> rfl
  · funext s
    show (((if s = lockSemaphore then some 1 else none : Option Int).map Semaphore.new).map Semaphore.value) = _
    split <;> rfl

/-- The threads without a scheduler refine the monitor. -/
theorem view_refines : Transition.Simulation (Abs.system (boot ops)) (system ops) view := by
  refine ⟨?_, ?_⟩
  · rintro a rfl
    exact view_boot
  · rintro a a' ha (⟨t, h⟩ | ⟨d, -⟩)
    · rcases view_threadStep (shaped_of_reachable ha) h with heq | hstep
      · rw [heq]
      · exact .single ⟨t, hstep⟩
    · exact d.elim

end Synch

namespace Kernel

variable {T : Type} [DecidableEq T] {ops : Synch.Op T → Bool} {k k' : Kernel (Synch.client T ops)}

/-- The statement each thread is at, the values of the semaphores, and the monitor. -/
abbrev view (k : Kernel (Synch.client T ops)) : Synch.View T := Synch.view k.abs

/-- The kernel refines the monitor. -/
theorem view_reachable (hk : (system (Synch.boot ops)).Reachable k) : (Synch.system ops).Reachable k.view :=
  Synch.view_refines.reachable (abs_reachable hk)

/-- A step of the kernel is a step of the current thread in the monitor, or none. -/
theorem view_step (hk : (system (Synch.boot ops)).Reachable k) {ch : Choice (Synch.client T ops)} (hallowed : k.AllowedStep ch)
    (hstep : k.step ch = .ok k') : k'.view = k.view ∨ Synch.Step ops k.currentThread k.view k'.view := by
  obtain ⟨a, h, hh⟩ := ((step_ends (good_of_reachable hk) hallowed).of_ok hstep).2
  have heq := Synch.eq_of_handled hh
  unfold view
  rw [heq]
  rcases h with rfl | h
  · exact Or.inl rfl
  · exact Synch.view_threadStep (Synch.shaped_of_reachable (abs_reachable hk)) h

end Kernel

end Nachos
