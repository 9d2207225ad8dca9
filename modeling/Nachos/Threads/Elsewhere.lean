import Nachos.Threads.StepSpec

/-!
# What a step does to the other threads

A thread that has been forked keeps its stack while others run, until it is deleted. The processor changes hands only in
`Scheduler::Run`, which leaves its rest on the stack of the thread that called it.
-/

namespace Nachos

open Loop

variable {c : Client}

namespace Kernel

variable {k : Kernel c}

/-- The thread is inside `Scheduler::Run`: in `SWITCH`, or back from it. -/
def inRun (k : Kernel c) (t : Tid) : Bool :=
  match k.stack t with
  | .runTail :: _ => true
  | _ => false

theorem inRun_of {t : Tid} {st : List (Frame c.Pc)} (h : k.stack t = .runTail :: st) : k.inRun t = true := by
  unfold inRun
  rw [h]

theorem of_inRun {t : Tid} (h : k.inRun t = true) : ∃ st, k.stack t = .runTail :: st := by
  unfold inRun at h
  split at h
  · rename_i st hst
    exact ⟨st, hst⟩
  · cases h

/-- The threads that do not run keep their stacks or are deleted, and none becomes new again. -/
structure Elsewhere (k k' : Kernel c) : Prop where
  stack : ∀ t, t ≠ k.currentThread → k.threadStatus t ≠ .justCreated → k'.stack t = k.stack t ∨ k'.stack t = []
  created : ∀ t, k.threadStatus t ≠ .justCreated → k'.threadStatus t ≠ .justCreated

/-- The current thread goes on. -/
structure Stays (k k' : Kernel c) : Prop extends Elsewhere k k' where
  currentThread : k'.currentThread = k.currentThread

/-- The current thread goes on, or has called `Scheduler::Run`. -/
structure Goes (k k' : Kernel c) : Prop extends Elsewhere k k' where
  current : k'.currentThread = k.currentThread ∨ k'.inRun k.currentThread = true

theorem Stays.refl (k : Kernel c) : Stays k k := ⟨⟨fun _ _ _ => Or.inl rfl, fun _ h => h⟩, rfl⟩

theorem Stays.goes {k' : Kernel c} (h : Stays k k') : Goes k k' := ⟨h.toElsewhere, Or.inl h.currentThread⟩

theorem Stays.then_elsewhere {k₁ k₂ k₃ : Kernel c} (h : Stays k₁ k₂) (h' : Elsewhere k₂ k₃) : Elsewhere k₁ k₃ := by
  refine ⟨?_, fun t hts => h'.created t (h.created t hts)⟩
  intro t ht hts
  obtain hst' | hnil := h'.stack t (by rw [h.currentThread]; exact ht) (h.created t hts)
  · rw [hst']
    exact h.stack t ht hts
  · exact Or.inr hnil

theorem Stays.trans {k₁ k₂ k₃ : Kernel c} (h : Stays k₁ k₂) (h' : Stays k₂ k₃) : Stays k₁ k₃ :=
  ⟨h.then_elsewhere h'.toElsewhere, h'.currentThread.trans h.currentThread⟩

theorem Stays.then_goes {k₁ k₂ k₃ : Kernel c} (h : Stays k₁ k₂) (h' : Goes k₂ k₃) : Goes k₁ k₃ :=
  ⟨h.then_elsewhere h'.toElsewhere, by have := h'.current; rwa [h.currentThread] at this⟩

/-- Fields that do not matter here. -/
theorem Stays.of_fields {k' : Kernel c} (hst : k'.stack = k.stack) (hts : k'.threadStatus = k.threadStatus)
    (hc : k'.currentThread = k.currentThread) : Stays k k' :=
  ⟨⟨fun _ _ _ => Or.inl (by rw [hst]), fun _ h => by rw [hts]; exact h⟩, hc⟩

theorem Goes.of_fields {k' : Kernel c} (hst : k'.stack = k.stack) (hts : k'.threadStatus = k.threadStatus)
    (hc : k'.currentThread = k.currentThread) : Goes k k' := (Stays.of_fields hst hts hc).goes

theorem changeLevel_stays (k : Kernel c) (now : IntStatus) : Stays k (k.changeLevel now) := .of_fields rfl rfl rfl

/-- The same, on both sides. -/
theorem Stays.congr {k₁ k₂ k k' : Kernel c} (h : Stays k₁ k₂) (hst : k₁.stack = k.stack) (hts : k₁.threadStatus = k.threadStatus)
    (hc : k₁.currentThread = k.currentThread) (hst' : k'.stack = k₂.stack) (hts' : k'.threadStatus = k₂.threadStatus)
    (hc' : k'.currentThread = k₂.currentThread) : Stays k k' :=
  ((Stays.of_fields hst hts hc).trans h).trans (.of_fields hst' hts' hc')

theorem setCurrentStack_stays (k : Kernel c) (st : List (Frame c.Pc)) : Stays k (k.setCurrentStack st) :=
  ⟨⟨fun _ ht _ => Or.inl (setCurrentStack_other k st ht), fun _ h => h⟩, rfl⟩

theorem push_stays (k : Kernel c) (f : Frame c.Pc) : Stays k (k.push f) := k.setCurrentStack_stays _

theorem setStatus_stays (k : Kernel c) (t : Tid) (ts : ThreadStatus) (hts : ts ≠ .justCreated) : Stays k (k.setStatus t ts) := by
  refine ⟨⟨fun _ _ _ => Or.inl rfl, ?_⟩, rfl⟩
  intro t' h
  rw [setStatus_threadStatus]
  by_cases ht : t' = t
  · rw [ht, Function.update_self]
    exact hts
  · rw [Function.update_of_ne ht]
    exact h

/-! ## Scheduler -/

/-- A function of the kernel that comes back. -/
abbrev Returns (k : Kernel c) (x : Except Fault (Kernel c)) : Prop := Ends (Stays k) (fun _ => True) x

theorem assert_ends (p : Prop) [Decidable p] : Ends (fun _ : Unit => p) (fun _ : Fault => True) (assert p) := by
  by_cases hp : p
  · rw [assert_of hp]
    exact .ok hp
  · rw [assert_not hp]
    exact .error trivial

theorem readyToRun_returns (k : Kernel c) (t : Tid) : k.Returns (k.readyToRun t) := by
  unfold readyToRun
  refine (assert_ends _).bind fun _ _ => (assert_ends _).bind fun _ _ => .ok ?_
  exact (k.setStatus_stays t .ready nofun).trans (.of_fields rfl rfl rfl)

theorem findNextToRun_returns (k : Kernel c) : Ends (fun r : Option Tid × Kernel c => Stays k r.2) (fun _ => True) k.findNextToRun := by
  unfold findNextToRun
  refine (assert_ends _).bind ?_
  intro _ _
  split
  · exact .ok (.refl k)
  · exact .ok (.of_fields rfl rfl rfl)

/-- `Scheduler::Run` leaves its rest behind. -/
theorem run_goes (k : Kernel c) (n : Tid) (finishing : Bool) : Ends (Goes k) (fun _ => True) (k.run n finishing) := by
  have hswitch (k' : Kernel c) (hst : k'.stack = k.stack) (hts : k'.threadStatus = k.threadStatus) :
      Goes k (({ k'.setStack k.currentThread (.runTail :: k'.stack k.currentThread) with currentThread := n }.setStatus n
        .running).record (.dispatched n)) := by
    refine ⟨⟨fun t ht _ => Or.inl ?_, ?_⟩, Or.inr (inRun_of (Function.update_self _ _ _))⟩
    · exact (Function.update_of_ne ht _ _).trans (by rw [hst])
    · intro t h
      change Function.update k'.threadStatus n .running t ≠ .justCreated
      by_cases ht : t = n
      · rw [ht, Function.update_self]
        exact nofun
      · rw [Function.update_of_ne ht, hts]
        exact h
  unfold run
  refine (assert_ends _).bind ?_
  intro _ _
  dsimp only
  split
  · refine (assert_ends _).bind fun _ _ => .ok (hswitch { k with toBeDestroyed := some k.currentThread } rfl rfl)
  · exact .ok (hswitch k rfl rfl)

theorem checkToBeDestroyed_returns (k : Kernel c) : k.Returns k.checkToBeDestroyed := by
  unfold checkToBeDestroyed
  split
  · exact .ok (.refl k)
  · rename_i t _
    refine (assert_ends _).bind fun _ hne => .ok ⟨⟨?_, fun _ h => h⟩, rfl⟩
    intro t' _ _
    by_cases ht : t' = t
    · rw [ht]
      exact Or.inr (Function.update_self _ _ _)
    · exact Or.inl (Function.update_of_ne ht _ _)

theorem semaphoreV_returns (k : Kernel c) (s : SemId) :
    Ends (fun r : IntStatus × Kernel c => Stays k r.2) (fun _ => True) (k.semaphoreV s) := by
  unfold semaphoreV
  split
  · exact .error trivial
  · dsimp only
    split
    · exact .ok (.of_fields rfl rfl rfl)
    · refine Ends.bind ((k.changeLevel .off).readyToRun_returns _) fun k₁ h => .ok ?_
      exact h.congr rfl rfl rfl rfl rfl rfl

/-! ## Thread and Semaphore -/

/-- A function of the kernel, or one that ends in `Scheduler::Run`. -/
abbrev Proceeds (k : Kernel c) (x : Except Fault (Kernel c)) : Prop := Ends (Goes k) (fun _ => True) x

theorem Returns.proceeds {x : Except Fault (Kernel c)} (h : k.Returns x) : k.Proceeds x := h.mono (fun _ h => h.goes) fun _ h => h

theorem Stays.proceeds {k' : Kernel c} (h : Stays k k') {x : Except Fault (Kernel c)} (hx : Proceeds k' x) : k.Proceeds x :=
  hx.mono (fun _ h' => h.then_goes h') fun _ h => h

theorem Stays.returns {k' : Kernel c} (h : Stays k k') {x : Except Fault (Kernel c)} (hx : Returns k' x) : k.Returns x :=
  hx.mono (fun _ h' => h.trans h') fun _ h => h

/-- A function called in a state that differs in fields that do not matter here. -/
theorem Returns.congr {k' : Kernel c} {x : Except Fault (Kernel c)} (hx : Returns k' x) (hst : k'.stack = k.stack)
    (hts : k'.threadStatus = k.threadStatus) (hc : k'.currentThread = k.currentThread) : k.Returns x :=
  (Stays.of_fields hst hts hc).returns hx

theorem Proceeds.congr {k' : Kernel c} {x : Except Fault (Kernel c)} (hx : Proceeds k' x) (hst : k'.stack = k.stack)
    (hts : k'.threadStatus = k.threadStatus) (hc : k'.currentThread = k.currentThread) : k.Proceeds x :=
  (Stays.of_fields hst hts hc).proceeds hx

theorem yield_proceeds (k : Kernel c) : k.Proceeds k.yield := by
  unfold yield
  refine Ends.bind (k.changeLevel .off).findNextToRun_returns ?_
  intro r h
  obtain ⟨nextThread, k₁⟩ := r
  have hpush : Stays k (k₁.push (.setLevel k.level)) := ((k.changeLevel_stays .off).trans h).trans (push_stays _ _)
  cases nextThread with
  | none => exact .ok hpush.goes
  | some n => exact hpush.proceeds (Ends.bind (readyToRun_returns _ _) fun k₂ h => h.proceeds (run_goes k₂ n false))

theorem sleep_returns (k : Kernel c) (finishing : Bool) : k.Returns (k.sleep finishing) := by
  unfold sleep
  exact (assert_ends _).bind fun _ _ => .ok ((k.setStatus_stays _ .blocked nofun).trans (push_stays _ _))

/-- `Fork` changes the stack of a new thread only. -/
theorem fork_returns (k : Kernel c) {t : Tid} (ht : k.threadStatus t = .justCreated) (func : c.Pc) : k.Returns (k.fork t func) := by
  have hstack : Stays k (((k.setStack t [.begin, .code func]).record (.forked t)).changeLevel .off) := by
    refine ⟨⟨fun t' _ hts => Or.inl (Function.update_of_ne ?_ _ _), fun _ h => h⟩, rfl⟩
    rintro rfl
    exact hts ht
  unfold fork
  exact hstack.returns (Ends.bind (readyToRun_returns _ _) fun k₁ h => .ok (h.trans (push_stays _ _)))

theorem begin_returns (k : Kernel c) : k.Returns k.begin := by
  unfold begin
  exact Ends.bind k.checkToBeDestroyed_returns fun k₁ h => .ok (h.trans (push_stays _ _))

theorem finish_returns (k : Kernel c) : k.Returns k.finish := by
  unfold finish
  refine (k.changeLevel_stays .off).returns ((setCurrentStack_stays _ []).returns ?_)
  exact (sleep_returns _ true).congr rfl rfl rfl

theorem runTail_returns (k : Kernel c) : k.Returns k.runTail := by
  unfold runTail
  exact (assert_ends _).bind fun _ _ => k.checkToBeDestroyed_returns

theorem semaphorePLoop_returns (k : Kernel c) (s : SemId) (oldLevel : IntStatus) : k.Returns (k.semaphorePLoop s oldLevel) := by
  unfold semaphorePLoop
  split
  · exact .error trivial
  · split
    · refine (assert_ends _).bind ?_
      intro _ _
      exact (((push_stays _ _).returns (sleep_returns _ _))).congr rfl rfl rfl
    · exact .ok ((push_stays _ _).congr rfl rfl rfl rfl rfl rfl)

/-! ## Interrupts -/

theorem handlerV_returns (k : Kernel c) (s : SemId) : k.Returns (k.handlerV s) := by
  unfold handlerV
  exact Ends.bind (k.semaphoreV_returns s) fun r h => (assert_ends _).bind fun _ _ => .ok (h.trans (.of_fields rfl rfl rfl))

theorem foldlM_returns {α : Type} {body : Kernel c → α → Except Fault (Kernel c)} (h : ∀ k a, Returns k (body k a)) (l : List α) :
    k.Returns (l.foldlM body k) :=
  Ends.foldlM (fun k' a hk' => hk'.returns (h k' a)) l (.refl k)

theorem callBack_returns (k : Kernel c) (h : Handler c) : k.Returns (k.callBack h) := by
  unfold callBack
  cases h with
  | timer =>
    dsimp only
    split
    · exact (assert_ends _).bind fun _ _ => .ok (.of_fields rfl rfl rfl)
    · exact .ok (.refl k)
  | device d => exact (foldlM_returns handlerV_returns _).congr rfl rfl rfl

theorem checkIfDue_returns (k : Kernel c) (due : List (Handler c)) :
    Ends (fun r : Bool × Kernel c => Stays k r.2) (fun _ => True) (k.checkIfDue due) := by
  unfold checkIfDue
  refine (assert_ends _).bind ?_
  intro _ _
  split
  · exact .ok (.refl k)
  · refine Ends.bind (foldlM_returns (k := { k with inHandler := true }) callBack_returns due) fun k₁ h => .ok ?_
    exact h.congr rfl rfl rfl rfl rfl rfl

theorem oneTick_proceeds (k : Kernel c) (due : List (Handler c)) : k.Proceeds (k.oneTick due) := by
  unfold oneTick
  refine Ends.bind (checkIfDue_returns ({ k with stats := k.stats.tick k.status }.changeLevel .off) due) ?_
  intro r h
  have hstays : Stays k (r.2.changeLevel .on) := h.congr rfl rfl rfl rfl rfl rfl
  dsimp only
  split
  · exact hstays.proceeds (((push_stays _ _).proceeds (yield_proceeds _)).congr rfl rfl rfl)
  · exact .ok hstays.goes

theorem setLevel_proceeds (k : Kernel c) (now : IntStatus) (due : List (Handler c)) : k.Proceeds (k.setLevel now due) := by
  have hstays : Stays k (k.changeLevel now) := .of_fields rfl rfl rfl
  unfold setLevel
  refine (assert_ends _).bind ?_
  intro _ _
  dsimp only
  split
  · exact hstays.proceeds (oneTick_proceeds _ _)
  · exact .ok hstays.goes

theorem idle_returns (k : Kernel c) (due : List (Handler c)) (when : Int) : k.Returns (k.idle due when) := by
  unfold idle
  refine Ends.bind (checkIfDue_returns { k with status := .idle, stats := if due.isEmpty then k.stats else k.stats.advance when } due)
    ?_
  intro r h
  dsimp only
  split
  · exact .ok (h.congr rfl rfl rfl rfl rfl rfl)
  · exact .error trivial

theorem sleepLoop_proceeds (k : Kernel c) (finishing : Bool) (rest : List (Frame c.Pc)) (due : List (Handler c)) (when : Int) :
    k.Proceeds (k.sleepLoop finishing rest due when) := by
  unfold sleepLoop
  refine Ends.bind k.findNextToRun_returns ?_
  intro r h
  obtain ⟨nextThread, k₁⟩ := r
  cases nextThread with
  | none => exact h.proceeds (idle_returns _ _ _).proceeds
  | some n => exact (h.trans (setCurrentStack_stays _ _)).proceeds (run_goes _ _ _)

/-! ## Steps -/

theorem call_proceeds (k : Kernel c) (due : List (Handler c)) {a : Call c.Pc} (h : k.Allowed a) : k.Proceeds (k.call due a) := by
  unfold call
  cases a with
  | none => exact .ok (Stays.refl k).goes
  | p s => exact ((k.changeLevel .off).semaphorePLoop_returns s k.level).proceeds.congr rfl rfl rfl
  | v s => exact Ends.bind (k.semaphoreV_returns s) fun r h => .ok (h.trans (push_stays _ _)).goes
  | yield => exact k.yield_proceeds
  | fork t pc => exact (k.fork_returns h pc).proceeds
  | finish => exact k.finish_returns.proceeds
  | newSemaphore s v => exact .ok (.of_fields rfl rfl rfl)
  | deleteSemaphore s => exact .ok (.of_fields rfl rfl rfl)
  | setStatus st => exact .ok (.of_fields rfl rfl rfl)
  | setLevel now => exact k.setLevel_proceeds now due
  | oneTick => exact k.oneTick_proceeds due

/-- The step lemma. -/
theorem step_goes {k' : Kernel c} {ch : Choice c} (hallowed : k.AllowedStep ch) (h : k.step ch = .ok k') : Goes k k' := by
  refine Ends.of_ok (E := fun _ => True) ?_ h
  unfold step
  split
  · exact .error trivial
  · rename_i pc rest hst
    cases hcode : c.code k.currentThread k.shared pc ch.input with
    | error e => exact .error trivial
    | ok r =>
      obtain ⟨shared, a, pc'⟩ := r
      have hnext : k.nextCall ch = some a := by
        unfold nextCall
        rw [hst]
        dsimp only
        rw [hcode]
      have ha : Allowed ({ k with shared }.setCurrentStack (.code pc' :: rest)) a := by
        have := hallowed a hnext
        cases a <;> exact this
      exact ((setCurrentStack_stays { k with shared } _).proceeds (call_proceeds _ _ ha)).congr rfl rfl rfl
  · exact (setCurrentStack_stays _ _).proceeds (setLevel_proceeds _ _ _)
  · refine .ok (Stays.goes ?_)
    exact (k.setCurrentStack_stays _).congr rfl rfl rfl rfl rfl rfl
  · exact (setCurrentStack_stays _ _).proceeds (runTail_returns _).proceeds
  · exact (setCurrentStack_stays _ _).proceeds (begin_returns _).proceeds
  · exact sleepLoop_proceeds _ _ _ _ _
  · exact (setCurrentStack_stays _ _).proceeds (semaphorePLoop_returns _ _ _).proceeds

end Kernel

end Nachos
