import Nachos.Threads.Switch

/-!
# What each function of the kernel does

One specification for each function: from a state with the invariants it ends in a state with the invariants, or stops the machine
for a reason of its client; and what it does to the threads, the semaphores and the shared memory is a sequence of steps of
Abstract.
-/

namespace Nachos

open Loop

variable {c : Client}

/-- The frames of a thread in the loop of `Sleep`. -/
theorem Placed.sleeping {Pc : Type} {l : Loc} {ts : ThreadStatus} {fin : Bool} {rest : List (Frame Pc)}
    (h : Placed true l ts (.sleep fin :: rest)) :
    (∃ s old st, fin = false ∧ rest = .semaphoreP s old :: st ∧ Placed false l ts (.runTail :: rest)) ∨
      fin = true ∧ rest = [] ∧ l = .nowhere ∧ ts = .blocked := by
  cases h with
  | user h => cases h
  | dispatched h => cases h
  | asleep s h => exact Or.inl ⟨s, _, _, rfl, rfl, .waiting (.inP s h)⟩
  | awake s h => exact Or.inl ⟨s, _, _, rfl, rfl, .ready (.inP s h)⟩
  | finishing => exact Or.inr ⟨rfl, rfl, rfl, rfl⟩

namespace Kernel

variable {k : Kernel c} {loc : Tid → Loc}

/-! ## Interrupts -/

/-- What the handlers leave is a state in client code, when the interrupted one was. -/
theorem Running.served (hR : Running k) {k' : Kernel c} (hC : Calm k') (hS : Served k k') : Running k' := by
  refine ⟨hC, ?_, hS.inHandler.trans hR.inHandler⟩
  rw [hS.stack, hS.currentThread]
  exact hR.base

theorem Running.push_restoreStatus (hR : Running k) (m : MachineStatus) : Running (k.push (.restoreStatus m)) :=
  hR.toCalm.running hR.inHandler (.restore m hR.base) (fun _ _ hp => (hp.of_base hR.base).2) hR.base.alive

/-- `Interrupt::OneTick`. -/
theorem oneTick_ends (hR : Running k) (due : List (Handler c)) :
    Ends (fun k' => Good k' ∧ k.abs.Handled k'.abs) (Stops k.abs) (k.oneTick due) := by
  have hR' : Running ({ k with stats := k.stats.tick k.status }.changeLevel .off) := hR.congr rfl rfl rfl rfl rfl rfl rfl rfl
  unfold oneTick
  dsimp only
  refine (checkIfDue_ends hR'.toCalm rfl hR.inHandler due).bind ?_
  rintro ⟨fired, k₁⟩ ⟨hC, hS, hsteps⟩
  dsimp only at hC hS hsteps ⊢
  have hR₁ : Running (k₁.changeLevel .on) := (hR'.served hC hS).congr rfl rfl rfl rfl rfl rfl rfl rfl
  split
  · have hR₂ : Running { k₁.changeLevel .on with yieldOnReturn := false, status := .system } :=
      hR₁.congr rfl rfl rfl rfl rfl rfl rfl rfl
    have hR₃ := hR₂.push_restoreStatus k.status
    obtain ⟨k', hk', hgood, habs⟩ := yield_of hR₃ hR₃.base.at_on
    rw [hk']
    refine .ok ⟨hgood, ?_⟩
    have hpush : ({ k₁.changeLevel .on with yieldOnReturn := false, status := .system }.push (.restoreStatus k.status)).abs =
        k₁.abs := setStack_abs_of _ rfl
    rw [habs, hpush]
    exact hsteps
  · exact .ok ⟨hR₁.good hR₁.base.at_on, hsteps⟩

/-- `Interrupt::SetLevel`. -/
theorem setLevel_ends (hR : Running k) {now : IntStatus} (hb : BaseAt now (k.stack k.currentThread)) (due : List (Handler c)) :
    Ends (fun k' => Good k' ∧ k.abs.Handled k'.abs) (Stops k.abs) (k.setLevel now due) := by
  have hR' : Running (k.changeLevel now) := hR.congr rfl rfl rfl rfl rfl rfl rfl rfl
  unfold setLevel
  dsimp only
  rw [assert_of (Or.inr hR.inHandler), ok_bind]
  split
  · exact oneTick_ends hR' due
  · exact .ok ⟨hR'.good hb, .refl⟩

/-- `Interrupt::Idle`, while the thread that sleeps keeps the processor. -/
theorem idle_ends (hC : Calm k) (hl : k.level = .off) (hi : k.inHandler = false) (hb : ¬Base (k.stack k.currentThread))
    (due : List (Handler c)) (when : Int) : Ends (fun k' => Good k' ∧ k.abs.Handled k'.abs) (Stops k.abs) (k.idle due when) := by
  have hC' : Calm { k with status := .idle, stats := if due.isEmpty then k.stats else k.stats.advance when } :=
    hC.congr rfl rfl rfl rfl rfl rfl rfl
  unfold idle
  refine Ends.bind (E := Stops k.abs) (checkIfDue_ends hC' hl hi due) ?_
  rintro ⟨fired, k₁⟩ ⟨hC₁, hS, hsteps⟩
  dsimp only at hC₁ hS hsteps ⊢
  split
  · have hC₂ : Calm { k₁ with status := .system } := hC₁.congr rfl rfl rfl rfl rfl rfl rfl
    refine .ok ⟨hC₂.good ⟨hS.inHandler.trans hi, ?_, fun _ => hS.level⟩, hsteps⟩
    intro h
    refine absurd ?_ hb
    rw [← hS.stack, ← hS.currentThread]
    exact h
  · exact .error (Or.inl rfl)

/-! ## The loop of Thread::Sleep -/

/-- The thread that sleeps keeps its place when it gives up the processor. -/
theorem Inv.release_here (hI : Inv k loc) (hd : k.toBeDestroyed = none) {st : List (Frame c.Pc)} (ha : Alive st)
    (hp : Placed false (loc k.currentThread) (k.threadStatus k.currentThread) st) : Released (k.setCurrentStack st) loc := by
  have hself : Function.update loc k.currentThread (loc k.currentThread) = loc := Function.update_eq_self _ _
  rw [← hself]
  refine hI.release ?_ ?_ (fun t ht => setCurrentStack_other k st ht) (fun _ _ => rfl) ?_
  · rw [hself]
    exact ⟨hI.ready_nodup, hI.ready_iff, hI.queue_nodup, hI.queue_iff⟩
  · rw [setCurrentStack_current]
    exact hp
  · intro t
    by_cases ht : t = k.currentThread
    · subst ht
      rw [setCurrentStack_current]
      refine iff_of_false ?_ ha.ne_carcass
      intro h
      cases hd.symm.trans h
    · rw [setCurrentStack_other k st ht]
      exact hI.carcass_iff t

/-- The thread that has finished waits to be deleted. -/
theorem Inv.release_finished (hI : Inv k loc) (hd : k.toBeDestroyed = none) (hloc : loc k.currentThread = .nowhere)
    (hts : k.threadStatus k.currentThread = .blocked) :
    Released (k.condemn.setCurrentStack [.runTail]) loc := by
  have hself : Function.update loc k.currentThread .nowhere = loc := by
    rw [← hloc]
    exact Function.update_eq_self _ _
  rw [← hself]
  refine hI.release ?_ ?_ (fun t ht => setCurrentStack_other k _ ht) (fun _ _ => rfl) ?_
  · rw [hself]
    exact ⟨hI.ready_nodup, hI.ready_iff, hI.queue_nodup, hI.queue_iff⟩
  · have hst : (k.condemn.setCurrentStack [.runTail]).stack k.currentThread = [.runTail] :=
      setCurrentStack_current k _
    rw [hst]
    show Placed false .nowhere (k.threadStatus k.currentThread) [.runTail]
    rw [hts]
    exact .carcass
  · intro t
    show some k.currentThread = some t ↔ (k.setCurrentStack [.runTail]).stack t = _
    by_cases ht : t = k.currentThread
    · subst ht
      rw [setCurrentStack_current]
      exact iff_of_true rfl rfl
    · rw [setCurrentStack_other k _ ht, ← hI.carcass_iff, hd]
      exact iff_of_false (fun h => ht (Option.some.inj h).symm) (fun h => by cases h)

/-- A thread that has finished is recorded as such while it is still there. -/
theorem Recorded.finished_of (hH : Recorded k) {t : Tid} (h : k.stack t = [.sleep true]) : .finished t ∈ k.history := by
  by_contra hf
  have ha := hH.alive t (hH.started t (by rw [h]; exact fun h => by cases h)) hf
  exact ha.ne_finishing h

/-- The loop of `Thread::Sleep`. -/
theorem sleepLoop_ends (hC : Calm k) (hl : k.level = .off) (hi : k.inHandler = false) {fin : Bool} {rest : List (Frame c.Pc)}
    (hst : k.stack k.currentThread = .sleep fin :: rest) (due : List (Handler c)) (when : Int) :
    Ends (fun k' => Good k' ∧ k.abs.Handled k'.abs) (Stops k.abs) (k.sleepLoop fin rest due when) := by
  obtain ⟨loc, hI⟩ := hC.inv
  unfold sleepLoop
  cases hr : k.readyList with
  | nil =>
    rw [findNextToRun_nil hl hr, ok_bind]
    refine idle_ends hC hl hi ?_ due when
    rw [hst]
    exact fun h => by cases h
  | cons n r =>
    rw [findNextToRun_cons hl hr, ok_bind]
    dsimp only
    obtain ⟨k₁, hk₁⟩ : ∃ k₁, k₁ = { k with readyList := r } := ⟨_, rfl⟩
    rw [← hk₁]
    have hp := hI.placed_current
    rw [hst] at hp
    rcases hp.sleeping with ⟨s, old, st, rfl, rfl, hp'⟩ | ⟨rfl, rfl, hloc, hts⟩
    · rw [run_of (k := k₁.setCurrentStack _) (by subst hk₁; exact hl), setCurrentStack_push]
      have halive : Alive (.runTail :: .semaphoreP s old :: st) := ⟨by simp, by simp, by simp⟩
      have hrel := hI.release_here hC.toBeDestroyed halive hp'
      have hrec : Recorded (k.setCurrentStack (.runTail :: .semaphoreP s old :: st)) :=
        hC.recorded.setStack (by rw [hst]; exact ⟨by simp, by simp, by simp⟩) halive
      have hgood := hrel.good hrec (fun t ht => by cases hC.toBeDestroyed.symm.trans ht) hl hi hr
      subst hk₁
      refine .ok ⟨hgood, ?_⟩
      have habs : (k.setCurrentStack (.runTail :: .semaphoreP s old :: st)).abs = k.abs := setStack_abs_of k (by rw [hst]; rfl)
      exact Abs.Handled.of_eq habs
    · rw [run_finishing_of (k := k₁.setCurrentStack _) (by subst hk₁; exact hl) (by subst hk₁; exact hC.toBeDestroyed)]
      have hpush : (k₁.setCurrentStack []).condemn.push .runTail = k₁.condemn.setCurrentStack [.runTail] :=
        setCurrentStack_push k₁.condemn [] .runTail
      have hrel := hI.release_finished hC.toBeDestroyed hloc hts
      have hrec : Recorded (k.setCurrentStack [.runTail]) := by
        refine hC.recorded.setStack_of ?_ ?_
        · rw [hst]
          exact iff_of_false (fun h => h.ne_carcass rfl) (fun h => h.ne_finishing rfl)
        · rw [hst]
          exact iff_of_false (by simp) (by simp)
      have hrec' : Recorded (k.condemn.setCurrentStack [.runTail]) :=
        hrec.congr rfl rfl rfl (fun _ => Iff.rfl) (fun _ => Iff.rfl) (fun _ _ => rfl)
      have hgood := hrel.good hrec' (fun t ht => by
        obtain rfl := Option.some.inj ht
        exact hC.recorded.finished_of hst) hl hi hr
      have habs : (k.setCurrentStack [.runTail]).abs = k.abs := setStack_abs_of k (by rw [hst]; rfl)
      rw [hpush]
      subst hk₁
      exact .ok ⟨hgood, Abs.Handled.of_eq habs⟩

/-! ## Moving the current thread -/

/-- `Thread::Sleep` up to its loop. -/
theorem sleep_of (hl : k.level = .off) (fin : Bool) :
    k.sleep fin = .ok ((k.setStatus k.currentThread .blocked).push (.sleep fin)) := by
  unfold sleep
  rw [assert_of hl, ok_bind]
  rfl

/-- The current thread changes its place and keeps the processor; the others are not touched. -/
theorem Inv.move (hI : Inv k loc) {k' : Kernel c} {l : Loc} (hL : Located k' (Function.update loc k.currentThread l))
    (hcur : k'.currentThread = k.currentThread) (hd : k'.toBeDestroyed = none) (hd₀ : k.toBeDestroyed = none)
    (hp : Placed true l (k'.threadStatus k.currentThread) (k'.stack k.currentThread))
    (hst : ∀ t, t ≠ k.currentThread → k'.stack t = k.stack t)
    (hts : ∀ t, t ≠ k.currentThread → k'.threadStatus t = k.threadStatus t) :
    Inv k' (Function.update loc k.currentThread l) := by
  refine ⟨hL, ?_, ?_, fun h => absurd hd h⟩
  · intro t
    rw [hcur]
    by_cases ht : t = k.currentThread
    · subst ht
      rwa [Function.update_self, decide_eq_true rfl]
    · rw [Function.update_of_ne ht, hst t ht, hts t ht]
      exact hI.placed t
  · intro t
    rw [hd]
    by_cases ht : t = k.currentThread
    · subst ht
      exact iff_of_false (fun h => by cases h) hp.current.2
    · rw [hst t ht, ← hd₀]
      exact hI.carcass_iff t

/-! ## Semaphore::P -/

/-- The lists do not look at the value of a semaphore. -/
theorem Located.setSemaphore (hL : Located k loc) {s : SemId} {x y : Semaphore} (hs : k.semaphore s = some x)
    (hq : y.queue = x.queue) : Located (k.setSemaphore s (some y)) loc := by
  refine ⟨hL.ready_nodup, hL.ready_iff, ?_, ?_⟩
  · intro s' z hz
    rcases eq_or_ne s' s with rfl | hne
    · rw [setSemaphore_semaphore, Function.update_self] at hz
      obtain rfl := Option.some.inj hz
      rw [hq]
      exact hL.queue_nodup s' x hs
    · rw [setSemaphore_semaphore, Function.update_of_ne hne] at hz
      exact hL.queue_nodup s' z hz
  · intro s' t
    rw [hL.queue_iff, setSemaphore_semaphore]
    rcases eq_or_ne s' s with rfl | hne
    · rw [Function.update_self, hs]
      constructor
      · rintro ⟨z, hz, ht⟩
        obtain rfl := Option.some.inj hz
        exact ⟨y, rfl, by rwa [hq]⟩
      · rintro ⟨z, hz, ht⟩
        obtain rfl := Option.some.inj hz
        exact ⟨x, rfl, by rwa [hq] at ht⟩
    · rw [Function.update_of_ne hne]

/-- A thread that was nowhere is put at the end of a queue. -/
theorem Located.enqueue (hL : Located k loc) {s : SemId} {x : Semaphore} (hs : k.semaphore s = some x) {t : Tid}
    (ht : loc t = .nowhere) : Located (k.setSemaphore s (some (x.enqueue t))) (Function.update loc t (.queue s)) := by
  have hnot : ∀ s' y, k.semaphore s' = some y → t ∉ y.queue := by
    intro s' y hy hmem
    have := (hL.queue_iff s' t).2 ⟨y, hy, hmem⟩
    rw [ht] at this
    cases this
  refine ⟨hL.ready_nodup, ?_, ?_, ?_⟩
  · intro t'
    show t' ∈ k.readyList ↔ _
    rcases eq_or_ne t' t with rfl | hne
    · rw [Function.update_self, hL.ready_iff, ht]
      exact iff_of_false (fun h => by cases h) (fun h => by cases h)
    · rw [Function.update_of_ne hne, hL.ready_iff]
  · intro s' z hz
    rcases eq_or_ne s' s with rfl | hne
    · rw [setSemaphore_semaphore, Function.update_self] at hz
      obtain rfl := Option.some.inj hz
      refine List.nodup_append.2 ⟨hL.queue_nodup s' x hs, List.nodup_singleton t, ?_⟩
      intro a ha b hb
      rintro rfl
      exact hnot s' x hs (List.mem_singleton.1 hb ▸ ha)
    · rw [setSemaphore_semaphore, Function.update_of_ne hne] at hz
      exact hL.queue_nodup s' z hz
  · intro s' t'
    rw [setSemaphore_semaphore]
    rcases eq_or_ne t' t with rfl | hne
    · rw [Function.update_self]
      rcases eq_or_ne s' s with rfl | hne'
      · rw [Function.update_self]
        exact iff_of_true rfl ⟨_, rfl, List.mem_append_right _ (List.mem_singleton_self _)⟩
      · rw [Function.update_of_ne hne']
        refine iff_of_false (fun h => hne' (Loc.queue.inj h).symm) ?_
        rintro ⟨y, hy, hmem⟩
        exact hnot s' y hy hmem
    · rw [Function.update_of_ne hne, hL.queue_iff]
      rcases eq_or_ne s' s with rfl | hne'
      · rw [Function.update_self, hs]
        constructor
        · rintro ⟨y, hy, hmem⟩
          obtain rfl := Option.some.inj hy
          exact ⟨_, rfl, List.mem_append_left _ hmem⟩
        · rintro ⟨y, hy, hmem⟩
          obtain rfl := Option.some.inj hy
          exact ⟨x, rfl, (List.mem_append.1 hmem).resolve_right (fun h => hne (List.mem_singleton.1 h))⟩
      · rw [Function.update_of_ne hne']

/-- The current thread takes the value. -/
theorem Running.setSemaphore (hR : Running k) {s : SemId} {x y : Semaphore} (hs : k.semaphore s = some x)
    (hq : y.queue = x.queue) : Running (k.setSemaphore s (some y)) := by
  obtain ⟨loc, hI⟩ := hR.inv
  refine ⟨⟨⟨loc, hI.toLocated.setSemaphore hs hq, hI.placed, hI.carcass_iff, hI.carcass_parked⟩, ?_, hR.toBeDestroyed⟩,
    hR.base, hR.inHandler⟩
  exact hR.recorded.congr rfl rfl rfl (fun _ => Iff.rfl) (fun _ => Iff.rfl) (fun _ _ => rfl)

/-- The state of a thread that has gone to sleep in `P`. -/
def asleepOn (k : Kernel c) (s : SemId) (old : IntStatus) (x : Semaphore) : Kernel c :=
  (((k.setSemaphore s (some (x.enqueue k.currentThread))).push (.semaphoreP s old)).setStatus k.currentThread .blocked).push
    (.sleep false)

theorem asleepOn_stack (k : Kernel c) (s : SemId) (old : IntStatus) (x : Semaphore) : (k.asleepOn s old x).stack =
    Function.update k.stack k.currentThread (.sleep false :: .semaphoreP s old :: k.stack k.currentThread) := by
  have := setCurrentStack_push (k.setSemaphore s (some (x.enqueue k.currentThread)))
    (.semaphoreP s old :: k.stack k.currentThread) (.sleep false)
  exact congrArg stack this

theorem asleepOn_good (hR : Running k) (hl : k.level = .off) {old : IntStatus} (hb : BaseAt old (k.stack k.currentThread))
    {s : SemId} {x : Semaphore} (hs : k.semaphore s = some x) : Good (k.asleepOn s old x) := by
  obtain ⟨loc, hI⟩ := hR.inv
  obtain ⟨-, hloc, -⟩ := hI.placed_current.of_base hR.base
  have hst := asleepOn_stack k s old x
  have hts : (k.asleepOn s old x).threadStatus = Function.update k.threadStatus k.currentThread .blocked := rfl
  have hself : (k.asleepOn s old x).stack k.currentThread = .sleep false :: .semaphoreP s old :: k.stack k.currentThread := by
    rw [hst, Function.update_self]
  have hL : Located (k.asleepOn s old x) (Function.update loc k.currentThread (.queue s)) := by
    have := hI.toLocated.enqueue hs hloc
    exact ⟨this.ready_nodup, this.ready_iff, this.queue_nodup, this.queue_iff⟩
  have hI' : Inv (k.asleepOn s old x) (Function.update loc k.currentThread (.queue s)) := by
    refine hI.move hL rfl hR.toBeDestroyed hR.toBeDestroyed ?_ ?_ ?_
    · rw [hself, hts, Function.update_self]
      exact .asleep s hb
    · intro t ht
      rw [hst, Function.update_of_ne ht]
    · intro t ht
      rw [hts, Function.update_of_ne ht]
  have hrec : Recorded (k.asleepOn s old x) := by
    refine hR.recorded.congr rfl rfl rfl ?_ ?_ ?_
    · intro t
      rw [hst]
      by_cases ht : t = k.currentThread
      · subst ht
        rw [Function.update_self]
        exact iff_of_true ⟨by simp, by simp, by simp⟩ hR.base.alive
      · rw [Function.update_of_ne ht]
    · intro t
      rw [hst]
      by_cases ht : t = k.currentThread
      · subst ht
        rw [Function.update_self]
        exact iff_of_false (by simp) hR.base.alive.ne_nil
      · rw [Function.update_of_ne ht]
    · intro t ht
      rw [hts, Function.update_of_ne]
      rintro rfl
      exact ht hR.base.alive
  refine Calm.good ⟨⟨_, hI'⟩, hrec, hR.toBeDestroyed⟩ ⟨hR.inHandler, ?_, fun _ => hl⟩
  intro h
  have hb : Base ((k.asleepOn s old x).stack k.currentThread) := h
  rw [hself] at hb
  cases hb

theorem asleepOn_abs (k : Kernel c) (s : SemId) (old : IntStatus) (x : Semaphore) {pc : c.Pc}
    (hpc : ctl (k.stack k.currentThread) = .run pc) :
    (k.asleepOn s old x).abs = (k.abs.setCtl k.currentThread (.inP s pc)).setSemaphore s (some (x.enqueue k.currentThread)) := by
  have h : (k.asleepOn s old x).abs = ((k.setSemaphore s (some (x.enqueue k.currentThread))).setCurrentStack
      (.sleep false :: .semaphoreP s old :: k.stack k.currentThread)).abs := by
    unfold abs
    rw [asleepOn_stack]
    rfl
  have hctl : ctl (.sleep false :: .semaphoreP s old :: k.stack k.currentThread) = .inP s pc := by
    simp only [ctl, hpc]
  rw [h, setCurrentStack, setStack_abs, hctl]
  rfl

/-- What one round of the loop of `P` does, by thread `t` that is at `pc`. -/
inductive Tested (t : Tid) (s : SemId) (pc : c.Pc) (x : Semaphore) (a : Abs c) : Abs c → Prop where
  | take (h : x.value ≠ 0) : Tested t s pc x a (a.setSemaphore s (some x.take))
  | sleep (h : x.value = 0) : Tested t s pc x a ((a.setCtl t (.inP s pc)).setSemaphore s (some (x.enqueue t)))

/-- One round of the loop of `Semaphore::P`. -/
theorem semaphorePLoop_ends (hR : Running k) (hl : k.level = .off) (s : SemId) {old : IntStatus}
    (hb : BaseAt old (k.stack k.currentThread)) {pc : c.Pc} (hpc : ctl (k.stack k.currentThread) = .run pc) :
    Ends (fun k' => Good k' ∧ ∃ x, k.semaphore s = some x ∧ k.currentThread ∉ x.queue ∧ Tested k.currentThread s pc x k.abs k'.abs)
      (fun e => e = .nullDereference ∧ k.semaphore s = none) (k.semaphorePLoop s old) := by
  obtain ⟨loc, hI⟩ := hR.inv
  obtain ⟨-, hloc, -⟩ := hI.placed_current.of_base hR.base
  unfold semaphorePLoop
  cases hs : k.semaphore s with
  | none => exact .error ⟨rfl, rfl⟩
  | some x =>
    have hq : k.currentThread ∉ x.queue := by
      intro h
      have := (hI.queued hs h).1
      rw [hloc] at this
      cases this
    dsimp only
    split
    · rename_i hv
      rw [assert_of hq, ok_bind, sleep_of (by exact hl)]
      have htested : Tested k.currentThread s pc x k.abs (k.asleepOn s old x).abs := by
        rw [asleepOn_abs k s old x hpc]
        exact .sleep hv
      exact .ok ⟨asleepOn_good hR hl hb hs, x, rfl, hq, htested⟩
    · rename_i hv
      have hR' : Running (k.setSemaphore s (some x.take)) := hR.setSemaphore hs rfl
      have htested : Tested k.currentThread s pc x k.abs ((k.setSemaphore s (some x.take)).push (.setLevel old)).abs := by
        rw [push_setLevel_abs]
        exact .take hv
      exact .ok ⟨hR'.push_setLevel hl hb, x, rfl, hq, htested⟩

/-! ## Deleting a thread -/

theorem Placed.of_carcass {Pc : Type} {l : Loc} {ts : ThreadStatus} (h : Placed false l ts ([.runTail] : List (Frame Pc))) :
    l = .nowhere ∧ ts = .blocked := by
  cases h with
  | ready h => cases h
  | waiting h => cases h
  | carcass => exact ⟨rfl, rfl⟩

/-- The state after `Scheduler::CheckToBeDestroyed`, when thread `t` is deleted. -/
def reap (k : Kernel c) (t : Tid) : Kernel c := ({ k with toBeDestroyed := none }.setStack t []).record (.deleted t)

theorem Inv.reap (hI : Inv k loc) {t : Tid} (ht : k.toBeDestroyed = some t) (hne : t ≠ k.currentThread) : Inv (k.reap t) loc := by
  have hst : k.stack t = [.runTail] := (hI.carcass_iff t).1 ht
  have hp := hI.placed_other hne
  rw [hst] at hp
  obtain ⟨hloc, hts⟩ := Placed.of_carcass hp
  refine ⟨⟨hI.ready_nodup, hI.ready_iff, hI.queue_nodup, hI.queue_iff⟩, ?_, ?_, fun h => absurd rfl h⟩
  · intro t'
    show Placed (decide (t' = k.currentThread)) (loc t') (k.threadStatus t') (Function.update k.stack t [] t')
    rcases eq_or_ne t' t with rfl | hne'
    · rw [Function.update_self, decide_eq_false hne, hloc]
      exact .absent _
    · rw [Function.update_of_ne hne']
      exact hI.placed t'
  · intro t'
    show none = some t' ↔ Function.update k.stack t [] t' = [.runTail]
    rcases eq_or_ne t' t with rfl | hne'
    · rw [Function.update_self]
      exact iff_of_false (fun h => by cases h) (fun h => by cases h)
    · rw [Function.update_of_ne hne', ← hI.carcass_iff, ht]
      exact iff_of_false (fun h => by cases h) (fun h => hne' (Option.some.inj h).symm)

theorem History.reap (hH : History k) {t : Tid} (ht : k.toBeDestroyed = some t) (hst : k.stack t = [.runTail])
    (hne : t ≠ k.currentThread) : Recorded (k.reap t) := by
  obtain ⟨old, hold, hfin⟩ := hH.carcass t ht
  have hfin' : .finished t ∈ k.history := by rw [hold]; exact List.mem_cons_of_mem _ hfin
  have hnot : .deleted t ∉ k.history := by
    intro h
    have := (hH.absent t h).1
    rw [hst] at this
    cases this
  have hstack : (k.reap t).stack = Function.update k.stack t [] := rfl
  have hmem : ∀ {e : Event}, (∀ t', e ≠ .deleted t') → e ∈ (k.reap t).history → e ∈ k.history :=
    fun he h => (List.mem_cons.1 h).resolve_left (he t)
  refine ⟨hH.order, hH.current, ?_, ?_, ?_, ?_, ?_, ?_, ?_⟩
  · intro t' h
    rcases eq_or_ne t' t with rfl | hne'
    · exact absurd (by rw [hstack, Function.update_self]) h
    · rw [hstack, Function.update_of_ne hne'] at h
      exact (hH.started t' h).cons rfl
  · intro t' hs hf
    have hne' : t' ≠ t := by
      rintro rfl
      exact hf (List.mem_cons_of_mem _ hfin')
    rw [hstack, Function.update_of_ne hne']
    refine hH.alive t' ?_ (fun h => hf (List.mem_cons_of_mem _ h))
    exact hs.imp id (hmem (fun _ h => by cases h))
  · intro t' hf
    obtain ⟨h1, h2⟩ := hH.finished t' (hmem (fun _ h => by cases h) hf)
    refine ⟨?_, h2⟩
    rcases eq_or_ne t' t with rfl | hne'
    · rw [hstack, Function.update_self]
      exact fun h => h.ne_nil rfl
    · rwa [hstack, Function.update_of_ne hne']
  · intro t' hf hn
    rcases eq_or_ne t' t with rfl | hne'
    · exact List.mem_cons_self
    · rw [hstack, Function.update_of_ne hne'] at hn
      exact List.mem_cons_of_mem _ (hH.deleted t' (hmem (fun _ h => by cases h) hf) hn)
  · intro t' hd
    rcases List.mem_cons.1 hd with h | h
    · obtain rfl := Event.deleted.inj h
      exact ⟨by rw [hstack, Function.update_self], List.mem_cons_of_mem _ hfin'⟩
    · obtain ⟨h1, h2⟩ := hH.absent t' h
      refine ⟨?_, List.mem_cons_of_mem _ h2⟩
      rcases eq_or_ne t' t with rfl | hne'
      · rw [hstack, Function.update_self]
      · rwa [hstack, Function.update_of_ne hne']
  · intro t'
    show (Event.deleted t :: k.history).count (.deleted t') ≤ 1
    rcases eq_or_ne t' t with rfl | hne'
    · rw [List.count_cons_self, List.count_eq_zero.2 hnot]
    · rw [List.count_cons_of_ne (fun h => hne' (Event.deleted.inj h).symm)]
      exact hH.once t'
  · intro new old' t' h
    cases new with
    | nil =>
      obtain ⟨hd, hh⟩ := List.cons.inj h
      obtain rfl := Event.deleted.inj hd
      exact ⟨k.currentThread, old, hne.symm, hh.symm.trans hold, hfin⟩
    | cons e new => exact hH.deleted_after new old' t' (List.cons.inj h).2

/-- `Scheduler::CheckToBeDestroyed`, called by the thread that runs now. -/
theorem checkToBeDestroyed_of (hG : Good k) {o : Option SemId} (hp : Parked o (k.stack k.currentThread)) {st : List (Frame c.Pc)}
    (hst : ∀ l ts, Placed true l ts (k.stack k.currentThread) → Placed true l ts st) (ha : Alive st) :
    ∃ k', (k.setCurrentStack st).checkToBeDestroyed = .ok k' ∧ Calm k' ∧ k'.stack k'.currentThread = st ∧
      k'.level = k.level ∧ k'.inHandler = k.inHandler ∧ k'.abs = (k.setCurrentStack st).abs := by
  obtain ⟨loc, hI⟩ := hG.inv
  unfold checkToBeDestroyed
  cases hd : k.toBeDestroyed with
  | none =>
    have hC : Calm k := ⟨hG.inv, hG.history.toRecorded, hd⟩
    have hd' : (k.setCurrentStack st).toBeDestroyed = none := hd
    rw [hd']
    exact ⟨_, rfl, hC.setCurrentStack hst hp.alive ha, setCurrentStack_current k st, rfl, rfl, rfl⟩
  | some t =>
    have hcar : k.stack t = [.runTail] := (hI.carcass_iff t).1 hd
    have hne : t ≠ k.currentThread := by
      rintro rfl
      exact hp.alive.ne_carcass hcar
    have hd' : (k.setCurrentStack st).toBeDestroyed = some t := hd
    have hcomm : (k.setCurrentStack st).reap t = (k.reap t).setCurrentStack st := by
      unfold reap setCurrentStack setStack record
      dsimp only
      rw [Function.update_comm hne.symm]
    have hcur : (k.reap t).stack k.currentThread = k.stack k.currentThread := Function.update_of_ne hne.symm _ _
    have hC : Calm (k.reap t) := ⟨⟨loc, hI.reap hd hne⟩, hG.history.reap hd hcar hne, rfl⟩
    have habs : (k.reap t).abs = k.abs := setStack_abs_of k (by rw [hcar]; rfl)
    rw [hd']
    dsimp only
    rw [assert_of (show t ≠ (k.setCurrentStack st).currentThread from hne), ok_bind]
    refine ⟨(k.reap t).setCurrentStack st, congrArg Except.ok hcomm, ?_, setCurrentStack_current _ st, rfl, rfl, ?_⟩
    · refine hC.setCurrentStack ?_ ?_ ha
      · intro l ts h
        exact hst l ts (by rwa [← hcur])
      · exact hcur ▸ hp.alive
    · rw [setCurrentStack, setCurrentStack, setStack_abs, setStack_abs, habs]
      rfl

end Kernel

end Nachos
