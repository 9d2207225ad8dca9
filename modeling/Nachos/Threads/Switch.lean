import Nachos.Threads.Handlers

/-!
# Context switches

A thread that gives up the processor goes through a state in which no thread has it (`Released`); from there the first thread of
the ready list is dispatched. This is one argument for a yield, for a thread that waits, for one that switches to itself in the
loop of `Sleep`, and for one that has finished.
-/

namespace Nachos

open Loop

variable {c : Client}

theorem Base.ctl_eq {Pc : Type} {st : List (Frame Pc)} (h : Base st) : ∃ pc, ctl st = .run pc := by
  induction h with
  | code pc => exact ⟨pc, rfl⟩
  | restore m h ih => exact ih

/-- A thread in client code is the current thread. -/
theorem Placed.of_base {Pc : Type} {b : Bool} {l : Loc} {ts : ThreadStatus} {st : List (Frame Pc)} (h : Placed b l ts st)
    (hb : Base st) : b = true ∧ l = .nowhere ∧ ts = .running := by
  cases h with
  | user h => exact ⟨rfl, rfl, rfl⟩
  | dispatched h => exact absurd h (hb.not_parked _)
  | ready h => exact absurd h (hb.not_parked _)
  | waiting h => exact absurd h (hb.not_parked _)
  | _ => cases hb

/-- A thread on the ready list that does not have the processor. -/
theorem Placed.parked {Pc : Type} {ts : ThreadStatus} {st : List (Frame Pc)} (h : Placed false .ready ts st) :
    ∃ o, Parked o st := by
  cases h with
  | ready h => exact ⟨_, h⟩

namespace Kernel

variable {k : Kernel c} {loc : Tid → Loc}

/-- The invariants hold between two steps. -/
structure Good (k : Kernel c) : Prop where
  inv : ∃ loc, Inv k loc
  history : History k
  settled : Settled k

/-- The current thread is in client code; interrupts can be disabled for a moment. -/
structure Running (k : Kernel c) : Prop extends Calm k where
  base : Base (k.stack k.currentThread)
  inHandler : k.inHandler = false

theorem Calm.good (hC : Calm k) (hS : Settled k) : Good k := ⟨hC.inv, hC.recorded.history hC.toBeDestroyed, hS⟩

theorem Good.calm (hG : Good k) (h : ∀ o, ¬Parked o (k.stack k.currentThread)) : Calm k := by
  obtain ⟨loc, hI⟩ := hG.inv
  exact ⟨hG.inv, hG.history.toRecorded, hI.no_carcass h⟩

theorem Running.good (hR : Running k) (hl : BaseAt k.level (k.stack k.currentThread)) : Good k :=
  hR.toCalm.good ⟨hR.inHandler, fun _ => hl, fun h => absurd hR.base h⟩

theorem Good.running (hG : Good k) (hb : Base (k.stack k.currentThread)) : Running k :=
  ⟨hG.calm fun o => hb.not_parked o, hb, hG.settled.inHandler⟩

/-- Nothing but the level, the flags, the status of the machine and the shared memory changes. -/
theorem Running.congr (hR : Running k) {k' : Kernel c} (hr : k'.readyList = k.readyList) (hs : k'.semaphore = k.semaphore)
    (hc : k'.currentThread = k.currentThread) (ht : k'.threadStatus = k.threadStatus) (hst : k'.stack = k.stack)
    (hd : k'.toBeDestroyed = k.toBeDestroyed) (hh : k'.history = k.history) (hi : k'.inHandler = k.inHandler) : Running k' :=
  ⟨hR.toCalm.congr hr hs hc ht hst hd hh, by rw [hst, hc]; exact hR.base, hi.trans hR.inHandler⟩

/-! ## The stack of the current thread -/

theorem setStack_setStack (k : Kernel c) (t : Tid) (st st' : List (Frame c.Pc)) :
    (k.setStack t st).setStack t st' = k.setStack t st' := by
  unfold setStack
  rw [Function.update_idem]

theorem setCurrentStack_current (k : Kernel c) (st : List (Frame c.Pc)) :
    (k.setCurrentStack st).stack k.currentThread = st := Function.update_self _ _ _

theorem setCurrentStack_other (k : Kernel c) (st : List (Frame c.Pc)) {t : Tid} (ht : t ≠ k.currentThread) :
    (k.setCurrentStack st).stack t = k.stack t := Function.update_of_ne ht _ _

/-- A push after a change of the stack. -/
theorem setCurrentStack_push (k : Kernel c) (st : List (Frame c.Pc)) (f : Frame c.Pc) :
    (k.setCurrentStack st).push f = k.setCurrentStack (f :: st) := by
  show (k.setStack k.currentThread st).setStack k.currentThread (f :: (k.setCurrentStack st).stack k.currentThread) = _
  rw [setCurrentStack_current, setStack_setStack]
  rfl

theorem setStack_abs (k : Kernel c) (t : Tid) (st : List (Frame c.Pc)) : (k.setStack t st).abs = k.abs.setCtl t (ctl st) := by
  unfold abs Abs.setCtl
  congr 1
  funext t'
  show ctl ((Function.update k.stack t st) t') = Function.update (fun t => ctl (k.stack t)) t (ctl st) t'
  exact Function.apply_update (fun _ => ctl) k.stack t st t'

/-- A change of the stack of a thread that does not change where it is. -/
theorem setStack_abs_of (k : Kernel c) {t : Tid} {st : List (Frame c.Pc)} (h : ctl st = ctl (k.stack t)) :
    (k.setStack t st).abs = k.abs := by
  rw [setStack_abs, h]
  unfold Abs.setCtl
  congr 1
  exact Function.update_eq_self t _

theorem push_setLevel_abs (k : Kernel c) (l : IntStatus) : (k.push (.setLevel l)).abs = k.abs := setStack_abs_of k rfl

/-- The stack of a thread changes, but not whether it is alive and there. -/
theorem Recorded.setStack_of (hH : Recorded k) {t : Tid} {st : List (Frame c.Pc)} (ha : Alive st ↔ Alive (k.stack t))
    (hn : st = [] ↔ k.stack t = []) : Recorded (k.setStack t st) := by
  refine hH.congr rfl rfl rfl ?_ ?_ (fun _ _ => rfl)
  · intro t'
    rcases eq_or_ne t' t with rfl | hne
    · rwa [setStack_stack, Function.update_self]
    · rw [setStack_stack, Function.update_of_ne hne]
  · intro t'
    rcases eq_or_ne t' t with rfl | hne
    · rwa [setStack_stack, Function.update_self]
    · rw [setStack_stack, Function.update_of_ne hne]

/-- The stack of a thread that is alive changes. -/
theorem Recorded.setStack (hH : Recorded k) {t : Tid} {st : List (Frame c.Pc)} (ha : Alive (k.stack t)) (ha' : Alive st) :
    Recorded (k.setStack t st) :=
  hH.setStack_of (iff_of_true ha' ha) (iff_of_false ha'.ne_nil ha.ne_nil)

/-- The stack of the current thread changes, at the same place. -/
theorem Calm.setCurrentStack (hC : Calm k) {st : List (Frame c.Pc)}
    (hp : ∀ l ts, Placed true l ts (k.stack k.currentThread) → Placed true l ts st) (ha : Alive (k.stack k.currentThread))
    (ha' : Alive st) : Calm (k.setCurrentStack st) := by
  obtain ⟨loc, hI⟩ := hC.inv
  exact ⟨⟨loc, hI.setCurrentStack hC.toBeDestroyed (hp _ _ hI.placed_current)⟩, hC.recorded.setStack ha ha', hC.toBeDestroyed⟩

/-- Client code makes a kernel call that has to set the level back. -/
theorem Running.push_setLevel (hR : Running k) (hl : k.level = .off) {now : IntStatus} (hb : BaseAt now (k.stack k.currentThread)) :
    Good (k.push (.setLevel now)) := by
  have hC : Calm (k.push (.setLevel now)) := by
    refine hR.toCalm.setCurrentStack ?_ hR.base.alive (hR.base.alive_cons _)
    intro l ts hp
    obtain ⟨-, rfl, rfl⟩ := hp.of_base hR.base
    exact .setLevel hb
  have hcur : (k.push (.setLevel now)).stack (k.push (.setLevel now)).currentThread = .setLevel now :: k.stack k.currentThread :=
    setCurrentStack_current k _
  refine hC.good ⟨hR.inHandler, ?_, fun _ => hl⟩
  intro h
  rw [hcur] at h
  cases h

/-- The current thread goes back to client code. -/
theorem Calm.running (hC : Calm k) (hi : k.inHandler = false) {st : List (Frame c.Pc)} (hb : Base st)
    (hp : ∀ l ts, Placed true l ts (k.stack k.currentThread) → l = .nowhere ∧ ts = .running)
    (ha : Alive (k.stack k.currentThread)) : Running (k.setCurrentStack st) := by
  refine ⟨hC.setCurrentStack ?_ ha hb.alive, ?_, hi⟩
  · intro l ts h
    obtain ⟨rfl, rfl⟩ := hp l ts h
    exact .user hb
  · show Base ((k.setCurrentStack st).stack k.currentThread)
    rw [setCurrentStack_current]
    exact hb

/-! ## Dispatching a thread -/

/-- No thread has the processor. -/
structure Released (k : Kernel c) (loc : Tid → Loc) : Prop extends Located k loc where
  placed : ∀ t, Placed false (loc t) (k.threadStatus t) (k.stack t)
  carcass_iff : ∀ t, k.toBeDestroyed = some t ↔ k.stack t = [.runTail]

/-- Thread `n` gets the processor, and `rest` is left of the ready list. -/
def dispatch (k : Kernel c) (n : Tid) (rest : List Tid) : Kernel c :=
  ({ k with currentThread := n, readyList := rest }.setStatus n .running).record (.dispatched n)

theorem findNextToRun_nil (hl : k.level = .off) (hr : k.readyList = []) : k.findNextToRun = .ok (none, k) := by
  unfold findNextToRun
  rw [assert_of hl, ok_bind, hr]
  rfl

theorem findNextToRun_cons (hl : k.level = .off) {n : Tid} {rest : List Tid} (hr : k.readyList = n :: rest) :
    k.findNextToRun = .ok (some n, { k with readyList := rest }) := by
  unfold findNextToRun
  rw [assert_of hl, ok_bind, hr]
  rfl

/-- `Scheduler::Run` up to `SWITCH`. -/
theorem run_of (hl : k.level = .off) (n : Tid) : k.run n false = .ok ((k.push .runTail).dispatch n k.readyList) := by
  unfold run
  rw [assert_of hl, ok_bind]
  rfl

/-- The current thread is left to be deleted by the next one. -/
def condemn (k : Kernel c) : Kernel c := { k with toBeDestroyed := some k.currentThread }

theorem run_finishing_of (hl : k.level = .off) (hd : k.toBeDestroyed = none) (n : Tid) :
    k.run n true = .ok ((k.condemn.push .runTail).dispatch n k.readyList) := by
  unfold run
  rw [assert_of hl, ok_bind]
  dsimp only
  rw [if_pos rfl, assert_of hd, ok_bind]
  rfl

/-- The first thread of the ready list leaves it. -/
theorem Located.dispatch (hL : Located k loc) {n : Tid} {rest : List Tid} (hr : k.readyList = n :: rest) :
    Located (k.dispatch n rest) (Function.update loc n .nowhere) := by
  have hnd : (n :: rest).Nodup := hr ▸ hL.ready_nodup
  have hloc : loc n = .ready := (hL.ready_iff n).1 (by rw [hr]; exact List.mem_cons_self)
  refine ⟨(List.nodup_cons.1 hnd).2, ?_, hL.queue_nodup, ?_⟩
  · intro t
    show t ∈ rest ↔ _
    rcases eq_or_ne t n with rfl | hne
    · rw [Function.update_self]
      exact iff_of_false (List.nodup_cons.1 hnd).1 (fun h => by cases h)
    · rw [Function.update_of_ne hne, ← hL.ready_iff, hr, List.mem_cons]
      exact (or_iff_right hne).symm
  · intro s t
    show _ ↔ ∃ x, k.semaphore s = some x ∧ t ∈ x.queue
    rcases eq_or_ne t n with rfl | hne
    · rw [Function.update_self, ← hL.queue_iff, hloc]
      exact iff_of_false (fun h => by cases h) (fun h => by cases h)
    · rw [Function.update_of_ne hne, hL.queue_iff]

/-- Dispatching the first thread of the ready list restores the placement invariant. -/
theorem Released.inv_dispatch (hR : Released k loc) {n : Tid} {rest : List Tid} (hr : k.readyList = n :: rest) {o : Option SemId}
    (hn : Parked o (k.stack n)) : Inv (k.dispatch n rest) (Function.update loc n .nowhere) := by
  refine ⟨hR.toLocated.dispatch hr, ?_, hR.carcass_iff, fun _ => ⟨o, hn⟩⟩
  intro t
  show Placed (decide (t = n)) (Function.update loc n .nowhere t) (Function.update k.threadStatus n .running t) (k.stack t)
  by_cases ht : t = n
  · subst ht
    rw [decide_eq_true rfl, Function.update_self, Function.update_self]
    exact .dispatched hn
  · rw [decide_eq_false ht, Function.update_of_ne ht, Function.update_of_ne ht]
    exact hR.placed t

/-- A dispatch is recorded, in the order of the ready list. -/
theorem Recorded.dispatch (hH : Recorded k) {n : Tid} {rest : List Tid} (hr : k.readyList = n :: rest)
    (hn : Alive (k.stack n)) (hc : ∀ t, k.toBeDestroyed = some t → .finished t ∈ k.history) :
    History (k.dispatch n rest) := by
  refine ⟨⟨?_, rfl, fun t ht => (hH.started t ht).cons rfl, ?_, ?_, ?_, ?_, ?_, ?_⟩, fun t ht => ⟨k.history, rfl, hc t ht⟩⟩
  · show Nachos.readied k.history = rest.reverse ++ n :: dispatched k.history
    rw [hH.order, hr, List.reverse_cons, List.append_assoc]
    rfl
  · intro t hs hf
    refine hH.alive t ?_ (fun h => hf (List.mem_cons_of_mem _ h))
    rcases hs with hs | hs
    · exact Or.inl hs
    · exact Or.inr ((List.mem_cons.1 hs).resolve_left (fun h => by cases h))
  · intro t hf
    have hf' : .finished t ∈ k.history := (List.mem_cons.1 hf).resolve_left (fun h => by cases h)
    obtain ⟨h1, h2⟩ := hH.finished t hf'
    have hne : t ≠ n := by
      rintro rfl
      exact h1 hn
    exact ⟨h1, (Function.update_of_ne hne _ _).trans h2⟩
  · intro t hf hnil
    exact List.mem_cons_of_mem _ (hH.deleted t ((List.mem_cons.1 hf).resolve_left (fun h => by cases h)) hnil)
  · intro t hf
    obtain ⟨h1, h2⟩ := hH.absent t ((List.mem_cons.1 hf).resolve_left (fun h => by cases h))
    exact ⟨h1, List.mem_cons_of_mem _ h2⟩
  · intro t
    show (Event.dispatched n :: k.history).count (.deleted t) ≤ 1
    rw [List.count_cons_of_ne (fun h => by cases h)]
    exact hH.once t
  · exact hH.deleted_after_cons (fun t h => by cases h)

/-- The rule for context switches: from a released state the dispatch leads to a good one. -/
theorem Released.good (hR : Released k loc) (hH : Recorded k) (hc : ∀ t, k.toBeDestroyed = some t → .finished t ∈ k.history)
    (hl : k.level = .off) (hi : k.inHandler = false) {n : Tid} {rest : List Tid} (hr : k.readyList = n :: rest) :
    Good (k.dispatch n rest) := by
  have hloc : loc n = .ready := (hR.ready_iff n).1 (by rw [hr]; exact List.mem_cons_self)
  have hp := hR.placed n
  rw [hloc] at hp
  obtain ⟨o, hn⟩ := hp.parked
  exact ⟨⟨_, hR.inv_dispatch hr hn⟩, hH.dispatch hr hn.alive hc, hi, fun h => absurd hn (h.not_parked o), fun _ => hl⟩

/-- The current thread is put somewhere else; the others are not touched. -/
theorem Inv.release (hI : Inv k loc) {k' : Kernel c} {l : Loc} (hL : Located k' (Function.update loc k.currentThread l))
    (hp : Placed false l (k'.threadStatus k.currentThread) (k'.stack k.currentThread))
    (hst : ∀ t, t ≠ k.currentThread → k'.stack t = k.stack t)
    (hts : ∀ t, t ≠ k.currentThread → k'.threadStatus t = k.threadStatus t)
    (hc : ∀ t, k'.toBeDestroyed = some t ↔ k'.stack t = [.runTail]) : Released k' (Function.update loc k.currentThread l) := by
  refine ⟨hL, ?_, hc⟩
  intro t
  by_cases ht : t = k.currentThread
  · subst ht
    rwa [Function.update_self]
  · rw [Function.update_of_ne ht, hst t ht, hts t ht]
    exact hI.placed_other ht

/-- A thread that was nowhere is put at the end of the ready list. -/
theorem Located.append_ready (hL : Located k loc) {t : Tid} (ht : loc t = .nowhere) {k' : Kernel c}
    (hr : k'.readyList = k.readyList ++ [t]) (hs : k'.semaphore = k.semaphore) : Located k' (Function.update loc t .ready) := by
  have hready := hL.ready_append (t := t) (by rw [ht]; exact nofun)
  rw [← hr] at hready
  refine ⟨hready.1, hready.2, by rw [hs]; exact hL.queue_nodup, ?_⟩
  intro s t'
  rw [hs]
  rcases eq_or_ne t' t with rfl | hne
  · rw [Function.update_self, ← hL.queue_iff, ht]
    exact iff_of_false (fun h => by cases h) (fun h => by cases h)
  · rw [Function.update_of_ne hne, hL.queue_iff]

/-! ## Yield -/

/-- The thread that yields goes to the end of the ready list. -/
theorem Running.released_yield (hR : Running k) (hI : Inv k loc) {l : IntStatus} (hb : BaseAt l (k.stack k.currentThread)) {k' : Kernel c}
    (hr : k'.readyList = k.readyList ++ [k.currentThread]) (hs : k'.semaphore = k.semaphore) (hd : k'.toBeDestroyed = none)
    (hts : k'.threadStatus = Function.update k.threadStatus k.currentThread .ready)
    (hst : k'.stack = Function.update k.stack k.currentThread (.runTail :: .setLevel l :: k.stack k.currentThread)) :
    Released k' (Function.update loc k.currentThread .ready) := by
  obtain ⟨-, hloc, -⟩ := hI.placed_current.of_base hR.base
  refine hI.release (hI.toLocated.append_ready hloc hr hs) ?_ ?_ ?_ ?_
  · rw [hts, hst, Function.update_self, Function.update_self]
    exact .ready (.yielded hb)
  · intro t ht
    rw [hst, Function.update_of_ne ht]
  · intro t ht
    rw [hts, Function.update_of_ne ht]
  · intro t
    rw [hd, hst]
    by_cases ht : t = k.currentThread
    · subst ht
      rw [Function.update_self]
      exact iff_of_false (fun h => by cases h) (by simp)
    · rw [Function.update_of_ne ht, ← hR.toBeDestroyed]
      exact hI.carcass_iff t

/-- `Thread::Yield`: the next thread of the ready list runs, if there is one. -/
theorem yield_of (hR : Running k) (hb : BaseAt k.level (k.stack k.currentThread)) :
    ∃ k', k.yield = .ok k' ∧ Good k' ∧ k'.abs = k.abs := by
  obtain ⟨loc, hI⟩ := hR.inv
  obtain ⟨-, hloc, -⟩ := hI.placed_current.of_base hR.base
  have hcur : k.currentThread ∉ k.readyList := by
    rw [hI.ready_iff, hloc]
    exact fun h => by cases h
  unfold yield
  dsimp only
  cases hr : k.readyList with
  | nil =>
    rw [findNextToRun_nil (k := k.changeLevel .off) rfl hr, ok_bind]
    refine ⟨(k.changeLevel .off).push (.setLevel k.level), rfl, ?_, setStack_abs_of _ rfl⟩
    have hR' : Running (k.changeLevel .off) := hR.congr rfl rfl rfl rfl rfl rfl rfl rfl
    exact hR'.push_setLevel rfl hb
  | cons n rest =>
    have hnot : k.currentThread ∉ rest := fun h => hcur (by rw [hr]; exact List.mem_cons_of_mem _ h)
    rw [findNextToRun_cons (k := k.changeLevel .off) rfl hr, ok_bind]
    dsimp only
    obtain ⟨k₁, hk₁⟩ : ∃ k₁, k₁ = { k.changeLevel .off with readyList := rest } := ⟨_, rfl⟩
    have hready : (k₁.push (.setLevel k.level)).readyToRun (k₁.push (.setLevel k.level)).currentThread =
        .ok ((k₁.makeReady k.currentThread).push (.setLevel k.level)) := by
      subst hk₁
      exact readyToRun_of rfl hnot
    rw [← hk₁, hready, ok_bind, run_of (by subst hk₁; rfl)]
    have hstack : ((k₁.makeReady k.currentThread).push (.setLevel k.level)).push .runTail =
        (k₁.makeReady k.currentThread).setCurrentStack (.runTail :: .setLevel k.level :: k.stack k.currentThread) := by
      subst hk₁
      exact setCurrentStack_push _ _ _
    rw [hstack]
    subst hk₁
    -- the state in between, with the thread that is dispatched still on the list
    obtain ⟨k₂, hk₂⟩ : ∃ k₂, k₂ = ((k.changeLevel .off).makeReady k.currentThread).setCurrentStack
      (.runTail :: .setLevel k.level :: k.stack k.currentThread) := ⟨_, rfl⟩
    have hrel : Released k₂ (Function.update loc k.currentThread .ready) := by
      subst hk₂
      exact hR.released_yield hI hb rfl rfl hR.toBeDestroyed rfl rfl
    have hrec : Recorded k₂ := by
      subst hk₂
      have hready : Recorded ((k.changeLevel .off).makeReady k.currentThread) :=
        hR.recorded.readied hR.base.alive rfl rfl rfl rfl (fun t ht => Function.update_of_ne ht _ _)
      exact hready.setStack hR.base.alive ⟨by simp, by simp, by simp⟩
    have hr₂ : k₂.readyList = n :: (rest ++ [k.currentThread]) := by
      subst hk₂
      show k.readyList ++ [k.currentThread] = _
      rw [hr]
      rfl
    have hgood := hrel.good hrec (fun t ht => by subst hk₂; cases hR.toBeDestroyed.symm.trans ht) (by subst hk₂; rfl)
      (by subst hk₂; exact hR.inHandler) hr₂
    subst hk₂
    exact ⟨_, rfl, hgood, setStack_abs_of _ rfl⟩

end Kernel

end Nachos
