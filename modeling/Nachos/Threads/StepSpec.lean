import Nachos.Threads.KernelSpec

/-!
# What each step of the machine does

Forking and finishing, the calls of client code, and from these the specification of `Kernel.step`, by the frame it goes on with.
-/

namespace Nachos

open Loop

variable {c : Client}

/-- A thread that was created and not forked. -/
theorem Placed.of_justCreated {Pc : Type} {b : Bool} {l : Loc} {st : List (Frame Pc)} (h : Placed b l .justCreated st) :
    b = false ∧ l = .nowhere ∧ st = [] := by
  cases h with
  | absent => exact ⟨rfl, rfl, rfl⟩

/-! The stack of the current thread tells what it is about to do. -/
theorem Placed.cur_code {Pc : Type} {l : Loc} {ts : ThreadStatus} {pc : Pc} {rest : List (Frame Pc)}
    (h : Placed true l ts (.code pc :: rest)) : rest = [] := by
  cases h with
  | user h => cases h; rfl
  | dispatched h => cases h

theorem Placed.cur_setLevel {Pc : Type} {l : Loc} {now : IntStatus} {ts : ThreadStatus} {rest : List (Frame Pc)}
    (h : Placed true l ts (.setLevel now :: rest)) : l = .nowhere ∧ ts = .running ∧ BaseAt now rest := by
  cases h with
  | user h => cases h
  | setLevel h => exact ⟨rfl, rfl, h⟩
  | dispatched h => cases h

theorem Placed.cur_restoreStatus {Pc : Type} {l : Loc} {ts : ThreadStatus} {m : MachineStatus} {rest : List (Frame Pc)}
    (h : Placed true l ts (.restoreStatus m :: rest)) : Base rest := by
  cases h with
  | user h =>
    cases h with
    | restore m h => exact h
  | dispatched h => cases h

theorem Placed.cur_semaphoreP {Pc : Type} {l : Loc} {ts : ThreadStatus} {s : SemId} {old : IntStatus} {rest : List (Frame Pc)}
    (h : Placed true l ts (.semaphoreP s old :: rest)) : l = .nowhere ∧ ts = .running ∧ BaseAt old rest := by
  cases h with
  | user h => cases h
  | retest s h => exact ⟨rfl, rfl, h⟩
  | dispatched h => cases h

theorem Placed.cur_runTail {Pc : Type} {l : Loc} {ts : ThreadStatus} {rest : List (Frame Pc)}
    (h : Placed true l ts (.runTail :: rest)) :
    l = .nowhere ∧ ts = .running ∧ (∃ o, Parked o (.runTail :: rest)) ∧ ((∃ old st, rest = .setLevel old :: st ∧ BaseAt old st) ∨
      ∃ s old st, rest = .semaphoreP s old :: st ∧ BaseAt old st) := by
  cases h with
  | user h => cases h
  | dispatched h =>
    refine ⟨rfl, rfl, ⟨_, h⟩, ?_⟩
    cases h with
    | yielded h => exact Or.inl ⟨_, _, rfl, h⟩
    | inP s h => exact Or.inr ⟨s, _, _, rfl, h⟩

theorem Placed.cur_begin {Pc : Type} {l : Loc} {ts : ThreadStatus} {rest : List (Frame Pc)}
    (h : Placed true l ts (.begin :: rest)) : l = .nowhere ∧ ts = .running ∧ Parked none (.begin :: rest) ∧ Base rest := by
  cases h with
  | user h => cases h
  | dispatched h =>
    cases h with
    | new h => exact ⟨rfl, rfl, .new h, h⟩

namespace Kernel

variable {k : Kernel c} {loc : Tid → Loc}

/-! ## Thread::Fork and Thread::Finish -/

/-- The state after `Thread::Fork`, but for the level. -/
def forked (k : Kernel c) (t : Tid) (pc : c.Pc) : Kernel c :=
  (((k.setStack t [.begin, .code pc]).record (.forked t)).changeLevel .off).makeReady t

/-- A new thread is recorded. -/
theorem Recorded.fork (hH : Recorded k) {t : Tid} (hts : k.threadStatus t = .justCreated) {st : List (Frame c.Pc)}
    (ha : Alive st) : Recorded ((k.setStack t st).record (.forked t)) := by
  have hnot : .finished t ∉ k.history := by
    intro h
    have := (hH.finished t h).2
    rw [hts] at this
    cases this
  have hstack : ((k.setStack t st).record (.forked t)).stack = Function.update k.stack t st := rfl
  have hmem : ∀ {e : Event}, (∀ t', e ≠ .forked t') → e ∈ ((k.setStack t st).record (.forked t)).history → e ∈ k.history :=
    fun he h => (List.mem_cons.1 h).resolve_left (he t)
  refine ⟨hH.order, hH.current, ?_, ?_, ?_, ?_, ?_, ?_, ?_⟩
  · intro t' h
    rcases eq_or_ne t' t with rfl | hne
    · exact Or.inr List.mem_cons_self
    · rw [hstack, Function.update_of_ne hne] at h
      exact (hH.started t' h).cons rfl
  · intro t' hs hf
    rw [hstack]
    rcases eq_or_ne t' t with rfl | hne
    · rwa [Function.update_self]
    · rw [Function.update_of_ne hne]
      refine hH.alive t' ?_ (fun h => hf (List.mem_cons_of_mem _ h))
      rcases hs with hs | hs
      · exact Or.inl hs
      · exact Or.inr ((List.mem_cons.1 hs).resolve_left (fun h => hne (Event.forked.inj h)))
  · intro t' hf
    have hf' := hmem (fun _ h => by cases h) hf
    have hne : t' ≠ t := by
      rintro rfl
      exact hnot hf'
    rw [hstack, Function.update_of_ne hne]
    exact hH.finished t' hf'
  · intro t' hf hn
    have hf' := hmem (fun _ h => by cases h) hf
    have hne : t' ≠ t := by
      rintro rfl
      exact hnot hf'
    rw [hstack, Function.update_of_ne hne] at hn
    exact List.mem_cons_of_mem _ (hH.deleted t' hf' hn)
  · intro t' hd
    obtain ⟨h1, h2⟩ := hH.absent t' (hmem (fun _ h => by cases h) hd)
    have hne : t' ≠ t := by
      rintro rfl
      exact hnot h2
    rw [hstack, Function.update_of_ne hne]
    exact ⟨h1, List.mem_cons_of_mem _ h2⟩
  · intro t'
    show (Event.forked t :: k.history).count (.deleted t') ≤ 1
    rw [List.count_cons_of_ne (fun h => by cases h)]
    exact hH.once t'
  · exact hH.deleted_after_cons (fun t h => by cases h)

theorem forked_running (hR : Running k) {t : Tid} (hts : k.threadStatus t = .justCreated) (pc : c.Pc) :
    t ≠ k.currentThread ∧ t ∉ k.readyList ∧ k.stack t = [] ∧ Running (k.forked t pc) := by
  obtain ⟨loc, hI⟩ := hR.inv
  have hp := hI.placed t
  rw [hts] at hp
  obtain ⟨hb, hloc, hnil⟩ := hp.of_justCreated
  have hne : t ≠ k.currentThread := of_decide_eq_false hb
  have hready : t ∉ k.readyList := by
    rw [hI.ready_iff, hloc]
    exact fun h => by cases h
  have hparked : Parked none ([.begin, .code pc] : List (Frame c.Pc)) := .new (.code pc)
  have hstack : (k.forked t pc).stack = Function.update k.stack t [.begin, .code pc] := rfl
  have hcur : (k.forked t pc).stack k.currentThread = k.stack k.currentThread := by
    rw [hstack, Function.update_of_ne hne.symm]
  refine ⟨hne, hready, hnil, ⟨⟨⟨Function.update loc t .ready, ?_, ?_, ?_, ?_⟩, ?_, hR.toBeDestroyed⟩,
    ?_, hR.inHandler⟩⟩
  · exact hI.toLocated.append_ready hloc rfl rfl
  · intro t'
    show Placed (decide (t' = k.currentThread)) _ (Function.update k.threadStatus t .ready t') (Function.update k.stack t _ t')
    rcases eq_or_ne t' t with rfl | hne'
    · rw [Function.update_self, Function.update_self, Function.update_self, decide_eq_false hne]
      exact .ready hparked
    · rw [Function.update_of_ne hne', Function.update_of_ne hne', Function.update_of_ne hne']
      exact hI.placed t'
  · intro t'
    show k.toBeDestroyed = some t' ↔ Function.update k.stack t _ t' = _
    rcases eq_or_ne t' t with rfl | hne'
    · rw [Function.update_self, hR.toBeDestroyed]
      exact iff_of_false (fun h => by cases h) hparked.alive.ne_carcass
    · rw [Function.update_of_ne hne']
      exact hI.carcass_iff t'
  · intro h
    exact absurd hR.toBeDestroyed h
  · have hrec := hR.recorded.fork hts hparked.alive
    refine hrec.readied (t := t) ?_ rfl rfl rfl rfl (fun t' h => Function.update_of_ne h _ _)
    show Alive (Function.update k.stack t _ t)
    rw [Function.update_self]
    exact hparked.alive
  · show Base ((k.forked t pc).stack k.currentThread)
    rw [hcur]
    exact hR.base

/-- `Thread::Fork`. -/
theorem fork_of (hR : Running k) (hb : BaseAt k.level (k.stack k.currentThread)) {t : Tid}
    (hts : k.threadStatus t = .justCreated) (pc : c.Pc) : ∃ k', k.fork t pc = .ok k' ∧ Good k' ∧ k'.abs = k.abs.setCtl t (.run pc) := by
  obtain ⟨hne, hready, -, hR'⟩ := forked_running hR hts pc
  have hcur : (k.forked t pc).stack k.currentThread = k.stack k.currentThread := Function.update_of_ne hne.symm _ _
  refine ⟨(k.forked t pc).push (.setLevel k.level), ?_, hR'.push_setLevel rfl (hcur ▸ hb), ?_⟩
  · unfold fork
    dsimp only
    rw [readyToRun_of (k := ((k.setStack t [.begin, .code pc]).record (.forked t)).changeLevel .off) rfl hready, ok_bind]
    rfl
  · rw [push_setLevel_abs]
    exact setStack_abs k t [.begin, .code pc]

/-- The state after `Thread::Finish` up to the loop of `Sleep`. -/
def finished (k : Kernel c) : Kernel c :=
  ((((k.changeLevel .off).setCurrentStack []).record (.finished k.currentThread)).setStatus k.currentThread .blocked).push
    (.sleep true)

theorem finished_stack (k : Kernel c) : k.finished.stack = Function.update k.stack k.currentThread [.sleep true] :=
  congrArg stack (setCurrentStack_push k [] (.sleep true))

/-- A thread that finishes is recorded. -/
theorem Recorded.finish (hH : Recorded k) (ha : Alive (k.stack k.currentThread)) : Recorded k.finished := by
  have hstack := finished_stack k
  have hts : k.finished.threadStatus = Function.update k.threadStatus k.currentThread .blocked := rfl
  have hmem : ∀ {e : Event}, (∀ t', e ≠ .finished t') → e ∈ k.finished.history → e ∈ k.history :=
    fun he h => (List.mem_cons.1 h).resolve_left (he _)
  refine ⟨hH.order, hH.current, ?_, ?_, ?_, ?_, ?_, ?_, ?_⟩
  · intro t h
    by_cases ht : t = k.currentThread
    · subst ht
      exact (hH.started k.currentThread ha.ne_nil).cons rfl
    · rw [hstack, Function.update_of_ne ht] at h
      exact (hH.started t h).cons rfl
  · intro t hs hf
    have hne : t ≠ k.currentThread := by
      rintro rfl
      exact hf List.mem_cons_self
    rw [hstack, Function.update_of_ne hne]
    exact hH.alive t (hs.imp id (hmem (fun _ h => by cases h))) (fun h => hf (List.mem_cons_of_mem _ h))
  · intro t hf
    rw [hstack, hts]
    by_cases ht : t = k.currentThread
    · subst ht
      rw [Function.update_self, Function.update_self]
      exact ⟨fun h => h.ne_finishing rfl, rfl⟩
    · rw [Function.update_of_ne ht, Function.update_of_ne ht]
      exact hH.finished t ((List.mem_cons.1 hf).resolve_left (fun h => ht (Event.finished.inj h)))
  · intro t hf hn
    by_cases ht : t = k.currentThread
    · subst ht
      rw [hstack, Function.update_self] at hn
      cases hn
    · rw [hstack, Function.update_of_ne ht] at hn
      have hf' := (List.mem_cons.1 hf).resolve_left (fun h => ht (Event.finished.inj h))
      exact List.mem_cons_of_mem _ (hH.deleted t hf' hn)
  · intro t hd
    obtain ⟨h1, h2⟩ := hH.absent t (hmem (fun _ h => by cases h) hd)
    have hne : t ≠ k.currentThread := by
      rintro rfl
      exact ha.ne_nil h1
    rw [hstack, Function.update_of_ne hne]
    exact ⟨h1, List.mem_cons_of_mem _ h2⟩
  · intro t
    show (Event.finished k.currentThread :: k.history).count (.deleted t) ≤ 1
    rw [List.count_cons_of_ne (fun h => by cases h)]
    exact hH.once t
  · exact hH.deleted_after_cons (fun t h => by cases h)

/-- `Thread::Finish`. -/
theorem finish_of (hR : Running k) : ∃ k', k.finish = .ok k' ∧ Good k' ∧ k'.abs = k.abs.setCtl k.currentThread .gone := by
  obtain ⟨loc, hI⟩ := hR.inv
  obtain ⟨-, hloc, -⟩ := hI.placed_current.of_base hR.base
  have hstack := finished_stack k
  have hself : k.finished.stack k.currentThread = [.sleep true] := by rw [hstack, Function.update_self]
  have hts : k.finished.threadStatus = Function.update k.threadStatus k.currentThread .blocked := rfl
  refine ⟨k.finished, ?_, ?_, ?_⟩
  · unfold finish
    exact sleep_of rfl true
  · have hL : Located k.finished (Function.update loc k.currentThread .nowhere) := by
      rw [← hloc, Function.update_eq_self]
      exact ⟨hI.ready_nodup, hI.ready_iff, hI.queue_nodup, hI.queue_iff⟩
    have hI' : Inv k.finished (Function.update loc k.currentThread .nowhere) := by
      refine hI.move hL rfl hR.toBeDestroyed hR.toBeDestroyed ?_ ?_ ?_
      · rw [hself, hts, Function.update_self]
        exact .finishing
      · intro t ht
        rw [hstack, Function.update_of_ne ht]
      · intro t ht
        rw [hts, Function.update_of_ne ht]
    refine Calm.good ⟨⟨_, hI'⟩, hR.recorded.finish hR.base.alive, hR.toBeDestroyed⟩ ⟨hR.inHandler, ?_, fun _ => rfl⟩
    intro h
    have hb : Base (k.finished.stack k.currentThread) := h
    rw [hself] at hb
    cases hb
  · have h : k.finished.abs = (k.setCurrentStack [.sleep true]).abs := by
      unfold abs
      rw [hstack]
      rfl
    rw [h, setCurrentStack, setStack_abs]
    rfl

/-! ## The calls of client code -/

/-- A semaphore with an empty queue is made or deleted. -/
theorem Running.setSemaphore_empty (hR : Running k) {s : SemId} (h : ∀ x, k.semaphore s = some x → x.queue = [])
    {y : Option Semaphore} (hy : ∀ x, y = some x → x.queue = []) : Running (k.setSemaphore s y) := by
  obtain ⟨loc, hI⟩ := hR.inv
  have hL : Located (k.setSemaphore s y) loc := by
    refine ⟨hI.ready_nodup, hI.ready_iff, ?_, ?_⟩
    · intro s' x hx
      rw [setSemaphore_semaphore] at hx
      rcases eq_or_ne s' s with rfl | hne
      · rw [Function.update_self] at hx
        rw [hy x hx]
        exact List.nodup_nil
      · rw [Function.update_of_ne hne] at hx
        exact hI.queue_nodup s' x hx
    · intro s' t
      rw [hI.queue_iff, setSemaphore_semaphore]
      rcases eq_or_ne s' s with rfl | hne
      · rw [Function.update_self]
        refine iff_of_false ?_ ?_
        · rintro ⟨x, hx, ht⟩
          rw [h x hx] at ht
          cases ht
        · rintro ⟨x, hx, ht⟩
          rw [hy x hx] at ht
          cases ht
      · rw [Function.update_of_ne hne]
  refine ⟨⟨⟨loc, hL, hI.placed, hI.carcass_iff, hI.carcass_parked⟩, ?_, hR.toBeDestroyed⟩, hR.base, hR.inHandler⟩
  exact hR.recorded.congr rfl rfl rfl (fun _ => Iff.rfl) (fun _ => Iff.rfl) (fun _ _ => rfl)

theorem Running.wake (hR : Running k) {s : SemId} {x : Semaphore} (hs : k.semaphore s = some x) : Running (k.wake s x) := by
  refine ⟨hR.toCalm.wake hs, ?_, (wake_inHandler k s x).trans hR.inHandler⟩
  rw [wake_stack, wake_currentThread]
  exact hR.base

/-- What a call ends with: it has its effect, and then maybe a tick has more. -/
theorem call_ends (hR : Running k) {pc : c.Pc} (hst : k.stack k.currentThread = [.code pc]) {a : Abs c}
    (ha : k.abs = a.setCtl k.currentThread (.run pc)) {call : Call c.Pc} (hallowed : k.Allowed call) (due : List (Handler c)) :
    Ends (fun k' => Good k' ∧ ∃ a', Abs.Effect k.currentThread pc call a a' ∧ a'.Handled k'.abs)
      (fun e => (∃ a', Abs.Effect k.currentThread pc call a a' ∧ Stops a' e) ∨
        e = .nullDereference ∧ ∃ s, (call = .p s ∨ call = .v s) ∧ a.semaphore s = none) (k.call due call) := by
  have hsem : k.semaphore = a.semaphore := congrArg Abs.semaphore ha
  have hpc : ctl (k.stack k.currentThread) = .run pc := by
    rw [hst]
    rfl
  have hb : ∀ l, BaseAt l (k.stack k.currentThread) := fun l => by
    rw [hst]
    exact .code l pc
  cases call with
  | none => exact .ok ⟨hR.good (hb _), _, .none a, .of_eq ha⟩
  | p s =>
    have hR' : Running (k.changeLevel .off) := hR.congr rfl rfl rfl rfl rfl rfl rfl rfl
    unfold Kernel.call semaphoreP
    refine (semaphorePLoop_ends hR' rfl s (hb k.level) hpc).mono ?_ ?_
    · rintro k' ⟨hG, x, hs, hq, htested⟩
      have hs' : a.semaphore s = some x := hsem ▸ hs
      refine ⟨hG, ?_⟩
      have habs : (k.changeLevel .off).abs = a.setCtl k.currentThread (.run pc) := ha
      rw [habs] at htested
      generalize k'.abs = a' at htested
      cases htested with
      | take hv => exact ⟨_, .take hs' hv, .refl⟩
      | sleep hv =>
        refine ⟨_, .sleep hs' hv, .of_eq ?_⟩
        exact congrArg (fun b => b.setSemaphore s (some (x.enqueue k.currentThread))) (Abs.setCtl_setCtl a k.currentThread _ _)
    · rintro e ⟨he, hs⟩
      exact Or.inr ⟨he, s, Or.inl rfl, hsem ▸ hs⟩
  | v s =>
    unfold Kernel.call
    cases hs : k.semaphore s with
    | none =>
      have hv : k.semaphoreV s = .error .nullDereference := by
        unfold semaphoreV
        rw [hs]
      dsimp only
      rw [hv]
      exact .error (Or.inr ⟨rfl, s, Or.inr rfl, hsem ▸ hs⟩)
    | some x =>
      obtain ⟨loc, hI⟩ := hR.inv
      dsimp only
      rw [semaphoreV_of hI hs, ok_bind]
      have hb' : BaseAt k.level ((k.wake s x).stack (k.wake s x).currentThread) := by
        rw [wake_stack, wake_currentThread]
        exact hb _
      refine .ok ⟨(hR.wake hs).push_setLevel (wake_level k s x) hb', _, .v (hsem ▸ hs), .of_eq ?_⟩
      rw [push_setLevel_abs, wake_abs, ha]
  | yield =>
    obtain ⟨k', hk', hG, habs⟩ := yield_of hR (hb _)
    exact .of_eq hk' ⟨hG, _, .yield a, .of_eq (habs.trans ha)⟩
  | fork t pc' =>
    obtain ⟨k', hk', hG, habs⟩ := fork_of hR (hb _) hallowed pc'
    obtain ⟨hne, -, hnil, -⟩ := forked_running hR hallowed pc'
    have hgone : k.abs.ctl t = .gone := by
      show ctl (k.stack t) = .gone
      rw [hnil]
      rfl
    rw [ha, Abs.setCtl_other a hne] at hgone
    exact .of_eq hk' ⟨hG, _, .fork hne hgone, .of_eq (habs.trans (by rw [ha]))⟩
  | finish =>
    obtain ⟨k', hk', hG, habs⟩ := finish_of hR
    refine .of_eq hk' ⟨hG, _, .finish a, .of_eq ?_⟩
    rw [habs, ha, Abs.setCtl_setCtl]
  | newSemaphore s v =>
    have hs : k.semaphore s = none := hallowed
    have hR' : Running (k.setSemaphore s (some (Semaphore.new v))) := by
      refine hR.setSemaphore_empty ?_ ?_
      · intro x hx
        rw [hs] at hx
        cases hx
      · intro x hx
        obtain rfl := Option.some.inj hx
        rfl
    refine .ok ⟨hR'.good (hb _), _, .newSemaphore v (hsem ▸ hs), .of_eq ?_⟩
    rw [← ha]
    rfl
  | deleteSemaphore s =>
    have hs : ∀ x, k.semaphore s = some x → x.queue = [] := hallowed
    have hR' : Running (k.setSemaphore s none) := hR.setSemaphore_empty hs (fun x hx => by cases hx)
    refine .ok ⟨hR'.good (hb _), _, .deleteSemaphore (hsem ▸ hs), .of_eq ?_⟩
    rw [← ha]
    rfl
  | setStatus st =>
    have hR' : Running { k with status := st } := hR.congr rfl rfl rfl rfl rfl rfl rfl rfl
    exact .ok ⟨hR'.good (hb _), _, .setStatus st a, .of_eq ha⟩
  | setLevel now =>
    refine (setLevel_ends hR (hb now) due).mono ?_ ?_
    · rintro k' ⟨hG, hsteps⟩
      exact ⟨hG, _, .setLevel now a, ha ▸ hsteps⟩
    · rintro e he
      exact Or.inl ⟨_, .setLevel now a, ha ▸ he⟩
  | oneTick =>
    refine (oneTick_ends hR due).mono ?_ ?_
    · rintro k' ⟨hG, hsteps⟩
      exact ⟨hG, _, .oneTick a, ha ▸ hsteps⟩
    · rintro e he
      exact Or.inl ⟨_, .oneTick a, ha ▸ he⟩

/-! ## The steps -/

/-- The code of the client fails an `ASSERT` of its own. -/
def ClientFails (k : Kernel c) (ch : Choice c) (e : Fault) : Prop :=
  ∃ pc rest, k.stack k.currentThread = .code pc :: rest ∧ c.code k.currentThread k.shared pc ch.input = .error e

/-- How a step may end. -/
abbrev StepEnds (k : Kernel c) (ch : Choice c) : Prop :=
  Ends (fun k' => Good k' ∧ Abs.StepOf k.currentThread k.abs k'.abs) (fun e => Stops k.abs e ∨ k.ClientFails ch e) (k.step ch)

section Frames

variable {ch : Choice c} {rest : List (Frame c.Pc)}

theorem Good.placed_current (hG : Good k) {st : List (Frame c.Pc)} (hst : k.stack k.currentThread = st) :
    ∃ l ts, Placed true l ts st := by
  obtain ⟨loc, hI⟩ := hG.inv
  exact ⟨_, _, hst ▸ hI.placed_current⟩

theorem abs_ctl_current {st : List (Frame c.Pc)} (hst : k.stack k.currentThread = st) : k.abs.ctl k.currentThread = ctl st := by
  rw [← hst]
  rfl

/-- Client code goes on to its next call. -/
theorem step_code (hG : Good k) {pc : c.Pc} (hst : k.stack k.currentThread = .code pc :: rest) (hallowed : k.AllowedStep ch) :
    k.StepEnds ch := by
  obtain ⟨l, ts, hp⟩ := hG.placed_current hst
  obtain rfl := hp.cur_code
  have hb : Base (k.stack k.currentThread) := by
    rw [hst]
    exact .code pc
  have hR := hG.running hb
  have hctl : k.abs.ctl k.currentThread = .run pc := abs_ctl_current hst
  unfold StepEnds step
  rw [hst]
  dsimp only
  cases hcode : c.code k.currentThread k.shared pc ch.input with
  | error e => exact .error (Or.inr ⟨pc, [], hst, hcode⟩)
  | ok r =>
    obtain ⟨sh, call, pc'⟩ := r
    rw [ok_bind]
    dsimp only
    obtain ⟨k₁, hk₁⟩ : ∃ k₁, k₁ = { k with shared := sh } := ⟨_, rfl⟩
    have hR₁ : Running k₁ := by
      subst hk₁
      exact hR.congr rfl rfl rfl rfl rfl rfl rfl rfl
    have hcur : k₁.currentThread = k.currentThread := by rw [hk₁]
    have hR' : Running (k₁.setCurrentStack [.code pc']) :=
      hR₁.toCalm.running hR₁.inHandler (.code pc') (fun _ _ h => (h.of_base hR₁.base).2) hR₁.base.alive
    have hallowed' : (k₁.setCurrentStack [.code pc']).Allowed call := by
      subst hk₁
      refine hallowed call ?_
      unfold nextCall
      rw [hst]
      dsimp only
      rw [hcode]
      rfl
    have habs : k₁.abs = { k.abs with shared := sh } := by
      subst hk₁
      rfl
    rw [← hk₁]
    refine (call_ends hR' (setCurrentStack_current k₁ _) (setStack_abs k₁ _ _) hallowed' ch.due).mono ?_ ?_
    · rintro k' ⟨hG', a', heff, hsteps⟩
      rw [habs] at heff
      exact ⟨hG', a', Or.inr (.code hctl hcode (hcur ▸ heff)), hsteps⟩
    · rintro e (⟨a', heff, hstops⟩ | ⟨rfl, s, hs, hnone⟩)
      · rw [habs] at heff
        exact Or.inl (hstops.of_steps (.single (.thread k.currentThread (.code hctl hcode (hcur ▸ heff)))))
      · rw [habs] at hnone
        exact Or.inl (Or.inr ⟨rfl, k.abs, .refl, .call hctl hcode hs hnone⟩)

/-- The level is set back, and interrupts that are due are served. -/
theorem step_setLevel (hG : Good k) {now : IntStatus} (hst : k.stack k.currentThread = .setLevel now :: rest) :
    k.StepEnds ch := by
  obtain ⟨l, ts, hp⟩ := hG.placed_current hst
  obtain ⟨-, -, hb⟩ := hp.cur_setLevel
  have hnb : ¬Base (k.stack k.currentThread) := by
    rw [hst]
    exact fun h => by cases h
  have hC : Calm k := hG.calm (by rw [hst]; exact fun o h => by cases h)
  have hR : Running (k.setCurrentStack rest) := by
    refine hC.running hG.settled.inHandler hb.base ?_ (by rw [hst]; exact hb.base.alive_cons _)
    intro l ts h
    rw [hst] at h
    exact ⟨h.cur_setLevel.1, h.cur_setLevel.2.1⟩
  have habs : (k.setCurrentStack rest).abs = k.abs := setStack_abs_of k (by rw [hst]; rfl)
  unfold StepEnds step
  rw [hst, ← habs]
  have hb' : BaseAt now ((k.setCurrentStack rest).stack (k.setCurrentStack rest).currentThread) := by
    rw [show (k.setCurrentStack rest).stack (k.setCurrentStack rest).currentThread = rest from setCurrentStack_current k rest]
    exact hb
  exact (setLevel_ends hR hb' ch.due).mono (fun _ h => ⟨h.1, h.2.stepOf _⟩) (fun _ h => Or.inl h)

/-- A tick that made its thread yield is over. -/
theorem step_restoreStatus (hG : Good k) {m : MachineStatus} (hst : k.stack k.currentThread = .restoreStatus m :: rest) :
    k.StepEnds ch := by
  obtain ⟨l, ts, hp⟩ := hG.placed_current hst
  have hb : Base rest := hp.cur_restoreStatus
  have hb' : Base (k.stack k.currentThread) := by
    rw [hst]
    exact .restore m hb
  have hR := hG.running hb'
  have hR' : Running (k.setCurrentStack rest) :=
    hR.toCalm.running hR.inHandler hb (fun _ _ h => (h.of_base hb').2) hb'.alive
  have hR'' : Running { k.setCurrentStack rest with status := m } := hR'.congr rfl rfl rfl rfl rfl rfl rfl rfl
  have habs : (k.setCurrentStack rest).abs = k.abs := setStack_abs_of k (by rw [hst]; rfl)
  unfold StepEnds step
  rw [hst]
  have hon : BaseAt k.level (.restoreStatus m :: rest) := hst ▸ hG.settled.base hb'
  have hl : k.level = .on := by
    generalize k.level = l at hon
    cases hon
    rfl
  have hbase : BaseAt k.level ((k.setCurrentStack rest).stack k.currentThread) := by
    rw [setCurrentStack_current, hl]
    exact hb.at_on
  exact .ok ⟨hR''.good hbase, (Abs.Handled.of_eq habs).stepOf _⟩

/-- A thread that has been given the processor back goes on after `SWITCH`. -/
theorem step_runTail (hG : Good k) (hst : k.stack k.currentThread = .runTail :: rest) : k.StepEnds ch := by
  obtain ⟨l, ts, hp⟩ := hG.placed_current hst
  obtain ⟨-, -, ⟨o, hparked⟩, hrest⟩ := hp.cur_runTail
  have hoff : k.level = .off := hG.settled.off (by rw [hst]; exact fun h => by cases h)
  have hnew : ∀ l ts, Placed true l ts (k.stack k.currentThread) → Placed true l ts rest := by
    intro l ts h
    rw [hst] at h
    obtain ⟨rfl, rfl, -, -⟩ := h.cur_runTail
    rcases hrest with ⟨old, st, rfl, hb⟩ | ⟨s, old, st, rfl, hb⟩
    · exact .setLevel hb
    · exact .retest s hb
  have halive : Alive rest ∧ ¬Base rest := by
    rcases hrest with ⟨old, st, rfl, hb⟩ | ⟨s, old, st, rfl, hb⟩
    · exact ⟨hb.base.alive_cons _, fun h => by cases h⟩
    · exact ⟨hb.base.alive_cons _, fun h => by cases h⟩
  obtain ⟨k', hk', hC, hst', hl, hi, habs⟩ := checkToBeDestroyed_of hG (hst ▸ hparked) hnew halive.1
  have habs' : (k.setCurrentStack rest).abs = k.abs := setStack_abs_of k (by rw [hst]; rfl)
  unfold StepEnds step
  rw [hst]
  dsimp only
  unfold runTail
  rw [assert_of (show (k.setCurrentStack rest).level = .off from hoff), ok_bind, hk']
  refine .ok ⟨hC.good ⟨hi.trans hG.settled.inHandler, ?_, fun _ => hl.trans hoff⟩,
    (Abs.Handled.of_eq (habs.trans habs')).stepOf _⟩
  intro h
  exact absurd (hst' ▸ h) halive.2

/-- A thread runs for the first time. -/
theorem step_begin (hG : Good k) (hst : k.stack k.currentThread = .begin :: rest) : k.StepEnds ch := by
  obtain ⟨l, ts, hp⟩ := hG.placed_current hst
  obtain ⟨-, -, hparked, hb⟩ := hp.cur_begin
  have hoff : k.level = .off := hG.settled.off (by rw [hst]; exact fun h => by cases h)
  have hnew : ∀ l ts, Placed true l ts (k.stack k.currentThread) → Placed true l ts rest := by
    intro l ts h
    rw [hst] at h
    obtain ⟨rfl, rfl, -, -⟩ := h.cur_begin
    exact .user hb
  obtain ⟨k', hk', hC, hst', hl, hi, habs⟩ := checkToBeDestroyed_of hG (hst ▸ hparked) hnew hb.alive
  have habs' : (k.setCurrentStack rest).abs = k.abs := setStack_abs_of k (by rw [hst]; rfl)
  have hR : Running k' := ⟨hC, by rwa [hst'], hi.trans hG.settled.inHandler⟩
  unfold StepEnds step
  rw [hst]
  dsimp only
  unfold begin
  rw [hk', ok_bind]
  refine .ok ⟨hR.push_setLevel (hl.trans hoff) hR.base.at_on, (Abs.Handled.of_eq ?_).stepOf _⟩
  rw [push_setLevel_abs, habs, habs']

/-- A thread that sleeps looks for another one. -/
theorem step_sleep (hG : Good k) {fin : Bool} (hst : k.stack k.currentThread = .sleep fin :: rest) : k.StepEnds ch := by
  have hC : Calm k := hG.calm (by rw [hst]; exact fun o h => by cases h)
  have hoff : k.level = .off := hG.settled.off (by rw [hst]; exact fun h => by cases h)
  unfold StepEnds step
  rw [hst]
  exact (sleepLoop_ends hC hoff hG.settled.inHandler hst ch.due ch.when).mono (fun _ h => ⟨h.1, h.2.stepOf _⟩) (fun _ h => Or.inl h)

/-- A thread that was woken looks at the value again. -/
theorem step_semaphoreP (hG : Good k) {s : SemId} {old : IntStatus} (hst : k.stack k.currentThread = .semaphoreP s old :: rest) :
    k.StepEnds ch := by
  obtain ⟨l, ts, hp⟩ := hG.placed_current hst
  obtain ⟨-, -, hb⟩ := hp.cur_semaphoreP
  have hoff : k.level = .off := hG.settled.off (by rw [hst]; exact fun h => by cases h)
  have hC : Calm k := hG.calm (by rw [hst]; exact fun o h => by cases h)
  have hR : Running (k.setCurrentStack rest) := by
    refine hC.running hG.settled.inHandler hb.base ?_ (by rw [hst]; exact hb.base.alive_cons _)
    intro l ts h
    rw [hst] at h
    exact ⟨h.cur_semaphoreP.1, h.cur_semaphoreP.2.1⟩
  obtain ⟨pc, hpc⟩ := hb.base.ctl_eq
  have hctl : k.abs.ctl k.currentThread = .inP s pc := by
    rw [abs_ctl_current hst]
    simp only [ctl, hpc]
  have habs : (k.setCurrentStack rest).abs = k.abs.setCtl k.currentThread (.run pc) := by
    rw [setCurrentStack, setStack_abs, hpc]
  unfold StepEnds step
  rw [hst]
  have hpc' : ctl ((k.setCurrentStack rest).stack k.currentThread) = .run pc := by
    rw [setCurrentStack_current, hpc]
  have hb' : BaseAt old ((k.setCurrentStack rest).stack (k.setCurrentStack rest).currentThread) := by
    rw [show (k.setCurrentStack rest).stack (k.setCurrentStack rest).currentThread = rest from setCurrentStack_current k rest]
    exact hb
  refine (semaphorePLoop_ends hR hoff s hb' hpc').mono ?_ ?_
  · rintro k' ⟨hG', x, hs, hq, htested⟩
    refine ⟨hG', ?_⟩
    rw [habs] at htested
    generalize k'.abs = a' at htested
    cases htested with
    | take hv => exact (Abs.ThreadStep.retestTake hctl hs hq hv).stepOf
    | sleep hv =>
      have hself : (k.abs.setCtl k.currentThread (.run pc)).setCtl k.currentThread (.inP s pc) = k.abs := by
        rw [Abs.setCtl_setCtl]
        exact Abs.setCtl_eq_self _ hctl
      refine Abs.ThreadStep.stepOf ?_
      show Abs.ThreadStep k.currentThread k.abs
        (((k.abs.setCtl k.currentThread (.run pc)).setCtl k.currentThread (.inP s pc)).setSemaphore s (some (x.enqueue k.currentThread)))
      rw [hself]
      exact .retestSleep hctl hs hq hv
  · rintro e ⟨rfl, hs⟩
    exact Or.inl (Or.inr ⟨rfl, k.abs, .refl, .retest hctl hs⟩)

end Frames

/-- Every step ends in a state with the invariants, after steps of Abstract; or it stops the machine because of its client. -/
theorem step_ends (hG : Good k) {ch : Choice c} (hallowed : k.AllowedStep ch) : k.StepEnds ch := by
  obtain ⟨loc, hI⟩ := hG.inv
  cases hst : k.stack k.currentThread with
  | nil => exact absurd hst hI.placed_current.current.1
  | cons f rest =>
    cases f with
    | code pc => exact step_code hG hst hallowed
    | setLevel now => exact step_setLevel hG hst
    | restoreStatus m => exact step_restoreStatus hG hst
    | runTail => exact step_runTail hG hst
    | begin => exact step_begin hG hst
    | sleep fin => exact step_sleep hG hst
    | semaphoreP s old => exact step_semaphoreP hG hst

end Kernel

end Nachos
