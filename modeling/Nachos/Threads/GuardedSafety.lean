import Nachos.Threads.GuardedSteps

/-!
# What code that uses locks and synchronized lists can rely on

Code that acquires a lock before a section and releases it after holds it in all of the section, whatever other threads do, so at most
one thread is in the sections of one lock. And the machine stops in such code only at an `ASSERT` of the code itself, as long as the
semaphores that it uses are there.
-/

namespace Nachos

open Loop Transition

namespace Guarded

variable {g : Code}

/-! ## Locks -/

/-- Which lock the code holds at which point, when it only uses locks, and one at a time. -/
structure Sections (g : Code) where
  holds : g.Pc → Option Nat
  call : ∀ {t own own' pc pc' x call}, g.code t own pc x = .ok (own', .call call pc') →
    holds pc' = holds pc ∧ ∀ t' pc₀, call = .fork t' pc₀ → holds pc₀ = none
  operation : ∀ {t own own' pc x i op h next}, g.code t own pc x = .ok (own', .operation i op h next) →
    op = .acquire ∧ holds pc = none ∧ (∀ item, holds (next item) = some i) ∨
      op = .release ∧ holds pc = some i ∧ ∀ item, holds (next item) = none

variable (S : Sections g)

/-- What a thread at a place knows about the holders of the locks. -/
inductive Holds (m : Memory g) (t : Tid) : Place g.Item g.Pc → Prop where
  | gone : Holds m t .gone
  | outside {pc : g.Pc} (h : ∀ i, S.holds pc = some i → (m.monitor i).lockHolder = some t) : Holds m t (.outside pc)
  | inP {s : SemId} {pc : g.Pc} (h : ∀ i, S.holds pc = some i → (m.monitor i).lockHolder = some t) : Holds m t (.inP s pc)
  | acquiring {i : Nat} {pc : Synch.Pc g.Item} {next : Option g.Item → g.Pc} {item : Option g.Item}
      (hpc : pc = .acquireP .user ∨ pc = .acquireHolder .user) (hnext : ∀ item, S.holds (next item) = some i) :
      Holds m t (.inside i pc next item)
  | acquired {i : Nat} {next : Option g.Item → g.Pc} {item : Option g.Item} (hnext : ∀ item, S.holds (next item) = some i)
      (h : (m.monitor i).lockHolder = some t) : Holds m t (.inside i .user next item)
  | releasing {i : Nat} {pc : Synch.Pc g.Item} {next : Option g.Item → g.Pc} {item : Option g.Item}
      (hpc : pc = .releaseAssert .user ∨ pc = .releaseHolder .user) (hnext : ∀ item, S.holds (next item) = none)
      (h : (m.monitor i).lockHolder = some t) : Holds m t (.inside i pc next item)
  | released {i : Nat} {pc : Synch.Pc g.Item} {next : Option g.Item → g.Pc} {item : Option g.Item}
      (hpc : pc = .releaseV .user ∨ pc = .user) (hnext : ∀ item, S.holds (next item) = none) : Holds m t (.inside i pc next item)

/-- Every thread knows what is so. -/
def Held (v : View g) : Prop := ∀ t, Holds S v.memory t (v.place t)

variable {S}

section Holds

variable {m m' : Memory g} {t : Tid} {p : Place g.Item g.Pc}

/-- What a thread knows stays so as long as it stays the holder of its locks. -/
theorem Holds.mono (h : Holds S m t p) (hm : ∀ i, (m.monitor i).lockHolder = some t → (m'.monitor i).lockHolder = some t) :
    Holds S m' t p := by
  cases h with
  | gone => exact .gone
  | outside h => exact .outside fun i hi => hm i (h i hi)
  | inP h => exact .inP fun i hi => hm i (h i hi)
  | acquiring hpc hnext => exact .acquiring hpc hnext
  | acquired hnext h => exact .acquired hnext (hm _ h)
  | releasing hpc hnext h => exact .releasing hpc hnext (hm _ h)
  | released hpc hnext => exact .released hpc hnext

theorem Holds.of_outside {pc : g.Pc} (h : Holds S m t (.outside pc)) {i : Nat} (hi : S.holds pc = some i) :
    (m.monitor i).lockHolder = some t := by
  cases h with
  | outside h => exact h i hi

theorem Holds.of_inP {s : SemId} {pc : g.Pc} (h : Holds S m t (.inP s pc)) {i : Nat} (hi : S.holds pc = some i) :
    (m.monitor i).lockHolder = some t := by
  cases h with
  | inP h => exact h i hi

/-- A statement of an operation on a lock. -/
theorem Holds.codes {i : Nat} {pc pc' : Synch.Pc g.Item} {next : Option g.Item → g.Pc} {item item' : Option g.Item}
    {x : Synch.Input g.Item} {monitor : Synch.Monitor g.Item} {call : Call (Synch.Pc g.Item)}
    (h : Holds S m t (.inside i pc next item)) (hcodes : Synch.Codes t (m.monitor i) x pc monitor call pc')
    (hm : m'.monitor i = monitor) : Holds S m' t (.inside i pc' next item') := by
  cases h with
  | acquiring hpc hnext =>
    rcases hpc with rfl | rfl
    · cases hcodes
      exact .acquiring (Or.inr rfl) hnext
    · cases hcodes
      exact .acquired hnext (by rw [hm])
  | acquired hnext h => cases hcodes
  | releasing hpc hnext h =>
    rcases hpc with rfl | rfl
    · cases hcodes
      exact .releasing (Or.inr rfl) hnext (by rw [hm]; exact h)
    · cases hcodes
      exact .released (Or.inl rfl) hnext
  | released hpc hnext =>
    rcases hpc with rfl | rfl
    · cases hcodes
      exact .released (Or.inr rfl) hnext
    · cases hcodes

end Holds

section Memory

variable {v v' : View g} {t : Tid}

/-- Where a call leaves a thread: the caller at its next statement, in the loop of `P`, or gone; a forked thread at its first; the
others where they were. -/
theorem Calls.place {pc : g.Pc} {call : Call g.Pc} (h : Calls t pc call v v') (t' : Tid) :
    t' = t ∧ (v'.place t' = .outside pc ∨ (∃ s, call = .p s ∧ v'.place t' = .inP s pc) ∨ v'.place t' = .gone) ∨
      t' ≠ t ∧ (v'.place t' = v.place t' ∨ ∃ pc', call = .fork t' pc' ∧ v'.place t' = .outside pc') := by
  rcases eq_or_ne t' t with rfl | hne
  · refine Or.inl ⟨rfl, ?_⟩
    cases h with
    | waits hx => exact Or.inr (Or.inl ⟨_, rfl, View.go_place_self v t' _⟩)
    | finish => exact Or.inr (Or.inr (View.go_place_self v t' _))
    | fork hne h => exact Or.inl ((View.go_place_other _ hne.symm _).trans (View.go_place_self v t' _))
    | _ => exact Or.inl (View.go_place_self v t' _)
  · refine Or.inr ⟨hne, ?_⟩
    cases h with
    | @fork t₁ pc₁ _ hne₁ h =>
      rcases eq_or_ne t' t₁ with rfl | hne'
      · exact Or.inr ⟨pc₁, rfl, View.go_place_self _ t' _⟩
      · exact Or.inl ((View.go_place_other _ hne' _).trans (View.go_place_other v hne _))
    | _ => exact Or.inl (View.go_place_other v hne _)

end Memory

section Reachable

variable {own : g.Shared} {pc : g.Pc} {semaphores : SemId → Option Int} {a a' : Abs (client g)} {t : Tid}

/-- A thread is deprived of no lock by another. -/
theorem holder_stays (ha : (Abs.system (boot g own pc semaphores)).Reachable a) (h : Abs.ThreadStep t a a') {t' : Tid} (hne : t' ≠ t)
    {i : Nat} (hh : (a.shared.monitor i).lockHolder = some t') : (a'.shared.monitor i).lockHolder = some t' := by
  rcases threadStep_view ha h i with heq | hstep
  · have hm : a'.shared.monitor i = a.shared.monitor i := congrArg Synch.View.monitor heq
    rwa [hm]
  · obtain ⟨o, hO⟩ := Synch.owned_of_reachable (monitor_reachable ha i)
    exact hO.holder_step hstep hh hne.symm

/-- What the thread that takes a step knows afterwards. -/
theorem Held.own_step {v v' : View g} (hH : Held S v) (h : Step t v v') : Holds S v'.memory t (v'.place t) := by
  have ht := hH t
  cases h with
  | call h hcode hcalls =>
    rw [h] at ht
    obtain ⟨hholds, -⟩ := S.call hcode
    rcases hcalls.place t with ⟨-, hp | ⟨s, -, hp⟩ | hp⟩ | ⟨hne, -⟩
    · rw [hp, hcalls.memory]
      exact .outside fun i hi => ht.of_outside (hholds ▸ hi)
    · rw [hp, hcalls.memory]
      exact .inP fun i hi => ht.of_outside (hholds ▸ hi)
    · rw [hp]
      exact .gone
    · exact absurd rfl hne
  | enter h hcode =>
    rw [h] at ht
    rw [View.go_place_self]
    rcases S.operation hcode with ⟨rfl, -, hnext⟩ | ⟨rfl, hholds, hnext⟩
    · exact .acquiring (Or.inl rfl) hnext
    · exact .releasing (Or.inl rfl) hnext (ht.of_outside hholds)
  | @within i pc pc' next item x m call h hcodes =>
    rw [h] at ht
    rw [View.go_place_self]
    exact ht.codes hcodes (Function.update_self _ _ _)
  | leave h =>
    rw [h] at ht
    rw [View.go_place_self]
    cases ht with
    | acquiring hpc hnext => rcases hpc with hpc | hpc <;> cases hpc
    | acquired hnext hh =>
      refine .outside ?_
      intro j hj
      obtain rfl := Option.some.inj ((hnext _).symm.trans hj)
      exact hh
    | releasing hpc hnext hh => rcases hpc with hpc | hpc <;> cases hpc
    | released hpc hnext => exact .outside fun j hj => by cases (hnext _).symm.trans hj
  | take h hx h0 =>
    rw [h] at ht
    rw [View.setValue_place, View.go_place_self]
    exact .outside fun i hi => ht.of_inP hi

/-- The place of another thread after a step. -/
theorem Step.place_other {v v' : View g} (h : Step t v v') {t' : Tid} (hne : t' ≠ t) :
    v'.place t' = v.place t' ∨ ∃ pc pc' pc₀ x own, v.place t = .outside pc ∧ v'.place t' = .outside pc₀ ∧
      g.code t v.memory.own pc x = .ok (own, .call (.fork t' pc₀) pc') := by
  cases h with
  | call h hcode hcalls =>
    rcases hcalls.place t' with ⟨rfl, -⟩ | ⟨-, hp | ⟨pc₀, rfl, hp⟩⟩
    · exact absurd rfl hne
    · exact Or.inl hp
    · exact Or.inr ⟨_, _, _, _, _, h, hp, hcode⟩
  | _ => exact Or.inl (View.go_place_other _ hne _)

/-- In every reachable state the threads hold the locks of the sections they are in. -/
theorem held_of_reachable (S : Sections g) (h0 : S.holds pc = none) (ha : (Abs.system (boot g own pc semaphores)).Reachable a) :
    Held S (view a) := by
  refine invariant (I := Held S) ?_ ?_ ?_ ha
  · intro t
    show Holds S _ t (if t = mainThread then .outside pc else .gone)
    split
    · exact .outside fun i hi => by cases h0.symm.trans hi
    · exact .gone
  · intro t a a' ha h hstep hH t'
    rcases eq_or_ne t' t with rfl | hne
    · exact hH.own_step hstep
    · rcases hstep.place_other hne with hp | ⟨pc, pc', pc₀, x, own, -, hp, hcode⟩
      · rw [hp]
        exact (hH t').mono fun i hi => holder_stays ha h hne hi
      · rw [hp]
        exact .outside fun i hi => by cases ((S.call hcode).2 t' pc₀ rfl).symm.trans hi
  · intro v v' h hH t
    cases h with
    | served h =>
      rw [View.raise_place, View.raise_memory]
      exact (hH t).mono fun i hi => hi
    | failed h => exact (hH t).mono fun i hi => hi

end Reachable

/-- Two threads in sections of one lock are one thread. -/
theorem Held.unique {v : View g} (hH : Held S v) {t t' : Tid} {pc pc' : g.Pc} (h : v.place t = .outside pc ∨ ∃ s, v.place t = .inP s pc)
    (h' : v.place t' = .outside pc' ∨ ∃ s, v.place t' = .inP s pc') {i : Nat} (hi : S.holds pc = some i) (hi' : S.holds pc' = some i) :
    t' = t := by
  have hold : ∀ {t : Tid} {pc : g.Pc}, (v.place t = .outside pc ∨ ∃ s, v.place t = .inP s pc) → S.holds pc = some i →
      (v.memory.monitor i).lockHolder = some t := by
    rintro t pc (h | ⟨s, h⟩) hi
    · have ht := hH t
      rw [h] at ht
      exact ht.of_outside hi
    · have ht := hH t
      rw [h] at ht
      exact ht.of_inP hi
  exact Option.some.inj ((hold h' hi').symm.trans (hold h hi))

/-! ## What stops the machine -/

/-- The semaphores that the code calls, which it does not delete. -/
structure Uses (g : Code) where
  used : SemId → Prop
  call : ∀ {t own own' pc pc' x call}, g.code t own pc x = .ok (own', .call call pc') →
    ∀ s, (call = .p s ∨ call = .v s → used s) ∧ (call = .deleteSemaphore s → ¬used s)
  device : ∀ {own own' d ss}, g.device own d = .ok (own', ss) → ∀ s ∈ ss, used s

/-- The semaphores are there. -/
structure Present (U : Uses g) (v : View g) : Prop where
  value : ∀ s, U.used s → v.value s ≠ none
  waits : ∀ t s pc, v.place t = .inP s pc → U.used s

namespace Present

variable {U : Uses g} {v v' : View g} {t : Tid}

/-- A thread goes somewhere that is no loop of `P`, or one on a semaphore that is used. -/
theorem go (h : Present U v) {p : Place g.Item g.Pc} (hp : ∀ s pc, p = .inP s pc → U.used s) : Present U (v.go t p) := by
  refine ⟨h.value, ?_⟩
  intro t' s pc
  exact View.go_place_all v (P := fun _ q => q = .inP s pc → U.used s) (hp s pc) (fun t' _ => h.waits t' s pc) t'

theorem goto (h : Present U v) (pc : g.Pc) : Present U (v.go t (.outside pc)) := h.go nofun

theorem setValue (h : Present U v) {s : SemId} {x : Option Int} (hx : U.used s → x ≠ none) : Present U (v.setValue s x) := by
  refine ⟨?_, h.waits⟩
  intro s' hs'
  rcases eq_or_ne s' s with rfl | hne
  · rw [View.setValue_self]
    exact hx hs'
  · rw [View.setValue_other v hne]
    exact h.value s' hs'

theorem raise (h : Present U v) (ss : List SemId) : Present U (v.raise ss) := by
  induction ss generalizing v with
  | nil => exact h
  | cons s ss ih =>
    refine ih (h.setValue ?_)
    intro hs hnone
    exact h.value s hs (Option.map_eq_none_iff.1 hnone)

theorem calls (h : Present U v) {pc : g.Pc} {call : Call g.Pc} (hc : Calls t pc call v v')
    (hu : ∀ s, (call = .p s ∨ call = .v s → U.used s) ∧ (call = .deleteSemaphore s → ¬U.used s)) : Present U v' := by
  cases hc with
  | quiet hq => exact h.goto pc
  | v hx => exact (h.goto pc).setValue fun _ => Option.some_ne_none _
  | take hx h0 => exact (h.goto pc).setValue fun _ => Option.some_ne_none _
  | @waits s _ hx =>
    refine h.go ?_
    intro s' pc' hp
    cases hp
    exact (hu s).1 (Or.inl rfl)
  | fork hne hgone => exact (h.goto pc).goto _
  | finish => exact h.go nofun
  | newSemaphore x hs => exact (h.goto pc).setValue fun _ => Option.some_ne_none _
  | deleteSemaphore s => exact (h.goto pc).setValue fun hs => absurd hs ((hu s).2 rfl)

theorem step (h : Present U v) (hstep : Step t v v') : Present U v' := by
  have hmemory (m : Memory g) : Present U { v with memory := m } := ⟨h.value, h.waits⟩
  cases hstep with
  | call hp hcode hcalls => exact (hmemory _).calls hcalls (U.call hcode)
  | enter hp hcode => exact (hmemory _).go nofun
  | within hp hcodes => exact (hmemory _).go nofun
  | leave hp => exact h.goto _
  | take hp hx h0 => exact (h.goto _).setValue fun _ => Option.some_ne_none _

theorem handles (h : Present U v) (hh : Handles v v') : Present U v' := by
  have hmemory (m : Memory g) : Present U { v with memory := m } := ⟨h.value, h.waits⟩
  cases hh with
  | served hd => exact (hmemory _).raise _
  | failed hd => exact hmemory _

end Present

section Stops

variable {own : g.Shared} {pc : g.Pc} {semaphores : SemId → Option Int} {a : Abs (client g)} {U : Uses g}

theorem present_of_reachable (hU : ∀ s, U.used s → semaphores s ≠ none)
    (ha : (Abs.system (boot g own pc semaphores)).Reachable a) : Present U (view a) := by
  refine invariant ⟨hU, ?_⟩ (fun t a a' _ _ hstep h => h.step hstep) (fun v v' hh h => h.handles hh) ha
  intro t s pc' h
  have h' : (if t = mainThread then Place.outside pc else .gone) = .inP s pc' := h
  split at h' <;> cases h'

theorem semaphore_ne_none (hP : Present U (view a)) {s : SemId} (hs : U.used s) : a.semaphore (ownSemaphore s) ≠ none :=
  fun hnone => hP.value s hs (congrArg (Option.map Semaphore.value) hnone)

/-- The handlers do not take semaphores away. -/
theorem wakes_ne_none {c : Client} {ss : List SemId} {b b' : Abs c} (h : Abs.Wakes ss b b') {s : SemId} (hs : b.semaphore s ≠ none) :
    b'.semaphore s ≠ none := by
  induction h with
  | nil => exact hs
  | @cons s' ss b b' x hx h ih =>
    refine ih ?_
    rcases eq_or_ne s s' with rfl | hne
    · rw [Abs.setSemaphore_self]
      exact Option.some_ne_none _
    · rwa [Abs.setSemaphore_other b hne]

/-- Whatever semaphore is used is there. -/
theorem not_missing (hU : ∀ s, U.used s → semaphores s ≠ none) (ha : (Abs.system (boot g own pc semaphores)).Reachable a) :
    ¬a.Missing := by
  have hP := present_of_reachable hU ha
  have hmonitor (i : Nat) := Synch.not_missing (monitorOf_reachable ha i)
  rintro (⟨h, hcode, hcall, hs⟩ | ⟨h, hs⟩ | ⟨hd, h, hs⟩)
  · cases codes_of_code hcode with
    | @call _ _ _ call h' =>
      cases call with
      | p s =>
        rcases hcall with hcall | hcall <;> cases hcall
        exact semaphore_ne_none hP ((U.call h' s).1 (Or.inl rfl)) hs
      | v s =>
        rcases hcall with hcall | hcall <;> cases hcall
        exact semaphore_ne_none hP ((U.call h' s).1 (Or.inr rfl)) hs
      | _ => rcases hcall with hcall | hcall <;> cases hcall
    | enter => rcases hcall with hcall | hcall <;> cases hcall
    | @within i pc pc' next item monitor call hpc h' =>
      have hctl : (monitorOf i a).ctl _ = .run pc := (congrArg (ctlOf i) h).trans (ctlOf_run i pc next item)
      cases call with
      | p s =>
        rcases hcall with hcall | hcall <;> cases hcall
        exact hmonitor i (.call hctl h' (Or.inl rfl) hs)
      | v s =>
        rcases hcall with hcall | hcall <;> cases hcall
        exact hmonitor i (.call hctl h' (Or.inr rfl) hs)
      | _ => rcases hcall with hcall | hcall <;> cases hcall
    | leave => rcases hcall with hcall | hcall <;> cases hcall
  · rename_i t s pt
    have howns := named_of_reachable ha t s pt h
    cases pt with
    | outside pc =>
      obtain ⟨s', rfl⟩ := howns
      exact semaphore_ne_none hP (hP.waits t s' pc ((congrArg placeOf h).trans (placeOf_inP s' pc))) hs
    | inside i pc next item =>
      obtain ⟨s', rfl⟩ := howns
      have hctl : (monitorOf i a).ctl t = .inP s' pc := (congrArg (ctlOf i) h).trans (ctlOf_inP i s' pc next item)
      exact hmonitor i (.retest hctl hs)
  · rename_i d before after s a'
    have hused : ∃ s', U.used s' ∧ s = ownSemaphore s' := by
      have hmem : s ∈ (device g a.shared d).2 := by
        show s ∈ ((client g).device a.shared d).2
        rw [hd]
        exact List.mem_append_right _ List.mem_cons_self
      unfold device at hmem
      cases hdev : g.device a.shared.own d with
      | ok r =>
        rw [hdev] at hmem
        obtain ⟨s', hs', rfl⟩ := List.mem_map.1 hmem
        exact ⟨s', U.device hdev s' hs', rfl⟩
      | error e =>
        rw [hdev] at hmem
        cases hmem
    obtain ⟨s', hs', rfl⟩ := hused
    exact wakes_ne_none h (semaphore_ne_none hP hs') hs

end Stops

end Guarded

namespace Kernel

open Guarded

variable {g : Code} {own : g.Shared} {pc : g.Pc} {semaphores : SemId → Option Int} {k : Kernel (client g)}

/-- The place of each thread, the values of the semaphores of the code, and the memory. -/
abbrev guarded (k : Kernel (client g)) : Guarded.View g := Guarded.view k.abs

/-- The code outside of the monitors fails. -/
def CodeFails (k : Kernel (client g)) (ch : Choice (client g)) (e : Fault) : Prop :=
  ∃ pc, k.guarded.place k.currentThread = .outside pc ∧ g.code k.currentThread k.shared.own pc ch.input.own = .error e

/-- An operation fails. -/
def OperationFails (k : Kernel (client g)) (ch : Choice (client g)) (e : Fault) : Prop :=
  ∃ i pc next item, k.abs.ctl k.currentThread = .run (.inside i pc next item) ∧
    Synch.code g.ops k.currentThread (k.shared.monitor i) pc { op := .none, fresh := ch.input.fresh } = .error e

/-- The semaphores that are used are there at the start. -/
theorem ne_none_of_used {used : SemId → Prop} {_ : DecidablePred used} (x : Int) (s : SemId) (hs : used s) :
    (if used s then some x else none) ≠ none := by
  rw [if_pos hs]
  exact Option.some_ne_none x

/-- How a step fails. -/
theorem guarded_fails {U : Uses g} (hU : ∀ s, U.used s → semaphores s ≠ none)
    (hk : (system (boot g own pc semaphores)).Reachable k) {ch : Choice (client g)} (hallowed : k.AllowedStep ch) {e : Fault}
    (he : k.step ch = .error e) : e = .halted ∨ k.CodeFails ch e ∨ k.OperationFails ch e := by
  rcases (step_ends (good_of_reachable hk) hallowed).of_error he with (h | ⟨-, a, hreach, hmiss⟩) | ⟨pt, rest, hst, hcode⟩
  · exact Or.inl h
  · exact absurd hmiss (not_missing hU ((abs_reachable hk).steps hreach))
  · refine Or.inr ?_
    cases pt with
    | outside pc =>
      refine Or.inl ⟨pc, congrArg placeOf (abs_ctl_current hst), ?_⟩
      cases hg : g.code k.currentThread k.shared.own pc ch.input.own with
      | error e' =>
        change (g.code k.currentThread k.shared.own pc ch.input.own >>= _) = .error e at hcode
        rw [hg] at hcode
        cases hcode
        rfl
      | ok r =>
        obtain ⟨own', request⟩ := r
        change (g.code k.currentThread k.shared.own pc ch.input.own >>= _) = .error e at hcode
        rw [hg] at hcode
        cases request <;> cases hcode
    | inside i pc next item =>
      refine Or.inr ⟨i, pc, next, item, abs_ctl_current hst, ?_⟩
      by_cases hpc : pc = .user
      · subst hpc
        cases hcode
      · have hcode' := (code_inside k.currentThread k.shared hpc next item ch.input).symm.trans hcode
        cases hs : Synch.code g.ops k.currentThread (k.shared.monitor i) pc { op := .none, fresh := ch.input.fresh } with
        | error e' =>
          rw [hs] at hcode'
          cases hcode'
          rfl
        | ok r =>
          rw [hs] at hcode'
          cases hcode'

/-- Code that only uses locks fails in no operation on them. -/
theorem not_operationFails {S : Sections g} (hH : Held S k.guarded) {ch : Choice (client g)} {e : Fault} : ¬k.OperationFails ch e := by
  rintro ⟨i, pc, next, item, hctl, hcode⟩
  have hplace : k.guarded.place k.currentThread = .inside i pc next item := congrArg placeOf hctl
  have ht := hH k.currentThread
  rw [hplace] at ht
  obtain ⟨-, hwhy⟩ := Synch.code_error hcode
  cases ht with
  | acquiring hpc hnext => rcases hpc with rfl | rfl <;> cases hcode
  | acquired hnext h =>
    rcases hwhy with ⟨h, -⟩ | ⟨s, f, h, -⟩ | ⟨item, h, -⟩ <;> cases h
  | releasing hpc hnext h =>
    rcases hpc with rfl | rfl
    · rcases hwhy with ⟨-, hnot⟩ | ⟨s, f, h, -⟩ | ⟨item, h, -⟩
      · exact hnot h
      · cases h
      · cases h
    · cases hcode
  | released hpc hnext =>
    rcases hpc with rfl | rfl
    · cases hcode
    · rcases hwhy with ⟨h, -⟩ | ⟨s, f, h, -⟩ | ⟨item, h, -⟩ <;> cases h

end Kernel

end Nachos
