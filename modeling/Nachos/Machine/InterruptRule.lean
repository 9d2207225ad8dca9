import Nachos.Machine.InterruptOrder

/-!
# A rule for what the handlers keep

Between two operations nothing is due; when the clock advances, what has become due fires, and is late by less than a tick of the system.
So a property of the queue and the devices holds in every state if it holds at the start, and is kept by each operation and by the
firing of one interrupt.
-/

namespace Nachos

open Loop

namespace Interrupt

variable {World : Type} {d : Devices World} {s s' : Interrupt d}

/-! ## Requests -/

/-- What calls of `Schedule` do: the queue has one more entry for each of them. -/
structure Requested (requests : List (d.Obj × Int × IntType)) (s s' : Interrupt d) : Prop where
  inOrder : InOrder s'
  entries : ∃ new, s'.pending.Perm (s.pending ++ new) ∧
    new.map (fun e => (e.callOnInterrupt, e.when)) = requests.map fun r => (r.1, s.totalTicks + r.2.1)
  world : s'.world = s.world
  fired : s'.fired = s.fired
  totalTicks : s'.totalTicks = s.totalTicks
  level : s'.level = s.level

theorem schedule_requested (hi : InOrder s) (toCall : d.Obj) {fromNow : Int} (hpos : 0 < fromNow) (type : IntType) :
    ∃ s', s.schedule toCall fromNow type = .ok s' ∧ Requested [(toCall, fromNow, type)] s s' := by
  have hfresh : (⟨s.allocated, toCall, s.totalTicks + fromNow, type⟩ : PendingInterrupt d.Obj) ∉ s.pending := by
    intro hmem
    exact Nat.lt_irrefl _ (hi.addr _ (List.mem_append_right _ hmem))
  have hs : s.schedule toCall fromNow type = .ok { s with
      pending := s.pending.orderedInsert (fun x y => pendingCompare x y < 0) ⟨s.allocated, toCall, s.totalTicks + fromNow, type⟩
      allocated := s.allocated + 1 } := by
    unfold schedule
    dsimp only
    rw [assert_of hpos, ok_bind, SortedList.insert_of_not_mem _ hfresh]
    rfl
  refine ⟨_, hs, hi.schedule hs, ⟨[⟨s.allocated, toCall, s.totalTicks + fromNow, type⟩], ?_, rfl⟩, rfl, rfl, rfl, rfl⟩
  exact (List.perm_orderedInsert _ _ _).trans (List.perm_append_singleton _ _).symm

theorem Requested.nil (hi : InOrder s) : Requested [] s s := ⟨hi, ⟨[], by simp, rfl⟩, rfl, rfl, rfl, rfl⟩

theorem Requested.cons {r : d.Obj × Int × IntType} {requests : List (d.Obj × Int × IntType)} {s₁ : Interrupt d}
    (h : Requested [r] s s₁) (h' : Requested requests s₁ s') : Requested (r :: requests) s s' := by
  obtain ⟨new, hnew, hmap⟩ := h.entries
  obtain ⟨new', hnew', hmap'⟩ := h'.entries
  refine ⟨h'.inOrder, ⟨new ++ new', ?_, ?_⟩, h'.world.trans h.world, h'.fired.trans h.fired, h'.totalTicks.trans h.totalTicks,
    h'.level.trans h.level⟩
  · rw [← List.append_assoc]
    exact hnew'.trans (hnew.append_right new')
  · rw [List.map_append, hmap, hmap', h.totalTicks]
    rfl

theorem foldlM_requested {requests : List (d.Obj × Int × IntType)} (hpos : ∀ r ∈ requests, 0 < r.2.1) :
    ∀ {s : Interrupt d}, InOrder s →
      ∃ s', requests.foldlM (fun s (toCall, fromNow, type) => s.schedule toCall fromNow type) s = .ok s' ∧ Requested requests s s' := by
  induction requests with
  | nil => exact fun hi => ⟨_, rfl, .nil hi⟩
  | cons r requests ih =>
    intro s hi
    obtain ⟨toCall, fromNow, type⟩ := r
    obtain ⟨s₁, hs₁, hr⟩ := schedule_requested hi toCall (hpos _ List.mem_cons_self) type
    obtain ⟨s', hs', hr'⟩ := ih (fun r hr => hpos r (List.mem_cons_of_mem _ hr)) hr.inOrder
    refine ⟨s', ?_, hr.cons hr'⟩
    rw [List.foldlM_cons]
    show (s.schedule toCall fromNow type >>= _) = _
    rw [hs₁]
    exact hs'

/-! ## Firing -/

/-- The devices schedule interrupts for later times only. -/
def Positive (d : Devices World) : Prop := ∀ o w, ∀ r ∈ (d.callBack o w).scheduled, 0 < r.2.1

/-- No pending interrupt is late by a tick of the system. -/
def Prompt (s : Interrupt d) : Prop := ∀ e ∈ s.pending, s.totalTicks < e.when + systemTick

/-- The queue with its first entry taken out. -/
def popped (s : Interrupt d) (next : PendingInterrupt d.Obj) (rest : List (PendingInterrupt d.Obj)) : Interrupt d :=
  { s with
    pending := rest
    world := (d.callBack next.callOnInterrupt s.world).world
    fired := s.fired ++ [(next, s.totalTicks)]
    yieldOnReturn := s.yieldOnReturn || (d.callBack next.callOnInterrupt s.world).yields }

/-- One round of the loop of `CheckIfDue` goes through: the first entry fires. -/
theorem fire_requested (hd : Positive d) (hi : InOrder s) {next : PendingInterrupt d.Obj} {rest : List (PendingInterrupt d.Obj)}
    (hp : s.pending = next :: rest) (hdue : next.when ≤ s.totalTicks) :
    ∃ s', s.fire = .ok s' ∧ Requested (d.callBack next.callOnInterrupt s.world).scheduled (s.popped next rest) s' := by
  have hlist : (s.fired ++ [(next, s.totalTicks)]).map Prod.fst ++ rest = s.fired.map Prod.fst ++ s.pending := by
    rw [hp, List.map_append, List.append_assoc]
    rfl
  have hi₁ : InOrder (s.popped next rest) := by
    refine ⟨?_, ?_, ?_, ?_⟩
    · show ((s.fired ++ [(next, s.totalTicks)]).map Prod.fst ++ rest).Pairwise _
      rw [hlist]
      exact hi.order
    · show ∀ e ∈ (s.fired ++ [(next, s.totalTicks)]).map Prod.fst ++ rest, _
      rw [hlist]
      exact hi.addr
    · show (((s.fired ++ [(next, s.totalTicks)]).map Prod.fst ++ rest).map _).Nodup
      rw [hlist]
      exact hi.distinct
    · intro f hf
      obtain hf | hf := List.mem_append.1 hf
      · exact hi.firedDue f hf
      · obtain rfl := List.mem_singleton.1 hf
        exact ⟨hdue, le_refl _⟩
  obtain ⟨s', hs', hr⟩ := foldlM_requested (hd next.callOnInterrupt s.world) hi₁
  refine ⟨s', ?_, hr⟩
  unfold fire
  rw [hp]
  exact hs'

/-- What `Requested` leaves prompt. -/
theorem Prompt.requested {requests : List (d.Obj × Int × IntType)} (hpos : ∀ r ∈ requests, 0 < r.2.1) (h : Prompt s)
    (hr : Requested requests s s') : Prompt s' := by
  obtain ⟨new, hnew, hmap⟩ := hr.entries
  intro e he
  rw [hr.totalTicks]
  obtain he | he := List.mem_append.1 (hnew.mem_iff.1 he)
  · exact h e he
  · have hmem : (e.callOnInterrupt, e.when) ∈ requests.map fun r => (r.1, s.totalTicks + r.2.1) := by
      rw [← hmap]
      exact List.mem_map_of_mem he
    obtain ⟨r, hr', heq⟩ := List.mem_map.1 hmem
    have hlater := hpos r hr'
    have hwhen : s.totalTicks + r.2.1 = e.when := (Prod.mk.inj heq).2
    show s.totalTicks < e.when + 10
    omega

/-! ## The rule -/

/-- A property of the queue, its history, the clock and the devices, which the firing of an interrupt keeps. -/
structure Kept (J : Interrupt d → Prop) : Prop where
  congr : ∀ s s', J s → SameQueue s s' → s'.world = s.world → s.totalTicks ≤ s'.totalTicks → J s'
  fire : ∀ s s' next rest, J s → s.pending = next :: rest → next.when ≤ s.totalTicks → Prompt s →
    Requested (d.callBack next.callOnInterrupt s.world).scheduled (s.popped next rest) s' → J s'

/-- A state between two operations. -/
structure Settled (J : Interrupt d → Prop) (s : Interrupt d) : Prop where
  inOrder : InOrder s
  noneDue : NoneDue s
  holds : J s

variable {J : Interrupt d → Prop}

theorem drain_kept (hd : Positive d) (hJ : Kept J) {n : Nat} : ∀ {s : Interrupt d}, InOrder s → Prompt s → J s →
    ∀ {next rest}, s.pending = next :: rest → next.when ≤ s.totalTicks → ∃ s', drain n s = .ok s' ∧ J s' := by
  induction n with
  | zero => exact fun _ _ hj _ _ _ _ => ⟨_, rfl, hj⟩
  | succ n ih =>
    intro s hi hprompt hj next rest hp hdue
    obtain ⟨s₁, hs₁, hr⟩ := fire_requested hd hi hp hdue
    have hj₁ := hJ.fire s s₁ next rest hj hp hdue hprompt hr
    have hpop : Prompt (s.popped next rest) := fun e he => hprompt e (by rw [hp]; exact List.mem_cons_of_mem _ he)
    have hprompt₁ := hpop.requested (hd next.callOnInterrupt s.world) hr
    unfold drain
    rw [hs₁, ok_bind]
    cases hp₁ : s₁.pending with
    | nil => exact ⟨s₁, rfl, hj₁⟩
    | cons next₁ rest₁ =>
      dsimp only
      split
      · rename_i hdue₁
        exact ih hr.inOrder hprompt₁ hj₁ hp₁ hdue₁
      · exact ⟨s₁, rfl, hj₁⟩

/-- `CheckIfDue` with interrupts off goes through, and fires something exactly when it finds or makes something due. -/
theorem checkIfDue_kept (hd : Positive d) (hJ : Kept J) (hi : InOrder s) (hprompt : Prompt s) (hj : J s) (hoff : s.level = .off)
    (advanceClock : Bool) : ∃ fired s', s.checkIfDue advanceClock = .ok (fired, s') ∧ Settled J s' ∧
      (advanceClock = true → s.pending ≠ [] → fired = true) := by
  have hgo : ∃ fired s', s.checkIfDue advanceClock = .ok (fired, s') ∧ J s' ∧ (fired = false → NoneDue s') ∧
      (advanceClock = true → s.pending ≠ [] → fired = true) := by
    unfold checkIfDue
    rw [assert_of hoff, ok_bind]
    cases hp : s.pending with
    | nil =>
      refine ⟨false, s, rfl, hj, fun _ e he => ?_, fun _ hne => absurd rfl hne⟩
      rw [hp] at he
      cases he
    | cons next rest =>
      dsimp only
      split
      · rename_i hlater
        refine ⟨false, s, rfl, hj, fun _ => hi.noneDue hp hlater.1, fun ha _ => ?_⟩
        rw [ha] at hlater
        cases hlater.2
      · by_cases hlater : next.when > s.totalTicks
        · rw [if_pos hlater]
          have hsorted := (List.pairwise_append.1 hi.order).2.1
          rw [hp] at hsorted
          have hprompt₀ : ∀ e ∈ s.pending, next.when < e.when + systemTick := by
            intro e he
            rw [hp] at he
            show next.when < e.when + 10
            obtain rfl | he := List.mem_cons.1 he
            · omega
            · have hbefore := (List.pairwise_cons.1 hsorted).1 e he
              unfold PendingInterrupt.Before at hbefore
              omega
          have hle : s.totalTicks ≤ next.when := le_of_lt hlater
          have hq : SameQueue s { s with
              idleTicks := s.idleTicks + (next.when - s.totalTicks), totalTicks := next.when, inHandler := true } := ⟨rfl, rfl, rfl⟩
          obtain ⟨s₁, hs₁, hj₁⟩ := drain_kept hd hJ (n := s.pending.length) (hi.advance hq hle) hprompt₀
            (hJ.congr _ _ hj hq rfl hle) hp (le_refl _)
          rw [← hp, hs₁, ok_bind]
          exact ⟨true, _, rfl, hJ.congr _ _ hj₁ ⟨rfl, rfl, rfl⟩ rfl (le_refl _), nofun, fun _ _ => rfl⟩
        · rw [if_neg hlater]
          have hq : SameQueue s { s with inHandler := true } := ⟨rfl, rfl, rfl⟩
          obtain ⟨s₁, hs₁, hj₁⟩ := drain_kept hd hJ (n := s.pending.length) (hi.advance hq (le_refl _))
            hprompt (hJ.congr _ _ hj hq rfl (le_refl _)) hp (Int.not_lt.1 hlater)
          rw [← hp, hs₁, ok_bind]
          exact ⟨true, _, rfl, hJ.congr _ _ hj₁ ⟨rfl, rfl, rfl⟩ rfl (le_refl _), nofun, fun _ _ => rfl⟩
  obtain ⟨fired, s', hs', hj', hnone, hfired⟩ := hgo
  obtain ⟨hi', hcases⟩ := hi.checkIfDue hs'
  refine ⟨fired, s', hs', ⟨hi', ?_, hj'⟩, hfired⟩
  obtain ⟨hf, -⟩ | ⟨-, hn, -⟩ := hcases
  · exact hnone hf
  · exact hn

/-- A state that differs in other things only. -/
theorem Settled.congr (hJ : Kept J) (h : Settled J s) (hq : SameQueue s s') (hw : s'.world = s.world)
    (ht : s'.totalTicks = s.totalTicks) : Settled J s' := by
  refine ⟨h.inOrder.advance hq ht.ge, ?_, hJ.congr _ _ h.holds hq hw ht.ge⟩
  unfold NoneDue
  rw [hq.pending, ht]
  exact h.noneDue

theorem Settled.oneTick (hd : Positive d) (hJ : Kept J) (h : Settled J s) : ∃ s', s.oneTick = .ok s' ∧ Settled J s' := by
  have htick (n : Int) (hn : 0 ≤ n ∧ n ≤ systemTick) (s₀ : Interrupt d) (hq : SameQueue s s₀) (hw : s₀.world = s.world)
      (ht : s₀.totalTicks = s.totalTicks + n) : ∃ fired s', (s₀.changeLevel .off).checkIfDue false = .ok (fired, s') ∧ Settled J s' := by
    have hle : s.totalTicks ≤ s₀.totalTicks := by omega
    have hq' : SameQueue s (s₀.changeLevel .off) := ⟨hq.pending, hq.fired, hq.allocated⟩
    have hprompt : Prompt (s₀.changeLevel .off) := by
      intro e he
      have hlater := h.noneDue e (by rw [← hq.pending]; exact he)
      show s₀.totalTicks < e.when + systemTick
      omega
    obtain ⟨fired, s', hs', hset, -⟩ := checkIfDue_kept hd hJ (h.inOrder.advance hq' hle) hprompt
      (hJ.congr _ _ h.holds hq' hw hle) rfl false
    exact ⟨fired, s', hs', hset⟩
  have hend (s₁ : Interrupt d) (h₁ : Settled J s₁) : ∃ s', (if (s₁.changeLevel .on).yieldOnReturn then
      Except.ok (ε := Fault) { s₁.changeLevel .on with yieldOnReturn := false, status := .system } else .ok (s₁.changeLevel .on)) = .ok s' ∧
        Settled J s' := by
    split <;> exact ⟨_, rfl, h₁.congr hJ ⟨rfl, rfl, rfl⟩ rfl rfl⟩
  unfold Interrupt.oneTick
  dsimp only
  split
  · obtain ⟨fired, s₁, hs₁, h₁⟩ := htick systemTick (by decide)
      { s with totalTicks := s.totalTicks + systemTick, systemTicks := s.systemTicks + systemTick } ⟨rfl, rfl, rfl⟩ rfl rfl
    rw [hs₁, ok_bind]
    exact hend s₁ h₁
  · obtain ⟨fired, s₁, hs₁, h₁⟩ := htick userTick (by decide)
      { s with totalTicks := s.totalTicks + userTick, userTicks := s.userTicks + userTick } ⟨rfl, rfl, rfl⟩ rfl rfl
    rw [hs₁, ok_bind]
    exact hend s₁ h₁

theorem Settled.setLevel (hd : Positive d) (hJ : Kept J) (h : Settled J s) {now : IntStatus} (hs : s.setLevel now = .ok s') :
    Settled J s' := by
  unfold Interrupt.setLevel at hs
  obtain ⟨-, hs⟩ := of_assert_bind hs
  have h₁ : Settled J (s.changeLevel now) := h.congr hJ ⟨rfl, rfl, rfl⟩ rfl rfl
  split at hs
  · obtain ⟨s₁, hs₁, hset⟩ := h₁.oneTick hd hJ
    obtain rfl := Except.ok.inj (hs.symm.trans hs₁)
    exact hset
  · cases hs
    exact h₁

/-- `Idle` returns when something is pending. -/
theorem Settled.idle (hd : Positive d) (hJ : Kept J) (h : Settled J s) (hoff : s.level = .off) (hp : s.pending ≠ []) :
    ∃ s', s.idle = .ok s' ∧ Settled J s' := by
  have hprompt : Prompt s := by
    intro e he
    have hlater := h.noneDue e he
    show s.totalTicks < e.when + 10
    omega
  have hq : SameQueue s { s with status := .idle } := ⟨rfl, rfl, rfl⟩
  obtain ⟨fired, s₁, hs₁, h₁, hfired⟩ := checkIfDue_kept hd hJ (h.inOrder.advance hq (le_refl _)) hprompt
    (hJ.congr _ _ h.holds hq rfl (le_refl _)) hoff true
  obtain rfl := hfired rfl hp
  unfold Interrupt.idle
  rw [hs₁, ok_bind]
  exact ⟨_, rfl, h₁.congr hJ ⟨rfl, rfl, rfl⟩ rfl rfl⟩

/-- A call of `Schedule` that returns. -/
theorem Settled.schedule (h : Settled J s) {toCall : d.Obj} {fromNow : Int} {type : IntType}
    (hs : s.schedule toCall fromNow type = .ok s') : Requested [(toCall, fromNow, type)] s s' ∧ NoneDue s' := by
  obtain ⟨hpos, -⟩ := of_schedule_ok hs
  obtain ⟨s₁, hs₁, hr⟩ := schedule_requested h.inOrder toCall hpos type
  obtain rfl := Except.ok.inj (hs.symm.trans hs₁)
  refine ⟨hr, ?_⟩
  obtain ⟨new, hnew, hmap⟩ := hr.entries
  obtain ⟨e', rfl⟩ : ∃ e', new = [e'] := List.length_eq_one_iff.1 (by simpa using congrArg List.length hmap)
  have hwhen : e'.when = s.totalTicks + fromNow := by simpa using congrArg (List.map Prod.snd) hmap
  intro e he
  rw [hr.totalTicks]
  obtain he | he := List.mem_append.1 (hnew.mem_iff.1 he)
  · exact h.noneDue e he
  · obtain rfl := List.mem_singleton.1 he
    omega

end Interrupt

end Nachos
