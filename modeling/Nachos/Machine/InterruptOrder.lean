import Nachos.Machine.Interrupt

/-!
# Interrupts fire once, in order, and not too early

The interrupts that have fired, followed by those that are pending, are always in the order of their times, and of their scheduling
where the times are equal. A new interrupt is later than the clock, and everything that has fired is not; so it finds its place
among those that are pending, behind all of the same time.
-/

namespace Nachos

open Loop

/-- The order of delivery: by time, then by scheduling. -/
def PendingInterrupt.Before {Obj : Type} (e e' : PendingInterrupt Obj) : Prop :=
  e.when < e'.when ∨ e.when = e'.when ∧ e.addr < e'.addr

namespace Interrupt

variable {World : Type} {d : Devices World} {s s' : Interrupt d}

open PendingInterrupt (Before)

/-- What is kept by every operation. -/
structure InOrder (s : Interrupt d) : Prop where
  order : (s.fired.map Prod.fst ++ s.pending).Pairwise Before
  addr : ∀ e ∈ s.fired.map Prod.fst ++ s.pending, e.addr < s.allocated
  distinct : ((s.fired.map Prod.fst ++ s.pending).map PendingInterrupt.addr).Nodup
  firedDue : ∀ f ∈ s.fired, f.1.when ≤ f.2 ∧ f.2 ≤ s.totalTicks

/-- The pending interrupts that are due. -/
def due (s : Interrupt d) : List (PendingInterrupt d.Obj) := s.pending.filter fun e => e.when ≤ s.totalTicks

/-- Nothing is due. -/
def NoneDue (s : Interrupt d) : Prop := ∀ e ∈ s.pending, s.totalTicks < e.when

theorem before_trans {Obj : Type} (a b c : PendingInterrupt Obj) (h : Before a b) (h' : Before b c) : Before a c := by
  unfold Before at *
  omega

theorem pendingCompare_neg {Obj : Type} {x y : PendingInterrupt Obj} : pendingCompare x y < 0 ↔ x.when < y.when := by
  unfold pendingCompare
  split
  · simp [*]
  · split <;> simp [*]

/-! ## Scheduling -/

/-- What `Schedule` does when it returns. -/
theorem of_schedule_ok {toCall : d.Obj} {fromNow : Int} {type : IntType} (h : s.schedule toCall fromNow type = .ok s') :
    0 < fromNow ∧ s' = { s with
      pending := s.pending.orderedInsert (fun x y => pendingCompare x y < 0) ⟨s.allocated, toCall, s.totalTicks + fromNow, type⟩
      allocated := s.allocated + 1 } := by
  unfold schedule assert at h
  split at h
  · rename_i hpos
    rw [ok_bind] at h
    obtain ⟨pending, hp, h⟩ := of_bind_ok h
    cases h
    exact ⟨hpos, by rw [SortedList.of_insert_ok hp]⟩
  · cases h

/-- A new interrupt is later than the clock, and finds its place behind those of the same time. -/
theorem InOrder.schedule (hi : InOrder s) {toCall : d.Obj} {fromNow : Int} {type : IntType}
    (h : s.schedule toCall fromNow type = .ok s') : InOrder s' := by
  obtain ⟨hpos, rfl⟩ := of_schedule_ok h
  obtain ⟨hfired, hpending, hcross⟩ := List.pairwise_append.1 hi.order
  have hmem {e : PendingInterrupt d.Obj} {item : PendingInterrupt d.Obj}
      (he : e ∈ s.pending.orderedInsert (fun x y => pendingCompare x y < 0) item) : e = item ∨ e ∈ s.pending :=
    (List.mem_orderedInsert _).1 he
  refine ⟨List.pairwise_append.2 ⟨hfired, ?_, ?_⟩, ?_, ?_, hi.firedDue⟩
  · refine SortedList.pairwise_orderedInsert before_trans hpending ?_ ?_
    · intro e _ hlt
      exact .inl (pendingCompare_neg.1 hlt)
    · intro e he hlt
      rw [pendingCompare_neg] at hlt
      have haddr := hi.addr e (List.mem_append_right _ he)
      dsimp only at hlt
      unfold Before
      dsimp only
      omega
  · intro e he e' he'
    obtain rfl | he' := hmem he'
    · obtain ⟨f, hf, rfl⟩ := List.mem_map.1 he
      obtain ⟨hdue, hnow⟩ := hi.firedDue f hf
      left
      dsimp only
      omega
    · exact hcross e he e' he'
  · intro e he
    dsimp only
    obtain he | he := List.mem_append.1 he
    · have haddr := hi.addr e (List.mem_append_left _ he)
      omega
    · obtain rfl | he := hmem he
      · exact Nat.lt_succ_self _
      · have haddr := hi.addr e (List.mem_append_right _ he)
        omega
  · -- the addresses are the old ones and a fresh one
    have hperm := (((List.perm_orderedInsert (fun x y => pendingCompare x y < 0)
      ⟨s.allocated, toCall, s.totalTicks + fromNow, type⟩ s.pending).append_left (s.fired.map Prod.fst)).trans
      List.perm_middle).map PendingInterrupt.addr
    refine hperm.nodup_iff.2 (List.nodup_cons.2 ⟨?_, hi.distinct⟩)
    intro hmem
    obtain ⟨e, he, heq⟩ := List.mem_map.1 hmem
    have haddr := hi.addr e he
    dsimp only at heq
    omega

/-- Calls of `Schedule`: nothing that was due changes, and nothing becomes due. -/
structure Scheduled (s s' : Interrupt d) : Prop where
  inOrder : InOrder s → InOrder s'
  totalTicks : s'.totalTicks = s.totalTicks
  due : s'.due.length = s.due.length
  fired : s'.fired = s.fired

theorem scheduled_of_schedule {toCall : d.Obj} {fromNow : Int} {type : IntType}
    (h : s.schedule toCall fromNow type = .ok s') : Scheduled s s' := by
  refine ⟨fun hi => hi.schedule h, ?_, ?_, ?_⟩
  · obtain ⟨_, rfl⟩ := of_schedule_ok h
    rfl
  · obtain ⟨hpos, rfl⟩ := of_schedule_ok h
    unfold Interrupt.due
    rw [((List.perm_orderedInsert _ _ _).filter _).length_eq, List.filter_cons_of_neg]
    simp only [decide_eq_true_eq]
    omega
  · obtain ⟨_, rfl⟩ := of_schedule_ok h
    rfl

/-- The calls of a handler. -/
theorem scheduled_of_foldlM (requests : List (d.Obj × Int × IntType)) :
    ∀ {s s' : Interrupt d}, requests.foldlM (fun s (toCall, fromNow, type) => s.schedule toCall fromNow type) s = .ok s' →
      Scheduled s s' := by
  induction requests with
  | nil =>
    rintro s s' ⟨⟩
    exact ⟨id, rfl, rfl, rfl⟩
  | cons r requests ih =>
    intro s s' h
    rw [List.foldlM_cons] at h
    obtain ⟨s₁, h₁, h⟩ := of_bind_ok h
    have hs := scheduled_of_schedule h₁
    have hs' := ih h
    exact ⟨fun hi => hs'.inOrder (hs.inOrder hi), hs'.totalTicks.trans hs.totalTicks, hs'.due.trans hs.due,
      hs'.fired.trans hs.fired⟩

/-! ## Firing -/

/-- One round of the loop: the first entry, which is due, fires. -/
theorem InOrder.fire (hi : InOrder s) {next : PendingInterrupt d.Obj} {rest : List (PendingInterrupt d.Obj)}
    (hp : s.pending = next :: rest) (hdue : next.when ≤ s.totalTicks) (h : s.fire = .ok s') :
    InOrder s' ∧ s'.totalTicks = s.totalTicks ∧ s'.due.length + 1 = s.due.length ∧
      s'.fired = s.fired ++ [(next, s.totalTicks)] := by
  unfold Interrupt.fire at h
  rw [hp] at h
  have hs := scheduled_of_foldlM _ h
  have hlist : (s.fired ++ [(next, s.totalTicks)]).map Prod.fst ++ rest = s.fired.map Prod.fst ++ s.pending := by
    rw [hp, List.map_append, List.append_assoc]
    rfl
  refine ⟨hs.inOrder ⟨?_, ?_, ?_, ?_⟩, hs.totalTicks, ?_, hs.fired⟩
  · rw [hlist]
    exact hi.order
  · rw [hlist]
    exact hi.addr
  · rw [hlist]
    exact hi.distinct
  · intro f hf
    obtain hf | hf := List.mem_append.1 hf
    · exact hi.firedDue f hf
    · obtain rfl := List.mem_singleton.1 hf
      exact ⟨hdue, le_refl _⟩
  · rw [hs.due]
    unfold Interrupt.due
    rw [hp, List.filter_cons_of_pos (by simpa using hdue)]
    rfl

/-- When the first entry is not due, nothing is. -/
theorem InOrder.noneDue (hi : InOrder s) {next : PendingInterrupt d.Obj} {rest : List (PendingInterrupt d.Obj)}
    (hp : s.pending = next :: rest) (hlater : s.totalTicks < next.when) : NoneDue s := by
  intro e he
  have hsorted := (List.pairwise_append.1 hi.order).2.1
  rw [hp] at he hsorted
  obtain rfl | he := List.mem_cons.1 he
  · exact hlater
  · have hbefore := (List.pairwise_cons.1 hsorted).1 e he
    unfold Before at hbefore
    omega

/-- The loop: it ends with nothing due, after at most as many rounds as entries were due. -/
theorem InOrder.drain {n : Nat} : ∀ {s s' : Interrupt d}, InOrder s → s.due.length ≤ n → ∀ {next rest}, s.pending = next :: rest →
    next.when ≤ s.totalTicks → drain n s = .ok s' →
    InOrder s' ∧ s'.totalTicks = s.totalTicks ∧ NoneDue s' ∧ s.fired.length < s'.fired.length := by
  induction n with
  | zero =>
    intro s s' hi hn next rest hp hdue h
    have hmem : next ∈ s.due := List.mem_filter.2 ⟨by rw [hp]; exact List.mem_cons_self, by simpa using hdue⟩
    have hpos := List.length_pos_of_mem hmem
    omega
  | succ n ih =>
    intro s s' hi hn next rest hp hdue h
    unfold Interrupt.drain at h
    obtain ⟨s₁, hfire, h⟩ := of_bind_ok h
    obtain ⟨hi₁, hticks, hcount, hfired⟩ := hi.fire hp hdue hfire
    have hlength : s.fired.length < s₁.fired.length := by
      rw [hfired, List.length_append]
      exact Nat.lt_succ_self _
    cases hp₁ : s₁.pending with
    | nil =>
      rw [hp₁] at h
      cases h
      refine ⟨hi₁, hticks, ?_, hlength⟩
      intro e he
      rw [hp₁] at he
      cases he
    | cons next₁ rest₁ =>
      rw [hp₁] at h
      dsimp only at h
      split at h
      · rename_i hdue₁
        obtain ⟨hi', hticks', hnone, hlength'⟩ := ih hi₁ (by omega) hp₁ hdue₁ h
        exact ⟨hi', hticks'.trans hticks, hnone, hlength.trans hlength'⟩
      · rename_i hlater
        cases h
        exact ⟨hi₁, hticks, hi₁.noneDue hp₁ (by omega), hlength⟩

/-- The queue and its history are the same. -/
structure SameQueue (s s' : Interrupt d) : Prop where
  pending : s'.pending = s.pending
  fired : s'.fired = s.fired
  allocated : s'.allocated = s.allocated

/-- Time may go by. -/
theorem InOrder.advance (hi : InOrder s) (hq : SameQueue s s') (hticks : s.totalTicks ≤ s'.totalTicks) : InOrder s' := by
  refine ⟨?_, ?_, ?_, ?_⟩
  · rw [hq.pending, hq.fired]
    exact hi.order
  · rw [hq.pending, hq.fired, hq.allocated]
    exact hi.addr
  · rw [hq.pending, hq.fired]
    exact hi.distinct
  · intro f hf
    rw [hq.fired] at hf
    obtain ⟨hdue, hnow⟩ := hi.firedDue f hf
    exact ⟨hdue, hnow.trans hticks⟩

/-- The end of `CheckIfDue`, with the first entry due. -/
theorem InOrder.drain_handlers (hi : InOrder s) {s₁ : Interrupt d} {next : PendingInterrupt d.Obj}
    {rest : List (PendingInterrupt d.Obj)} (hp : s.pending = next :: rest) (hdue : next.when ≤ s.totalTicks)
    (h : Interrupt.drain s.pending.length { s with inHandler := true } = .ok s₁) :
    InOrder { s₁ with inHandler := false } ∧ NoneDue s₁ ∧ s.fired.length < s₁.fired.length := by
  have hi₀ : InOrder { s with inHandler := true } := hi.advance ⟨rfl, rfl, rfl⟩ (le_refl _)
  obtain ⟨hi₁, _, hnone, hlength⟩ := hi₀.drain (List.length_filter_le _ _) hp hdue h
  exact ⟨hi₁.advance ⟨rfl, rfl, rfl⟩ (le_refl _), hnone, hlength⟩

/-- `CheckIfDue` fires what is due, or does nothing. -/
theorem InOrder.checkIfDue (hi : InOrder s) {advanceClock fired : Bool} (h : s.checkIfDue advanceClock = .ok (fired, s')) :
    InOrder s' ∧ (fired = false ∧ s' = s ∨ fired = true ∧ NoneDue s' ∧ s.fired.length < s'.fired.length) := by
  unfold Interrupt.checkIfDue assert at h
  split at h
  · rw [ok_bind] at h
    cases hp : s.pending with
    | nil =>
      rw [hp] at h
      cases h
      exact ⟨hi, .inl ⟨rfl, rfl⟩⟩
    | cons next rest =>
      rw [hp] at h
      dsimp only at h
      split at h
      · cases h
        exact ⟨hi, .inl ⟨rfl, rfl⟩⟩
      · obtain ⟨s₁, hdrain, h⟩ := of_bind_ok h
        cases h
        by_cases hlater : next.when > s.totalTicks
        · rw [if_pos hlater, ← hp] at hdrain
          have hi₀ : InOrder { s with idleTicks := s.idleTicks + (next.when - s.totalTicks), totalTicks := next.when } :=
            hi.advance ⟨rfl, rfl, rfl⟩ (le_of_lt hlater)
          obtain ⟨hi', hfired⟩ := hi₀.drain_handlers hp (le_refl _) hdrain
          exact ⟨hi', .inr ⟨rfl, hfired⟩⟩
        · rw [if_neg hlater] at hdrain
          obtain ⟨hi', hfired⟩ := hi.drain_handlers hp (by omega) hdrain
          exact ⟨hi', .inr ⟨rfl, hfired⟩⟩
  · cases h

/-! ## The operations -/

/-- What an operation leaves: the order, and nothing due if it fired anything. -/
structure Delivered (s s' : Interrupt d) : Prop where
  inOrder : InOrder s'
  noneDue : s'.fired ≠ s.fired → NoneDue s'

/-- A call of `CheckIfDue` among steps that leave the queue alone. -/
theorem InOrder.delivered (hi : InOrder s) {s₀ s₁ : Interrupt d} {advanceClock fired : Bool} (hq : SameQueue s s₀)
    (ht : s.totalTicks ≤ s₀.totalTicks) (h : s₀.checkIfDue advanceClock = .ok (fired, s₁)) (hq' : SameQueue s₁ s')
    (ht' : s'.totalTicks = s₁.totalTicks) : Delivered s s' := by
  obtain ⟨hi₁, hfired⟩ := (hi.advance hq ht).checkIfDue h
  refine ⟨hi₁.advance hq' ht'.ge, ?_⟩
  intro hne
  obtain ⟨_, rfl⟩ | ⟨_, hnone, _⟩ := hfired
  · exact (hne (hq'.fired.trans hq.fired)).elim
  · unfold NoneDue
    rw [hq'.pending, ht']
    exact hnone

/-- What leaves the queue alone delivers nothing. -/
theorem InOrder.quiet (hi : InOrder s) (hq : SameQueue s s') (ht : s.totalTicks ≤ s'.totalTicks) : Delivered s s' :=
  ⟨hi.advance hq ht, fun hne => (hne hq.fired).elim⟩

theorem InOrder.oneTick (hi : InOrder s) (h : s.oneTick = .ok s') : Delivered s s' := by
  unfold Interrupt.oneTick at h
  obtain ⟨⟨fired, s₁⟩, hcheck, h⟩ := of_bind_ok h
  dsimp only at h
  refine hi.delivered ?_ ?_ hcheck ?_ ?_
  · split <;> exact ⟨rfl, rfl, rfl⟩
  · split
    · exact Int.le_add_of_nonneg_right (by decide)
    · exact Int.le_add_of_nonneg_right (by decide)
  · split at h <;> cases h <;> exact ⟨rfl, rfl, rfl⟩
  · split at h <;> cases h <;> rfl

theorem InOrder.setLevel (hi : InOrder s) {now : IntStatus} (h : s.setLevel now = .ok s') : Delivered s s' := by
  unfold Interrupt.setLevel at h
  obtain ⟨_, _, h⟩ := of_bind_ok h
  have hq : SameQueue s (s.changeLevel now) := ⟨rfl, rfl, rfl⟩
  split at h
  · obtain ⟨hi', hnone⟩ := (hi.advance hq (le_refl _)).oneTick h
    exact ⟨hi', hnone⟩
  · cases h
    exact hi.quiet hq (le_refl _)

theorem InOrder.idle (hi : InOrder s) (h : s.idle = .ok s') : Delivered s s' := by
  unfold Interrupt.idle at h
  obtain ⟨⟨fired, s₁⟩, hcheck, h⟩ := of_bind_ok h
  dsimp only at h
  refine hi.delivered ?_ ?_ hcheck ?_ ?_
  · exact ⟨rfl, rfl, rfl⟩
  · exact le_refl _
  · split at h <;> cases h
    exact ⟨rfl, rfl, rfl⟩
  · split at h <;> cases h
    rfl

/-- Every operation keeps the order. -/
theorem InOrder.perform (hi : InOrder s) {op : Operation d} (h : s.perform op = .ok s') : Delivered s s' := by
  cases op with
  | schedule toCall fromNow type =>
    refine ⟨hi.schedule h, ?_⟩
    intro hne
    exact (hne (scheduled_of_schedule h).fired).elim
  | oneTick => exact hi.oneTick h
  | setLevel now => exact hi.setLevel h
  | idle => exact hi.idle h
  | resume world status =>
    cases h
    exact hi.quiet ⟨rfl, rfl, rfl⟩ (le_refl _)

/-! ## Runs -/

theorem inOrder_of_reachable (h : (system d).Reachable s) : InOrder s := by
  refine h.invariant ?_ ?_
  · rintro _ ⟨world, rfl⟩
    exact ⟨.nil, fun e he => (List.not_mem_nil he).elim, .nil, fun f hf => (List.not_mem_nil hf).elim⟩
  · rintro s s' _ hi ⟨op, hop⟩
    exact (hi.perform hop).inOrder

/-- Interrupts are delivered in order: each fires at most once and is not pending any more, none fires before its time, they fire in
the order of their times and, for equal times, of their scheduling, and when an operation has fired any, nothing is due after it. -/
theorem interrupts_in_order (h : (system d).Reachable s) :
    (s.fired.map (·.1.addr) ++ s.pending.map (·.addr)).Nodup ∧
      (∀ f ∈ s.fired, f.1.when ≤ f.2) ∧
      (s.fired.map Prod.fst).Pairwise Before ∧
      ∀ op s', s.perform op = .ok s' → s'.fired ≠ s.fired → ∀ e ∈ s'.pending, s'.totalTicks < e.when := by
  have hi := inOrder_of_reachable h
  refine ⟨?_, fun f hf => (hi.firedDue f hf).1, (List.pairwise_append.1 hi.order).1, fun op s' hop => (hi.perform hop).noneDue⟩
  have hdistinct := hi.distinct
  rw [List.map_append, List.map_map] at hdistinct
  exact hdistinct

/-- Operations one after the other. -/
theorem reachable_of_performs (ops : List (Operation d)) (h : (system d).Reachable s) (hops : ops.foldlM perform s = .ok s') :
    (system d).Reachable s' := by
  induction ops generalizing s with
  | nil =>
    cases hops
    exact h
  | cons op ops ih =>
    rw [List.foldlM_cons] at hops
    obtain ⟨s₁, hop, hops⟩ := of_bind_ok hops
    exact ih (h.step ⟨op, hop⟩) hops

/-- A timer, which schedules itself again and asks for a yield, and a device that does nothing. -/
def timerAndDevice : Devices Unit where
  Obj := Bool
  callBack timer _ := { world := (), scheduled := if timer then [(true, 100, .timer)] else [], yields := timer }

/-- Two interrupts for the same time, and one scheduled after them for an earlier time. -/
theorem interrupts_in_order_timer : ∃ s : Interrupt timerAndDevice, (system timerAndDevice).Reachable s ∧
    s.fired.map (fun f => (f.1.addr, f.2)) = [(2, 10), (0, 10), (1, 10), (3, 110)] ∧
    (s.fired.map Prod.fst).Pairwise Before := by
  have hreach : (system timerAndDevice).Reachable _ :=
    reachable_of_performs [.schedule true 10 .timer, .schedule false 10 .disk, .schedule false 5 .consoleRead, .oneTick,
      .setLevel .off, .idle] (.init ⟨(), rfl⟩) rfl
  exact ⟨_, hreach, rfl, (interrupts_in_order hreach).2.2.1⟩

end Interrupt

end Nachos
