import Nachos.Machine.DueLoop
import Nachos.Machine.InterruptOrder

/-!
# When the loop that fires what is due ends

A handler that schedules an interrupt puts it behind all that are due, unless its time wraps around: then it is due at once, and the loop
does not end before it has fired it. `Queue` is what the list keeps, wrapped times included; `Stray` is an entry that should not be due.
-/

namespace Nachos

namespace IntTicks

open Loop Bytes
open Interrupt (pendingCompare_neg)

variable {World : Type} {d : Devices World} {s s' : Interrupt d}

/-- Every handler asks for a time in the future, as an `int`. -/
def Positive (d : Devices World) : Prop :=
  ∀ toCall world, ∀ r ∈ (d.callBack toCall world).scheduled, 0 < r.2.1 ∧ r.2.1 ≤ 2147483647

/-- The clock of a call of `CheckIfDue`, as the call advances it. -/
def clock (s : Interrupt d) (advanceClock : Bool) : Int :=
  match s.pending with
  | [] => s.totalTicks
  | next :: _ => if next.when > s.totalTicks ∧ advanceClock = true then next.when else s.totalTicks

/-- The requests of a handler, none of which wraps around. -/
def Fits (now : Int) (requests : List (d.Obj × Int × IntType)) : Prop := ∀ r ∈ requests, now + r.2.1 ≤ 2147483647

/-- No handler of these entries, called one after the other, asks for a time that wraps around. -/
def AllFit (now : Int) : List (PendingInterrupt d.Obj) → World → Prop
  | [], _ => True
  | next :: rest, world =>
    Fits now (d.callBack next.callOnInterrupt world).scheduled ∧ AllFit now rest (d.callBack next.callOnInterrupt world).world

/-- The call of `CheckIfDue` ends, and has fired the entries that were pending and due, and no others. -/
def FiresDue (s : Interrupt d) (advanceClock : Bool) : Prop :=
  ∃ n fired s', checkIfDue n s advanceClock = .ok (some (fired, s')) ∧ s'.totalTicks = clock s advanceClock ∧
    s'.fired = s.fired ++ (s.pending.filter fun e => e.when ≤ clock s advanceClock).map fun e => (e, clock s advanceClock)

/-! ## The list -/

/-- What holds of the list between two rounds. -/
structure Queue (s : Interrupt d) : Prop where
  ticks : 0 ≤ s.totalTicks ∧ s.totalTicks ≤ 2147483647
  sorted : s.pending.Pairwise fun x y => x.when ≤ y.when
  addr : ∀ e ∈ s.pending, e.addr < s.allocated

/-- An entry that is due, although it was allocated late. -/
def Stray (a : Nat) (s : Interrupt d) : Prop := ∃ e ∈ s.due, a ≤ e.addr

/-- The entries that are due come first. -/
theorem Queue.due_cons (hq : Queue s) {next : PendingInterrupt d.Obj} {l : List (PendingInterrupt d.Obj)} (h : s.due = next :: l) :
    ∃ rest, s.pending = next :: rest ∧ next.when ≤ s.totalTicks ∧ rest.filter (fun e => e.when ≤ s.totalTicks) = l := by
  unfold Interrupt.due at h
  have hsorted := hq.sorted
  cases hp : s.pending with
  | nil =>
    rw [hp] at h
    cases h
  | cons e rest =>
    rw [hp] at h hsorted
    by_cases he : e.when ≤ s.totalTicks
    · rw [List.filter_cons_of_pos (by simpa using he)] at h
      obtain ⟨rfl, hl⟩ := List.cons.inj h
      exact ⟨rest, rfl, he, hl⟩
    · have hnone : (e :: rest).filter (fun e => decide (e.when ≤ s.totalTicks)) = [] := by
        refine List.filter_eq_nil_iff.2 fun x hx => ?_
        obtain rfl | hx := List.mem_cons.1 hx
        · simpa using he
        · have hle := (List.pairwise_cons.1 hsorted).1 x hx
          simp only [decide_eq_true_eq]
          omega
      rw [hnone] at h
      cases h

/-- When the first entry is not due, none is. -/
theorem Queue.due_nil (hq : Queue s) {next : PendingInterrupt d.Obj} {rest : List (PendingInterrupt d.Obj)}
    (hp : s.pending = next :: rest) (hlater : ¬next.when ≤ s.totalTicks) : s.due = [] := by
  cases hdue : s.due with
  | nil => rfl
  | cons e l =>
    obtain ⟨rest', hp', he, -⟩ := hq.due_cons hdue
    rw [hp] at hp'
    obtain ⟨rfl, -⟩ := List.cons.inj hp'
    exact absurd he hlater

/-- When the first entry is due, something is. -/
theorem due_ne_nil {next : PendingInterrupt d.Obj} {rest : List (PendingInterrupt d.Obj)} (hp : s.pending = next :: rest)
    (hdue : next.when ≤ s.totalTicks) : s.due ≠ [] := by
  refine List.ne_nil_of_mem (List.mem_filter.2 ⟨?_, decide_eq_true hdue⟩)
  exact hp ▸ List.mem_cons_self

/-- An entry that is not selected can be inserted unnoticed. -/
theorem filter_orderedInsert {α : Type} {r : α → α → Prop} [DecidableRel r] {p : α → Bool} {item : α} (h : ¬p item) (l : List α) :
    (l.orderedInsert r item).filter p = l.filter p := by
  induction l with
  | nil => exact List.filter_cons_of_neg h
  | cons e l ih =>
    by_cases hr : r item e
    · rw [List.orderedInsert_cons_of_le _ _ hr, List.filter_cons_of_neg h]
    · rw [List.orderedInsert_of_not_le _ _ hr, List.filter_cons, List.filter_cons, ih]

/-! ## Scheduling -/

/-- What calls of `Schedule` leave. -/
structure Added (s s' : Interrupt d) : Prop where
  queue : Queue s'
  totalTicks : s'.totalTicks = s.totalTicks
  world : s'.world = s.world
  fired : s'.fired = s.fired
  allocated : s.allocated ≤ s'.allocated
  kept : ∀ e ∈ s.due, e ∈ s'.due

theorem Added.trans {s₁ : Interrupt d} (h : Added s s₁) (h' : Added s₁ s') : Added s s' :=
  ⟨h'.queue, h'.totalTicks.trans h.totalTicks, h'.world.trans h.world, h'.fired.trans h.fired, h.allocated.trans h'.allocated,
    fun e he => h'.kept e (h.kept e he)⟩

theorem schedule_ok (hq : Queue s) (toCall : d.Obj) {fromNow : Int} (hpos : 0 < fromNow ∧ fromNow ≤ 2147483647) (type : IntType) :
    ∃ s', schedule s toCall fromNow type = .ok s' ∧ Added s s' ∧
      (s.totalTicks + fromNow ≤ 2147483647 → s'.due = s.due) ∧ (¬s.totalTicks + fromNow ≤ 2147483647 → Stray s.allocated s') := by
  have hticks := hq.ticks
  have hfresh : (⟨s.allocated, toCall, int32 (s.totalTicks + fromNow), type⟩ : PendingInterrupt d.Obj) ∉ s.pending := by
    intro hmem
    exact Nat.lt_irrefl _ (hq.addr _ hmem)
  unfold schedule
  dsimp only
  rw [assert_of hpos.1, ok_bind, SortedList.insert_of_not_mem _ hfresh, ok_bind]
  refine ⟨_, rfl, ⟨⟨hticks, ?_, ?_⟩, rfl, rfl, rfl, Nat.le_succ _, ?_⟩, ?_, ?_⟩
  · refine SortedList.pairwise_orderedInsert (R := fun x y : PendingInterrupt d.Obj => x.when ≤ y.when) (fun _ _ _ => Int.le_trans)
      hq.sorted ?_ ?_
    · intro e _ hlt
      exact Int.le_of_lt (pendingCompare_neg.1 hlt)
    · intro e _ hlt
      rw [pendingCompare_neg] at hlt
      exact Int.not_lt.1 hlt
  · intro e he
    dsimp only
    obtain rfl | he := (List.mem_orderedInsert _).1 he
    · exact Nat.lt_succ_self _
    · have haddr := hq.addr e he
      omega
  · intro e he
    obtain ⟨he, hdue⟩ := List.mem_filter.1 he
    exact List.mem_filter.2 ⟨(List.mem_orderedInsert _).2 (.inr he), hdue⟩
  · intro hfits
    refine filter_orderedInsert ?_ _
    rw [int32_of_inRange (by unfold InRange; omega)]
    simp only [decide_eq_true_eq]
    omega
  · intro hlate
    -- the time comes back at the bottom of the range
    have hwraps : int32 (s.totalTicks + fromNow) = s.totalTicks + fromNow - 4294967296 := int32_of_gt (by omega) (by omega)
    refine ⟨_, List.mem_filter.2 ⟨(List.mem_orderedInsert _).2 (.inl rfl), ?_⟩, Nat.le_refl _⟩
    simp only [decide_eq_true_eq]
    rw [hwraps]
    omega

theorem scheduleAll_ok (requests : List (d.Obj × Int × IntType)) (hpos : ∀ r ∈ requests, 0 < r.2.1 ∧ r.2.1 ≤ 2147483647) :
    ∀ {s : Interrupt d}, Queue s → ∃ s', scheduleAll requests s = .ok s' ∧ Added s s' ∧
      (Fits s.totalTicks requests → s'.due = s.due) ∧ (¬Fits s.totalTicks requests → Stray s.allocated s') := by
  induction requests with
  | nil =>
    intro s hq
    exact ⟨s, rfl, ⟨hq, rfl, rfl, rfl, Nat.le_refl _, fun _ he => he⟩, fun _ => rfl, fun h => absurd nofun h⟩
  | cons r requests ih =>
    intro s hq
    obtain ⟨toCall, fromNow, type⟩ := r
    have hfromNow : 0 < fromNow ∧ fromNow ≤ 2147483647 := hpos _ List.mem_cons_self
    obtain ⟨s₁, hs₁, hadded₁, hfits₁, hstray₁⟩ := schedule_ok hq toCall hfromNow type
    obtain ⟨s', hs', hadded, hfits, hstray⟩ := ih (fun r hr => hpos r (List.mem_cons_of_mem _ hr)) hadded₁.queue
    rw [hadded₁.totalTicks] at hfits hstray
    refine ⟨s', ?_, hadded₁.trans hadded, ?_, ?_⟩
    · unfold scheduleAll at hs' ⊢
      rw [List.foldlM_cons]
      dsimp only
      rw [hs₁, ok_bind]
      exact hs'
    · intro hall
      obtain ⟨hr, hrest⟩ := List.forall_mem_cons.1 hall
      exact (hfits hrest).trans (hfits₁ hr)
    · intro hnot
      by_cases hr : s.totalTicks + fromNow ≤ 2147483647
      · obtain ⟨e, he, haddr⟩ := hstray fun hrest => hnot (List.forall_mem_cons.2 ⟨hr, hrest⟩)
        exact ⟨e, he, hadded₁.allocated.trans haddr⟩
      · obtain ⟨e, he, haddr⟩ := hstray₁ hr
        exact ⟨e, hadded.kept e he, haddr⟩

/-! ## One round -/

/-- What a round of the loop does: the first entry that is due fires. -/
structure Fires (s : Interrupt d) (next : PendingInterrupt d.Obj) (l : List (PendingInterrupt d.Obj)) (s' : Interrupt d) : Prop where
  queue : Queue s'
  totalTicks : s'.totalTicks = s.totalTicks
  world : s'.world = (d.callBack next.callOnInterrupt s.world).world
  fired : s'.fired = s.fired ++ [(next, s.totalTicks)]
  allocated : s.allocated ≤ s'.allocated
  kept : ∀ e ∈ l, e ∈ s'.due
  fits : Fits s.totalTicks (d.callBack next.callOnInterrupt s.world).scheduled → s'.due = l
  stray : ¬Fits s.totalTicks (d.callBack next.callOnInterrupt s.world).scheduled → Stray s.allocated s'

theorem fire_ok (hd : Positive d) (hq : Queue s) {next : PendingInterrupt d.Obj} {l : List (PendingInterrupt d.Obj)}
    (hdue : s.due = next :: l) : ∃ s', fire s = .ok s' ∧ Fires s next l s' := by
  obtain ⟨rest, hp, -, hl⟩ := hq.due_cons hdue
  have hsorted := hq.sorted
  have haddr := hq.addr
  rw [hp] at hsorted haddr
  unfold fire
  rw [hp]
  dsimp only
  generalize hs₁ : ({ s with pending := rest, world := _, fired := _, yieldOnReturn := _ } : Interrupt d) = s₁
  have hq₁ : Queue s₁ := by
    subst hs₁
    exact ⟨hq.ticks, (List.pairwise_cons.1 hsorted).2, fun e he => haddr e (List.mem_cons_of_mem _ he)⟩
  have hdue₁ : s₁.due = l := by
    subst hs₁
    exact hl
  obtain ⟨s', hs', hadded, hfits, hstray⟩ := scheduleAll_ok _ (hd next.callOnInterrupt s.world) hq₁
  rw [hdue₁] at hfits
  subst hs₁
  exact ⟨s', hs', hadded.queue, hadded.totalTicks, hadded.world, hadded.fired, hadded.allocated,
    fun e he => hadded.kept e (hdue₁ ▸ he), hfits, hstray⟩

/-- After a round the loop goes on as long as anything is due. -/
theorem loop_succ (n : Nat) {s₁ : Interrupt d} (h : fire s = .ok s₁) (hq : Queue s₁) :
    loop (n + 1) s = if s₁.due = [] then .ok (some s₁) else loop n s₁ := by
  rw [loop, h, ok_bind]
  cases hp : s₁.pending with
  | nil =>
    have hnone : s₁.due = [] := by
      unfold Interrupt.due
      rw [hp]
      rfl
    rw [if_pos hnone]
    rfl
  | cons next rest =>
    dsimp only
    by_cases hdue : next.when ≤ s₁.totalTicks
    · rw [if_pos hdue, if_neg (due_ne_nil hp hdue)]
    · rw [if_neg hdue, if_pos (hq.due_nil hp hdue)]
      rfl

/-! ## The loop -/

/-- When no time wraps around, the loop fires what is due, one entry a round, and ends. -/
theorem loop_of_allFit (hd : Positive d) (l : List (PendingInterrupt d.Obj)) :
    ∀ {s : Interrupt d} {next : PendingInterrupt d.Obj}, Queue s → s.due = next :: l → AllFit s.totalTicks (next :: l) s.world →
      ∃ s', loop (l.length + 1) s = .ok (some s') ∧ s'.totalTicks = s.totalTicks ∧
        s'.fired = s.fired ++ (next :: l).map fun e => (e, s.totalTicks) := by
  induction l with
  | nil =>
    intro s next hq hdue hfit
    obtain ⟨s₁, hfire, hs₁⟩ := fire_ok hd hq hdue
    refine ⟨s₁, ?_, hs₁.totalTicks, hs₁.fired⟩
    rw [loop_succ _ hfire hs₁.queue, if_pos (hs₁.fits hfit.1)]
  | cons e l ih =>
    intro s next hq hdue hfit
    obtain ⟨s₁, hfire, hs₁⟩ := fire_ok hd hq hdue
    have hdue₁ := hs₁.fits hfit.1
    have hfit₁ : AllFit s₁.totalTicks (e :: l) s₁.world := by
      rw [hs₁.totalTicks, hs₁.world]
      exact hfit.2
    obtain ⟨s', hs', hticks, hfired⟩ := ih hs₁.queue hdue₁ hfit₁
    refine ⟨s', ?_, hticks.trans hs₁.totalTicks, ?_⟩
    · rw [loop_succ _ hfire hs₁.queue, if_neg (by rw [hdue₁]; exact List.cons_ne_nil _ _)]
      exact hs'
    · rw [hfired, hs₁.fired, hs₁.totalTicks, List.append_assoc]
      rfl

/-- A loop that has ended has fired everything that was due. -/
theorem fired_of_loop (hd : Positive d) (n : Nat) : ∀ {s : Interrupt d}, Queue s → s.due ≠ [] → loop n s = .ok (some s') →
    ∃ l, s'.fired = s.fired ++ l ∧ ∀ e ∈ s.due, e ∈ l.map Prod.fst := by
  induction n with
  | zero => exact nofun
  | succ n ih =>
    intro s hq hne h
    obtain ⟨next, l, hdue⟩ := List.exists_cons_of_ne_nil hne
    obtain ⟨s₁, hfire, hs₁⟩ := fire_ok hd hq hdue
    rw [loop_succ _ hfire hs₁.queue] at h
    by_cases hnone : s₁.due = []
    · rw [if_pos hnone] at h
      cases h
      have hl : l = [] := by
        refine List.eq_nil_iff_forall_not_mem.2 fun e he => ?_
        exact List.not_mem_nil (hnone ▸ hs₁.kept e he)
      refine ⟨_, hs₁.fired, fun e he => ?_⟩
      rw [hdue, hl] at he
      exact he
    · rw [if_neg hnone] at h
      obtain ⟨l', hfired, hall⟩ := ih hs₁.queue hnone h
      refine ⟨(next, s.totalTicks) :: l', ?_, fun e he => ?_⟩
      · rw [hfired, hs₁.fired, List.append_assoc]
        rfl
      · rw [hdue] at he
        obtain rfl | he := List.mem_cons.1 he
        · exact List.mem_cons_self
        · exact List.mem_cons_of_mem _ (hall e (hs₁.kept e he))

/-- When a time wraps around, a loop that has ended has fired an entry that one of the handlers scheduled. -/
theorem stray_of_loop (hd : Positive d) (n : Nat) : ∀ {s : Interrupt d} {next : PendingInterrupt d.Obj} {l : List (PendingInterrupt d.Obj)},
    Queue s → s.due = next :: l → ¬AllFit s.totalTicks (next :: l) s.world → loop n s = .ok (some s') →
      ∃ l', s'.fired = s.fired ++ l' ∧ ∃ e ∈ l'.map Prod.fst, s.allocated ≤ e.addr := by
  induction n with
  | zero => exact nofun
  | succ n ih =>
    intro s next l hq hdue hnot h
    obtain ⟨s₁, hfire, hs₁⟩ := fire_ok hd hq hdue
    rw [loop_succ _ hfire hs₁.queue] at h
    have hwhole {l' : List (PendingInterrupt d.Obj × Int)} (hfired : s'.fired = s₁.fired ++ l')
        (hstray : ∃ e ∈ l'.map Prod.fst, s.allocated ≤ e.addr) :
        ∃ l', s'.fired = s.fired ++ l' ∧ ∃ e ∈ l'.map Prod.fst, s.allocated ≤ e.addr := by
      obtain ⟨e, he, haddr⟩ := hstray
      refine ⟨(next, s.totalTicks) :: l', ?_, e, List.mem_cons_of_mem _ he, haddr⟩
      rw [hfired, hs₁.fired, List.append_assoc]
      rfl
    by_cases hfits : Fits s.totalTicks (d.callBack next.callOnInterrupt s.world).scheduled
    · -- the one that wraps around comes later
      have hrest : ¬AllFit s₁.totalTicks l s₁.world := by
        rw [hs₁.totalTicks, hs₁.world]
        exact fun hrest => hnot ⟨hfits, hrest⟩
      have hdue₁ := hs₁.fits hfits
      cases l with
      | nil => exact absurd trivial hrest
      | cons e l =>
        rw [if_neg (by rw [hdue₁]; exact List.cons_ne_nil _ _)] at h
        obtain ⟨l', hfired, x, hx, haddr⟩ := ih hs₁.queue hdue₁ hrest h
        exact hwhole hfired ⟨x, hx, hs₁.allocated.trans haddr⟩
    · obtain ⟨e, he, haddr⟩ := hs₁.stray hfits
      have hne : s₁.due ≠ [] := List.ne_nil_of_mem he
      rw [if_neg hne] at h
      obtain ⟨l', hfired, hall⟩ := fired_of_loop hd n hs₁.queue hne h
      exact hwhole hfired ⟨e, hall e he, haddr⟩

/-- The loop ends with what was due, and only that, exactly when no time wraps around. -/
theorem loop_iff (hd : Positive d) (hq : Queue s) {next : PendingInterrupt d.Obj} {l : List (PendingInterrupt d.Obj)}
    (hdue : s.due = next :: l) :
    (∃ n s', loop n s = .ok (some s') ∧ s'.totalTicks = s.totalTicks ∧
      s'.fired = s.fired ++ s.due.map fun e => (e, s.totalTicks)) ↔ AllFit s.totalTicks s.due s.world := by
  constructor
  · rintro ⟨n, s', hloop, -, hfired⟩
    by_contra hnot
    obtain ⟨l', hfired', e, he, haddr⟩ := stray_of_loop hd n hq hdue (hdue ▸ hnot) hloop
    -- what the handlers scheduled was not on the list before
    have hl' : l'.map Prod.fst = s.due := by
      have hsame := List.append_cancel_left (hfired'.symm.trans hfired)
      rw [hsame, List.map_map]
      exact List.map_id _
    rw [hl'] at he
    have hlt := hq.addr e (List.mem_filter.1 he).1
    omega
  · intro hfit
    obtain ⟨s', hloop, hticks, hfired⟩ := loop_of_allFit hd l hq hdue (hdue ▸ hfit)
    exact ⟨_, s', hloop, hticks, hdue ▸ hfired⟩

/-! ## The call -/

theorem clock_cons {next : PendingInterrupt d.Obj} {rest : List (PendingInterrupt d.Obj)} (hp : s.pending = next :: rest)
    (advanceClock : Bool) :
    clock s advanceClock = if next.when > s.totalTicks ∧ advanceClock = true then next.when else s.totalTicks := by
  unfold clock
  rw [hp]

/-- The state in which a call of `CheckIfDue` enters its loop. -/
structure Enters (s : Interrupt d) (advanceClock : Bool) (s₁ : Interrupt d) : Prop where
  totalTicks : s₁.totalTicks = clock s advanceClock
  pending : s₁.pending = s.pending
  world : s₁.world = s.world
  fired : s₁.fired = s.fired
  allocated : s₁.allocated = s.allocated
  check : ∀ n, checkIfDue n s advanceClock = loop n s₁ >>= fun r => .ok (r.map fun s => (true, { s with inHandler := false }))

/-- Either nothing is due and the call does nothing, or it enters its loop with the first entry due. -/
theorem enters_or (hlevel : s.level = .off) (hq : Queue s) (advanceClock : Bool) :
    (s.due = [] ∧ clock s advanceClock = s.totalTicks ∧ ∀ n, checkIfDue n s advanceClock = .ok (some (false, s))) ∨
      ∃ s₁, Enters s advanceClock s₁ ∧ s₁.due ≠ [] := by
  unfold checkIfDue clock
  rw [assert_of hlevel]
  cases hp : s.pending with
  | nil =>
    left
    refine ⟨?_, rfl, fun _ => rfl⟩
    unfold Interrupt.due
    rw [hp]
    rfl
  | cons next rest =>
    dsimp only
    by_cases hlater : next.when > s.totalTicks
    · cases advanceClock with
      | false =>
        left
        refine ⟨hq.due_nil hp (by omega), if_neg (by simp), fun _ => ?_⟩
        rw [ok_bind, if_pos ⟨hlater, rfl⟩]
        rfl
      | true =>
        right
        refine ⟨{ s with
          idleTicks := int32 (s.idleTicks + int32 (next.when - s.totalTicks)), totalTicks := next.when, inHandler := true },
          ⟨?_, rfl, rfl, rfl, rfl, fun n => ?_⟩, ?_⟩
        · rw [clock_cons hp]
          exact (if_pos ⟨hlater, rfl⟩).symm
        · unfold checkIfDue
          rw [assert_of hlevel, ok_bind, hp]
          dsimp only
          rw [if_neg (by simp), if_pos hlater]
          rfl
        · exact due_ne_nil hp (Int.le_refl next.when)
    · right
      refine ⟨{ s with inHandler := true }, ⟨?_, rfl, rfl, rfl, rfl, fun n => ?_⟩, ?_⟩
      · rw [clock_cons hp]
        exact (if_neg fun h => hlater h.1).symm
      · unfold checkIfDue
        rw [assert_of hlevel, ok_bind, hp]
        dsimp only
        rw [if_neg fun h => hlater h.1, if_neg hlater, ← hp]
        rfl
      · exact due_ne_nil hp (Int.not_lt.1 hlater)

/-- The clock of a call does not go back, and stays an `int`. -/
theorem clock_inRange (hq : Queue s) (hwhen : ∀ e ∈ s.pending, InRange e.when) (advanceClock : Bool) :
    0 ≤ clock s advanceClock ∧ clock s advanceClock ≤ 2147483647 := by
  have hticks := hq.ticks
  unfold clock
  cases hp : s.pending with
  | nil => exact hticks
  | cons next rest =>
    have hnext := hwhen next (hp ▸ List.mem_cons_self)
    unfold InRange at hnext
    dsimp only
    split <;> omega

/-- `CheckIfDue` ends after firing exactly what was due at its entry if and only if none of the handlers it calls asks for a time that
an `int` cannot hold. -/
theorem checkIfDue_firesDue_iff (hd : Positive d) (hlevel : s.level = .off) (hq : Queue s) (hwhen : ∀ e ∈ s.pending, InRange e.when)
    (advanceClock : Bool) :
    FiresDue s advanceClock ↔
      AllFit (clock s advanceClock) (s.pending.filter fun e => e.when ≤ clock s advanceClock) s.world := by
  unfold FiresDue
  obtain ⟨hnone, hclock, hcheck⟩ | ⟨s₁, hs₁, hne⟩ := enters_or hlevel hq advanceClock
  · have hdue : (s.pending.filter fun e => e.when ≤ clock s advanceClock) = [] := by
      rw [hclock]
      exact hnone
    rw [hdue]
    refine ⟨fun _ => trivial, fun _ => ⟨0, false, s, hcheck 0, hclock.symm, ?_⟩⟩
    exact (List.append_nil _).symm
  · have hq₁ : Queue s₁ := by
      refine ⟨?_, ?_, ?_⟩
      · rw [hs₁.totalTicks]
        exact clock_inRange hq hwhen advanceClock
      · rw [hs₁.pending]
        exact hq.sorted
      · rw [hs₁.pending, hs₁.allocated]
        exact hq.addr
    obtain ⟨next, l, hdue⟩ := List.exists_cons_of_ne_nil hne
    have hiff := loop_iff hd hq₁ hdue
    unfold Interrupt.due at hiff
    rw [hs₁.pending, hs₁.totalTicks, hs₁.fired, hs₁.world] at hiff
    rw [← hiff]
    constructor
    · rintro ⟨n, fired, s', hs', hticks, hfired⟩
      rw [hs₁.check] at hs'
      obtain ⟨r, hloop, hr⟩ := of_bind_ok hs'
      cases r with
      | none => cases hr
      | some s₂ =>
        cases hr
        exact ⟨n, s₂, hloop, hticks, hfired⟩
    · rintro ⟨n, s', hloop, hticks, hfired⟩
      refine ⟨n, true, { s' with inHandler := false }, ?_, hticks, hfired⟩
      rw [hs₁.check, hloop]
      rfl

/-- The timer, due at this time, with nothing else on the list. -/
def timerAt (now : Int) : Interrupt Interrupt.timerAndDevice :=
  { Interrupt.new () with totalTicks := now, pending := [⟨0, true, now, .timer⟩], allocated := 1 }

theorem timerAndDevice_positive : Positive Interrupt.timerAndDevice := by
  intro toCall world r hr
  cases toCall with
  | false => cases hr
  | true =>
    obtain rfl := List.mem_singleton.1 hr
    decide

theorem checkIfDue_firesDue_timer : FiresDue (timerAt 500) false :=
  (checkIfDue_firesDue_iff timerAndDevice_positive rfl ⟨by decide, List.pairwise_singleton _ _, by decide⟩ (by decide) false).2
    ⟨by unfold Fits; decide, trivial⟩

/-- A round with the timer alone on the list, when its next time wraps around. -/
theorem fire_timer {s : Interrupt Interrupt.timerAndDevice} (hticks : s.totalTicks = 2147483600)
    {e : PendingInterrupt Interrupt.timerAndDevice.Obj} (hp : s.pending = [e]) (he : e.callOnInterrupt = true) :
    ∃ s' e', fire s = .ok s' ∧ s'.totalTicks = 2147483600 ∧ s'.pending = [e'] ∧ e'.callOnInterrupt = true ∧ e'.when ≤ 2147483600 := by
  have hwraps : int32 (s.totalTicks + 100) ≤ 2147483600 := by
    rw [hticks, int32_of_gt (by decide) (by decide)]
    decide
  have hschedule {s : Interrupt Interrupt.timerAndDevice} (h : s.pending = []) :
      schedule s true 100 .timer =
        .ok { s with pending := [⟨s.allocated, true, int32 (s.totalTicks + 100), .timer⟩], allocated := s.allocated + 1 } := by
    unfold schedule
    dsimp only
    rw [assert_of (by decide), ok_bind, h, SortedList.insert_of_not_mem _ List.not_mem_nil]
    rfl
  have hfire : fire s = schedule { s with
      pending := [], world := (), fired := s.fired ++ [(e, s.totalTicks)], yieldOnReturn := s.yieldOnReturn || true } true 100 .timer := by
    unfold fire
    rw [hp]
    dsimp only
    rw [he]
    exact bind_pure _
  rw [hfire, hschedule rfl]
  exact ⟨_, _, rfl, hticks, rfl, rfl, hwraps⟩

/-- Shortly before the clock ends, the timer fires again and again in one call. -/
theorem timer_never_ends : (∀ n, checkIfDue n (timerAt 2147483600) false = .ok none) ∧ ¬FiresDue (timerAt 2147483600) false := by
  have hloop (n : Nat) : ∀ {s : Interrupt Interrupt.timerAndDevice} {e : PendingInterrupt Bool}, s.totalTicks = 2147483600 →
      s.pending = [e] → e.callOnInterrupt = true → loop n s = .ok none := by
    induction n with
    | zero => exact fun _ _ _ => rfl
    | succ n ih =>
      intro s e hticks hp he
      obtain ⟨s', e', hfire, hticks', hp', he', hwhen⟩ := fire_timer hticks hp he
      rw [loop, hfire, ok_bind, hp']
      dsimp only
      rw [hticks', if_pos hwhen]
      exact ih hticks' hp' he'
  have hnever (n : Nat) : checkIfDue n (timerAt 2147483600) false = .ok none := by
    unfold checkIfDue
    rw [assert_of (show (timerAt 2147483600).level = .off from rfl), ok_bind]
    change (loop n _ >>= _) = _
    rw [hloop n rfl rfl rfl]
    rfl
  refine ⟨hnever, ?_⟩
  rintro ⟨n, fired, s', hcheck, -⟩
  rw [hnever] at hcheck
  cases hcheck

/-! ## Without overflow -/

/-- A request that fits is the request on unbounded ticks. -/
theorem schedule_eq {fromNow : Int} (h : InRange (s.totalTicks + fromNow)) (toCall : d.Obj) (type : IntType) :
    schedule s toCall fromNow type = s.schedule toCall fromNow type := by
  unfold schedule Interrupt.schedule
  rw [int32_of_inRange h]

theorem fire_eq (hd : Positive d) (hq : Queue s) {next : PendingInterrupt d.Obj} {rest : List (PendingInterrupt d.Obj)}
    (hp : s.pending = next :: rest) (hfits : Fits s.totalTicks (d.callBack next.callOnInterrupt s.world).scheduled) :
    fire s = s.fire := by
  have hfold (requests : List (d.Obj × Int × IntType)) (hpos : ∀ r ∈ requests, 0 < r.2.1) : ∀ {s : Interrupt d},
      0 ≤ s.totalTicks → Fits s.totalTicks requests →
      scheduleAll requests s = requests.foldlM (fun s r => s.schedule r.1 r.2.1 r.2.2) s := by
    induction requests with
    | nil => exact fun _ _ => rfl
    | cons r requests ih =>
      intro s hticks hfits
      obtain ⟨toCall, fromNow, type⟩ := r
      obtain ⟨hr, hrest⟩ := List.forall_mem_cons.1 hfits
      obtain ⟨hpos0, hpos⟩ := List.forall_mem_cons.1 hpos
      unfold scheduleAll
      rw [List.foldlM_cons, List.foldlM_cons]
      dsimp only at hr hpos0 ⊢
      rw [schedule_eq (by unfold InRange; omega)]
      cases hs₁ : s.schedule toCall fromNow type with
      | error e => rfl
      | ok s₁ =>
        obtain ⟨-, rfl⟩ := Interrupt.of_schedule_ok hs₁
        exact ih hpos hticks hrest
  unfold fire Interrupt.fire
  rw [hp]
  exact hfold _ (fun r hr => (hd _ _ r hr).1) hq.ticks.1 hfits

/-- When no time wraps around, the loop is the one on unbounded ticks. -/
theorem loop_eq_drain (hd : Positive d) (n : Nat) : ∀ {s : Interrupt d}, Queue s → s.due ≠ [] → s.due.length ≤ n →
    AllFit s.totalTicks s.due s.world → loop n s = (Interrupt.drain n s).map some := by
  induction n with
  | zero =>
    intro s _ hne hn
    exact absurd (List.length_eq_zero_iff.1 (Nat.le_zero.1 hn)) hne
  | succ n ih =>
    intro s hq hne hn hfit
    obtain ⟨next, l, hdue⟩ := List.exists_cons_of_ne_nil hne
    obtain ⟨rest, hp, -⟩ := hq.due_cons hdue
    obtain ⟨s₁, hfire, hs₁⟩ := fire_ok hd hq hdue
    rw [hdue] at hfit hn
    have hdue₁ := hs₁.fits hfit.1
    have hfire' : s.fire = .ok s₁ := fire_eq hd hq hp hfit.1 ▸ hfire
    rw [loop, Interrupt.drain, hfire, hfire', ok_bind, ok_bind]
    cases hp₁ : s₁.pending with
    | nil => rfl
    | cons next₁ rest₁ =>
      dsimp only
      by_cases hnext : next₁.when ≤ s₁.totalTicks
      · rw [if_pos hnext, if_pos hnext]
        refine ih hs₁.queue (due_ne_nil hp₁ hnext) ?_ ?_
        · rw [hdue₁]
          exact Nat.le_of_succ_le_succ hn
        · rw [hdue₁, hs₁.totalTicks, hs₁.world]
          exact hfit.2
      · rw [if_neg hnext, if_neg hnext]
        rfl

/-- When no time wraps around, the call is the one on unbounded ticks. -/
theorem checkIfDue_eq (hd : Positive d) (hlevel : s.level = .off) (hq : Queue s) (hwhen : ∀ e ∈ s.pending, InRange e.when)
    {advanceClock : Bool} (hidle : InRange (s.idleTicks + (clock s advanceClock - s.totalTicks)))
    (hfit : AllFit (clock s advanceClock) (s.pending.filter fun e => e.when ≤ clock s advanceClock) s.world) :
    checkIfDue s.pending.length s advanceClock = (s.checkIfDue advanceClock).map some := by
  have hticks := clock_inRange hq hwhen advanceClock
  have hloop (s₁ : Interrupt d) (hs₁ : s₁.totalTicks = clock s advanceClock ∧ s₁.pending = s.pending ∧ s₁.world = s.world ∧
      s₁.allocated = s.allocated) (hne : s₁.due ≠ []) :
      loop s.pending.length s₁ = (Interrupt.drain s.pending.length s₁).map some := by
    obtain ⟨hclock, hpending, hworld, hallocated⟩ := hs₁
    have hq₁ : Queue s₁ := ⟨hclock ▸ hticks, hpending ▸ hq.sorted, by rw [hpending, hallocated]; exact hq.addr⟩
    refine loop_eq_drain hd _ hq₁ hne ?_ ?_
    · exact hpending ▸ List.length_filter_le _ _
    · unfold Interrupt.due
      rw [hclock, hpending, hworld]
      exact hfit
  unfold checkIfDue Interrupt.checkIfDue
  rw [assert_of hlevel, ok_bind, ok_bind]
  cases hp : s.pending with
  | nil => rfl
  | cons next rest =>
    dsimp only
    by_cases hskip : next.when > s.totalTicks ∧ advanceClock = false
    · rw [if_pos hskip, if_pos hskip]
      rfl
    · rw [if_neg hskip, if_neg hskip, ← hp]
      by_cases hlater : next.when > s.totalTicks
      · have hclock : clock s advanceClock = next.when := by
          rw [clock_cons hp]
          exact if_pos ⟨hlater, by simpa [hlater] using hskip⟩
        have hnext := hwhen next (hp ▸ List.mem_cons_self)
        have hticks₀ := hq.ticks.1
        rw [hclock] at hidle
        have hidle' : int32 (s.idleTicks + int32 (next.when - s.totalTicks)) = s.idleTicks + (next.when - s.totalTicks) := by
          rw [int32_of_inRange (x := next.when - s.totalTicks) (by unfold InRange at *; omega), int32_of_inRange hidle]
        rw [if_pos hlater, if_pos hlater, hidle', hloop { s with
          idleTicks := s.idleTicks + (next.when - s.totalTicks), totalTicks := next.when, inHandler := true }
          ⟨hclock.symm, rfl, rfl, rfl⟩
          (due_ne_nil hp (Int.le_refl next.when))]
        cases Interrupt.drain _ _ <;> rfl
      · have hclock : clock s advanceClock = s.totalTicks := by
          rw [clock_cons hp]
          exact if_neg fun h => hlater h.1
        rw [if_neg hlater, if_neg hlater, hloop { s with inHandler := true } ⟨hclock.symm, rfl, rfl, rfl⟩
          (due_ne_nil hp (Int.not_lt.1 hlater))]
        cases Interrupt.drain _ _ <;> rfl

end IntTicks

end Nachos
