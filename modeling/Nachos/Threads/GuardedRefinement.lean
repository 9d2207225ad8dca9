import Nachos.Threads.Guarded

/-!
# Each monitor of a client is a monitor

Seen from one of its monitors, a client of Guarded is a client of Synch whose threads are in user code whenever they are not inside
that monitor. So everything shown of Synch holds of every lock and every synchronized list.
-/

namespace Nachos

open Loop Transition

/-- No call: the thread goes on. -/
theorem Abs.Effect.of_none {c : Client} {t : Tid} {pc : c.Pc} {a a' : Abs c} (h : Abs.Effect t pc .none a a') :
    a' = a.setCtl t (.run pc) := by
  cases h
  rfl

namespace Guarded

variable {g : Code}

/-- The steps of the code: a call, an operation begins, a statement of it, and it returns. -/
inductive Codes (g : Code) (t : Tid) (m : Memory g) (x : Input g) :
    Point g.Item g.Pc → Memory g → Call (Point g.Item g.Pc) → Point g.Item g.Pc → Prop where
  | call {pc pc' : g.Pc} {own : g.Shared} {call : Call g.Pc} (h : g.code t m.own pc x.own = .ok (own, .call call pc')) :
      Codes g t m x (.outside pc) { m with own } (call.rename ownSemaphore .outside) (.outside pc')
  | enter {pc : g.Pc} {own : g.Shared} {i : Nat} {op : Synch.Op g.Item} {hop : g.ops op = true} {next : Option g.Item → g.Pc}
      (h : g.code t m.own pc x.own = .ok (own, .operation i op hop next)) :
      Codes g t m x (.outside pc) { m with own } .none (.inside i op.entry next none)
  | within {i : Nat} {pc pc' : Synch.Pc g.Item} {next : Option g.Item → g.Pc} {item : Option g.Item}
      {monitor : Synch.Monitor g.Item} {call : Call (Synch.Pc g.Item)} (hpc : pc ≠ .user)
      (h : Synch.code g.ops t (m.monitor i) pc { op := .none, fresh := x.fresh } = .ok (monitor, call, pc')) :
      Codes g t m x (.inside i pc next item) { m with monitor := Function.update m.monitor i monitor }
        (call.rename (semaphoreOf i) (.inside i · next none)) (.inside i pc' next ((pc.removes (m.monitor i)).or item))
  | leave {i : Nat} {next : Option g.Item → g.Pc} {item : Option g.Item} :
      Codes g t m x (.inside i .user next item) m .none (.outside (next item))

/-- Inside an operation, the code is that of Synch. -/
theorem code_inside (t : Tid) (m : Memory g) {i : Nat} {pc : Synch.Pc g.Item} (hpc : pc ≠ .user) (next : Option g.Item → g.Pc)
    (item : Option g.Item) (x : Input g) : code g t m (.inside i pc next item) x =
      (Synch.code g.ops t (m.monitor i) pc { op := .none, fresh := x.fresh }).bind fun r =>
        .ok ({ m with monitor := Function.update m.monitor i r.1 }, r.2.1.rename (semaphoreOf i) (.inside i · next none),
          .inside i r.2.2 next ((pc.removes (m.monitor i)).or item)) := by
  cases pc with
  | user => exact absurd rfl hpc
  | _ => rfl

theorem codes_of_code {t : Tid} {m m' : Memory g} {x : Input g} {pt pt' : Point g.Item g.Pc} {call : Call (Point g.Item g.Pc)}
    (h : code g t m pt x = .ok (m', call, pt')) : Codes g t m x pt m' call pt' := by
  cases pt with
  | outside pc =>
    obtain ⟨⟨own, request⟩, hcode, h⟩ := of_bind_ok h
    dsimp only at h
    cases request with
    | call call pc' =>
      cases h
      exact .call hcode
    | operation i op hop next =>
      cases h
      exact .enter hcode
  | inside i pc next item =>
    by_cases hpc : pc = .user
    · subst hpc
      cases h
      exact .leave
    · rw [code_inside t m hpc] at h
      obtain ⟨⟨monitor, call, pc'⟩, hcode, h⟩ := of_bind_ok h
      cases h
      exact .within hpc hcode

/-! ## The client as a monitor sees it -/

/-- Where a thread is, as monitor `i` sees it. -/
def ctlOf (i : Nat) : Ctl (Point g.Item g.Pc) → Ctl (Synch.Pc g.Item)
  | .gone => .gone
  | .run (.outside _) => .run .user
  | .run (.inside j pc _ _) => .run (if j = i then pc else .user)
  | .inP _ (.outside _) => .run .user
  | .inP s (.inside j pc _ _) => if j = i then .inP s.unpair.2 pc else .run .user

theorem ctlOf_run (i : Nat) (pc : Synch.Pc g.Item) (next : Option g.Item → g.Pc) (item : Option g.Item) :
    ctlOf i (.run (.inside i pc next item)) = .run pc := congrArg Ctl.run (if_pos rfl)

theorem ctlOf_inP (i : Nat) (s : SemId) (pc : Synch.Pc g.Item) (next : Option g.Item → g.Pc) (item : Option g.Item) :
    ctlOf i (.inP (semaphoreOf i s) (.inside i pc next item)) = .inP s pc := by
  show (if i = i then Ctl.inP (semaphoreOf i s).unpair.2 pc else .run .user) = _
  rw [if_pos rfl, semaphoreOf, Nat.unpair_pair]

/-- The client as monitor `i` sees it. -/
def monitorOf (i : Nat) (a : Abs (client g)) : Abs (Synch.client g.Item g.ops) where
  ctl := fun t => ctlOf i (a.ctl t)
  semaphore := fun s => a.semaphore (semaphoreOf i s)
  shared := a.shared.monitor i

theorem semaphoreOf_ne {i j : Nat} (h : j ≠ i) (s s' : SemId) : semaphoreOf j s ≠ semaphoreOf i s' := by
  intro he
  have := congrArg (fun n => n.unpair.1) he
  simp only [semaphoreOf, Nat.unpair_pair] at this
  omega

theorem semaphoreOf_inj {i : Nat} {s s' : SemId} (h : semaphoreOf i s = semaphoreOf i s') : s = s' := by
  have := congrArg (fun n => n.unpair.2) h
  simpa only [semaphoreOf, Nat.unpair_pair] using this

theorem ownSemaphore_ne (i : Nat) (s s' : SemId) : ownSemaphore s ≠ semaphoreOf i s' := by
  intro he
  have := congrArg (fun n => n.unpair.1) he
  simp only [ownSemaphore, semaphoreOf, Nat.unpair_pair] at this
  omega

theorem ownSemaphore_inj {s s' : SemId} (h : ownSemaphore s = ownSemaphore s') : s = s' := by
  have := congrArg (fun n => n.unpair.2) h
  simpa only [ownSemaphore, Nat.unpair_pair] using this

section MonitorOf

variable (i : Nat) (a : Abs (client g))

theorem monitorOf_setCtl (t : Tid) (y : Ctl (Point g.Item g.Pc)) :
    monitorOf i (a.setCtl t y) = (monitorOf i a).setCtl t (ctlOf i y) := by
  unfold monitorOf Abs.setCtl
  congr 1
  funext t'
  exact Function.apply_update (fun _ => ctlOf i) a.ctl t y t'

theorem monitorOf_setSemaphore (s : SemId) (y : Option Semaphore) :
    monitorOf i (a.setSemaphore (semaphoreOf i s) y) = (monitorOf i a).setSemaphore s y := by
  unfold monitorOf Abs.setSemaphore
  congr 1
  funext s'
  dsimp only
  rcases eq_or_ne s' s with rfl | hne
  · rw [Function.update_self, Function.update_self]
  · rw [Function.update_of_ne hne, Function.update_of_ne fun h => hne (semaphoreOf_inj h)]

theorem monitorOf_setSemaphore_other {s : SemId} (hs : ∀ s', s ≠ semaphoreOf i s') (y : Option Semaphore) :
    monitorOf i (a.setSemaphore s y) = monitorOf i a := by
  unfold monitorOf Abs.setSemaphore
  congr 1
  funext s'
  exact Function.update_of_ne (fun h => hs s' h.symm) _ _

theorem monitorOf_shared {sh : Memory g} (h : sh.monitor i = a.shared.monitor i) :
    monitorOf i { a with shared := sh } = monitorOf i a := by
  unfold monitorOf
  rw [h]

end MonitorOf

/-! ## Steps outside of a monitor -/

/-- A point that is not inside monitor `i`. -/
def Away (i : Nat) : Point g.Item g.Pc → Prop
  | .outside _ => True
  | .inside j _ _ _ => j ≠ i

theorem Away.run {i : Nat} {pt : Point g.Item g.Pc} (h : Away i pt) : ctlOf i (.run pt) = .run .user := by
  cases pt with
  | outside pc => rfl
  | inside j pc next item => exact congrArg Ctl.run (if_neg h)

theorem Away.inP {i : Nat} {pt : Point g.Item g.Pc} (h : Away i pt) (s : SemId) : ctlOf i (.inP s pt) = .run .user := by
  cases pt with
  | outside pc => rfl
  | inside j pc next item => exact if_neg h

section Other

variable {i : Nat} {a a' : Abs (client g)} {t : Tid} {pt' : Point g.Item g.Pc} {sh : Memory g}

/-- A thread in user code forks another. -/
theorem step_fork {b : Abs (Synch.client g.Item g.ops)} {t t' : Tid} (h : b.ctl t = .run .user) (hne : t' ≠ t) (hgone : b.ctl t' = .gone) :
    Abs.ThreadStep t b (b.setCtl t' (.run .user)) := by
  have hcode : Synch.code g.ops t b.shared .user { op := .fork t', fresh := 0 } = .ok (b.shared, .fork t' .user, .user) := by
    simp only [Synch.code]
    rw [if_pos (g.ops_fork t')]
    rfl
  refine .code h hcode ?_
  have heff : Abs.Effect t Synch.Pc.user (.fork t' Synch.Pc.user) b ((b.setCtl t (.run .user)).setCtl t' (.run .user)) :=
    .fork hne hgone
  rwa [Abs.setCtl_eq_self b h] at heff

/-- A thread in user code finishes. -/
theorem step_finish {b : Abs (Synch.client g.Item g.ops)} {t : Tid} (h : b.ctl t = .run .user) : Abs.ThreadStep t b (b.setCtl t .gone) := by
  have hcode : Synch.code g.ops t b.shared .user { op := .finish, fresh := 0 } = .ok (b.shared, .finish, .user) := by
    simp only [Synch.code]
    rw [if_pos g.ops_finish]
    rfl
  exact .code h hcode (.finish b)

/-- A step of a thread that is not inside monitor `i` is at most a `Fork` or a `Finish` there. -/
theorem step_other {P : Type} {name : SemId → SemId} {point : P → Point g.Item g.Pc} {call : Call P}
    (heff : Abs.Effect t pt' (call.rename name point) { a with shared := sh } a') (hctl : (monitorOf i a).ctl t = .run .user)
    (hsh : sh.monitor i = a.shared.monitor i) (hname : ∀ s s', name s ≠ semaphoreOf i s') (hpoint : ∀ pc, Away i (point pc))
    (hpt : Away i pt') : monitorOf i a' = monitorOf i a ∨ Abs.ThreadStep t (monitorOf i a) (monitorOf i a') := by
  have hself : monitorOf i { a with shared := sh } = monitorOf i a := monitorOf_shared i a hsh
  have hrun : monitorOf i (Abs.setCtl { a with shared := sh } t (.run pt')) = monitorOf i a := by
    rw [monitorOf_setCtl, hself, hpt.run, Abs.setCtl_eq_self _ hctl]
  have hsem (s : SemId) (y : Option Semaphore) :
      monitorOf i ((Abs.setCtl { a with shared := sh } t (.run pt')).setSemaphore (name s) y) = monitorOf i a := by
    rw [monitorOf_setSemaphore_other i _ (hname s), hrun]
  cases call with
  | p s =>
    cases heff with
    | take hs h0 => exact Or.inl (hsem s _)
    | sleep hs h0 =>
      refine Or.inl ?_
      rw [monitorOf_setSemaphore_other i _ (hname s), monitorOf_setCtl, hself, hpt.inP, Abs.setCtl_eq_self _ hctl]
  | v s =>
    cases heff with
    | v hs => exact Or.inl (hsem s _)
  | newSemaphore s v =>
    cases heff with
    | newSemaphore _ hs => exact Or.inl (hsem s _)
  | deleteSemaphore s =>
    cases heff with
    | deleteSemaphore hs => exact Or.inl (hsem s _)
  | fork t' pc =>
    cases heff with
    | fork hne hgone =>
      rw [monitorOf_setCtl, hrun, (hpoint pc).run]
      exact Or.inr (step_fork hctl hne (congrArg (ctlOf i) hgone))
  | finish =>
    cases heff
    rw [monitorOf_setCtl, hself]
    exact Or.inr (step_finish hctl)
  | _ =>
    cases heff
    exact Or.inl hrun

/-- The effect of a call from inside monitor `i`. -/
theorem effect_inside {pc' : Synch.Pc g.Item} {next : Option g.Item → g.Pc} {item : Option g.Item} {call : Call (Synch.Pc g.Item)}
    {m : Synch.Monitor g.Item}
    (heff : Abs.Effect (c := client g) t (Point.inside i pc' next item)
      (call.rename (semaphoreOf i) fun pc => Point.inside i pc next none) { a with shared := sh } a')
    (hsh : sh.monitor i = m) : Abs.Effect t pc' call { monitorOf i a with shared := m } (monitorOf i a') := by
  have hself : monitorOf i { a with shared := sh } = { monitorOf i a with shared := m } := by
    unfold monitorOf
    rw [hsh]
  cases call with
  | p s =>
    cases heff with
    | take hs h0 =>
      rw [monitorOf_setSemaphore, monitorOf_setCtl, hself, ctlOf_run]
      exact .take hs h0
    | sleep hs h0 =>
      rw [monitorOf_setSemaphore, monitorOf_setCtl, hself, ctlOf_inP]
      exact .sleep hs h0
  | v s =>
    cases heff with
    | v hs =>
      rw [monitorOf_setSemaphore, monitorOf_setCtl, hself, ctlOf_run]
      exact .v hs
  | newSemaphore s v =>
    cases heff with
    | newSemaphore _ hs =>
      rw [monitorOf_setSemaphore, monitorOf_setCtl, hself, ctlOf_run]
      exact .newSemaphore v hs
  | deleteSemaphore s =>
    cases heff with
    | deleteSemaphore hs =>
      rw [monitorOf_setSemaphore, monitorOf_setCtl, hself, ctlOf_run]
      exact .deleteSemaphore hs
  | fork t' pc =>
    cases heff with
    | fork hne hgone =>
      rw [monitorOf_setCtl, monitorOf_setCtl, hself, ctlOf_run, ctlOf_run]
      exact .fork hne (congrArg (ctlOf i) hgone)
  | finish =>
    cases heff
    rw [monitorOf_setCtl, hself]
    exact .finish _
  | none =>
    cases heff
    rw [monitorOf_setCtl, hself, ctlOf_run]
    exact .none _
  | yield =>
    cases heff
    rw [monitorOf_setCtl, hself, ctlOf_run]
    exact .yield _
  | setStatus st =>
    cases heff
    rw [monitorOf_setCtl, hself, ctlOf_run]
    exact .setStatus st _
  | setLevel now =>
    cases heff
    rw [monitorOf_setCtl, hself, ctlOf_run]
    exact .setLevel now _
  | oneTick =>
    cases heff
    rw [monitorOf_setCtl, hself, ctlOf_run]
    exact .oneTick _

end Other

/-! ## The simulation -/

/-- The semaphores that code at a point has. -/
def Owns : Point g.Item g.Pc → SemId → Prop
  | .outside _, s => ∃ s', s = ownSemaphore s'
  | .inside i _ _ _, s => ∃ s', s = semaphoreOf i s'

/-- A thread in the loop of `P` waits for a semaphore of where it is. -/
def Named (a : Abs (client g)) : Prop := ∀ t s pt, a.ctl t = .inP s pt → Owns pt s

section Simulation

variable {i : Nat} {a a' : Abs (client g)} {t : Tid}

theorem Named.setCtl (hN : Named a) {y : Ctl (Point g.Item g.Pc)} (hy : ∀ s pt, y = .inP s pt → Owns pt s) :
    Named (a.setCtl t y) := by
  intro t' s pt h
  rcases eq_or_ne t' t with rfl | hne
  · rw [Abs.setCtl_self] at h
    exact hy s pt h
  · rw [Abs.setCtl_other a hne] at h
    exact hN t' s pt h

/-- The loop of `P` is entered for a semaphore of the caller. -/
theorem Codes.p_named {m m' : Memory g} {x : Input g} {pt pt' : Point g.Item g.Pc} {s : SemId}
    (h : Codes g t m x pt m' (.p s) pt') : Owns pt' s := by
  generalize hcall : Call.p s = call at h
  cases h with
  | @call _ _ _ call h =>
    cases call <;> cases hcall
    exact ⟨_, rfl⟩
  | enter h => cases hcall
  | @within i _ _ _ _ _ call hpc h =>
    cases call <;> cases hcall
    exact ⟨_, rfl⟩
  | leave => cases hcall

theorem Named.threadStep (hN : Named a) (h : Abs.ThreadStep t a a') : Named a' := by
  have hrun : ∀ (a : Abs (client g)), Named a → ∀ t' pt, Named (a.setCtl t' (.run pt)) :=
    fun a hN t' pt => hN.setCtl fun s pt' h => by cases h
  cases h with
  | code ht hcode heff =>
    cases heff with
    | sleep hs h0 =>
      refine Named.setCtl (a := { a with shared := _ }) hN ?_
      intro s pt h
      cases h
      exact (codes_of_code hcode).p_named
    | fork hne hgone => exact hrun _ (hrun { a with shared := _ } hN _ _) _ _
    | finish => exact Named.setCtl (a := { a with shared := _ }) hN fun s pt h => by cases h
    | _ => exact hrun { a with shared := _ } hN _ _
  | retestTake ht hs hq hv => exact hrun a hN _ _
  | retestSleep ht hs hq hv => exact hN

/-- The handlers use no semaphore of a monitor, and do not touch it. -/
theorem wakes_monitorOf {ss : List SemId} (h : Abs.Wakes (ss.map ownSemaphore) a a') :
    monitorOf i a' = monitorOf i a ∧ a'.ctl = a.ctl ∧ a'.shared = a.shared := by
  induction ss generalizing a with
  | nil =>
    cases h
    exact ⟨rfl, rfl, rfl⟩
  | cons s ss ih =>
    cases h with
    | cons hs h =>
      obtain ⟨h₁, h₂, h₃⟩ := ih h
      exact ⟨h₁.trans (monitorOf_setSemaphore_other i a (ownSemaphore_ne i s) _), h₂, h₃⟩

theorem device_monitor (m : Memory g) (d : g.Device) : (device g m d).1.monitor = m.monitor ∧
    ∃ ss : List SemId, (device g m d).2 = ss.map ownSemaphore := by
  unfold device
  cases g.device m.own d with
  | ok r => exact ⟨rfl, r.2, rfl⟩
  | error e => exact ⟨rfl, [], rfl⟩

theorem handler_monitorOf (h : Abs.HandlerStep a a') : monitorOf i a' = monitorOf i a ∧ a'.ctl = a.ctl := by
  obtain ⟨d, hw⟩ := h
  obtain ⟨hm, ss, hss⟩ := device_monitor a.shared d
  change Abs.Wakes (device g a.shared d).2 { a with shared := (device g a.shared d).1 } a' at hw
  rw [hss] at hw
  obtain ⟨h₁, h₂, -⟩ := wakes_monitorOf (i := i) hw
  exact ⟨h₁.trans (monitorOf_shared i a (congrFun hm i)), h₂⟩

/-- A thread begins an operation on monitor `i`. -/
theorem step_enter {b : Abs (Synch.client g.Item g.ops)} (h : b.ctl t = .run .user) {op : Synch.Op g.Item} (hop : g.ops op = true) :
    b.setCtl t (.run op.entry) = b ∨ Abs.ThreadStep t b (b.setCtl t (.run op.entry)) := by
  have hcode {op : Synch.Op g.Item} {pc : Synch.Pc g.Item} (hop : g.ops op = true)
      (hb : Synch.begin b.shared op = (b.shared, .none, pc)) : Abs.ThreadStep t b (b.setCtl t (.run pc)) := by
    have hcode : Synch.code g.ops t b.shared .user { op, fresh := 0 } = .ok (b.shared, .none, pc) := by
      simp only [Synch.code]
      rw [if_pos hop, hb]
    exact .code h hcode (.none b)
  have hstay : b.setCtl t (.run .user) = b := Abs.setCtl_eq_self b h
  cases op with
  | none => exact Or.inl hstay
  | yield => exact Or.inl hstay
  | fork t' => exact Or.inl hstay
  | finish => exact Or.inl hstay
  | _ => exact Or.inr (hcode hop rfl)

/-- Code away from a monitor has none of its semaphores. -/
theorem Away.not_owns {pt : Point g.Item g.Pc} (h : Away i pt) {s : SemId} (hs : Owns pt s) (s' : SemId) : s ≠ semaphoreOf i s' := by
  cases pt with
  | outside pc =>
    obtain ⟨s₀, rfl⟩ := hs
    exact ownSemaphore_ne i s₀ s'
  | inside j pc next item =>
    obtain ⟨s₀, rfl⟩ := hs
    exact semaphoreOf_ne h s₀ s'

theorem inside_of_not_away {pt : Point g.Item g.Pc} (h : ¬Away i pt) {s : SemId} (hs : Owns pt s) :
    ∃ pc next item s', pt = .inside i pc next item ∧ s = semaphoreOf i s' := by
  cases pt with
  | outside pc => exact absurd trivial h
  | inside j pc next item =>
    obtain rfl : j = i := not_not.1 h
    obtain ⟨s', rfl⟩ := hs
    exact ⟨pc, next, item, s', rfl, rfl⟩

/-- A step of a thread is, for each monitor, a step of the thread there, or none. -/
theorem threadStep_monitorOf (i : Nat) (hN : Named a) (h : Abs.ThreadStep t a a') :
    monitorOf i a' = monitorOf i a ∨ Abs.ThreadStep t (monitorOf i a) (monitorOf i a') := by
  cases h with
  | code ht hcode heff =>
    have hctl : (monitorOf i a).ctl t = ctlOf i (a.ctl t) := rfl
    rw [ht] at hctl
    have hcodes := codes_of_code hcode
    cases hcodes with
    | call h => exact step_other heff hctl rfl (ownSemaphore_ne i) (fun _ => trivial) trivial
    | @enter pc own j op hop next h =>
      have hpos : (monitorOf i a).ctl t = .run .user := hctl
      have hself : monitorOf i { a with shared := { a.shared with own } } = monitorOf i a := monitorOf_shared i a rfl
      rw [heff.of_none, monitorOf_setCtl, hself]
      by_cases hj : j = i
      · have hgo : ctlOf (g := g) i (.run (.inside j op.entry next none)) = .run op.entry := congrArg Ctl.run (if_pos hj)
        rw [hgo]
        exact step_enter hpos hop
      · have haway : Away (g := g) i (.inside j op.entry next none) := hj
        rw [haway.run]
        exact Or.inl (Abs.setCtl_eq_self _ hpos)
    | @within j pc pc' next item monitor call hpc h =>
      by_cases hj : j = i
      · subst hj
        have hpos : (monitorOf j a).ctl t = .run pc := hctl.trans (congrArg Ctl.run (if_pos rfl))
        exact Or.inr (.code hpos h (effect_inside heff (Function.update_self _ _ _)))
      · have hsh : Function.update a.shared.monitor j monitor i = a.shared.monitor i := Function.update_of_ne (Ne.symm hj) _ _
        exact step_other heff (hctl.trans (congrArg Ctl.run (if_neg hj))) hsh (semaphoreOf_ne hj) (fun _ => hj) hj
    | @leave j next item =>
      have hpos : (monitorOf i a).ctl t = .run .user := hctl.trans (congrArg Ctl.run (ite_self _))
      rw [heff.of_none, monitorOf_setCtl]
      exact Or.inl (Abs.setCtl_eq_self _ hpos)
  | @retestTake s pt x ht hs hq hv =>
    have hctl : (monitorOf i a).ctl t = ctlOf i (a.ctl t) := rfl
    rw [ht] at hctl
    have howns := hN t s pt ht
    by_cases haway : Away i pt
    · have hother : ∀ s', s ≠ semaphoreOf i s' := haway.not_owns howns
      rw [haway.inP] at hctl
      rw [monitorOf_setSemaphore_other i _ hother, monitorOf_setCtl, haway.run]
      exact Or.inl (Abs.setCtl_eq_self _ hctl)
    · obtain ⟨pc, next, item, s', rfl, rfl⟩ := inside_of_not_away haway howns
      have hpos : (monitorOf i a).ctl t = .inP s' pc := hctl.trans (ctlOf_inP i s' pc next item)
      rw [monitorOf_setSemaphore, monitorOf_setCtl, ctlOf_run]
      exact Or.inr (.retestTake hpos hs hq hv)
  | @retestSleep s pt x ht hs hq hv =>
    have hctl : (monitorOf i a).ctl t = ctlOf i (a.ctl t) := rfl
    rw [ht] at hctl
    have howns := hN t s pt ht
    by_cases haway : Away i pt
    · exact Or.inl (monitorOf_setSemaphore_other i a (haway.not_owns howns) _)
    · obtain ⟨pc, next, item, s', rfl, rfl⟩ := inside_of_not_away haway howns
      have hpos : (monitorOf i a).ctl t = .inP s' pc := hctl.trans (ctlOf_inP i s' pc next item)
      rw [monitorOf_setSemaphore]
      exact Or.inr (.retestSleep hpos hs hq hv)

theorem named_boot (own : g.Shared) (pc : g.Pc) (semaphores : SemId → Option Int) :
    Named (Abs.ofBoot (boot g own pc semaphores)) := by
  intro t s pt h
  have h' : (if t = mainThread then Ctl.run (Point.outside pc) else .gone) = .inP s pt := h
  split at h' <;> cases h'

theorem monitorOf_boot (i : Nat) (own : g.Shared) (pc : g.Pc) (semaphores : SemId → Option Int) :
    monitorOf i (Abs.ofBoot (boot g own pc semaphores)) = Abs.ofBoot (Synch.boot g.ops) := by
  unfold monitorOf Abs.ofBoot
  congr 1
  · funext t
    show ctlOf i (if t = mainThread then .run (.outside pc) else .gone) = if t = mainThread then .run .user else .gone
    split <;> rfl
  · funext s
    show ((boot g own pc semaphores).semaphores (semaphoreOf i s)).map Semaphore.new = _
    unfold boot semaphoreOf
    simp only [Nat.unpair_pair]
    rfl

variable {own : g.Shared} {pc : g.Pc} {semaphores : SemId → Option Int}

theorem named_of_reachable (ha : (Abs.system (boot g own pc semaphores)).Reachable a) : Named a := by
  refine ha.invariant (I := Named) ?_ ?_
  · rintro a rfl
    exact named_boot own pc semaphores
  · rintro a a' - hN (⟨t, h⟩ | h)
    · exact hN.threadStep h
    · intro t s pt hpt
      rw [(handler_monitorOf (i := 0) h).2] at hpt
      exact hN t s pt hpt

/-- Each monitor of the client refines the client of Synch. -/
theorem monitorOf_refines (i : Nat) : Simulation (Abs.system (boot g own pc semaphores)) (Abs.system (Synch.boot g.ops))
    (monitorOf i) := by
  refine ⟨?_, ?_⟩
  · rintro a rfl
    exact monitorOf_boot i own pc semaphores
  · rintro a a' ha (⟨t, h⟩ | h)
    · rcases threadStep_monitorOf i (named_of_reachable ha) h with heq | hstep
      · rw [heq]
      · exact .single (.thread t hstep)
    · rw [(handler_monitorOf h).1]

/-- What is shown of a monitor holds of each monitor of the client. -/
theorem monitorOf_reachable (ha : (Abs.system (boot g own pc semaphores)).Reachable a) (i : Nat) :
    (Abs.system (Synch.boot g.ops)).Reachable (monitorOf i a) :=
  (monitorOf_refines i).reachable ha

theorem monitor_reachable (ha : (Abs.system (boot g own pc semaphores)).Reachable a) (i : Nat) :
    (Synch.system g.ops).Reachable (Synch.view (monitorOf i a)) :=
  Synch.view_refines.reachable (monitorOf_reachable ha i)

/-- A step of a thread is, for each monitor, a step of the thread in the view of it, or none. -/
theorem threadStep_view (ha : (Abs.system (boot g own pc semaphores)).Reachable a) (h : Abs.ThreadStep t a a') (i : Nat) :
    Synch.view (monitorOf i a') = Synch.view (monitorOf i a) ∨
      Synch.Step g.ops t (Synch.view (monitorOf i a)) (Synch.view (monitorOf i a')) := by
  rcases threadStep_monitorOf i (named_of_reachable ha) h with heq | hstep
  · exact Or.inl (congrArg Synch.view heq)
  · exact Synch.view_threadStep (Synch.shaped_of_reachable (monitorOf_reachable ha i)) hstep

end Simulation

end Guarded

end Nachos
