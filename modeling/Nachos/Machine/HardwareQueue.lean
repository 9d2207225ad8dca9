import Nachos.Machine.Hardware
import Nachos.Machine.InterruptRule

/-!
# What a fired interrupt does to the devices

For each device the queue has as many interrupts as the device counts: one always for the timer and for the network, one for a device
that is busy, at most one for the keyboard. Those that come by themselves come regularly. The firing of an interrupt keeps that.
-/

namespace Nachos

open Loop Interrupt

namespace Hardware

variable {s s' : Interrupt devices} {w : Hardware}

/-! ## The devices -/

/-- How many of its interrupts a device counts as scheduled. `NetworkOutput` does not count. -/
def scheduled (w : Hardware) : Device → Nat
  | .timer | .networkInput => 1
  | .consoleInput => w.consoleInput.scheduled
  | .consoleOutput => w.consoleOutput.scheduled
  | .disk => w.disk.scheduled
  | .networkOutput => 0

/-- The packets on the socket are for this host, and not longer than a packet can be. -/
def Legal (hostName : Int) (answers : Nat → Answer) : Prop := ∀ n packet, (answers n).packet = some packet →
  (PostOffice.PacketHeader.ofBuf packet).to_ = hostName ∧ (PostOffice.PacketHeader.ofBuf packet).length ≤ PostOffice.maxPacketSize

/-- What holds of the devices: one that is busy waits for its interrupt, the keyboard is polled while nothing is buffered, the two views of
the disk agree, and no handler has failed. -/
structure Sound (w : Hardware) : Prop where
  polling : w.consoleInput.scheduled ≤ 1
  buffered : w.consoleInput.incoming ≠ Keyboard.EOF → w.consoleInput.scheduled = 0
  putBusy : w.consoleOutput.scheduled = if w.consoleOutput.putBusy then 1 else 0
  active : w.disk.scheduled = if w.disk.active then 1 else 0
  latency : w.latency.active = w.disk.active
  legal : Legal w.hostName w.answers
  alive : w.failed = false

/-- What a handler does: what its device counted is one less, and what it schedules is counted. -/
structure Handles (w : Hardware) (o : Device) (c : CallBack Hardware Device) : Prop where
  sound : Sound c.world
  counts : ∀ o', o' ≠ .networkOutput →
    c.world.scheduled o' + (if o = o' then 1 else 0) = w.scheduled o' + (c.scheduled.map Prod.fst).count o'
  disk : ∀ r ∈ c.scheduled, r.1 ≠ .disk
  latency : o ≠ .disk → c.world.latency = w.latency
  randomize : c.world.randomize = w.randomize

theorem Sound.networkInput_callBack (h : Sound w) (n : Nat) :
    ∃ r, w.networkInput.callBack w.hostName (w.answers n).packet = .ok r := by
  unfold PostOffice.NetworkInput.callBack
  split
  · exact ⟨_, rfl⟩
  · cases hp : (w.answers n).packet with
    | none => exact ⟨_, rfl⟩
    | some packet =>
      dsimp only
      rw [assert_of (h.legal n packet hp)]
      exact ⟨_, rfl⟩

/-- The keyboard is polled when nothing is buffered. -/
theorem Sound.consoleInput_callBack (h : Sound w) (hs : w.consoleInput.scheduled = 1) (ready : Bool) : ∃ c avail,
    { w.consoleInput with scheduled := w.consoleInput.scheduled - 1 }.callBack ready = .ok (c, avail) ∧
      c.scheduled = (if ready = false then 1 else 0) ∧ (ready = false → c.incoming = Keyboard.EOF) := by
  have hempty : w.consoleInput.incoming = Keyboard.EOF := by
    by_contra hne
    rw [h.buffered hne] at hs
    cases hs
  unfold Keyboard.ConsoleInput.callBack
  dsimp only
  rw [assert_of hempty, ok_bind, hs]
  cases ready with
  | false => exact ⟨_, _, rfl, rfl, fun _ => hempty⟩
  | true =>
    rw [if_neg (by decide)]
    cases w.consoleInput.file with
    | nil => exact ⟨_, _, rfl, rfl, nofun⟩
    | cons b file => exact ⟨_, _, rfl, rfl, nofun⟩

/-- Every handler goes through when an interrupt of its device is scheduled. -/
theorem Sound.callBack (h : Sound w) {o : Device} (ho : o ≠ .networkOutput → 0 < w.scheduled o) : Handles w o (callBack o w) := by
  cases o with
  | timer =>
    refine ⟨⟨h.polling, h.buffered, h.putBusy, h.active, h.latency, h.legal, h.alive⟩, ?_, ?_, fun _ => rfl, rfl⟩
    · intro o' _
      cases o' <;> rfl
    · intro r hr
      obtain rfl := List.mem_singleton.1 hr
      exact nofun
  | consoleInput =>
    have hone : w.consoleInput.scheduled = 1 := le_antisymm h.polling (ho nofun)
    obtain ⟨c, avail, hc, hsch, hinc⟩ := h.consoleInput_callBack hone (w.answers w.asked).ready
    have heq : Hardware.callBack .consoleInput w = { world := { w with asked := w.asked + 1, consoleInput := c }
                                                     scheduled := if (w.answers w.asked).ready = false then
                                                       [(.consoleInput, consoleTime, .consoleRead)] else []
                                                     yields := false } := by
      simp only [Hardware.callBack, hc]
    rw [heq]
    generalize (w.answers w.asked).ready = ready at hsch hinc
    refine ⟨⟨?_, ?_, h.putBusy, h.active, h.latency, h.legal, h.alive⟩, ?_, ?_, fun _ => rfl, rfl⟩
    · show c.scheduled ≤ 1
      rw [hsch]
      split <;> decide
    · intro hne
      show c.scheduled = 0
      rw [hsch, if_neg fun hready => hne (hinc hready)]
    · intro o' _
      cases o' with
      | consoleInput =>
        show c.scheduled + 1 = w.consoleInput.scheduled + _
        rw [hsch, hone]
        cases ready <;> rfl
      | _ => cases ready <;> rfl
    · intro r hr
      dsimp only at hr
      split at hr
      · obtain rfl := List.mem_singleton.1 hr
        exact nofun
      · cases hr
  | consoleOutput =>
    have hpos : 0 < w.consoleOutput.scheduled := ho nofun
    have hbusy := h.putBusy
    refine ⟨⟨h.polling, h.buffered, ?_, h.active, h.latency, h.legal, h.alive⟩, ?_, nofun, fun _ => rfl, rfl⟩
    · show w.consoleOutput.scheduled - 1 = 0
      split at hbusy <;> omega
    · intro o' _
      cases o' with
      | consoleOutput =>
        show w.consoleOutput.scheduled - 1 + 1 = w.consoleOutput.scheduled + 0
        omega
      | _ => rfl
  | networkInput =>
    obtain ⟨⟨n, avail⟩, hn⟩ := h.networkInput_callBack w.asked
    have heq : Hardware.callBack .networkInput w = { world := { w with asked := w.asked + 1, networkInput := n }
                                                     scheduled := [(.networkInput, networkTime, .networkRecv)]
                                                     yields := false } := by
      simp only [Hardware.callBack, hn]
    rw [heq]
    refine ⟨⟨h.polling, h.buffered, h.putBusy, h.active, h.latency, h.legal, h.alive⟩, ?_, ?_, fun _ => rfl, rfl⟩
    · intro o' _
      cases o' <;> rfl
    · intro r hr
      obtain rfl := List.mem_singleton.1 hr
      exact nofun
  | networkOutput =>
    refine ⟨⟨h.polling, h.buffered, h.putBusy, h.active, h.latency, h.legal, h.alive⟩, ?_, nofun, fun _ => rfl, rfl⟩
    intro o' ho'
    cases o' <;> first | rfl | exact absurd rfl ho'
  | disk =>
    have hpos : 0 < w.disk.scheduled := ho nofun
    have hactive := h.active
    refine ⟨⟨h.polling, h.buffered, h.putBusy, ?_, rfl, h.legal, h.alive⟩, ?_, nofun, fun hne => absurd rfl hne, rfl⟩
    · show w.disk.scheduled - 1 = 0
      split at hactive <;> omega
    · intro o' _
      cases o' with
      | disk =>
        show w.disk.scheduled - 1 + 1 = w.disk.scheduled + 0
        omega
      | _ => rfl

theorem positive : Interrupt.Positive devices := by
  intro o w r hr
  cases o with
  | timer =>
    obtain rfl := List.mem_singleton.1 hr
    show 0 < delay _ _
    unfold delay
    split
    · omega
    · decide
  | consoleInput =>
    simp only [Hardware.callBack] at hr
    split at hr
    · cases hr
    · dsimp only at hr
      split at hr
      · obtain rfl := List.mem_singleton.1 hr
        exact (by decide : (0 : Int) < consoleTime)
      · cases hr
  | networkInput =>
    simp only [Hardware.callBack] at hr
    split at hr <;> (obtain rfl := List.mem_singleton.1 hr; exact (by decide : (0 : Int) < networkTime))
  | consoleOutput | networkOutput | disk => cases hr

/-! ## The queue -/

/-- How many interrupts of a device are on the queue. -/
def count (s : Interrupt devices) (o : Device) : Nat := (s.pending.map fun e => e.callOnInterrupt).count o

theorem count_requested {requests : List (Device × Int × IntType)} (hr : Requested (d := devices) requests s s') (o : Device) :
    count s' o = count s o + (requests.map Prod.fst).count o := by
  obtain ⟨new, hnew, hmap⟩ := hr.entries
  have hobj : new.map (fun e => e.callOnInterrupt) = requests.map Prod.fst := by
    have h := congrArg (List.map Prod.fst) hmap
    rwa [List.map_map, List.map_map] at h
  unfold count
  rw [(hnew.map _).count_eq, List.map_append, List.count_append, hobj]

theorem count_popped {next : PendingInterrupt Device} {rest : List (PendingInterrupt Device)} (hp : s.pending = next :: rest)
    (o : Device) : count s o = count (s.popped next rest) o + if next.callOnInterrupt = o then 1 else 0 := by
  unfold count
  rw [hp, List.map_cons, List.count_cons]
  simp only [beq_iff_eq]
  rfl

theorem not_mem_of_count {o : Device} (h : count s o = 0) {e : PendingInterrupt Device} (he : e ∈ s.pending) :
    e.callOnInterrupt ≠ o := by
  intro ho
  exact List.count_eq_zero.1 h (List.mem_map.2 ⟨e, he, ho⟩)

/-- An entry that is new was asked for. -/
theorem of_requested {requests : List (Device × Int × IntType)} (hr : Requested (d := devices) requests s s')
    {e : PendingInterrupt Device} (he : e ∈ s'.pending) :
    e ∈ s.pending ∨ ∃ r ∈ requests, r.1 = e.callOnInterrupt ∧ s.totalTicks + r.2.1 = e.when := by
  obtain ⟨new, hnew, hmap⟩ := hr.entries
  obtain he | he := List.mem_append.1 (hnew.mem_iff.1 he)
  · exact Or.inl he
  · have hmem : (e.callOnInterrupt, e.when) ∈ requests.map fun r => (r.1, s.totalTicks + r.2.1) := by
      rw [← hmap]
      exact List.mem_map_of_mem he
    obtain ⟨r, hr', heq⟩ := List.mem_map.1 hmem
    obtain ⟨ho, hw⟩ := Prod.mk.inj heq
    exact Or.inr ⟨r, hr', ho, hw⟩

/-- The queue and the devices agree. -/
structure Consistent (s : Interrupt devices) : Prop where
  sound : Sound s.world
  counts : ∀ o, o ≠ .networkOutput → count s o = s.world.scheduled o
  disk : ∀ e ∈ s.pending, e.callOnInterrupt = .disk → s.world.latency.pending = some e.when

/-- They agree after an interrupt has fired. -/
theorem Consistent.fire (h : Consistent s) {next : PendingInterrupt Device} {rest : List (PendingInterrupt Device)}
    (hp : s.pending = next :: rest)
    (hr : Requested (d := devices) (devices.callBack next.callOnInterrupt s.world).scheduled (s.popped next rest) s') :
    Consistent s' ∧ Handles s.world next.callOnInterrupt (callBack next.callOnInterrupt s.world) := by
  have hpos : next.callOnInterrupt ≠ .networkOutput → 0 < s.world.scheduled next.callOnInterrupt := by
    intro hne
    rw [← h.counts _ hne, count_popped hp, if_pos rfl]
    exact Nat.succ_pos _
  have hh := h.sound.callBack hpos
  have hw : s'.world = (callBack next.callOnInterrupt s.world).world := hr.world
  refine ⟨⟨?_, ?_, ?_⟩, hh⟩
  · rw [hw]
    exact hh.sound
  · intro o ho
    have h1 := hh.counts o ho
    have h2 := h.counts o ho
    have h3 := count_popped hp o
    have h4 : count s' o = count (s.popped next rest) o + ((callBack next.callOnInterrupt s.world).scheduled.map Prod.fst).count o :=
      count_requested hr o
    rw [hw]
    omega
  · intro e he ho
    have hrest : e ∈ rest := by
      rcases of_requested hr he with he | ⟨r, hr', hr, -⟩
      · exact he
      · exact absurd (hr.trans ho) (hh.disk r hr')
    have hne : next.callOnInterrupt ≠ .disk := by
      intro hd
      have h3 := count_popped hp .disk
      have h2 := h.counts .disk nofun
      have hle : s.world.scheduled .disk ≤ 1 := by
        show s.world.disk.scheduled ≤ 1
        rw [h.sound.active]
        split <;> decide
      rw [if_pos hd] at h3
      have hzero : count (s.popped next rest) .disk = 0 := by omega
      exact not_mem_of_count hzero hrest ho
    rw [hw, hh.latency hne]
    exact h.disk e (by rw [hp]; exact List.mem_cons_of_mem _ hrest) ho

/-! ## Regular interrupts -/

/-- When the interrupts of a device have fired, after the start. -/
def fireTimes (s : Interrupt devices) (o : Device) : List Int :=
  0 :: (s.fired.filter fun f => f.1.callOnInterrupt = o).map Prod.snd

/-- The second time is `lo` to `hi` ticks after the first, and late by less than a tick of the system. -/
def Gap (lo hi : Int) (t t' : Int) : Prop := t + lo ≤ t' ∧ t' < t + hi + systemTick

/-- The interrupts of a device fire regularly, and the next is on the queue for the right time. -/
structure Regular (o : Device) (lo hi : Int) (s : Interrupt devices) : Prop where
  times : (fireTimes s o).IsChain (Gap lo hi)
  next : ∀ last ∈ (fireTimes s o).getLast?, ∀ e ∈ s.pending, e.callOnInterrupt = o → last + lo ≤ e.when ∧ e.when ≤ last + hi

/-- A device that is always scheduled, and asks for its next interrupt `lo` to `hi` ticks later. -/
theorem Regular.fire {o : Device} {lo hi : Int} (h : Regular o lo hi s) (hc : count s o = 1)
    {next : PendingInterrupt Device} {rest : List (PendingInterrupt Device)} (hp : s.pending = next :: rest)
    (hdue : next.when ≤ s.totalTicks) (hprompt : Prompt s)
    (hr : Requested (d := devices) (devices.callBack next.callOnInterrupt s.world).scheduled (s.popped next rest) s')
    (hreq : ∀ r ∈ (callBack next.callOnInterrupt s.world).scheduled, r.1 = o →
      next.callOnInterrupt = o ∧ lo ≤ r.2.1 ∧ r.2.1 ≤ hi) : Regular o lo hi s' := by
  have hfired : s'.fired = s.fired ++ [(next, s.totalTicks)] := hr.fired
  have hpopped := count_popped hp o
  obtain ⟨last, hlast⟩ : ∃ last, (fireTimes s o).getLast? = some last := ⟨_, List.getLast?_eq_some_getLast (by simp [fireTimes])⟩
  have hmem : next ∈ s.pending := by rw [hp]; exact List.mem_cons_self
  by_cases ho : next.callOnInterrupt = o
  · have htimes : fireTimes s' o = fireTimes s o ++ [s.totalTicks] := by simp [fireTimes, hfired, ho]
    have hlate := hprompt next hmem
    obtain ⟨hlo, hhi⟩ := h.next last hlast next hmem ho
    have hzero : count (s.popped next rest) o = 0 := by
      rw [if_pos ho] at hpopped
      omega
    constructor
    · rw [htimes]
      refine List.isChain_append.2 ⟨h.times, .singleton _, ?_⟩
      intro x hx y hy
      rw [hlast] at hx
      obtain rfl := Option.some.inj hx
      obtain rfl := Option.some.inj hy
      exact ⟨by omega, by omega⟩
    · intro t ht e he heo
      rw [htimes, List.getLast?_concat] at ht
      obtain rfl := Option.some.inj ht
      rcases of_requested hr he with he | ⟨r, hr', hro, hwhen⟩
      · exact absurd heo (not_mem_of_count hzero he)
      · obtain ⟨-, h1, h2⟩ := hreq r hr' (hro.trans heo)
        have hticks : (s.popped next rest).totalTicks = s.totalTicks := rfl
        omega
  · have htimes : fireTimes s' o = fireTimes s o := by simp [fireTimes, hfired, ho]
    constructor
    · rw [htimes]
      exact h.times
    · intro t ht e he heo
      rw [htimes] at ht
      rcases of_requested hr he with he | ⟨r, hr', hro, -⟩
      · exact h.next t ht e (by rw [hp]; exact List.mem_cons_of_mem _ he) heo
      · exact absurd (hreq r hr' (hro.trans heo)).1 ho

/-- How long the timer waits at least. -/
def timerLow (randomize : Bool) : Int := if randomize then 1 else timerTicks

/-- How long the timer waits at most. -/
def timerHigh (randomize : Bool) : Int := if randomize then 2 * timerTicks else timerTicks

theorem delay_bounds (w : Hardware) (a : Answer) : timerLow w.randomize ≤ w.delay a ∧ w.delay a ≤ timerHigh w.randomize := by
  unfold delay timerLow timerHigh timerTicks
  split <;> omega

/-! ## The rule for the devices -/

theorem clock_reachable (h : s.totalTicks ≤ s'.totalTicks) (hw : s'.world.latency = s.world.latency) :
    Relation.ReflTransGen Latency.Disk.Step (clock s) (clock s') := by
  obtain ⟨n, hn⟩ : ∃ n : Nat, s'.totalTicks = s.totalTicks + n := ⟨(s'.totalTicks - s.totalTicks).toNat, by omega⟩
  have heq : clock s' = { clock s with totalTicks := (clock s).totalTicks + n } := by
    unfold clock
    rw [hw, hn]
  rw [heq]
  exact .single (.time n)

/-- What every step keeps: `r` is whether there are random time slices, and `d₀` a state from which the disk came here. -/
structure Good (r : Bool) (d₀ : Latency.Disk) (s : Interrupt devices) : Prop where
  consistent : Consistent s
  randomize : s.world.randomize = r
  timer : Regular .timer (timerLow r) (timerHigh r) s
  network : Regular .networkInput networkTime networkTime s
  clock : Relation.ReflTransGen Latency.Disk.Step d₀ (clock s)

variable {r : Bool} {d₀ : Latency.Disk}

theorem Good.congr (h : Good r d₀ s) (hq : SameQueue s s') (hw : s'.world = s.world) (ht : s.totalTicks ≤ s'.totalTicks) :
    Good r d₀ s' := by
  have hcount (o : Device) : count s' o = count s o := by
    unfold count
    rw [hq.pending]
  have htimes (o : Device) : fireTimes s' o = fireTimes s o := by
    unfold fireTimes
    rw [hq.fired]
  have hregular {o : Device} {lo hi : Int} (hreg : Regular o lo hi s) : Regular o lo hi s' := by
    refine ⟨by rw [htimes]; exact hreg.times, ?_⟩
    rw [htimes, hq.pending]
    exact hreg.next
  refine ⟨⟨by rw [hw]; exact h.consistent.sound, ?_, ?_⟩, by rw [hw]; exact h.randomize, hregular h.timer, hregular h.network,
    h.clock.trans (clock_reachable ht (by rw [hw]))⟩
  · intro o ho
    rw [hcount, hw]
    exact h.consistent.counts o ho
  · rw [hq.pending, hw]
    exact h.consistent.disk

/-- The disk has had its interrupt when it was due. -/
theorem Consistent.clock_fire (h : Consistent s) {next : PendingInterrupt Device} {rest : List (PendingInterrupt Device)}
    (hp : s.pending = next :: rest) (hdue : next.when ≤ s.totalTicks)
    (hh : Handles s.world next.callOnInterrupt (callBack next.callOnInterrupt s.world))
    (hw : s'.world = (callBack next.callOnInterrupt s.world).world) (ht : s'.totalTicks = s.totalTicks) :
    Relation.ReflTransGen Latency.Disk.Step (clock s) (clock s') := by
  by_cases hd : next.callOnInterrupt = .disk
  · have hpending : s.world.latency.pending = some next.when := h.disk next (by rw [hp]; exact List.mem_cons_self) hd
    have heq : clock s' = (clock s).callBack := by
      unfold clock
      rw [hw, hd, ht]
      rfl
    rw [heq]
    exact .single (.interrupt next.when hpending hdue)
  · exact clock_reachable ht.ge (by rw [hw]; exact hh.latency hd)

/-- Firing an interrupt keeps all of it. -/
theorem kept (r : Bool) (d₀ : Latency.Disk) : Kept (d := devices) (Good r d₀) := by
  refine ⟨fun s s' h hq hw ht => h.congr hq hw ht, ?_⟩
  intro s s' next rest h hp hdue hprompt hr
  obtain ⟨hc, hh⟩ := h.consistent.fire hp hr
  have hw : s'.world = (callBack next.callOnInterrupt s.world).world := hr.world
  refine ⟨hc, ?_, ?_, ?_, h.clock.trans (h.consistent.clock_fire hp hdue hh hw hr.totalTicks)⟩
  · rw [hw, hh.randomize]
    exact h.randomize
  · refine h.timer.fire (h.consistent.counts .timer nofun) hp hdue hprompt hr ?_
    intro r' hr' ho
    generalize next.callOnInterrupt = o at hr'
    cases o with
    | timer =>
      obtain rfl := List.mem_singleton.1 hr'
      have hbounds := delay_bounds { s.world with asked := s.world.asked + 1 } (s.world.answers s.world.asked)
      rw [← h.randomize]
      exact ⟨rfl, hbounds⟩
    | consoleInput | networkInput =>
      simp only [callBack] at hr'
      split at hr' <;> simp at hr' <;> simp [hr'] at ho
    | consoleOutput | networkOutput | disk => cases hr'
  · refine h.network.fire (h.consistent.counts .networkInput nofun) hp hdue hprompt hr ?_
    intro r' hr' ho
    generalize next.callOnInterrupt = o at hr'
    cases o with
    | networkInput =>
      simp only [callBack] at hr'
      split at hr' <;> (obtain rfl := List.mem_singleton.1 hr'; exact ⟨rfl, le_refl _, le_refl _⟩)
    | timer =>
      obtain rfl := List.mem_singleton.1 hr'
      cases ho
    | consoleInput =>
      simp only [callBack] at hr'
      split at hr' <;> simp at hr'
      simp [hr'] at ho
    | consoleOutput | networkOutput | disk => cases hr'

end Hardware

end Nachos
