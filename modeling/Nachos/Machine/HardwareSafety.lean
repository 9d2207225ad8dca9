import Nachos.Machine.HardwareQueue
import Nachos.Prelude.Transition

/-!
# The queue and the devices agree

Every operation keeps what the firing of an interrupt keeps. So the machine never runs out of interrupts, and the disk whose time is
reckoned is the one on the queue.
-/

namespace Nachos

open Loop Interrupt

namespace Hardware

variable {s s' : Interrupt devices} {r : Bool} {d₀ : Latency.Disk}

/-! ## Steps -/

/-- A state between two operations. -/
abbrev Between (r : Bool) (d₀ : Latency.Disk) (s : Interrupt devices) : Prop := Settled (Good r d₀) s

/-- A change of the devices that schedules nothing. -/
theorem between_world (h : Between r d₀ s) {w : Hardware} (hw : Sound w) (hc : ∀ o, w.scheduled o = s.world.scheduled o)
    (hl : w.latency = s.world.latency) (hr : w.randomize = s.world.randomize) : Between r d₀ { s with world := w } := by
  obtain ⟨hi, hn, hg⟩ := h
  refine ⟨hi.advance ⟨rfl, rfl, rfl⟩ (le_refl _), hn, ⟨hw, ?_, ?_⟩, hr.trans hg.randomize, ⟨hg.timer.times, hg.timer.next⟩,
    ⟨hg.network.times, hg.network.next⟩, ?_⟩
  · intro o ho
    exact (hg.consistent.counts o ho).trans (hc o).symm
  · intro e he ho
    show w.latency.pending = _
    rw [hl]
    exact hg.consistent.disk e he ho
  · exact hg.clock.trans (clock_reachable (le_refl _) hl)

/-- A request to a device, which schedules its interrupt. -/
theorem between_request (h : Between r d₀ s) {o : Device} {fromNow : Int} {type : IntType} {s₁ : Interrupt devices}
    (hs : s.schedule o fromNow type = .ok s₁) (ho : o ≠ .timer ∧ o ≠ .networkInput) {w : Hardware} (hw : Sound w)
    (hc : ∀ o', o' ≠ .networkOutput → w.scheduled o' = s.world.scheduled o' + if o = o' then 1 else 0)
    (hl : w.latency = s.world.latency ∧ o ≠ .disk ∨ o = .disk ∧ w.latency.pending = some (s.totalTicks + fromNow) ∧
      s.world.scheduled .disk = 0 ∧ Relation.ReflTransGen Latency.Disk.Step (clock s) { w.latency with totalTicks := s.totalTicks })
    (hr : w.randomize = s.world.randomize) : Between r d₀ { s₁ with world := w } := by
  obtain ⟨hreq, hnone⟩ := h.schedule hs
  obtain ⟨hi, -, hg⟩ := h
  have hregular {o' : Device} {lo hi : Int} (hne : o ≠ o') (hreg : Regular o' lo hi s) : Regular o' lo hi { s₁ with world := w } := by
    have htimes : fireTimes { s₁ with world := w } o' = fireTimes s o' := by
      unfold fireTimes
      rw [hreq.fired]
    refine ⟨by rw [htimes]; exact hreg.times, ?_⟩
    rw [htimes]
    intro last hlast e he heo
    rcases of_requested hreq he with he | ⟨r', hr', hro, -⟩
    · exact hreg.next last hlast e he heo
    · obtain rfl := List.mem_singleton.1 hr'
      exact absurd (hro.trans heo) hne
  refine ⟨hreq.inOrder.advance ⟨rfl, rfl, rfl⟩ (le_refl _), hnone, ⟨hw, ?_, ?_⟩, hr.trans hg.randomize, hregular ho.1 hg.timer,
    hregular ho.2 hg.network, hg.clock.trans ?_⟩
  · intro o' ho'
    have h1 := hg.consistent.counts o' ho'
    have h2 := count_requested hreq o'
    rw [List.map_cons, List.map_nil, List.count_singleton] at h2
    simp only [beq_iff_eq] at h2
    show count s₁ o' = w.scheduled o'
    rw [h2, h1, hc o' ho']
  · intro e he heo
    show w.latency.pending = _
    rcases of_requested hreq he with he | ⟨r', hr', hro, hwhen⟩
    · rcases hl with ⟨hl, -⟩ | ⟨-, -, hzero, -⟩
      · rw [hl]
        exact hg.consistent.disk e he heo
      · exact absurd heo (not_mem_of_count ((hg.consistent.counts .disk nofun).trans hzero) he)
    · obtain rfl := List.mem_singleton.1 hr'
      rcases hl with ⟨-, hne⟩ | ⟨-, hpending, -, -⟩
      · exact absurd (hro.trans heo) hne
      · rw [hpending, ← hwhen]
  · rcases hl with ⟨hl, -⟩ | ⟨-, -, -, hsteps⟩
    · exact clock_reachable hreq.totalTicks.ge hl
    · show Relation.ReflTransGen _ _ { w.latency with totalTicks := s₁.totalTicks }
      rw [hreq.totalTicks]
      exact hsteps

theorem between_getChar (h : Between r d₀ s) {ch : Int8} (hs : getChar s = .ok (ch, s')) : Between r d₀ s' := by
  have hsound := h.holds.consistent.sound
  unfold getChar at hs
  dsimp only at hs
  split at hs
  · rename_i hne
    obtain ⟨s₁, hs₁, hs⟩ := of_bind_ok hs
    cases hs
    have hzero := hsound.buffered hne
    have hone : s.world.consoleInput.getChar.2.scheduled = 1 := by
      unfold Keyboard.ConsoleInput.getChar
      dsimp only
      rw [if_pos hne, hzero]
    rw [(h.schedule hs₁).1.world]
    refine between_request h hs₁ ⟨nofun, nofun⟩ ?_ ?_ (.inl ⟨rfl, nofun⟩) rfl
    · exact ⟨by rw [hone], fun hne' => absurd rfl hne', hsound.putBusy, hsound.active, hsound.latency, hsound.legal, hsound.alive⟩
    · intro o' _
      cases o' with
      | consoleInput =>
        show s.world.consoleInput.getChar.2.scheduled = s.world.consoleInput.scheduled + 1
        rw [hone, hzero]
      | _ => rfl
  · rename_i hne
    cases hs
    have hsame : s.world.consoleInput.getChar.2.scheduled = s.world.consoleInput.scheduled := by
      unfold Keyboard.ConsoleInput.getChar
      dsimp only
      rw [if_neg hne]
    refine between_world h ?_ ?_ rfl rfl
    · exact ⟨by rw [hsame]; exact hsound.polling, fun hne' => absurd rfl hne', hsound.putBusy, hsound.active, hsound.latency,
        hsound.legal, hsound.alive⟩
    · intro o'
      cases o' with
      | consoleInput => exact hsame
      | _ => rfl

theorem between_putChar (h : Between r d₀ s) {ch : UInt8} (hs : putChar s ch = .ok s') : Between r d₀ s' := by
  have hsound := h.holds.consistent.sound
  unfold putChar at hs
  obtain ⟨c, hc, hs⟩ := of_bind_ok hs
  obtain ⟨s₁, hs₁, hs⟩ := of_bind_ok hs
  cases hs
  unfold Drivers.ConsoleOutput.putChar at hc
  obtain ⟨hidle, hc⟩ := of_assert_bind hc
  cases hc
  have hzero : s.world.consoleOutput.scheduled = 0 := by
    rw [hsound.putBusy, hidle]
    rfl
  rw [(h.schedule hs₁).1.world]
  refine between_request h hs₁ ⟨nofun, nofun⟩ ?_ ?_ (.inl ⟨rfl, nofun⟩) rfl
  · refine ⟨hsound.polling, hsound.buffered, ?_, hsound.active, hsound.latency, hsound.legal, hsound.alive⟩
    show s.world.consoleOutput.scheduled + 1 = 1
    rw [hzero]
  · intro o' _
    cases o' <;> rfl

theorem between_receive (h : Between r d₀ s) (data : Bytes.Buf) : Between r d₀ (receive s data).2.2 := by
  have hsound := h.holds.consistent.sound
  refine between_world h ?_ ?_ rfl rfl
  · exact ⟨hsound.polling, hsound.buffered, hsound.putBusy, hsound.active, hsound.latency, hsound.legal, hsound.alive⟩
  · intro o
    cases o <;> rfl

theorem between_send (h : Between r d₀ s) {lost : Bool} {junk : Bytes.Buf} {size : Nat} {hdr : PostOffice.PacketHeader}
    {data : Bytes.Block size} {sent : Option Wire.Datagram} (hs : send s lost junk hdr data = .ok (sent, s')) : Between r d₀ s' := by
  have hsound := h.holds.consistent.sound
  unfold send at hs
  obtain ⟨⟨n, sent'⟩, -, hs⟩ := of_bind_ok hs
  obtain ⟨s₁, hs₁, hs⟩ := of_bind_ok hs
  cases hs
  rw [(h.schedule hs₁).1.world]
  refine between_request h hs₁ ⟨nofun, nofun⟩ ?_ ?_ (.inl ⟨rfl, nofun⟩) rfl
  · exact ⟨hsound.polling, hsound.buffered, hsound.putBusy, hsound.active, hsound.latency, hsound.legal, hsound.alive⟩
  · intro o ho
    cases o <;> first | rfl | exact absurd rfl ho

/-- What a request leaves of the time of the disk. -/
theorem of_request_ok {d d' : Latency.Disk} {sectorNumber : Int} {writing : Bool} (h : d.request sectorNumber writing = .ok d') :
    d'.active = true ∧ d'.pending = some (d.totalTicks + d.computeLatency sectorNumber writing) ∧ d'.totalTicks = d.totalTicks := by
  unfold Latency.Disk.request at h
  obtain ⟨-, h⟩ := of_assert_bind h
  obtain ⟨-, h⟩ := of_assert_bind h
  obtain ⟨-, h⟩ := of_assert_bind h
  cases h
  exact ⟨rfl, rfl, rfl⟩

/-- A request to the disk, whose data and time go on together. -/
theorem between_disk (h : Between r d₀ s) {sectorNumber : Int} {writing : Bool} {disk : Drivers.DiskDevice} {latency : Latency.Disk}
    {s₁ : Interrupt devices} (hidle : s.world.disk.active = false) (hactive : disk.active = true)
    (hcount : disk.scheduled = s.world.disk.scheduled + 1) (hl : (clock s).request sectorNumber writing = .ok latency)
    (hstep : Latency.Disk.Step (clock s) latency)
    (hs : s.schedule .disk ((clock s).computeLatency sectorNumber writing) .disk = .ok s₁) :
    Between r d₀ { s₁ with world := { s₁.world with disk, latency } } := by
  have hsound := h.holds.consistent.sound
  have hworld : s₁.world = s.world := (h.schedule hs).1.world
  obtain ⟨hlactive, hpending, hticks⟩ := of_request_ok hl
  have hzero : s.world.disk.scheduled = 0 := by
    rw [hsound.active, hidle]
    rfl
  rw [hworld]
  refine between_request h hs ⟨nofun, nofun⟩ ?_ ?_ (.inr ⟨rfl, hpending, hzero, ?_⟩) rfl
  · refine ⟨hsound.polling, hsound.buffered, hsound.putBusy, ?_, hlactive.trans hactive.symm, hsound.legal, hsound.alive⟩
    show disk.scheduled = if disk.active then 1 else 0
    rw [hcount, hzero, hactive]
    rfl
  · intro o _
    cases o with
    | disk => exact hcount
    | _ => rfl
  · have heq : { latency with totalTicks := s.totalTicks } = latency := by
      have hticks' : latency.totalTicks = s.totalTicks := hticks
      rw [← hticks']
    show Relation.ReflTransGen _ _ { latency with totalTicks := s.totalTicks }
    rw [heq]
    exact .single hstep

theorem between_readRequest (h : Between r d₀ s) {sectorNumber : Int} {data : Vector UInt8 128}
    (hs : readRequest s sectorNumber = .ok (data, s')) : Between r d₀ s' := by
  unfold readRequest at hs
  obtain ⟨⟨disk, data'⟩, hdisk, hs⟩ := of_bind_ok hs
  obtain ⟨latency, hl, hs⟩ := of_bind_ok hs
  obtain ⟨s₁, hs₁, hs⟩ := of_bind_ok hs
  cases hs
  unfold Drivers.DiskDevice.readRequest at hdisk
  obtain ⟨hidle, hdisk⟩ := of_assert_bind hdisk
  obtain ⟨-, hdisk⟩ := of_assert_bind hdisk
  cases hdisk
  exact between_disk h hidle rfl rfl hl (.read sectorNumber hl) hs₁

theorem between_writeRequest (h : Between r d₀ s) {sectorNumber : Int} {data : Vector UInt8 128}
    (hs : writeRequest s sectorNumber data = .ok s') : Between r d₀ s' := by
  unfold writeRequest at hs
  obtain ⟨disk, hdisk, hs⟩ := of_bind_ok hs
  obtain ⟨latency, hl, hs⟩ := of_bind_ok hs
  obtain ⟨s₁, hs₁, hs⟩ := of_bind_ok hs
  cases hs
  unfold Drivers.DiskDevice.writeRequest at hdisk
  obtain ⟨hidle, hdisk⟩ := of_assert_bind hdisk
  obtain ⟨-, hdisk⟩ := of_assert_bind hdisk
  cases hdisk
  exact between_disk h hidle rfl rfl hl (.write sectorNumber hl) hs₁

/-- The timer is always on the queue. -/
theorem Consistent.pending_ne_nil (h : Consistent s) : s.pending ≠ [] := by
  intro hnil
  have hone : count s .timer = 1 := h.counts .timer nofun
  unfold count at hone
  rw [hnil] at hone
  cases hone

/-- `Idle` returns, so the machine does not halt there. -/
theorem between_idleMachine (h : Between r d₀ s) (hoff : s.level = .off) : ∃ s', idleMachine s = .ok s' ∧ Between r d₀ s' := by
  have hset (s₁ : Interrupt devices) (b : Bool) (h₁ : Between r d₀ s₁) :
      Between r d₀ { s₁ with world := { s₁.world with idle := b } } := by
    have hsound := h₁.holds.consistent.sound
    refine between_world h₁ ?_ ?_ rfl rfl
    · exact ⟨hsound.polling, hsound.buffered, hsound.putBusy, hsound.active, hsound.latency, hsound.legal, hsound.alive⟩
    · intro o
      cases o <;> rfl
  obtain ⟨s₁, hs₁, h₁⟩ := (hset s true h).idle positive (kept r d₀) hoff h.holds.consistent.pending_ne_nil
  unfold idleMachine
  rw [hs₁]
  exact ⟨_, rfl, hset s₁ false h₁⟩

/-- One operation. -/
theorem between_step (h : Between r d₀ s) (hs : Step s s') : Between r d₀ s' := by
  cases hs with
  | getChar hs => exact between_getChar h hs
  | putChar hs => exact between_putChar h hs
  | receive data => exact between_receive h data
  | send hs => exact between_send h hs
  | readRequest hs => exact between_readRequest h hs
  | writeRequest hs => exact between_writeRequest h hs
  | setLevel hs => exact h.setLevel positive (kept r d₀) hs
  | oneTick hs =>
    obtain ⟨s₁, hs₁, h₁⟩ := h.oneTick positive (kept r d₀)
    obtain rfl := Except.ok.inj (hs.symm.trans hs₁)
    exact h₁
  | idle hs =>
    -- `CheckIfDue` asserts that interrupts are off
    have hoff : s.level = .off := by
      unfold idleMachine Interrupt.idle Interrupt.checkIfDue at hs
      simp only [bind_assoc] at hs
      exact (of_assert_bind hs).1
    obtain ⟨s₁, hs₁, h₁⟩ := between_idleMachine h hoff
    obtain rfl := Except.ok.inj (hs.symm.trans hs₁)
    exact h₁
  | setStatus status => exact h.congr (kept r d₀) ⟨rfl, rfl, rfl⟩ rfl rfl

/-! ## Runs -/

/-- The machine has been set up. -/
theorem initialize_between (x : Setup) (hx : Legal x.hostName x.answers) :
    ∃ s, initialize_ x = .ok s ∧ clock s = Latency.Disk.new 0 ∧ Between x.randomSlice (Latency.Disk.new 0) s := by
  have hdelay : 0 < (new x).delay (x.answers 0) := by
    have hbounds := (delay_bounds (new x) (x.answers 0)).1
    unfold timerLow timerTicks at hbounds
    split at hbounds <;> omega
  have hnew : InOrder (Interrupt.new (d := devices) (new x)) := by
    constructor <;> simp [Interrupt.new]
  obtain ⟨s₁, hs₁, hr₁⟩ := schedule_requested hnew .timer hdelay .timer
  obtain ⟨s₂, hs₂, hr₂⟩ := schedule_requested hr₁.inOrder .consoleInput (by decide : 0 < consoleTime) .consoleRead
  obtain ⟨s, hs, hr₃⟩ := schedule_requested hr₂.inOrder .networkInput (by decide : 0 < networkTime) .networkRecv
  have hr := hr₁.cons (hr₂.cons hr₃)
  have hinit : initialize_ x = .ok s := by
    unfold initialize_
    dsimp only
    rw [hs₁, ok_bind, hs₂, ok_bind, hs]
  have hworld : s.world = new x := hr.world
  have hticks : s.totalTicks = 0 := hr.totalTicks
  have hentry {e : PendingInterrupt Device} (he : e ∈ s.pending) :
      e.callOnInterrupt = .timer ∧ e.when = (new x).delay (x.answers 0) ∨ e.callOnInterrupt = .consoleInput ∧ e.when = consoleTime ∨
        e.callOnInterrupt = .networkInput ∧ e.when = networkTime := by
    rcases of_requested hr he with he | ⟨q, hq, hqo, hwhen⟩
    · cases he
    · have hzero : (Interrupt.new (d := devices) (new x)).totalTicks = 0 := rfl
      rw [hzero, Int.zero_add] at hwhen
      simp only [List.mem_cons, List.not_mem_nil, or_false] at hq
      rcases hq with rfl | rfl | rfl
      · exact .inl ⟨hqo.symm, hwhen.symm⟩
      · exact .inr (.inl ⟨hqo.symm, hwhen.symm⟩)
      · exact .inr (.inr ⟨hqo.symm, hwhen.symm⟩)
  have htimes (o : Device) : fireTimes s o = [0] := by
    unfold fireTimes
    rw [hr.fired]
    rfl
  have hclock : clock s = Latency.Disk.new 0 := by
    unfold clock
    rw [hworld, hticks]
    rfl
  refine ⟨s, hinit, hclock, hr.inOrder, ?_, ⟨?_, ?_, ?_⟩, ?_, ⟨?_, ?_⟩, ⟨?_, ?_⟩, by rw [hclock]⟩
  · intro e he
    rw [hticks]
    have hconsole : (0 : Int) < consoleTime := by decide
    have hnetwork : (0 : Int) < networkTime := by decide
    rcases hentry he with ⟨-, h⟩ | ⟨-, h⟩ | ⟨-, h⟩ <;> omega
  · rw [hworld]
    exact ⟨le_refl _, fun hne => absurd rfl hne, rfl, rfl, rfl, hx, rfl⟩
  · intro o ho
    rw [count_requested hr, hworld]
    cases o <;> rfl
  · intro e he ho
    rcases hentry he with ⟨h, -⟩ | ⟨h, -⟩ | ⟨h, -⟩ <;> rw [h] at ho <;> cases ho
  · rw [hworld]
    rfl
  · rw [htimes]
    exact .singleton _
  · rw [htimes]
    intro last hlast e he ho
    have hzero : last = 0 := (Option.some.inj hlast).symm
    rcases hentry he with ⟨-, h⟩ | ⟨h, -⟩ | ⟨h, -⟩
    · have hbounds : timerLow x.randomSlice ≤ _ ∧ _ ≤ timerHigh x.randomSlice := delay_bounds (new x) (x.answers 0)
      omega
    · rw [h] at ho
      cases ho
    · rw [h] at ho
      cases ho
  · rw [htimes]
    exact .singleton _
  · rw [htimes]
    intro last hlast e he ho
    have hzero : last = 0 := (Option.some.inj hlast).symm
    rcases hentry he with ⟨h, -⟩ | ⟨h, -⟩ | ⟨-, h⟩
    · rw [h] at ho
      cases ho
    · rw [h] at ho
      cases ho
    · omega

/-- In every state of a run. -/
theorem between_reachable {x : Setup} (hx : Legal x.hostName x.answers) (h : (system x).Reachable s) :
    Between x.randomSlice (Latency.Disk.new 0) s := by
  induction h with
  | init hi =>
    obtain ⟨s₁, hs₁, -, hb⟩ := initialize_between x hx
    obtain rfl := Except.ok.inj (hs₁.symm.trans hi)
    exact hb
  | step _ hs ih => exact between_step ih hs

/-- A machine with random time slices, where a key is pressed and no packet comes. -/
def typing : Setup where
  randomSlice := true
  hostName := 0
  file := { sector := fun _ => Vector.replicate 128 0 }
  typed := [65]
  junk := { inHdr := { to_ := 0, from_ := 0, length := 0 }, inbox := fun _ => 0 }
  answers := fun n => { random := 30 * n + 4, ready := n = 2, packet := none }

theorem legal_typing : Legal typing.hostName typing.answers := fun _ _ h => nomatch h

/-- It reads a sector, and is idle until the timer interrupts it. -/
def typingRun : Except Fault (Interrupt devices) := do
  let s ← initialize_ typing
  let (_, s) ← readRequest s 5
  idleMachine s

theorem typingRun_ok : ∃ s, typingRun = .ok s ∧ s.totalTicks = 5 ∧ s.level = .off ∧ s.world.disk.active = true :=
  ⟨_, rfl, rfl, rfl, rfl⟩

theorem reachable_typingRun (h : typingRun = .ok s) : (system typing).Reachable s := by
  unfold typingRun at h
  obtain ⟨s₁, hs₁, h⟩ := of_bind_ok h
  obtain ⟨⟨data, s₂⟩, hs₂, h⟩ := of_bind_ok h
  exact .step (.step (.init hs₁) (.readRequest hs₂)) (.idle h)

/-- An interrupt that is counted is on the queue, and not due. -/
theorem exists_of_count (h : NoneDue s) {o : Device} (hc : count s o = 1) :
    ∃ e ∈ s.pending, e.callOnInterrupt = o ∧ s.totalTicks < e.when := by
  have hmem : o ∈ s.pending.map fun e => e.callOnInterrupt := by
    refine List.count_pos_iff.1 ?_
    show 0 < count s o
    omega
  obtain ⟨e, he, ho⟩ := List.mem_map.1 hmem
  exact ⟨e, he, ho, h e he⟩

/-- In every run the timer and the poll of the network come regularly: each within its time after the one before, and late by less than a
tick of the system. None is overdue. -/
theorem interrupts_regular {x : Setup} (hx : Legal x.hostName x.answers) (h : (system x).Reachable s) :
    ((fireTimes s .timer).IsChain (Gap (timerLow x.randomSlice) (timerHigh x.randomSlice)) ∧
        ∀ last ∈ (fireTimes s .timer).getLast?, s.totalTicks < last + timerHigh x.randomSlice) ∧
      (fireTimes s .networkInput).IsChain (Gap networkTime networkTime) ∧
        ∀ last ∈ (fireTimes s .networkInput).getLast?, s.totalTicks < last + networkTime := by
  have hb := between_reachable hx h
  have hc := hb.holds.consistent
  have hlast {o : Device} {lo hi : Int} (hreg : Regular o lo hi s) (hone : count s o = 1) :
      ∀ last ∈ (fireTimes s o).getLast?, s.totalTicks < last + hi := by
    intro last hlast
    obtain ⟨e, he, ho, hlater⟩ := exists_of_count hb.noneDue hone
    have hnext := hreg.next last hlast e he ho
    omega
  exact ⟨⟨hb.holds.timer.times, hlast hb.holds.timer (hc.counts .timer nofun)⟩, hb.holds.network.times,
    hlast hb.holds.network (hc.counts .networkInput nofun)⟩

theorem interrupts_regular_typing : ∃ s, typingRun = .ok s ∧ fireTimes s .timer = [0, 5] ∧ (fireTimes s .timer).IsChain (Gap 1 200) := by
  obtain ⟨s, hs, -⟩ := typingRun_ok
  obtain ⟨⟨htimer, -⟩, -, -⟩ := interrupts_regular legal_typing (reachable_typingRun hs)
  obtain rfl := Except.ok.inj (hs.symm.trans rfl)
  exact ⟨_, rfl, rfl, htimer⟩

/-- The disk on the queue is the disk whose time is reckoned: each step of the machine is steps of it. -/
theorem clock_simulation {x : Setup} (hx : Legal x.hostName x.answers) :
    Transition.Simulation (system x) Latency.Disk.system clock := by
  constructor
  · intro s hs
    obtain ⟨s₁, hs₁, hclock, -⟩ := initialize_between x hx
    obtain rfl := Except.ok.inj (hs₁.symm.trans hs)
    exact ⟨0, le_refl _, hclock⟩
  · intro s s' h hs
    obtain ⟨hi, hn, hg⟩ := between_reachable hx h
    exact (between_step ⟨hi, hn, { hg with clock := .refl }⟩ hs).holds.clock

theorem clock_simulation_typing : Transition.Simulation (system typing) Latency.Disk.system clock := clock_simulation legal_typing

end Hardware

end Nachos
