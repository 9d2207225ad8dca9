import Nachos.Machine.Latency
import Nachos.Prelude.Loop

/-!
# The latency of the disk

The head is at the beginning of a sector whenever the clock is a multiple of `RotationTime`; a seek takes such a multiple. So a request ends
with the slot in which its sector passes under the head, or else the sector has passed since the track buffer was begun.
-/

namespace Nachos

namespace Latency

open Loop

namespace Disk

variable {d d' : Disk} {sector : Int} {writing : Bool}

/-! ## Slots -/

/-- A slot: the time from `t` on in which a sector passes under the head. -/
structure Slot (sector t : Int) : Prop where
  aligned : t % rotationTime = 0
  sector : t / rotationTime % sectorsPerTrack = sector % sectorsPerTrack

/-- The sectors have numbers. -/
def InRange (sector : Int) : Prop := 0 ≤ sector ∧ sector < numSectors

instance (sector : Int) : Decidable (InRange sector) := inferInstanceAs (Decidable (_ ∧ _))

theorem track_of (h : InRange sector) : track sector = sector / 32 ∧ 0 ≤ track sector ∧ track sector < 32 := by
  obtain ⟨h0, hlt⟩ := h
  have hdiv : track sector = sector / 32 := Int.tdiv_eq_ediv_of_nonneg h0
  unfold numSectors at hlt
  omega

theorem moduloDiff_of {a b : Int} (ha : 0 ≤ a) (hb : 0 ≤ b) :
    0 ≤ moduloDiff a b ∧ moduloDiff a b < 32 ∧ (b + moduloDiff a b) % 32 = a % 32 := by
  unfold moduloDiff sectorsPerTrack
  dsimp only
  rw [Int.tmod_eq_emod_of_nonneg ha, Int.tmod_eq_emod_of_nonneg hb, Int.tmod_eq_emod_of_nonneg (by omega)]
  omega

/-- The first slot of a sector from the beginning of some slot on. -/
theorem slot_of {t : Int} (h0 : 0 ≤ t) (ht : t % 500 = 0) (hsector : 0 ≤ sector) :
    Slot sector (t + moduloDiff sector (t.tdiv rotationTime) * rotationTime) := by
  have hslot : 0 ≤ t / 500 := by omega
  obtain ⟨-, -, hmod⟩ := moduloDiff_of hsector hslot
  unfold rotationTime
  rw [Int.tdiv_eq_ediv_of_nonneg h0]
  constructor <;> unfold rotationTime <;> try unfold sectorsPerTrack
  · omega
  · omega

/-! ## Seeks -/

/-- What `TimeToSeek` finds. -/
structure Seek (d : Disk) (sector : Int) : Prop where
  seek : 0 ≤ (d.timeToSeek sector).1 ∧ (d.timeToSeek sector).1 ≤ 31 * 500
  rotation : 0 ≤ (d.timeToSeek sector).2 ∧ (d.timeToSeek sector).2 < 500
  aligned : d.timeAfter sector % 500 = 0
  zero : (d.timeToSeek sector).1 = 0 ↔ track sector = track d.lastSector

theorem seek_of (h0 : 0 ≤ d.totalTicks) (hlast : InRange d.lastSector) (hsector : InRange sector) : Seek d sector := by
  obtain ⟨-, hlast0, hlast1⟩ := track_of hlast
  obtain ⟨-, hnew0, hnew1⟩ := track_of hsector
  have hover : 0 ≤ d.totalTicks + ((track sector - track d.lastSector).natAbs : Int) * 500 := by omega
  constructor
  · unfold timeToSeek seekTime
    dsimp only
    omega
  · unfold timeToSeek seekTime rotationTime
    dsimp only
    rw [Int.tmod_eq_emod_of_nonneg hover]
    split <;> omega
  · unfold timeAfter timeToSeek seekTime rotationTime
    dsimp only
    rw [Int.tmod_eq_emod_of_nonneg hover]
    split <;> omega
  · unfold timeToSeek seekTime
    dsimp only
    omega

/-- The parts of the time at which a sector begins. -/
theorem timeAfter_eq (d : Disk) (sector : Int) :
    d.timeAfter sector = d.totalTicks + (d.timeToSeek sector).1 + (d.timeToSeek sector).2 := rfl

theorem Seek.timeAfter_nonneg (h : Seek d sector) (h0 : 0 ≤ d.totalTicks) : 0 ≤ d.timeAfter sector := by
  have hseek := h.seek
  have hrotation := h.rotation
  rw [timeAfter_eq]
  omega

/-- From the track buffer a sector takes its transfer only. -/
theorem computeLatency_of_served (h : d.Served sector writing) : d.computeLatency sector writing = rotationTime := by
  unfold computeLatency
  dsimp only
  rw [if_pos h]

/-! ## Requests -/

/-- What holds of the disk between two steps. -/
structure Inv (d : Disk) : Prop where
  ticks : 0 ≤ d.totalTicks
  last : InRange d.lastSector
  buffer : 0 ≤ d.bufferInit ∧ d.bufferInit % 500 = 0
  idle : d.active = false → d.bufferInit ≤ d.totalTicks
  pending : ∀ when, d.pending = some when → d.bufferInit ≤ when
  previous : d.previous = some d.lastSector ∨ d.previous = none ∧ d.lastSector = 0 ∧ d.bufferInit = 0

theorem inv_new {totalTicks : Int} (h : 0 ≤ totalTicks) : Inv (new totalTicks) :=
  ⟨h, ⟨le_refl _, (by decide : (0 : Int) < numSectors)⟩, ⟨le_refl _, rfl⟩, fun _ => h, nofun, .inr ⟨rfl, rfl, rfl⟩⟩

/-- A request that the track buffer does not serve ends with a slot of its sector. -/
theorem Seek.slot (h : Seek d sector) (h0 : 0 ≤ d.totalTicks) (hsector : InRange sector) (hserved : ¬d.Served sector writing) :
    ∃ t, Slot sector t ∧ d.totalTicks + d.computeLatency sector writing = t + rotationTime ∧ d.timeAfter sector ≤ t ∧
      t ≤ d.timeAfter sector + 31 * rotationTime := by
  have hafter := h.timeAfter_nonneg h0
  obtain ⟨hlow, hhigh, -⟩ := moduloDiff_of hsector.1 (Int.tdiv_nonneg hafter (by decide : 0 ≤ rotationTime))
  refine ⟨_, slot_of hafter h.aligned hsector.1, ?_, ?_, ?_⟩
  · unfold computeLatency
    dsimp only
    rw [if_neg hserved, timeAfter_eq]
    omega
  · unfold rotationTime at hlow ⊢
    omega
  · unfold rotationTime at hhigh ⊢
    omega

/-- When the track buffer serves a request, the head has stayed on its track, and the sector has passed since the buffer was begun. -/
theorem Inv.served (h : Inv d) (hidle : d.active = false) (hsector : InRange sector) (hserved : d.Served sector writing) :
    writing = false ∧ track sector = track d.lastSector ∧ d.computeLatency sector writing = rotationTime ∧
      ∃ t, Slot sector t ∧ d.bufferInit ≤ t ∧ t + rotationTime ≤ d.totalTicks + d.computeLatency sector writing := by
  obtain ⟨hread, hzero, hpassed⟩ := id hserved
  have hs := seek_of h.ticks h.last hsector
  have hrotation := hs.rotation
  have haligned := hs.aligned
  have hbuffer := h.buffer
  have hstart := h.idle hidle
  have hlatency := computeLatency_of_served hserved
  refine ⟨hread, hs.zero.1 hzero, hlatency, _, slot_of hbuffer.1 hbuffer.2 hsector.1, ?_, ?_⟩
  · obtain ⟨hlow, -⟩ := moduloDiff_of hsector.1 (Int.tdiv_nonneg hbuffer.1 (by decide : 0 ≤ rotationTime))
    unfold rotationTime at hlow ⊢
    omega
  · rw [hlatency]
    generalize moduloDiff sector (d.bufferInit.tdiv rotationTime) = n at hpassed
    have hafter := timeAfter_eq d sector
    unfold rotationTime at *
    have hnonneg : 0 ≤ d.timeAfter sector - d.bufferInit := by omega
    rw [Int.tdiv_eq_ediv_of_nonneg hnonneg] at hpassed
    omega

/-- The bounds of the latency. -/
theorem Inv.latency (h : Inv d) (hsector : InRange sector) (writing : Bool) :
    rotationTime ≤ d.computeLatency sector writing ∧ d.computeLatency sector writing < (numTracks + sectorsPerTrack) * rotationTime ∧
      ((d.timeToSeek sector).1 ≠ 0 → d.timeAfter sector ≤ d.totalTicks + d.computeLatency sector writing) := by
  have hs := seek_of h.ticks h.last hsector
  have hseek := hs.seek
  have hrotation := hs.rotation
  by_cases hserved : d.Served sector writing
  · rw [computeLatency_of_served hserved]
    exact ⟨le_refl _, by decide, fun hne => absurd hserved.2.1 hne⟩
  · obtain ⟨t, -, hend, hlow, hhigh⟩ := hs.slot h.ticks hsector hserved
    have hafter := timeAfter_eq d sector
    unfold rotationTime numTracks sectorsPerTrack at *
    omega

/-- A request in range goes through, and keeps the invariant. -/
theorem Inv.request (h : Inv d) (hidle : d.active = false) (hsector : InRange sector) (writing : Bool) :
    ∃ d', d.request sector writing = .ok d' ∧ Inv d' := by
  obtain ⟨hlow, -, hseek⟩ := h.latency hsector writing
  have hs := seek_of h.ticks h.last hsector
  have hafter := hs.timeAfter_nonneg h.ticks
  have hpositive : d.computeLatency sector writing > 0 := by
    unfold rotationTime at hlow
    omega
  unfold Disk.request
  dsimp only
  rw [assert_of hidle, ok_bind, assert_of (show 0 ≤ sector ∧ sector < numSectors from hsector), ok_bind, assert_of hpositive, ok_bind]
  refine ⟨_, rfl, h.ticks, hsector, ?_, nofun, ?_, .inl rfl⟩
  · dsimp only [updateLast]
    split
    · exact ⟨hafter, hs.aligned⟩
    · exact h.buffer
  · rintro when ⟨⟩
    dsimp only [updateLast]
    have hstart := h.idle hidle
    split
    · rename_i hne
      exact hseek hne
    · omega

/-- Every step keeps the invariant. -/
theorem Inv.step (h : Inv d) (hstep : Step d d') : Inv d' := by
  have hrequest {sector : Int} {writing : Bool} (hd' : d.request sector writing = .ok d') : Inv d' := by
    have hidle : d.active = false := (of_assert_bind hd').1
    have hsector : InRange sector := (of_assert_bind (of_assert_bind hd').2).1
    obtain ⟨d₁, hd₁, hi⟩ := h.request hidle hsector writing
    rw [hd₁] at hd'
    cases hd'
    exact hi
  cases hstep with
  | read sector hd' => exact hrequest hd'
  | write sector hd' => exact hrequest hd'
  | interrupt when hpending hdue =>
    have hbuffer := h.pending when hpending
    exact ⟨h.ticks, h.last, h.buffer, fun _ => hbuffer.trans hdue, nofun, h.previous⟩
  | time ticks =>
    have hticks := h.ticks
    refine ⟨?_, h.last, h.buffer, ?_, h.pending, h.previous⟩
    · dsimp only
      omega
    · intro hidle
      have hstart := h.idle hidle
      dsimp only
      omega

theorem inv_of_reachable (h : system.Reachable d) : Inv d := by
  refine h.invariant ?_ fun d d' _ hi hstep => hi.step hstep
  rintro d ⟨totalTicks, h0, rfl⟩
  exact inv_new h0

/-- In every run, a request that comes while none is in progress goes through, `ASSERT`s included, and takes at least `RotationTime` and
less than `(NumTracks + SectorsPerTrack) * RotationTime`. A write, and a read that the track buffer does not serve, ends with a slot
of the sector. A read is served from the buffer only if the request before was on the same track, or there was none and the sector
is on the first track, where the head is at the start; and then the sector has passed since the buffer was begun. -/
theorem disk_latency (h : system.Reachable d) (hidle : d.active = false) (hsector : InRange sector) (writing : Bool) :
    let latency := d.computeLatency sector writing
    (∃ d', d.request sector writing = .ok d' ∧ d'.pending = some (d.totalTicks + latency)) ∧
      0 < latency ∧ rotationTime ≤ latency ∧ latency < (numTracks + sectorsPerTrack) * rotationTime ∧
      (¬d.Served sector writing → ∃ t, d.totalTicks ≤ t ∧ t + rotationTime = d.totalTicks + latency ∧ Slot sector t) ∧
      (d.Served sector writing → writing = false ∧
        ((∃ p, d.previous = some p ∧ track p = track sector) ∨ d.previous = none ∧ track sector = 0) ∧
        ∃ t, d.bufferInit ≤ t ∧ t + rotationTime ≤ d.totalTicks + latency ∧ Slot sector t) := by
  intro latency
  have hi := inv_of_reachable h
  have hs := seek_of hi.ticks hi.last hsector
  obtain ⟨hlow, hhigh, -⟩ := hi.latency hsector writing
  obtain ⟨d', hd', -⟩ := hi.request hidle hsector writing
  refine ⟨⟨d', hd', ?_⟩, Int.lt_of_lt_of_le (by decide) hlow, hlow, hhigh, ?_, ?_⟩
  · unfold Disk.request at hd'
    have hd' := (of_assert_bind (of_assert_bind (of_assert_bind hd').2).2).2
    cases hd'
    rfl
  · intro hserved
    obtain ⟨t, hslot, hend, hafter, -⟩ := hs.slot hi.ticks hsector hserved
    have hseek := hs.seek
    have hrotation := hs.rotation
    refine ⟨t, ?_, hend.symm, hslot⟩
    rw [timeAfter_eq] at hafter
    omega
  · intro hserved
    obtain ⟨hread, htrack, -, t, hslot, hstart, hend⟩ := hi.served hidle hsector hserved
    refine ⟨hread, ?_, t, hstart, hend, hslot⟩
    obtain hprevious | ⟨hnone, hzero, -⟩ := hi.previous
    · exact .inl ⟨_, hprevious, htrack.symm⟩
    · rw [hzero] at htrack
      exact .inr ⟨hnone, htrack⟩

/-- A disk that was switched on at tick 10000, and has read sector 40. -/
def secondTrack : Disk :=
  { totalTicks := 20500, active := false, lastSector := 40, bufferInit := 10500, pending := none, previous := some 40 }

theorem secondTrack_reachable : system.Reachable secondTrack := by
  have hread : (new 10000).readRequest 40 =
      .ok { totalTicks := 10000, active := true, lastSector := 40, bufferInit := 10500, pending := some 20500, previous := some 40 } := by
    have hlatency : (new 10000).computeLatency 40 false = 10500 := by decide
    have hseek : timeToSeek { new 10000 with active := true } 40 = (500, 0) := by decide
    unfold readRequest request updateLast
    rw [hlatency, hseek, assert_of (show (new 10000).active = false from rfl)]
    rfl
  have hstart : system.Reachable (new 10000) := .init ⟨10000, by decide, rfl⟩
  exact ((hstart.step (.read 40 hread)).step (.time 10500)).step (.interrupt 20500 rfl (by decide))

/-- The first read is one of sector 40, on the second track, and waits for the sector; then sector 33 comes from the track buffer. -/
theorem disk_latency_second_track :
    (system.Reachable (new 10000) ∧ ¬(new 10000).Served 40 false ∧
      ∃ t, 10000 ≤ t ∧ t + rotationTime = 10000 + (new 10000).computeLatency 40 false ∧ Slot 40 t) ∧
    system.Reachable secondTrack ∧ secondTrack.Served 33 false ∧
      ∃ t, 10500 ≤ t ∧ t + rotationTime ≤ 20500 + secondTrack.computeLatency 33 false ∧ Slot 33 t := by
  have hstart : system.Reachable (new 10000) := .init ⟨10000, by decide, rfl⟩
  have hwait : ¬(new 10000).Served 40 false := by decide
  have hserved : secondTrack.Served 33 false := by decide
  obtain ⟨-, -, -, -, hslot, -⟩ := disk_latency hstart rfl (show InRange 40 by decide) false
  obtain ⟨-, -, -, -, -, hbuffer⟩ := disk_latency secondTrack_reachable rfl (show InRange 33 by decide) false
  exact ⟨⟨hstart, hwait, hslot hwait⟩, secondTrack_reachable, hserved, (hbuffer hserved).2.2⟩

/-- The first request can be served from the track buffer, although there was no request before. -/
theorem served_without_previous :
    ¬∀ d sector, system.Reachable d → d.active = false → InRange sector → d.Served sector false →
      ∃ p, d.previous = some p ∧ track p = track sector := by
  intro h
  obtain ⟨p, hp, -⟩ := h (new 10000) 3 (.init ⟨10000, by decide, rfl⟩) rfl (by decide) (by decide)
  cases hp

end Disk

end Latency

end Nachos
