import Nachos.Machine.Drivers
import Nachos.Threads.GuardedSafety

/-!
# The handshake of the drivers

The events on a device come in rounds: a request is issued, its interrupt comes, and the thread that has issued it returns from `P`.
Who holds the lock of a driver, its device, its semaphore and its interrupts agree on how far the last round is, so no request is
issued in the middle of a round, and no thread returns on the interrupt of another.
-/

namespace Nachos

open Loop Transition

namespace Drivers

open Guarded

/-! ## Rounds -/

/-- How far a device is: nothing is under way, a request is, or it is done and the thread has not returned. -/
inductive Phase where
  | idle
  | busy (n : Nat) (t : Tid) (transfer : Transfer)
  | done (n : Nat) (t : Tid) (transfer : Transfer)

/-- The events on a device that was given `n` requests, newest first. -/
inductive Rounds : Nat → List Event → Phase → Prop where
  | nil : Rounds 0 [] .idle
  | issued {n : Nat} {l : List Event} (h : Rounds n l .idle) (t : Tid) (transfer : Transfer) :
      Rounds (n + 1) (.issued n t transfer :: l) (.busy n t transfer)
  | interrupt {m n : Nat} {l : List Event} {t : Tid} {transfer : Transfer} (h : Rounds m l (.busy n t transfer)) :
      Rounds m (.interrupt :: l) (.done n t transfer)
  | returned {m n : Nat} {l : List Event} {t : Tid} {transfer : Transfer} (h : Rounds m l (.done n t transfer)) :
      Rounds m (.returned n t transfer :: l) .idle

/-- The numbers of the requests issued, newest first. -/
def issuedNumbers (l : List Event) : List Nat :=
  l.filterMap fun
    | .issued n _ _ => some n
    | _ => none

namespace Rounds

variable {m n : Nat} {l : List Event} {t : Tid} {transfer : Transfer} {ph : Phase}

/-- The requests are numbered in the order in which they are issued. -/
theorem numbered (h : Rounds m l ph) : issuedNumbers l = (List.range m).reverse := by
  induction h with
  | nil => rfl
  | @issued n l h t transfer ih =>
    show n :: issuedNumbers l = _
    rw [ih, List.range_succ, List.reverse_append]
    rfl
  | interrupt h ih => exact ih
  | returned h ih => exact ih

/-- The last events while a request is under way. -/
theorem of_busy (h : Rounds m l (.busy n t transfer)) : ∃ l', l = .issued n t transfer :: l' := by
  cases h with
  | issued h => exact ⟨_, rfl⟩

theorem of_done (h : Rounds m l (.done n t transfer)) : ∃ l', l = .interrupt :: .issued n t transfer :: l' := by
  cases h with
  | interrupt h =>
    obtain ⟨l', rfl⟩ := h.of_busy
    exact ⟨l', rfl⟩

/-- Before a thread returns from the `P` of its request, the interrupt has come, and nothing else since the request was issued. -/
theorem returned_after (h : Rounds m l ph) {new old : List Event} (hl : l = new ++ .returned n t transfer :: old) :
    ∃ l', old = .interrupt :: .issued n t transfer :: l' := by
  induction h generalizing new with
  | nil => cases new <;> cases hl
  | issued h t' transfer' ih =>
    cases new with
    | nil => cases hl
    | cons e new => exact ih (List.cons.inj hl).2
  | interrupt h ih =>
    cases new with
    | nil => cases hl
    | cons e new => exact ih (List.cons.inj hl).2
  | returned h ih =>
    cases new with
    | nil =>
      cases hl
      exact h.of_done
    | cons e new => exact ih (List.cons.inj hl).2

/-- When a device is idle, the last thing was the return of a thread from the `P` of its request. -/
theorem of_idle (h : Rounds m l .idle) : l = [] ∨ ∃ n t transfer l', l = .returned n t transfer :: l' := by
  cases h with
  | nil => exact Or.inl rfl
  | returned h => exact Or.inr ⟨_, _, _, _, rfl⟩

/-- Before a request is issued, the thread of the one before it has returned from `P`. -/
theorem issued_after (h : Rounds m l ph) {new old : List Event} (hl : l = new ++ .issued n t transfer :: old) :
    old = [] ∨ ∃ n' t' transfer' l', old = .returned n' t' transfer' :: l' := by
  induction h generalizing new with
  | nil => cases new <;> cases hl
  | issued h t' transfer' ih =>
    cases new with
    | nil =>
      cases hl
      exact h.of_idle
    | cons e new => exact ih (List.cons.inj hl).2
  | interrupt h ih =>
    cases new with
    | nil => cases hl
    | cons e new => exact ih (List.cons.inj hl).2
  | returned h ih =>
    cases new with
    | nil => cases hl
    | cons e new => exact ih (List.cons.inj hl).2

end Rounds

/-! ## Requests -/

/-- The flag of a device: `active`, `putBusy`. -/
def Devices.busy (m : Devices) : Driver → Bool
  | .disk => m.disk.active
  | .console => m.consoleOutput.putBusy

/-- What a transfer does to the file of the disk. -/
inductive Transfers (file : Disk) : Transfer → Disk → Prop where
  | read (s : Int) : Transfers file (.read s (file.sector s)) file
  | wrote (s : Int) (data : Vector UInt8 128) : Transfers file (.wrote s data) { sector := Function.update file.sector s data }
  | put (ch : UInt8) : Transfers file (.put ch) file

/-- What a request to device `d` does. -/
structure Requests (m : Devices) (d : Driver) (transfer : Transfer) (m' : Devices) : Prop where
  driver : transfer.driver = d
  busy : m'.busy d = true
  scheduled : m'.scheduled d = m.scheduled d + 1
  other : ∀ d' ≠ d, m'.busy d' = m.busy d' ∧ m'.scheduled d' = m.scheduled d'
  requests : m'.requests = m.requests
  log : m'.log = m.log
  file : Transfers m.disk.file transfer m'.disk.file

theorem Devices.requests_of_ok {m m' : Devices} {op : Op} {transfer : Transfer} (h : m.request op = .ok (m', transfer)) :
    Requests m op.driver transfer m' := by
  cases op with
  | readSector s =>
    obtain ⟨⟨disk, data⟩, hd, h⟩ := of_bind_ok h
    obtain ⟨-, hd⟩ := of_assert_bind hd
    obtain ⟨-, hd⟩ := of_assert_bind hd
    cases hd
    cases h
    refine ⟨rfl, rfl, rfl, ?_, rfl, rfl, .read _⟩
    intro d' hd'
    cases d' with
    | disk => exact absurd rfl hd'
    | console => exact ⟨rfl, rfl⟩
  | writeSector s data =>
    obtain ⟨disk, hd, h⟩ := of_bind_ok h
    obtain ⟨-, hd⟩ := of_assert_bind hd
    obtain ⟨-, hd⟩ := of_assert_bind hd
    cases hd
    cases h
    refine ⟨rfl, rfl, rfl, ?_, rfl, rfl, .wrote _ _⟩
    intro d' hd'
    cases d' with
    | disk => exact absurd rfl hd'
    | console => exact ⟨rfl, rfl⟩
  | putChar ch =>
    obtain ⟨consoleOutput, hc, h⟩ := of_bind_ok h
    obtain ⟨-, hc⟩ := of_assert_bind hc
    cases hc
    cases h
    refine ⟨rfl, rfl, rfl, ?_, rfl, rfl, .put _⟩
    intro d' hd'
    cases d' with
    | disk => exact ⟨rfl, rfl⟩
    | console => exact absurd rfl hd'

/-- A device that is not busy takes a request. -/
theorem DiskDevice.readRequest_of {d : DiskDevice} (h : d.active = false) (s : Sector) :
    d.readRequest s = .ok ({ d with active := true, scheduled := d.scheduled + 1 }, d.file.sector s) := by
  unfold readRequest
  rw [assert_of h, ok_bind, assert_of s.2]
  rfl

theorem DiskDevice.writeRequest_of {d : DiskDevice} (h : d.active = false) (s : Sector) (data : Vector UInt8 128) :
    d.writeRequest s data =
      .ok { active := true, file := { sector := Function.update d.file.sector s data }, scheduled := d.scheduled + 1 } := by
  unfold writeRequest
  rw [assert_of h, ok_bind, assert_of s.2]
  rfl

theorem ConsoleOutput.putChar_of {c : ConsoleOutput} (h : c.putBusy = false) (ch : UInt8) :
    c.putChar ch = .ok { putBusy := true, file := c.file ++ [ch], scheduled := c.scheduled + 1 } := by
  unfold putChar
  rw [assert_of h]
  rfl

theorem Devices.request_of {m : Devices} {op : Op} (h : m.busy op.driver = false) : ∃ r, m.request op = .ok r := by
  cases op with
  | readSector s =>
    unfold request
    dsimp only
    rw [DiskDevice.readRequest_of h s]
    exact ⟨_, rfl⟩
  | writeSector s data =>
    unfold request
    dsimp only
    rw [DiskDevice.writeRequest_of h s data]
    exact ⟨_, rfl⟩
  | putChar ch =>
    unfold request
    dsimp only
    rw [ConsoleOutput.putChar_of h ch]
    exact ⟨_, rfl⟩

/-! ## The locks -/

/-- The lock that a thread holds at a statement. -/
def Pc.lock : Pc → Option Nat
  | .user | .done _ _ => none
  | .request op => some op.driver.lock
  | .wait _ transfer | .release _ transfer => some transfer.driver.lock

theorem semaphore_inj {d d' : Driver} (h : d.semaphore = d'.semaphore) : d = d' := by
  cases d <;> cases d' <;> first | rfl | cases h

/-- The code requests, waits and releases inside a section of the lock. -/
def sections : Sections code where
  holds := Pc.lock
  call := by
    intro t own own' pc pc' x call h
    cases pc with
    | user =>
      cases x with
      | fork t' =>
        cases h
        exact ⟨rfl, fun t₁ pc₁ e => by cases e; rfl⟩
      | call op => cases h
      | _ =>
        cases h
        exact ⟨rfl, fun t₁ pc₁ e => nomatch e⟩
    | request op =>
      obtain ⟨⟨m', transfer⟩, hr, h⟩ := of_bind_ok h
      cases h
      exact ⟨congrArg (fun d : Driver => some d.lock) (Devices.requests_of_ok hr).driver, fun t₁ pc₁ e => nomatch e⟩
    | wait n transfer =>
      cases h
      exact ⟨rfl, fun t₁ pc₁ e => nomatch e⟩
    | release n transfer => cases h
    | done n transfer =>
      cases h
      exact ⟨rfl, fun t₁ pc₁ e => nomatch e⟩
  operation := by
    intro t own own' pc x i op hop next h
    cases pc with
    | user =>
      cases x with
      | call op =>
        cases h
        exact Or.inl ⟨rfl, rfl, fun _ => rfl⟩
      | _ => cases h
    | request op =>
      obtain ⟨⟨m', transfer⟩, hr, h⟩ := of_bind_ok h
      cases h
    | wait n transfer => cases h
    | release n transfer =>
      cases h
      exact Or.inr ⟨rfl, rfl, fun _ => rfl⟩
    | done n transfer => cases h

/-- The semaphores of the drivers. -/
def uses : Uses code where
  used := fun s => s = Driver.disk.semaphore ∨ s = Driver.console.semaphore
  call := by
    intro t own own' pc pc' x call h s
    cases pc with
    | user => cases x <;> cases h <;> exact ⟨nofun, nofun⟩
    | request op =>
      obtain ⟨⟨m', transfer⟩, hr, h⟩ := of_bind_ok h
      cases h
      exact ⟨nofun, nofun⟩
    | wait n transfer =>
      cases h
      refine ⟨?_, nofun⟩
      intro h
      rcases h with h | h <;> cases h
      cases transfer.driver
      · exact Or.inl rfl
      · exact Or.inr rfl
    | release n transfer => cases h
    | done n transfer =>
      cases h
      exact ⟨nofun, nofun⟩
  device := by
    intro own own' d ss h s hs
    have hss : ss = (interrupt own d).2 := (congrArg Prod.snd (Except.ok.inj h)).symm
    rw [hss] at hs
    unfold interrupt at hs
    split at hs
    · cases hs
    · obtain rfl := List.mem_singleton.1 hs
      cases d
      · exact Or.inl rfl
      · exact Or.inr rfl

/-! ## The invariant -/

/-- The request of driver `d` that a thread has under way, and whether it has returned from `P`. -/
def underWay (d : Driver) : Place Empty Pc → Option (Nat × Transfer × Bool)
  | .outside (.wait n transfer) => if transfer.driver = d then some (n, transfer, false) else none
  | .inP _ (.release n transfer) => if transfer.driver = d then some (n, transfer, false) else none
  | .outside (.release n transfer) => if transfer.driver = d then some (n, transfer, true) else none
  | _ => none

/-- The threads, the device, its interrupts and the semaphore of a driver agree on how far it is. -/
inductive Agrees (v : View code) (d : Driver) : Phase → Prop where
  | idle (hu : ∀ t, underWay d (v.place t) = none) (hb : v.memory.own.busy d = false) (hs : v.memory.own.scheduled d = 0)
      (hv : v.value d.semaphore = some 0) : Agrees v d .idle
  | busy {n : Nat} {t : Tid} {transfer : Transfer} (hu : underWay d (v.place t) = some (n, transfer, false))
      (hb : v.memory.own.busy d = true) (hs : v.memory.own.scheduled d = 1) (hv : v.value d.semaphore = some 0) :
      Agrees v d (.busy n t transfer)
  | interrupted {n : Nat} {t : Tid} {transfer : Transfer} (hu : underWay d (v.place t) = some (n, transfer, false))
      (hb : v.memory.own.busy d = false) (hs : v.memory.own.scheduled d = 0) (hv : v.value d.semaphore = some 1) :
      Agrees v d (.done n t transfer)
  | returned {n : Nat} {t : Tid} {transfer : Transfer} (hu : underWay d (v.place t) = some (n, transfer, true))
      (hb : v.memory.own.busy d = false) (hs : v.memory.own.scheduled d = 0) (hv : v.value d.semaphore = some 0) :
      Agrees v d (.done n t transfer)

/-- Where an operation on a lock returns to. -/
def Pc.follows : Pc → Bool
  | .request _ | .done _ _ => true
  | _ => false

/-- A thread waits in `P` for the semaphore of its request, and returns from the operations on the locks to where it should. -/
def Fits : Place Empty Pc → Prop
  | .inP s pc => ∃ n transfer, pc = .release n transfer ∧ s = transfer.driver.semaphore
  | .inside _ _ next _ => ∀ item, (next item).follows = true
  | _ => True

/-- The invariant. -/
structure InStep (v : View code) : Prop where
  phase : ∀ d, ∃ ph, Rounds (v.memory.own.requests d) (v.memory.own.log d) ph ∧ Agrees v d ph
  fits : ∀ t, Fits (v.place t)

section InStep

variable {v v' : View code} {t : Tid} {d : Driver}

/-- Nothing that the invariant looks at has changed. -/
theorem Agrees.congr {ph : Phase} (h : Agrees v d ph) (hu : ∀ t, underWay d (v'.place t) = underWay d (v.place t))
    (hb : v'.memory.own.busy d = v.memory.own.busy d) (hs : v'.memory.own.scheduled d = v.memory.own.scheduled d)
    (hv : v'.value d.semaphore = v.value d.semaphore) : Agrees v' d ph := by
  cases h with
  | idle hu₁ hb₁ hs₁ hv₁ => exact .idle (fun t => (hu t).trans (hu₁ t)) (hb.trans hb₁) (hs.trans hs₁) (hv.trans hv₁)
  | busy hu₁ hb₁ hs₁ hv₁ => exact .busy ((hu _).trans hu₁) (hb.trans hb₁) (hs.trans hs₁) (hv.trans hv₁)
  | interrupted hu₁ hb₁ hs₁ hv₁ => exact .interrupted ((hu _).trans hu₁) (hb.trans hb₁) (hs.trans hs₁) (hv.trans hv₁)
  | returned hu₁ hb₁ hs₁ hv₁ => exact .returned ((hu _).trans hu₁) (hb.trans hb₁) (hs.trans hs₁) (hv.trans hv₁)

/-- A thread with a request under way holds the lock of the driver. -/
theorem lock_of_underWay {p : Place Empty Pc} {x : Nat × Transfer × Bool} (h : underWay d p = some x) :
    ∃ pc : Pc, (p = .outside pc ∨ ∃ s, p = .inP s pc) ∧ pc.lock = some d.lock := by
  unfold underWay at h
  split at h
  · rename_i n transfer
    split at h
    · rename_i hd
      exact ⟨_, Or.inl rfl, congrArg (fun d : Driver => some d.lock) hd⟩
    · cases h
  · rename_i s n transfer
    split at h
    · rename_i hd
      exact ⟨_, Or.inr ⟨s, rfl⟩, congrArg (fun d : Driver => some d.lock) hd⟩
    · cases h
  · rename_i n transfer
    split at h
    · rename_i hd
      exact ⟨_, Or.inl rfl, congrArg (fun d : Driver => some d.lock) hd⟩
    · cases h
  · cases h

/-- Only one thread has a request under way, and no other is at a statement of the section. -/
theorem eq_of_underWay (hH : Held sections v) {t' : Tid} {x : Nat × Transfer × Bool} (h : underWay d (v.place t) = some x)
    {pc : Pc} (h' : v.place t' = .outside pc ∨ ∃ s, v.place t' = .inP s pc) (hpc : pc.lock = some d.lock) : t' = t := by
  obtain ⟨pc₁, hp, hl⟩ := lock_of_underWay h
  exact hH.unique hp h' hl hpc

theorem underWay_follows {pc : Pc} (h : pc.follows = true) : underWay d (.outside pc) = none := by
  cases pc with
  | request op => rfl
  | done n transfer => rfl
  | _ => cases h

/-- A thread goes to a place with the same request under way. -/
theorem underWay_go {p : Place Empty Pc} (h : underWay d p = underWay d (v.place t)) (t' : Tid) :
    underWay d ((v.go t p).place t') = underWay d (v.place t') :=
  View.go_place_all v (P := fun t' q => underWay d q = underWay d (v.place t')) h (fun _ _ => rfl) t'

theorem InStep.fits_go (hI : InStep v) {p : Place Empty Pc} (hp : Fits p) (t' : Tid) : Fits ((v.go t p).place t') :=
  View.go_place_all v (P := fun _ q => Fits q) hp (fun t' _ => hI.fits t') t'

/-- A step that touches no device and no semaphore, and starts or ends no request. -/
theorem InStep.goto (hI : InStep v) {p : Place Empty Pc} (hu : ∀ d, underWay d p = underWay d (v.place t)) (hp : Fits p) :
    InStep (v.go t p) := by
  refine ⟨?_, hI.fits_go hp⟩
  intro d
  obtain ⟨ph, hr, ha⟩ := hI.phase d
  exact ⟨ph, hr, ha.congr (underWay_go (hu d)) rfl rfl rfl⟩

/-- The devices are all that the invariant looks at in the memory. -/
theorem InStep.setMemory (hI : InStep v) {m : Memory code} (hm : m.own = v.memory.own) : InStep { v with memory := m } := by
  refine ⟨?_, hI.fits⟩
  intro d
  obtain ⟨ph, hr, ha⟩ := hI.phase d
  refine ⟨ph, ?_, ha.congr (fun _ => rfl) ?_ ?_ rfl⟩
  · rwa [hm]
  · rw [hm]
  · rw [hm]

/-- A request is issued: its driver is idle. -/
theorem InStep.idle (hI : InStep v) (hH : Held sections v) {op : Op} (h : v.place t = .outside (.request op)) :
    Rounds (v.memory.own.requests op.driver) (v.memory.own.log op.driver) .idle ∧ Agrees v op.driver .idle := by
  obtain ⟨ph, hr, ha⟩ := hI.phase op.driver
  have hnot {t' : Tid} {x : Nat × Transfer × Bool} (hu : underWay op.driver (v.place t') = some x) : False := by
    have heq := eq_of_underWay hH hu (Or.inl h) rfl
    rw [← heq, h] at hu
    cases hu
  cases ha with
  | idle hu hb hs hv => exact ⟨hr, .idle hu hb hs hv⟩
  | busy hu hb hs hv => exact (hnot hu).elim
  | interrupted hu hb hs hv => exact (hnot hu).elim
  | returned hu hb hs hv => exact (hnot hu).elim

/-- Two threads with requests under way are one. -/
theorem unique_underWay (hH : Held sections v) {t' : Tid} {x x' : Nat × Transfer × Bool} (h : underWay d (v.place t) = some x)
    (h' : underWay d (v.place t') = some x') : t' = t := by
  obtain ⟨pc, hp, hl⟩ := lock_of_underWay h'
  exact eq_of_underWay hH h hp hl

/-- The device takes a request of an idle driver. -/
theorem InStep.request (hI : InStep v) (hH : Held sections v) {op : Op} (h : v.place t = .outside (.request op)) {m : Devices}
    {transfer : Transfer} (hr : Requests v.memory.own op.driver transfer m) :
    InStep ((v.setOwn (m.issue op.driver t transfer)).go t (.outside (.wait (m.requests op.driver) transfer))) := by
  refine ⟨?_, InStep.fits_go (v := v) hI trivial⟩
  intro d
  have hnone : underWay d (v.place t) = none := by
    rw [h]
    rfl
  by_cases hd : d = op.driver
  · subst hd
    obtain ⟨hround, ha⟩ := hI.idle hH h
    cases ha with
    | idle hu hb hs hv =>
      refine ⟨.busy (m.requests op.driver) t transfer, ?_, .busy ?_ hr.busy (hr.scheduled.trans (by rw [hs])) hv⟩
      · have hround' := hround.issued t transfer
        show Rounds (Function.update m.requests op.driver (m.requests op.driver + 1) op.driver)
          (Function.update m.log op.driver (_ :: m.log op.driver) op.driver) _
        rw [Function.update_self, Function.update_self, hr.requests, hr.log]
        exact hround'
      · rw [View.go_place_self]
        exact if_pos hr.driver
  · obtain ⟨ph, hround, ha⟩ := hI.phase d
    refine ⟨ph, ?_, ha.congr ?_ (hr.other d hd).1 (hr.other d hd).2 rfl⟩
    · show Rounds (Function.update m.requests op.driver _ d) (Function.update m.log op.driver _ d) ph
      rw [Function.update_of_ne hd, Function.update_of_ne hd, hr.requests, hr.log]
      exact hround
    · refine underWay_go (v := v) ?_
      rw [hnone]
      exact if_neg fun e => hd (e.symm.trans hr.driver)

/-- The `P` of a request goes through: its interrupt has come. -/
theorem InStep.take (hI : InStep v) (hH : Held sections v) {n : Nat} {transfer : Transfer}
    (h : underWay transfer.driver (v.place t) = some (n, transfer, false)) (hpc : ∀ d, d ≠ transfer.driver → underWay d (v.place t) = none)
    {x : Int} (hx : v.value transfer.driver.semaphore = some x) (h0 : x ≠ 0) :
    InStep ((v.go t (.outside (.release n transfer))).setValue transfer.driver.semaphore (some (x - 1))) := by
  refine ⟨?_, InStep.fits_go (v := v) hI trivial⟩
  intro d
  by_cases hd : d = transfer.driver
  · subst hd
    obtain ⟨ph, hround, ha⟩ := hI.phase transfer.driver
    cases ha with
    | idle hu hb hs hv => cases (hu t).symm.trans h
    | busy hu hb hs hv => exact absurd (Option.some.inj (hx.symm.trans hv)) h0
    | @interrupted n' t' transfer' hu hb hs hv =>
      obtain rfl := unique_underWay hH h hu
      cases hu.symm.trans h
      obtain rfl : x = 1 := Option.some.inj (hx.symm.trans hv)
      refine ⟨_, hround, .returned ?_ hb hs (View.setValue_self _ _ _)⟩
      rw [View.setValue_place, View.go_place_self]
      exact if_pos rfl
    | returned hu hb hs hv => exact absurd (Option.some.inj (hx.symm.trans hv)) h0
  · obtain ⟨ph, hround, ha⟩ := hI.phase d
    refine ⟨ph, hround, ha.congr ?_ rfl rfl (View.setValue_other _ (fun e => hd (semaphore_inj e)) _)⟩
    intro t'
    rw [View.setValue_place]
    refine underWay_go ?_ t'
    rw [hpc d hd]
    exact if_neg fun e => hd e.symm

/-- The lock is about to be released: the round is over. -/
theorem InStep.release (hI : InStep v) (hH : Held sections v) {n : Nat} {transfer : Transfer}
    (h : v.place t = .outside (.release n transfer)) : InStep
      ((v.setOwn (v.memory.own.record transfer.driver (.returned n t transfer))).go t
        (.inside transfer.driver.lock (.releaseAssert .user) (fun _ => .done n transfer) none)) := by
  refine ⟨fun d => ?_, InStep.fits_go (v := v) hI fun _ => rfl⟩
  · by_cases hd : d = transfer.driver
    · subst hd
      have hu : underWay transfer.driver (v.place t) = some (n, transfer, true) := by
        rw [h]
        exact if_pos rfl
      have hnone : ∀ t', underWay transfer.driver ((v.go t (.inside transfer.driver.lock (.releaseAssert .user)
          (fun _ => .done n transfer) none)).place t') = none := by
        refine View.go_place_all v (P := fun _ q => underWay transfer.driver q = none) rfl ?_
        intro t' hne
        cases hu' : underWay transfer.driver (v.place t') with
        | none => rfl
        | some x => exact absurd (unique_underWay hH hu hu') hne
      obtain ⟨ph, hround, ha⟩ := hI.phase transfer.driver
      cases ha with
      | idle hu' hb hs hv => cases (hu' t).symm.trans hu
      | busy hu' hb hs hv =>
        obtain rfl := unique_underWay hH hu hu'
        cases hu'.symm.trans hu
      | interrupted hu' hb hs hv =>
        obtain rfl := unique_underWay hH hu hu'
        cases hu'.symm.trans hu
      | returned hu' hb hs hv =>
        obtain rfl := unique_underWay hH hu hu'
        cases hu'.symm.trans hu
        refine ⟨.idle, ?_, .idle hnone hb hs hv⟩
        show Rounds _ (Function.update v.memory.own.log transfer.driver _ transfer.driver) _
        rw [Function.update_self]
        exact hround.returned
    · obtain ⟨ph, hround, ha⟩ := hI.phase d
      refine ⟨ph, ?_, ha.congr (underWay_go (v := v) ?_) rfl rfl rfl⟩
      · show Rounds _ (Function.update v.memory.own.log transfer.driver _ d) ph
        rw [Function.update_of_ne hd]
        exact hround
      · rw [h]
        exact (if_neg fun e => hd e.symm).symm

/-- Whatever a thread does, the drivers stay in step. -/
theorem InStep.step (hI : InStep v) (hH : Held sections v) (h : Step t v v') : InStep v' := by
  cases h with
  | @call _ pc pc' x own call h hcode hcalls =>
    cases pc with
    | user =>
      have hnone (d : Driver) : underWay d (v.place t) = none := by
        rw [h]
        rfl
      have hstay : InStep (v.go t (.outside .user)) := hI.goto (fun d => (hnone d).symm) trivial
      cases x with
      | none =>
        cases hcode
        exact hcalls.of_quiet rfl ▸ hstay
      | yield =>
        cases hcode
        exact hcalls.of_quiet rfl ▸ hstay
      | fork t' =>
        cases hcode
        obtain ⟨hne, hgone, hv⟩ := hcalls.of_fork
        have hgone' : (v.go t (.outside .user)).place t' = .gone := (View.go_place_other v hne _).trans hgone
        exact hv ▸ hstay.goto (fun d => (congrArg (underWay d) hgone').symm) trivial
      | finish =>
        cases hcode
        have hgo : InStep (v.go t .gone) := hI.goto (fun d => (hnone d).symm) trivial
        exact hcalls.of_finish ▸ hgo
      | call op => cases hcode
    | request op =>
      obtain ⟨⟨m, transfer⟩, hr, hcode⟩ := of_bind_ok hcode
      have hR := Devices.requests_of_ok hr
      cases hcode
      rw [hcalls.of_quiet rfl, ← hR.requests]
      exact hI.request hH h hR
    | wait n transfer =>
      cases hcode
      have hu : underWay transfer.driver (v.place t) = some (n, transfer, false) := by
        rw [h]
        exact if_pos rfl
      have hother (d : Driver) (hd : d ≠ transfer.driver) : underWay d (v.place t) = none := by
        rw [h]
        exact if_neg fun e => hd e.symm
      rcases hcalls.of_p with ⟨x, hx, h0, hv⟩ | hv
      · exact hv ▸ hI.take hH hu hother hx h0
      · refine hv ▸ InStep.goto (v := v) hI ?_ ⟨n, transfer, rfl, rfl⟩
        intro d
        rw [h]
        rfl
    | release n transfer => cases hcode
    | done n transfer =>
      cases hcode
      refine hcalls.of_quiet rfl ▸ InStep.goto (v := v) hI ?_ trivial
      intro d
      rw [h]
      rfl
  | @enter pc x own i op hop next h hcode =>
    cases pc with
    | user =>
      cases x with
      | call op =>
        cases hcode
        refine InStep.goto (v := v) hI ?_ fun _ => rfl
        intro d
        rw [h]
        rfl
      | _ => cases hcode
    | request op =>
      obtain ⟨⟨m, transfer⟩, hr, hcode⟩ := of_bind_ok hcode
      cases hcode
    | wait n transfer => cases hcode
    | release n transfer =>
      cases hcode
      exact hI.release hH h
    | done n transfer => cases hcode
  | @within i pc pc' next item x m call h hcodes =>
    have hfits := hI.fits t
    rw [h] at hfits
    have hm : InStep { v with memory := { v.memory with monitor := Function.update v.memory.monitor i m } } := hI.setMemory rfl
    refine InStep.goto (p := .inside i pc' next _) hm ?_ hfits
    intro d
    show none = underWay d (v.place t)
    rw [h]
    rfl
  | @leave i next item h =>
    have hfits := hI.fits t
    rw [h] at hfits
    refine hI.goto ?_ trivial
    intro d
    rw [h]
    exact underWay_follows (hfits item)
  | @take s pc x h hx h0 =>
    have hfits := hI.fits t
    rw [h] at hfits
    obtain ⟨n, transfer, rfl, rfl⟩ := hfits
    refine hI.take hH ?_ ?_ hx h0
    · rw [h]
      exact if_pos rfl
    · intro d hd
      rw [h]
      exact if_neg fun e => hd e.symm

/-- An interrupt ends the request that is under way. -/
theorem InStep.interrupted (hI : InStep v) (hs : v.memory.own.scheduled d ≠ 0) :
    InStep ((v.setOwn ((v.memory.own.callBack d).record d .interrupt)).raise [d.semaphore]) := by
  refine ⟨?_, hI.fits⟩
  intro d'
  by_cases hd : d' = d
  · subst hd
    obtain ⟨ph, hround, ha⟩ := hI.phase d'
    cases ha with
    | idle hu hb hs' hv => exact absurd hs' hs
    | @busy n t transfer hu hb hs' hv =>
      refine ⟨.done n t transfer, ?_, .interrupted hu ?_ ?_ ?_⟩
      · rw [View.raise_memory, View.setOwn_own, Devices.record_log_self, Devices.callBack_log]
        show Rounds ((v.memory.own.callBack d').requests d') _ _
        rw [Devices.callBack_requests]
        exact hround.interrupt
      · cases d' <;> rfl
      · have hsub : ((v.memory.own.callBack d').record d' .interrupt).scheduled d' = v.memory.own.scheduled d' - 1 := by
          cases d' <;> rfl
        exact hsub.trans (by rw [hs'])
      · show Function.update v.value d'.semaphore ((v.value d'.semaphore).map (· + 1)) d'.semaphore = some 1
        rw [Function.update_self, hv]
        rfl
    | interrupted hu hb hs' hv => exact absurd hs' hs
    | returned hu hb hs' hv => exact absurd hs' hs
  · obtain ⟨ph, hround, ha⟩ := hI.phase d'
    refine ⟨ph, ?_, ha.congr (fun _ => rfl) ?_ ?_ (View.setValue_other _ (fun e => hd (semaphore_inj e)) _)⟩
    · rw [View.raise_memory, View.setOwn_own, Devices.record_log_other _ hd, Devices.callBack_log]
      show Rounds ((v.memory.own.callBack d).requests d') _ _
      rw [Devices.callBack_requests]
      exact hround
    · cases d <;> cases d' <;> first | rfl | exact absurd rfl hd
    · cases d <;> cases d' <;> first | rfl | exact absurd rfl hd

theorem InStep.handles (hI : InStep v) (h : Handles v v') : InStep v' := by
  cases h with
  | @served d own ss h =>
    have hr : interrupt v.memory.own d = (own, ss) := Except.ok.inj h
    unfold interrupt at hr
    split at hr
    · cases hr
      exact hI
    · rename_i hs
      cases hr
      exact hI.interrupted hs
  | failed h => cases h

end InStep

theorem inStep_start (file : Disk) : InStep (View.start (g := code) (.new file) .user
    fun s => if s = Driver.disk.semaphore ∨ s = Driver.console.semaphore then some 0 else none) := by
  have hplace : ∀ (P : Place Empty Pc → Prop), P (.outside .user) → P .gone →
      ∀ t : Tid, P (if t = mainThread then .outside .user else .gone) := by
    intro P h1 h2 t
    split
    · exact h1
    · exact h2
  refine ⟨fun d => ⟨.idle, .nil, .idle ?_ ?_ ?_ ?_⟩, hplace Fits trivial trivial⟩
  · exact hplace (fun p => underWay d p = none) rfl rfl
  · cases d <;> rfl
  · cases d <;> rfl
  · cases d <;> rfl

theorem inStep_of_reachable {file : Disk} {a : Abs (Guarded.client code)} (ha : (Abs.system (boot file)).Reachable a) :
    InStep (view a) :=
  invariant (inStep_start file) (fun _ _ _ ha _ hstep hI => hI.step (held_of_reachable sections rfl ha) hstep)
    (fun _ _ hh hI => hI.handles hh) ha

/-! ## What is read -/

/-- What a sector holds after the requests issued: the data written to it last, or what it held at the start. -/
def latest (initial : Int → Vector UInt8 128) : List Event → Int → Vector UInt8 128
  | [], s => initial s
  | .issued _ _ (.wrote s' data) :: l, s => if s = s' then data else latest initial l s
  | _ :: l, s => latest initial l s

/-- The disk holds what was written last, and each read has returned what had been written last before it. -/
structure Reads (initial : Int → Vector UInt8 128) (m : Devices) : Prop where
  contents : ∀ s, m.disk.file.sector s = latest initial (m.log .disk) s
  read : ∀ new old n t s data, m.log .disk = new ++ .issued n t (.read s data) :: old → data = latest initial old s

namespace Reads

variable {initial : Int → Vector UInt8 128} {m m' : Devices}

/-- One more event on the disk. -/
theorem cons (h : Reads initial m) {e : Event} (hlog : m'.log .disk = e :: m.log .disk)
    (hfile : ∀ s, m'.disk.file.sector s = latest initial (e :: m.log .disk) s)
    (he : ∀ n t s data, e = .issued n t (.read s data) → data = m.disk.file.sector s) : Reads initial m' := by
  refine ⟨fun s => by rw [hlog]; exact hfile s, ?_⟩
  intro new old n t s data hl
  rw [hlog] at hl
  cases new with
  | nil =>
    obtain ⟨rfl, rfl⟩ := List.cons.inj hl
    exact (he n t s data rfl).trans (h.contents s)
  | cons e' new => exact h.read new old n t s data (List.cons.inj hl).2

/-- An event that is no request. -/
theorem record (h : Reads initial m) (d : Driver) {e : Event} (he : ∀ l s, latest initial (e :: l) s = latest initial l s)
    (hread : ∀ n t tr, e ≠ .issued n t tr) : Reads initial (m.record d e) := by
  cases d with
  | disk =>
    exact h.cons (m.record_log_self .disk e) (fun s => (h.contents s).trans (he _ s).symm) fun n t s data h' => absurd h' (hread _ _ _)
  | console =>
    have hlog : (m.record .console e).log .disk = m.log .disk := m.record_log_other (by decide) e
    exact ⟨fun s => by rw [hlog]; exact h.contents s, by rw [hlog]; exact h.read⟩

theorem issue (h : Reads initial m) {op : Op} {transfer : Transfer} (hr : Requests m op.driver transfer m') (t : Tid) :
    Reads initial (m'.issue op.driver t transfer) := by
  have hfile : (m'.issue op.driver t transfer).disk = m'.disk := rfl
  have hself : (m'.issue op.driver t transfer).log op.driver =
      .issued (m'.requests op.driver) t transfer :: m.log op.driver := by
    rw [← hr.log]
    exact Function.update_self _ _ _
  generalize hd : op.driver = d at hr hself hfile ⊢
  cases d with
  | disk =>
    refine h.cons hself ?_ ?_
    · intro s
      rw [hfile]
      have ht := hr.file
      generalize m'.disk.file = file at ht ⊢
      cases ht with
      | read s' => exact h.contents s
      | wrote s' data =>
        show Function.update m.disk.file.sector s' data s = if s = s' then data else latest initial (m.log .disk) s
        rcases eq_or_ne s s' with rfl | hne
        · rw [Function.update_self, if_pos rfl]
        · rw [Function.update_of_ne hne, if_neg hne]
          exact h.contents s
      | put ch => exact h.contents s
    · intro n t s data e
      obtain ⟨-, -, rfl⟩ := Event.issued.inj e
      have ht := hr.file
      generalize m'.disk.file = file at ht
      cases ht
      rfl
  | console =>
    have hlog : (m'.issue .console t transfer).log .disk = m.log .disk :=
      (Devices.record_log_other _ (show Driver.disk ≠ .console by decide) _).trans (congrFun hr.log _)
    have hsame : m'.disk.file = m.disk.file := by
      have ht := hr.file
      have hdriver := hr.driver
      generalize m'.disk.file = file at ht ⊢
      cases ht with
      | put ch => rfl
      | _ => cases hdriver
    refine ⟨?_, by rw [hlog]; exact h.read⟩
    intro s
    rw [hlog, hfile, hsame]
    exact h.contents s

/-- The code keeps it. -/
theorem step (h : Reads initial m) {t : Tid} {pc : Pc} {x : Input} {r : Guarded.Request Empty lockOps Pc}
    (hstep : Drivers.step t m pc x = .ok (m', r)) : Reads initial m' := by
  cases pc with
  | user =>
    cases x <;> cases hstep <;> exact h
  | request op =>
    obtain ⟨⟨m₁, transfer⟩, hr, hstep⟩ := of_bind_ok hstep
    cases hstep
    exact h.issue (Devices.requests_of_ok hr) t
  | wait n transfer =>
    cases hstep
    exact h
  | release n transfer =>
    cases hstep
    exact h.record _ (fun l s => rfl) fun _ _ _ e => nomatch e
  | done n transfer =>
    cases hstep
    exact h

theorem interrupt (h : Reads initial m) (d : Driver) : Reads initial (interrupt m d).1 := by
  unfold Drivers.interrupt
  split
  · exact h
  · have hback : Reads initial (m.callBack d) := by
      refine ⟨?_, by rw [Devices.callBack_log]; exact h.read⟩
      intro s
      rw [Devices.callBack_log]
      cases d <;> exact h.contents s
    exact hback.record d (fun l s => rfl) fun _ _ _ e => nomatch e

end Reads

theorem reads_of_reachable {file : Disk} {a : Abs (Guarded.client code)} (ha : (Abs.system (boot file)).Reachable a) :
    Reads file.sector a.shared.own := by
  have h0 : Reads file.sector (.new file) := by
    refine ⟨fun s => rfl, ?_⟩
    intro new old n t s data h
    have h' : [] = new ++ .issued n t (.read s data) :: old := h
    cases new <;> cases h'
  refine own_invariant h0 (fun h hstep => h.step hstep) (fun h hd => ?_) ha
  rename_i m d m' ss
  have hr : (interrupt m d).1 = m' := congrArg Prod.fst (Except.ok.inj hd)
  exact hr ▸ h.interrupt d

/-! ## Returning -/

/-- The call that a thread returns from. -/
inductive Returns (n : Nat) (transfer : Transfer) : Place Empty Pc → Prop where
  | done : Returns n transfer (.outside (.done n transfer))
  | release {i : Nat} {pc : Synch.Pc Empty} {next : Option Empty → Pc} {item : Option Empty} {item' : Option Empty}
      (h : next item' = .done n transfer) : Returns n transfer (.inside i pc next item)

/-- A thread returns from its call after it has returned from `P`. -/
def Returned (v : View code) : Prop :=
  ∀ t n transfer, Returns n transfer (v.place t) → .returned n t transfer ∈ v.memory.own.log transfer.driver

/-- The log only grows. -/
theorem log_grows {t : Tid} {m m' : Devices} {pc : Pc} {x : Input} {r : Guarded.Request Empty lockOps Pc} (h : step t m pc x = .ok (m', r))
    (d : Driver) {e : Event} (he : e ∈ m.log d) : e ∈ m'.log d := by
  have hrecord (m : Devices) (d' : Driver) (e' : Event) (he : e ∈ m.log d) : e ∈ (m.record d' e').log d := by
    by_cases hd : d = d'
    · subst hd
      rw [Devices.record_log_self]
      exact List.mem_cons_of_mem _ he
    · rwa [Devices.record_log_other m hd]
  cases pc with
  | user => cases x <;> cases h <;> exact he
  | request op =>
    obtain ⟨⟨m₁, transfer⟩, hr, h⟩ := of_bind_ok h
    cases h
    refine hrecord _ _ _ ?_
    show e ∈ m₁.log d
    rwa [(Devices.requests_of_ok hr).log]
  | wait n transfer =>
    cases h
    exact he
  | release n transfer =>
    cases h
    exact hrecord _ _ _ he
  | done n transfer =>
    cases h
    exact he

/-- No call leads to the end of a call of a driver. -/
theorem call_ne_done {t : Tid} {m m' : Devices} {pc pc' : Pc} {x : Input} {call : Call Pc} (h : step t m pc x = .ok (m', .call call pc'))
    (n : Nat) (transfer : Transfer) : pc' ≠ .done n transfer := by
  rintro rfl
  cases pc with
  | user => cases x <;> cases h
  | request op =>
    obtain ⟨⟨m₁, transfer⟩, hr, h⟩ := of_bind_ok h
    cases h
  | _ => cases h

theorem Returned.step {t : Tid} {v v' : View code} (hR : Returned v) (hI : InStep v) (h : Guarded.Step t v v') : Returned v' := by
  have hgrows {d : Driver} {e : Event} (he : e ∈ v.memory.own.log d) : e ∈ v'.memory.own.log d := by
    rcases h.own with heq | ⟨pc, x, r, -, hcode⟩
    · rwa [heq]
    · exact log_grows hcode d he
  intro t' n transfer hret
  rcases eq_or_ne t' t with rfl | hne
  · cases h with
    | @call _ pc pc' x own call hp hcode hcalls =>
      rcases hcalls.place t' with ⟨-, hp' | ⟨s, -, hp'⟩ | hp'⟩ | ⟨hne, -⟩
      · rw [hp'] at hret
        cases hret
        exact absurd rfl (call_ne_done hcode n transfer)
      · rw [hp'] at hret
        cases hret
      · rw [hp'] at hret
        cases hret
      · exact absurd rfl hne
    | @enter pc x own i op hop next hp hcode =>
      rw [View.go_place_self] at hret
      cases hret with
      | @release _ _ _ _ item' hnext =>
        cases pc with
        | user =>
          cases x with
          | call op =>
            cases hcode
            cases hnext
          | _ => cases hcode
        | request op =>
          obtain ⟨⟨m₁, transfer⟩, hr, hcode⟩ := of_bind_ok hcode
          cases hcode
        | wait n transfer => cases hcode
        | release n' transfer' =>
          cases hcode
          cases hnext
          show _ ∈ (v.memory.own.record transfer.driver (.returned n t' transfer)).log transfer.driver
          rw [Devices.record_log_self]
          exact List.mem_cons_self
        | done n transfer => cases hcode
    | @within i pc pc' next item x m call hp hcodes =>
      rw [View.go_place_self] at hret
      cases hret with
      | release hnext => exact hR t' n transfer (by rw [hp]; exact .release hnext)
    | @leave i next item hp =>
      rw [View.go_place_self] at hret
      generalize hpc : next item = pc at hret
      cases hret
      exact hR t' n transfer (by rw [hp]; exact .release hpc)
    | @take s pc x hp hx h0 =>
      have hfits := hI.fits t'
      rw [hp] at hfits
      obtain ⟨n', transfer', rfl, -⟩ := hfits
      rw [View.setValue_place, View.go_place_self] at hret
      cases hret
  · rcases h.place_other hne with hp | ⟨pc, pc', pc₀, x, own, -, hp, hcode⟩
    · rw [hp] at hret
      exact hgrows (hR t' n transfer hret)
    · rw [hp] at hret
      cases pc with
      | user =>
        cases x <;> cases hcode
        cases hret
      | request op =>
        obtain ⟨⟨m₁, transfer⟩, hr, hcode⟩ := of_bind_ok hcode
        cases hcode
      | _ => cases hcode

theorem Returned.handles {v v' : View code} (hR : Returned v) (h : Handles v v') : Returned v' := by
  cases h with
  | @served d own ss h =>
    have hr : interrupt v.memory.own d = (own, ss) := Except.ok.inj h
    intro t n transfer hret
    rw [View.raise_place] at hret
    have hmem := hR t n transfer hret
    unfold interrupt at hr
    split at hr
    · cases hr
      exact hmem
    · cases hr
      rw [View.raise_memory, View.setOwn_own]
      by_cases hd : transfer.driver = d
      · subst hd
        rw [Devices.record_log_self, Devices.callBack_log]
        exact List.mem_cons_of_mem _ hmem
      · rw [Devices.record_log_other _ hd, Devices.callBack_log]
        exact hmem
  | failed h => cases h

theorem returned_of_reachable {file : Disk} {a : Abs (Guarded.client code)} (ha : (Abs.system (boot file)).Reachable a) :
    Returned (view a) := by
  refine invariant ?_ (fun _ _ _ ha _ hstep hR => hR.step (inStep_of_reachable ha) hstep)
    (fun _ _ hh hR => hR.handles hh) ha
  intro t n transfer hret
  have hret' : Returns n transfer (if t = mainThread then .outside .user else .gone) := hret
  split at hret' <;> cases hret'

end Drivers

namespace Kernel

open Drivers

variable {k : Kernel (Guarded.client code)}

/-- The drivers are safe. -/
structure DriversSafe (file : Disk) (k : Kernel (Guarded.client code)) : Prop where
  /-- When a thread is about to issue a request, the device is not busy, no interrupt is scheduled, and the semaphore is 0. -/
  ready : ∀ t op, k.guarded.place t = .outside (.request op) → k.shared.own.busy op.driver = false ∧
    k.shared.own.scheduled op.driver = 0 ∧ k.guarded.value op.driver.semaphore = some 0
  /-- The requests of a device are numbered in the order in which they are issued, which is that of the lock. -/
  numbered : ∀ d, issuedNumbers (k.shared.own.log d) = (List.range (k.shared.own.requests d)).reverse
  /-- A request is issued after the thread of the one before it has returned from `P`. -/
  in_turn : ∀ d new old n t transfer, k.shared.own.log d = new ++ .issued n t transfer :: old →
    old = [] ∨ ∃ n' t' transfer' before, old = .returned n' t' transfer' :: before
  /-- Between the request of a thread and its return from `P` there is the interrupt, and nothing else. -/
  own_interrupt : ∀ d new old n t transfer, k.shared.own.log d = new ++ .returned n t transfer :: old →
    ∃ before, old = .interrupt :: .issued n t transfer :: before
  /-- A call returns after that. -/
  returns : ∀ t n transfer, k.guarded.place t = .outside (.done n transfer) →
    .returned n t transfer ∈ k.shared.own.log transfer.driver
  /-- A read returns what was written last before it, to the same sector. -/
  read : ∀ new old n t s data, k.shared.own.log .disk = new ++ .issued n t (.read s data) :: old →
    data = latest file.sector old s
  /-- No `ASSERT` fails. -/
  aborts : ∀ ch e, k.AllowedStep ch → k.step ch = .error e → e = .halted

/-- The code of the drivers fails nowhere. -/
theorem not_codeFails {file : Disk} (hk : (system (boot file)).Reachable k) {ch : Choice (Guarded.client code)} {e : Fault} :
    ¬k.CodeFails ch e := by
  have hI := inStep_of_reachable (abs_reachable hk)
  have hH := Guarded.held_of_reachable sections rfl (abs_reachable hk)
  rintro ⟨pc, hp, hcode⟩
  cases pc with
  | user =>
    generalize ch.input.own = x at hcode
    cases x <;> cases hcode
  | request op =>
    obtain ⟨-, ha⟩ := hI.idle hH hp
    cases ha with
    | idle hu hb hs hv =>
      obtain ⟨r, hr⟩ := Devices.request_of hb
      change ((Devices.request k.shared.own op) >>= _) = Except.error e at hcode
      rw [show k.shared.own.request op = .ok r from hr] at hcode
      cases hcode
  | _ => cases hcode

/-- The drivers are safe in every reachable state. -/
theorem drivers_safe {file : Disk} (hk : (system (boot file)).Reachable k) : k.DriversSafe file := by
  have ha := abs_reachable hk
  have hI := inStep_of_reachable ha
  have hH := Guarded.held_of_reachable sections rfl ha
  refine ⟨?_, ?_, ?_, ?_,
    ?_, (reads_of_reachable ha).read, ?_⟩
  · intro t op hp
    obtain ⟨-, hagrees⟩ := hI.idle hH hp
    cases hagrees with
    | idle hu hb hs hv => exact ⟨hb, hs, hv⟩
  · intro d
    obtain ⟨ph, hround, -⟩ := hI.phase d
    exact hround.numbered
  · intro d new old n t transfer hl
    obtain ⟨ph, hround, -⟩ := hI.phase d
    exact hround.issued_after hl
  · intro d new old n t transfer hl
    obtain ⟨ph, hround, -⟩ := hI.phase d
    exact hround.returned_after hl
  · intro t n transfer hp
    refine returned_of_reachable ha t n transfer ?_
    have hp' : (Guarded.view k.abs).place t = .outside (.done n transfer) := hp
    rw [hp']
    exact .done
  · intro ch e hallowed he
    rcases guarded_fails (U := uses) (ne_none_of_used 0) hk hallowed he with h | h | h
    · exact h
    · exact absurd h (not_codeFails hk)
    · exact absurd h (not_operationFails hH)

/-- A disk full of zeros. -/
def zeros : Disk := { sector := fun _ => Vector.replicate 128 0 }

/-- A run in which the main thread writes a sector, and thread 1, which waits for the lock until the interrupt of that has come, reads
it. -/
def writeThenRead : Option (Kernel (Guarded.client code)) :=
  let go (x : Drivers.Input) (due : List (Handler (Guarded.client code))) : Choice (Guarded.client code) :=
    { input := { own := x, fresh := 0 }, due }
  let five : Sector := ⟨5, by decide⟩
  (boot zeros).kernel.execute
    ([go .none [], go (.fork 1) [], go .none [], go (.call (.writeSector five (Vector.replicate 128 7))) []] ++
      List.replicate 11 (go (.call (.readSector five)) []) ++ [go .none [.device .disk]] ++
      List.replicate 21 (go .yield []) ++ [go .yield [.device .disk]] ++ List.replicate 10 (go .yield []))

theorem drivers_safe_writeThenRead : ∃ (k : Kernel (Guarded.client code)) (l : List Drivers.Event),
    k.shared.own.log .disk = .returned 1 1 (.read 5 (Vector.replicate 128 7)) :: l ∧ k.DriversSafe zeros := by
  have hrun : (writeThenRead.map fun k => k.shared.own.log .disk |>.head?) =
      some (some (.returned 1 1 (.read 5 (Vector.replicate 128 7)))) := by decide +kernel
  obtain ⟨k, hk, hh⟩ := Option.map_eq_some_iff.1 hrun
  obtain ⟨l, hl⟩ := List.head?_eq_some_iff.1 hh
  exact ⟨k, l, hl, drivers_safe (reachable_of_execute (.init rfl) hk)⟩

end Kernel

end Nachos
