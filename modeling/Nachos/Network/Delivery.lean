import Nachos.Network.PostOffice
import Nachos.Threads.GuardedSafety

/-!
# Mail is delivered once and in order

The packets read from the socket are those put into boxes, then one that the postal worker may hold, then one that the device may
buffer. The semaphore counts one exactly when a packet is buffered and the worker is not about to take it, so a poll between any two
steps of the worker finds either an empty device or a packet that it leaves alone.
-/

namespace Nachos

open Loop Transition Bytes

namespace PostOffice

open Guarded

/-! ## Packets and mails -/

/-- A header and a buffer have a packet, as far as it is long. -/
def Has (packet : Buf) (pktHdr : PacketHeader) (buffer : Buf) : Prop :=
  pktHdr = PacketHeader.ofBuf packet ∧ ∀ j < pktHdr.length, buffer j = payload packet j

/-- A mail has the headers and the data of a packet, as far as the packet has them. -/
structure Carries (packet : Buf) (mail : Mail) : Prop where
  pktHdr : mail.pktHdr = PacketHeader.ofBuf packet
  box : 4 ≤ mail.pktHdr.length → mail.mailHdr.to_ = (MailHeader.ofBuf (payload packet)).to_
  mailHdr : mailHeaderSize ≤ mail.pktHdr.length → mail.mailHdr = MailHeader.ofBuf (payload packet)
  length : mail.mailHdr.length ≤ maxMailSize ∧ mail.data.length = mail.mailHdr.length
  data : ∀ j < mail.mailHdr.length, mailHeaderSize + j < mail.pktHdr.length → mail.data[j]? = some (payload packet (mailHeaderSize + j))

/-- The header of a mail is its first twelve bytes. -/
theorem MailHeader.ofBuf_congr {b b' : Buf} (h : ∀ j < mailHeaderSize, b j = b' j) : ofBuf b = ofBuf b' := by
  have hint (o : Nat) (ho : o + 4 ≤ mailHeaderSize) : intAt b o = intAt b' o := intAt_congr fun k hk => h _ (by omega)
  have hword : leWord b 8 = leWord b' 8 := leWord_congr fun k hk => h _ (by show 8 + k < 12; omega)
  unfold ofBuf
  rw [hint 0 (by decide), hint 4 (by decide), hword]

variable {packet : Buf} {pktHdr : PacketHeader} {buffer : Buf}

theorem Has.mailHdr (h : Has packet pktHdr buffer) (hl : mailHeaderSize ≤ pktHdr.length) :
    MailHeader.ofBuf buffer = MailHeader.ofBuf (payload packet) :=
  MailHeader.ofBuf_congr fun j hj => h.2 j (by omega)

/-- The mail that is made from a packet. -/
theorem Has.carries (h : Has packet pktHdr buffer) {address : Nat} {mail : Mail}
    (hnew : Mail.new address pktHdr (MailHeader.ofBuf buffer) buffer mailHeaderSize = .ok mail) :
    Carries packet mail ∧ mail.address = address ∧ mail.mailHdr = MailHeader.ofBuf buffer := by
  obtain ⟨hl, hnew⟩ := of_assert_bind hnew
  cases hnew
  refine ⟨⟨h.1, ?_, h.mailHdr, ⟨hl, length_slice _ _ _⟩, ?_⟩, rfl, rfl⟩
  · intro h4
    exact intAt_congr fun k hk => h.2 _ (by dsimp only at h4; omega)
  · intro j hj hlt
    rw [← h.2 _ hlt]
    exact getElem?_slice _ _ hj

/-- `NetworkInput::Receive` copies a packet that is buffered. -/
theorem Has.receive {n : NetworkInput} (h : Has packet n.inHdr n.inbox) (h0 : 0 < n.inHdr.length) (data : Buf) :
    Has packet (n.receive data).1 (n.receive data).2.1 := by
  refine ⟨h.1, ?_⟩
  intro j hj
  have hj' : j < n.inHdr.length := hj
  show (if n.inHdr.length ≠ 0 then copy n.inbox 0 data 0 n.inHdr.length else data) j = payload packet j
  rw [if_pos (by omega)]
  rw [copy_start _ _ _ _ hj', Nat.zero_add]
  exact h.2 j hj'

/-- What a poll does: nothing, or a packet is read into the empty device. -/
theorem of_poll {hostName numBoxes : Int} {m m' : Office} {d : Poll hostName numBoxes} {ss : List SemId} (h : poll m d = .ok (m', ss)) :
    m' = m ∧ ss = [] ∨ m.network.inHdr.length = 0 ∧ m'.mails = m.mails ∧ ss = [messageAvailable] ∧
      ∃ packet, Legal hostName numBoxes packet ∧ m'.arrived = m.arrived ++ [packet] ∧
        Has packet m'.network.inHdr m'.network.inbox ∧ 0 < m'.network.inHdr.length := by
  obtain ⟨⟨n, avail⟩, hn, h⟩ := of_bind_ok h
  unfold NetworkInput.callBack at hn
  split at hn
  · cases hn
    cases h
    exact Or.inl ⟨rfl, rfl⟩
  · rename_i hempty
    cases d with
    | none =>
      cases hn
      cases h
      exact Or.inl ⟨rfl, rfl⟩
    | some packet =>
      obtain ⟨packet, hlegal⟩ := packet
      obtain ⟨-, hn⟩ := of_assert_bind hn
      cases hn
      cases h
      refine Or.inr ⟨not_not.1 hempty, rfl, rfl, packet, hlegal, rfl, ⟨rfl, ?_⟩, hlegal.length.1⟩
      intro j hj
      exact copy_start packet m.network.inbox packetHeaderSize _ hj

/-- No poll fails on legal packets, and none touches a packet that is buffered. -/
theorem poll_of {hostName numBoxes : Int} (m : Office) (d : Poll hostName numBoxes) : ∃ r, poll m d = .ok r := by
  unfold poll NetworkInput.callBack
  split
  · exact ⟨_, rfl⟩
  · cases d with
    | none => exact ⟨_, rfl⟩
    | some packet =>
      obtain ⟨packet, hlegal⟩ := packet
      dsimp only [Option.map_some]
      rw [assert_of ⟨hlegal.host, hlegal.length.2⟩]
      exact ⟨_, rfl⟩

/-- The semaphore of the post office. -/
def uses (hostName numBoxes : Int) : Uses (code hostName numBoxes) where
  used := fun s => s = messageAvailable
  call := by
    intro t own own' pc pc' x call h s
    cases pc with
    | user =>
      obtain ⟨op, junk⟩ := x
      cases op with
      | receive box =>
        obtain ⟨-, h⟩ := of_assert_bind h
        cases h
      | _ =>
        cases h
        exact ⟨nofun, nofun⟩
    | wait buffer =>
      cases h
      refine ⟨?_, nofun⟩
      intro h
      rcases h with h | h <;> cases h
      rfl
    | put pktHdr buffer =>
      obtain ⟨-, h⟩ := of_assert_bind h
      obtain ⟨-, h⟩ := of_assert_bind h
      obtain ⟨mail, -, h⟩ := of_bind_ok h
      cases h
    | get box mail =>
      cases mail with
      | none => cases h
      | some mail =>
        obtain ⟨-, h⟩ := of_assert_bind h
        cases h
        exact ⟨nofun, nofun⟩
    | _ =>
      cases h
      exact ⟨nofun, nofun⟩
  device := by
    intro own own' d ss h s hs
    rcases of_poll h with ⟨-, rfl⟩ | ⟨-, -, rfl, -⟩
    · cases hs
    · exact List.mem_singleton.1 hs

/-! ## The invariant -/

/-- Where the postal worker is when `n` packets are in boxes and `made` mails were made: with the packet that it holds, and whether
it is about to take one from the device. -/
inductive WorkerAt (made n : Nat) : Place Mail Pc → List Buf → Bool → Prop where
  | gone (h : made = n) : WorkerAt made n .gone [] false
  | begin (h : made = n) : WorkerAt made n (.outside .begin) [] false
  | wait (h : made = n) (buffer : Buf) : WorkerAt made n (.outside (.wait buffer)) [] false
  | waits (h : made = n) (buffer : Buf) : WorkerAt made n (.inP messageAvailable (.receive buffer)) [] false
  | receive (h : made = n) (buffer : Buf) : WorkerAt made n (.outside (.receive buffer)) [] true
  | put (h : made = n) {packet : Buf} {pktHdr : PacketHeader} {buffer : Buf} (hp : Has packet pktHdr buffer) :
      WorkerAt made n (.outside (.put pktHdr buffer)) [packet] false
  | putting (h : made = n + 1) {packet : Buf} {mail : Mail} {i : Nat} {pc : Synch.Pc Mail} {next : Option Mail → Pc}
      {item : Option Mail} (hc : Carries packet mail) (ha : mail.address = n) (hi : mail.mailHdr.to_.toNat = i)
      (hpc : pc.pending = some mail) (hnext : ∃ buffer, ∀ item, next item = .wait buffer) :
      WorkerAt made n (.inside i pc next item) [packet] false
  | leaving (h : made = n) {i : Nat} {pc : Synch.Pc Mail} {next : Option Mail → Pc} {item : Option Mail} (hpc : pc.pending = none)
      (hnext : ∃ buffer, ∀ item, next item = .wait buffer) : WorkerAt made n (.inside i pc next item) [] false

/-- The packet in the device: there is none; there is one, and the semaphore counts it; or the worker is about to take it. -/
inductive Buffered (n : NetworkInput) (value : Option Int) : List Buf → Bool → Prop where
  | empty (h : n.inHdr.length = 0) (hv : value = some 0) : Buffered n value [] false
  | raised {packet : Buf} (hp : Has packet n.inHdr n.inbox) (h0 : 0 < n.inHdr.length) (hv : value = some 1) :
      Buffered n value [packet] false
  | taken {packet : Buf} (hp : Has packet n.inHdr n.inbox) (h0 : 0 < n.inHdr.length) (hv : value = some 0) :
      Buffered n value [packet] true

/-- The packets are accounted for: those `put` into boxes with their mails, those `held` by the worker, and those in the device. -/
structure Delivery {hostName numBoxes : Int} (v : View (code hostName numBoxes)) (put : List (Buf × Mail)) (held inbox : List Buf)
    (receiving : Bool) : Prop where
  arrived : v.memory.own.arrived = put.map Prod.fst ++ held ++ inbox
  worker : WorkerAt v.memory.own.mails put.length (v.place postalWorker) held receiving
  buffered : Buffered v.memory.own.network (v.value messageAvailable) inbox receiving
  carries : ∀ x ∈ put, Carries x.1 x.2
  addresses : put.map (fun x => x.2.address) = List.range put.length
  boxes : ∀ i, (v.memory.monitor i).appended = (put.map Prod.snd).filter fun mail => mail.mailHdr.to_.toNat = i

/-- Where another thread is: outside of the boxes, in a `RemoveFront`, or with a mail that was removed from its box. -/
inductive UserAt (removed : Nat → List Mail) : Place Mail Pc → Prop where
  | gone : UserAt removed .gone
  | start : UserAt removed (.outside .start)
  | user : UserAt removed (.outside .user)
  | receiving {box : Int} {pc : Synch.Pc Mail} {next : Option Mail → Pc} {item : Option Mail} {b : Bool}
      (hnext : ∀ item, next item = .get box item) (hpc : pc.removing = some b) (hb : b = true → item ≠ none)
      (hi : ∀ mail, item = some mail → mail ∈ removed box.toNat) : UserAt removed (.inside box.toNat pc next item)
  | get {box : Int} {mail : Mail} (h : mail ∈ removed box.toNat) : UserAt removed (.outside (.get box (some mail)))
  | done {box : Int} {mail : Mail} (h : mail ∈ removed box.toNat) : UserAt removed (.outside (.done box mail))

/-- The mails removed from the boxes. -/
def removedFrom {hostName numBoxes : Int} (v : View (code hostName numBoxes)) (i : Nat) : List Mail := (v.memory.monitor i).removed

/-- The invariant. -/
structure InStep {hostName numBoxes : Int} (v : View (code hostName numBoxes)) : Prop where
  delivery : ∃ put held inbox receiving, Delivery v put held inbox receiving
  legal : ∀ packet ∈ v.memory.own.arrived, Legal hostName numBoxes packet
  users : ∀ t, t ≠ postalWorker → UserAt (removedFrom v) (v.place t)
  begun : v.place postalWorker = .gone → ∀ t, v.place t = .gone ∨ v.place t = .outside .start
  served : v.memory.handlerFailed = false

section InStep

variable {hostName numBoxes : Int} {v v' : View (code hostName numBoxes)} {t : Tid} {put : List (Buf × Mail)} {held inbox : List Buf}
  {receiving : Bool}

theorem UserAt.mono {removed removed' : Nat → List Mail} {p : Place Mail Pc} (h : UserAt removed p)
    (hm : ∀ i mail, mail ∈ removed i → mail ∈ removed' i) : UserAt removed' p := by
  cases h with
  | gone => exact .gone
  | start => exact .start
  | user => exact .user
  | receiving hnext hpc hb hi => exact .receiving hnext hpc hb fun mail h => hm _ mail (hi mail h)
  | get h => exact .get (hm _ _ h)
  | done h => exact .done (hm _ _ h)

/-- A step that moves neither the worker nor a packet. -/
theorem Delivery.congr (h : Delivery v put held inbox receiving) (hown : v'.memory.own = v.memory.own)
    (hplace : v'.place postalWorker = v.place postalWorker) (hvalue : v'.value = v.value)
    (happended : ∀ i, (v'.memory.monitor i).appended = (v.memory.monitor i).appended) : Delivery v' put held inbox receiving := by
  refine ⟨?_, ?_, ?_, h.carries, h.addresses, fun i => (happended i).trans (h.boxes i)⟩
  · rw [hown]
    exact h.arrived
  · rw [hown, hplace]
    exact h.worker
  · rw [hown, hvalue]
    exact h.buffered

/-- A thread that is not about to begin finds that the worker has begun. -/
theorem InStep.worker_begun (hI : InStep v) {p : Place Mail Pc} (h : v.place t = p) (hgone : p ≠ .gone) (hstart : p ≠ .outside .start) :
    v.place postalWorker ≠ .gone := by
  intro hw
  rcases hI.begun hw t with h' | h'
  · exact hgone (h.symm.trans h')
  · exact hstart (h.symm.trans h')

/-- Another thread goes on. -/
theorem InStep.go_user (hI : InStep v) (ht : t ≠ postalWorker) {p : Place Mail Pc} (hp : UserAt (removedFrom v) p)
    (hw : v.place postalWorker ≠ .gone) : InStep (v.go t p) := by
  have hplace : (v.go t p).place postalWorker = v.place postalWorker := View.go_place_other v ht.symm p
  obtain ⟨put, held, inbox, receiving, hD⟩ := hI.delivery
  refine ⟨⟨put, held, inbox, receiving, hD.congr rfl hplace rfl fun _ => rfl⟩, hI.legal, ?_, ?_, hI.served⟩
  · exact View.go_place_all v (P := fun t' q => t' ≠ postalWorker → UserAt (removedFrom v) q) (fun _ => hp) fun t' _ => hI.users t'
  · intro h
    exact absurd (hplace.symm.trans h) hw

/-- The worker goes on: the packets are accounted for at its new place. -/
theorem InStep.go_worker (hI : InStep v) {p : Place Mail Pc} (hp : p ≠ .gone) (hown : v'.memory.own.arrived = v.memory.own.arrived)
    (hplace : v'.place = (v.go postalWorker p).place) (hremoved : ∀ i mail, mail ∈ removedFrom v i → mail ∈ removedFrom v' i)
    (hserved : v'.memory.handlerFailed = v.memory.handlerFailed) (hD : ∃ put held inbox receiving, Delivery v' put held inbox receiving) :
    InStep v' := by
  refine ⟨hD, ?_, ?_, ?_, hserved.trans hI.served⟩
  · rw [hown]
    exact hI.legal
  · intro t ht
    rw [hplace, View.go_place_other v ht]
    exact (hI.users t ht).mono hremoved
  · intro h
    rw [hplace, View.go_place_self] at h
    exact absurd h hp

/-- One monitor changes, and nothing is appended to it. -/
theorem appended_update {monitor : Nat → Synch.Monitor Mail} {i : Nat} {m : Synch.Monitor Mail}
    (h : m.appended = (monitor i).appended) (i' : Nat) :
    (Function.update monitor i m i').appended = (monitor i').appended := by
  rcases eq_or_ne i' i with rfl | hne
  · rw [Function.update_self, h]
  · rw [Function.update_of_ne hne]

/-- One monitor changes, and what was removed from it stays removed. -/
theorem removed_update {monitor : Nat → Synch.Monitor Mail} {i : Nat} {m : Synch.Monitor Mail} {new : List Mail}
    (h : m.removed = (monitor i).removed ++ new) (i' : Nat) (mail : Mail) (hmem : mail ∈ (monitor i').removed) :
    mail ∈ (Function.update monitor i m i').removed := by
  rcases eq_or_ne i' i with rfl | hne
  · rw [Function.update_self, h]
    exact List.mem_append_left _ hmem
  · rwa [Function.update_of_ne hne]

/-- The worker goes on and nothing else happens. -/
theorem InStep.goto_worker (hI : InStep v) (hD : Delivery v put held inbox receiving) {p : Place Mail Pc} (hp : p ≠ .gone)
    (hw : WorkerAt v.memory.own.mails put.length p held receiving) : InStep (v.go postalWorker p) := by
  refine hI.go_worker hp rfl rfl (fun _ _ h => h) rfl ⟨put, held, inbox, receiving, hD.arrived, ?_, hD.buffered, hD.carries,
    hD.addresses, hD.boxes⟩
  rw [View.go_place_self]
  exact hw

/-- The monitors change, but nothing is appended. -/
theorem InStep.setMonitor (hI : InStep v) {monitor : Nat → Synch.Monitor Mail}
    (happended : ∀ i, (monitor i).appended = (v.memory.monitor i).appended)
    (hremoved : ∀ i mail, mail ∈ (v.memory.monitor i).removed → mail ∈ (monitor i).removed) :
    InStep { v with memory := { v.memory with monitor } } := by
  obtain ⟨put, held, inbox, receiving, hD⟩ := hI.delivery
  exact ⟨⟨put, held, inbox, receiving, hD.congr rfl rfl rfl happended⟩, hI.legal, fun t ht => (hI.users t ht).mono hremoved, hI.begun,
    hI.served⟩

/-! ### The other threads -/

/-- The code of another thread. -/
theorem InStep.user_step (hI : InStep v) (ht : t ≠ postalWorker) (h : Step t v v') : InStep v' := by
  have hU := hI.users t ht
  cases h with
  | @call _ pc pc' x own call h hcode hcalls =>
    rw [h] at hU
    cases hU with
    | start =>
      cases hcode
      obtain ⟨hne, hgone, hv⟩ := hcalls.of_fork
      obtain ⟨put, held, inbox, receiving, hD⟩ := hI.delivery
      have hgone' : v.place postalWorker = .gone := hgone
      have hgo : ∀ t', t' ≠ postalWorker → UserAt (removedFrom v) ((v.go t (.outside .user)).place t') :=
        View.go_place_all v (P := fun t' q => t' ≠ postalWorker → UserAt (removedFrom v) q) (fun _ => .user) fun t' _ => hI.users t'
      have hworker : ((v.go t (.outside .user)).go postalWorker (.outside .begin)).place postalWorker = .outside .begin :=
        View.go_place_self _ _ _
      refine hv ▸ ⟨⟨put, held, inbox, receiving, hD.arrived, ?_, hD.buffered, hD.carries, hD.addresses, hD.boxes⟩, hI.legal,
        ?_, ?_, hI.served⟩
      · have hw := hD.worker
        rw [hgone'] at hw
        cases hw with
        | gone hmade =>
          show WorkerAt _ _ (((v.go t (.outside .user)).go postalWorker (.outside .begin)).place postalWorker) _ _
          rw [hworker]
          exact .begin hmade
      · intro t' ht'
        show UserAt _ (((v.go t (.outside .user)).go postalWorker (.outside .begin)).place t')
        rw [View.go_place_other _ ht']
        exact hgo t' ht'
      · intro hw
        cases hworker.symm.trans hw
    | user =>
      have hw := hI.worker_begun h nofun nofun
      have hstay : InStep (v.go t (.outside .user)) := hI.go_user ht .user hw
      obtain ⟨op, junk⟩ := x
      cases op with
      | none =>
        cases hcode
        exact hcalls.of_quiet rfl ▸ hstay
      | yield =>
        cases hcode
        exact hcalls.of_quiet rfl ▸ hstay
      | fork t' =>
        cases hcode
        obtain ⟨hne, hgone, hv⟩ := hcalls.of_fork
        have ht' : t' ≠ postalWorker := fun e => hw (e ▸ hgone)
        have hw' : (v.go t (.outside .user)).place postalWorker ≠ .gone := by
          rw [View.go_place_other v ht.symm]
          exact hw
        exact hv ▸ hstay.go_user ht' .user hw'
      | finish =>
        cases hcode
        have hgo : InStep (v.go t .gone) := hI.go_user ht .gone hw
        exact hcalls.of_finish ▸ hgo
      | receive box =>
        obtain ⟨-, hcode⟩ := of_assert_bind hcode
        cases hcode
    | @get box mail hmem =>
      obtain ⟨-, hcode⟩ := of_assert_bind hcode
      cases hcode
      have hgo : InStep (v.go t (.outside (.done box mail))) := hI.go_user ht (.done hmem) (hI.worker_begun h nofun nofun)
      exact hcalls.of_quiet rfl ▸ hgo
    | done hmem =>
      cases hcode
      have hgo : InStep (v.go t (.outside .user)) := hI.go_user ht .user (hI.worker_begun h nofun nofun)
      exact hcalls.of_quiet rfl ▸ hgo
  | @enter pc x own i op hop next h hcode =>
    rw [h] at hU
    cases hU with
    | start => cases hcode
    | user =>
      obtain ⟨op, junk⟩ := x
      cases op with
      | receive box =>
        obtain ⟨-, hcode⟩ := of_assert_bind hcode
        cases hcode
        refine InStep.go_user (v := v) hI ht (.receiving (b := false) (fun _ => rfl) rfl nofun nofun) ?_
        exact hI.worker_begun h nofun nofun
      | _ => cases hcode
    | get hmem =>
      obtain ⟨-, hcode⟩ := of_assert_bind hcode
      cases hcode
    | done hmem => cases hcode
  | @within i pc pc' next item x m call h hcodes =>
    rw [h] at hU
    cases hU with
    | @receiving box _ _ _ b hnext hpc hb hi =>
      have hpending := Synch.Pc.pending_of_removing hpc
      have happended : m.appended = (v.memory.monitor box.toNat).appended := by
        rcases hcodes.pending with ⟨-, happ⟩ | ⟨item, rfl, -, -⟩
        · exact happ
        · cases hpending
      have hm : InStep { v with memory := { v.memory with monitor := Function.update v.memory.monitor box.toNat m } } :=
        hI.setMonitor (appended_update happended) (removed_update hcodes.removed)
      refine hm.go_user ht (.receiving hnext (hcodes.removing hpc) ?_ ?_)
        (hI.worker_begun h nofun nofun)
      · intro hb'
        cases hrem : pc.removes (v.memory.monitor box.toNat) with
        | none =>
          rw [hrem, Option.isSome_none, Bool.or_false] at hb'
          exact hb hb'
        | some mail => nofun
      · intro mail hmail
        show mail ∈ (Function.update v.memory.monitor box.toNat m box.toNat).removed
        rw [Function.update_self, hcodes.removed]
        cases hrem : pc.removes (v.memory.monitor box.toNat) with
        | none =>
          rw [hrem] at hmail
          exact List.mem_append_left _ (hi mail hmail)
        | some mail' =>
          rw [hrem] at hmail
          obtain rfl := Option.some.inj hmail
          exact List.mem_append_right _ List.mem_cons_self
  | @leave i next item h =>
    rw [h] at hU
    cases hU with
    | receiving hnext hpc hb hi =>
      cases hpc
      rw [hnext]
      cases item with
      | none => exact absurd rfl (hb rfl)
      | some mail => exact hI.go_user ht (.get (hi mail rfl)) (hI.worker_begun h nofun nofun)
  | take h hx h0 =>
    rw [h] at hU
    cases hU

/-! ### The postal worker -/

/-- `P` goes through: the worker is about to take the packet. -/
theorem InStep.take (hI : InStep v) {buffer : Buf} (hw : ∀ made n held receiving, WorkerAt made n (v.place postalWorker) held receiving →
      made = n ∧ held = [] ∧ receiving = false) {x : Int} (hx : v.value messageAvailable = some x) (h0 : x ≠ 0) :
    InStep ((v.go postalWorker (.outside (.receive buffer))).setValue messageAvailable (some (x - 1))) := by
  obtain ⟨put, held, inbox, receiving, hD⟩ := hI.delivery
  obtain ⟨hmade, rfl, rfl⟩ := hw _ _ _ _ hD.worker
  have hb := hD.buffered
  have harrived := hD.arrived
  generalize inbox = l at hb harrived
  cases hb with
  | empty hl hv => exact absurd (Option.some.inj (hx.symm.trans hv)) h0
  | @raised packet hp hl hv =>
    obtain rfl : x = 1 := Option.some.inj (hx.symm.trans hv)
    refine hI.go_worker (p := .outside (.receive buffer)) nofun rfl rfl (fun _ _ h => h) rfl
      ⟨_, _, _, _, harrived, ?_, .taken hp hl (View.setValue_self _ _ _), hD.carries, hD.addresses, hD.boxes⟩
    rw [View.setValue_place, View.go_place_self]
    exact .receive hmade buffer

/-- The worker takes the packet out of the device. -/
theorem InStep.receive (hI : InStep v) {buffer : Buf} (h : v.place postalWorker = .outside (.receive buffer)) :
    InStep ((v.setOwn { v.memory.own with network := (v.memory.own.network.receive buffer).2.2 }).go postalWorker
      (.outside (.put (v.memory.own.network.receive buffer).1 (v.memory.own.network.receive buffer).2.1))) := by
  obtain ⟨put, held, inbox, receiving, hD⟩ := hI.delivery
  have hw := hD.worker
  have hb := hD.buffered
  have harrived := hD.arrived
  rw [h] at hw
  cases hw with
  | receive hmade =>
    cases hb with
    | @taken packet hp hl hv =>
      refine hI.go_worker (p := .outside (.put _ _)) nofun rfl rfl (fun _ _ h => h) rfl
        ⟨put, [packet], [], false, ?_, ?_, .empty rfl hv, hD.carries, hD.addresses, hD.boxes⟩
      · rw [List.append_nil] at harrived ⊢
        exact harrived
      · rw [View.go_place_self]
        exact .put hmade (hp.receive hl buffer)

/-- The code of the worker. -/
theorem InStep.worker_step (hI : InStep v) (h : Step postalWorker v v') : InStep v' := by
  obtain ⟨put, held, inbox, receiving, hD⟩ := hI.delivery
  have hW := hD.worker
  cases h with
  | @call _ pc pc' x own call h hcode hcalls =>
    rw [h] at hW
    cases hW with
    | begin hmade =>
      cases hcode
      have hgo : InStep (v.go postalWorker (.outside (.wait x.junk))) := hI.goto_worker hD nofun (.wait hmade _)
      exact hcalls.of_quiet rfl ▸ hgo
    | wait hmade buffer =>
      cases hcode
      rcases hcalls.of_p with ⟨y, hy, h0, hv⟩ | hv
      · refine hv ▸ hI.take ?_ hy h0
        intro made n held receiving hw
        rw [h] at hw
        cases hw with
        | wait hmade => exact ⟨hmade, rfl, rfl⟩
      · have hgo : InStep (v.go postalWorker (.inP messageAvailable (.receive buffer))) :=
          hI.goto_worker hD nofun (.waits hmade _)
        exact hv ▸ hgo
    | receive hmade buffer =>
      cases hcode
      rw [hcalls.of_quiet rfl]
      exact hI.receive h
    | put hmade hp =>
      obtain ⟨-, hcode⟩ := of_assert_bind hcode
      obtain ⟨-, hcode⟩ := of_assert_bind hcode
      obtain ⟨mail, -, hcode⟩ := of_bind_ok hcode
      cases hcode
  | @enter pc x own i op hop next h hcode =>
    rw [h] at hW
    cases hW with
    | @put hmade packet pktHdr buffer hp =>
      obtain ⟨-, hcode⟩ := of_assert_bind hcode
      obtain ⟨-, hcode⟩ := of_assert_bind hcode
      obtain ⟨mail, hmail, hcode⟩ := of_bind_ok hcode
      cases hcode
      obtain ⟨hcarries, haddress, hmailHdr⟩ := hp.carries hmail
      refine hI.go_worker (p := .inside _ _ _ _) nofun rfl rfl (fun _ _ h => h) rfl
        ⟨_, _, _, _, hD.arrived, ?_, hD.buffered, hD.carries, hD.addresses, hD.boxes⟩
      rw [View.go_place_self]
      exact .putting (congrArg (· + 1) hmade) hcarries (haddress.trans hmade) (by rw [hmailHdr]) rfl ⟨buffer, fun _ => rfl⟩
    | _ => cases hcode
  | @within i pc pc' next item x m call h hcodes =>
    rw [h] at hW
    have hremoved := removed_update hcodes.removed
    cases hW with
    | @putting hmade packet mail _ _ _ _ hc ha hi hpc hnext =>
      rcases hcodes.pending with ⟨hpc', happ⟩ | ⟨item', rfl, hpc', happ⟩
      · refine hI.go_worker (p := .inside i pc' next _) nofun rfl rfl hremoved rfl
          ⟨_, _, _, _, hD.arrived, ?_, hD.buffered, hD.carries, hD.addresses, fun i' => (appended_update happ i').trans (hD.boxes i')⟩
        rw [View.go_place_self]
        exact .putting hmade hc ha hi (hpc'.trans hpc) hnext
      · obtain rfl := Option.some.inj hpc
        refine hI.go_worker (p := .inside i pc' next _) nofun rfl rfl hremoved rfl
          ⟨put ++ [(packet, item')], [], inbox, false, ?_, ?_, hD.buffered, ?_, ?_, ?_⟩
        · rw [List.map_append, List.append_nil]
          exact hD.arrived
        · rw [View.go_place_self, List.length_append]
          exact .leaving hmade hpc' hnext
        · intro y hy
          rcases List.mem_append.1 hy with hy | hy
          · exact hD.carries y hy
          · obtain rfl := List.mem_singleton.1 hy
            exact hc
        · rw [List.map_append, List.length_append, hD.addresses]
          show _ ++ [item'.address] = List.range (put.length + 1)
          rw [ha, List.range_succ]
        · intro i'
          rw [List.map_append, List.filter_append, ← hD.boxes i']
          show (Function.update v.memory.monitor i m i').appended = _ ++ [item'].filter _
          rcases eq_or_ne i' i with rfl | hne
          · have hfilter : [item'].filter (fun mail => mail.mailHdr.to_.toNat = i') = [item'] := List.filter_cons_of_pos (decide_eq_true hi)
            rw [Function.update_self, happ, hfilter]
          · have hfilter : [item'].filter (fun mail => mail.mailHdr.to_.toNat = i') = [] :=
              List.filter_cons_of_neg fun h => hne ((of_decide_eq_true h).symm.trans hi)
            rw [Function.update_of_ne hne, hfilter, List.append_nil]
    | leaving hmade hpc hnext =>
      rcases hcodes.pending with ⟨hpc', happ⟩ | ⟨item', rfl, -, -⟩
      · refine hI.go_worker (p := .inside i pc' next _) nofun rfl rfl hremoved rfl
          ⟨_, _, _, _, hD.arrived, ?_, hD.buffered, hD.carries, hD.addresses, fun i' => (appended_update happ i').trans (hD.boxes i')⟩
        rw [View.go_place_self]
        exact .leaving hmade (hpc'.trans hpc) hnext
      · cases hpc
  | @leave i next item h =>
    rw [h] at hW
    cases hW with
    | putting hmade hc ha hi hpc hnext => cases hpc
    | leaving hmade hpc hnext =>
      obtain ⟨buffer, hnext⟩ := hnext
      rw [hnext]
      exact hI.goto_worker hD nofun (.wait hmade buffer)
  | @take s pc x h hx h0 =>
    rw [h] at hW
    cases hW with
    | waits hmade buffer =>
      refine hI.take ?_ hx h0
      intro made n held receiving hw
      rw [h] at hw
      cases hw with
      | waits hmade => exact ⟨hmade, rfl, rfl⟩

/-! ### The poll -/

/-- A packet is read into the empty device, and the semaphore counts it. -/
theorem InStep.handles (hI : InStep v) (h : Handles v v') : InStep v' := by
  cases h with
  | @served d m ss h =>
    rcases of_poll h with ⟨rfl, rfl⟩ | ⟨hempty, hmails, rfl, packet, hlegal, harrived, hholds, h0⟩
    · exact hI
    · obtain ⟨put, held, inbox, receiving, hD⟩ := hI.delivery
      have hb := hD.buffered
      have hold := hD.arrived
      have hw := hD.worker
      cases hb with
      | empty hl hv =>
        refine ⟨⟨put, held, [packet], false, ?_, ?_, .raised hholds h0 ?_, hD.carries, hD.addresses, hD.boxes⟩, ?_,
          hI.users, hI.begun, hI.served⟩
        · show m.arrived = _
          rw [harrived, hold, List.append_nil]
        · show WorkerAt m.mails put.length (v.place postalWorker) held false
          rw [hmails]
          exact hw
        · show Function.update v.value messageAvailable ((v.value messageAvailable).map (· + 1)) messageAvailable = some 1
          rw [Function.update_self, hv]
          rfl
        · intro p hp
          have hp' : p ∈ m.arrived := hp
          rw [harrived] at hp'
          rcases List.mem_append.1 hp' with hp' | hp'
          · exact hI.legal p hp'
          · obtain rfl := List.mem_singleton.1 hp'
            exact hlegal
      | raised hp hl hv => omega
      | taken hp hl hv => omega
  | @failed d e h =>
    obtain ⟨r, hr⟩ := poll_of v.memory.own d
    cases hr.symm.trans h

end InStep

theorem inStep_start (hostName numBoxes : Int) (junk : NetworkInput) :
    InStep (View.start (g := code hostName numBoxes) (.new junk) .start fun s => if s = messageAvailable then some 0 else none) := by
  refine ⟨⟨[], [], [], false, rfl, ?_, .empty rfl rfl, nofun, rfl, fun i => rfl⟩, nofun, ?_, ?_, rfl⟩
  · exact .gone rfl
  · intro t _
    show UserAt _ (if t = mainThread then .outside .start else .gone)
    split
    · exact .start
    · exact .gone
  · intro _ t
    unfold View.start
    by_cases ht : t = mainThread
    · exact Or.inr (if_pos ht)
    · exact Or.inl (if_neg ht)

theorem inStep_of_reachable {hostName numBoxes : Int} {junk : NetworkInput} {a : Abs (Guarded.client (code hostName numBoxes))}
    (ha : (Abs.system (boot hostName numBoxes junk)).Reachable a) : InStep (view a) := by
  refine invariant (inStep_start hostName numBoxes junk) ?_ (fun _ _ hh hI => hI.handles hh) ha
  intro t _ _ _ _ hstep hI
  by_cases ht : t = postalWorker
  · subst ht
    exact hI.worker_step hstep
  · exact hI.user_step ht hstep

end PostOffice

namespace Kernel

open PostOffice

variable {hostName numBoxes : Int} {junk : NetworkInput} {k : Kernel (Guarded.client (PostOffice.code hostName numBoxes))}

/-- A packet for host 0, from host 7, with three bytes of mail for box 1. -/
def letter : Buf := fun j =>
  (([0, 0, 0, 0] : List UInt8) ++ [7, 0, 0, 0] ++ [15, 0, 0, 0] ++ [1, 0, 0, 0] ++ [5, 0, 0, 0] ++ [3, 0, 0, 0] ++ [97, 98, 99]).getD j 0

end Kernel

end Nachos
