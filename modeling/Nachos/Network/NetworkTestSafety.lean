import Nachos.Network.NetworkTest
import Nachos.Network.WireSafety

/-!
# One machine of the network test

What holds of a machine at each statement of the test (`Sound`), and what its thread, its interrupts and its postal worker do: none of them
fails, and each says which message it has moved.
-/

namespace Nachos

namespace NetworkTest

open Loop Bytes PostOffice Wire

/-! ## Messages -/

/-- The mail box that a message is for. -/
def Kind.box : Kind → Int
  | hello => 0
  | ack => 1

/-- What a message says. -/
def Kind.text : Kind → List UInt8
  | hello => data
  | ack => NetworkTest.ack

/-- The header of its mail. -/
def Kind.header (k : Kind) : MailHeader := { to_ := k.box, from_ := 1, length := k.text.length + 1 }

/-- The header of a packet for a machine, as far as `Send` reads it. -/
def target (h : Fin 2) : PacketHeader := { to_ := hostName h, from_ := 0, length := 0 }

/-- A message, by the machine that it is for. -/
abbrev Message := Fin 2 × Kind

/-- The packet is this message. -/
def Says (m : Message) (d : Datagram) : Prop := OnWire (hostName (far m.1)) (target m.1) m.2.header (literal m.2.text) d

theorem far_far : ∀ h : Fin 2, far (far h) = h := by decide

theorem far_ne : ∀ h : Fin 2, far h ≠ h := by decide

theorem eq_or_eq_far : ∀ h h' : Fin 2, h' = h ∨ h' = far h := by decide

theorem farHost_hostName : ∀ h : Fin 2, farHost (hostName h) = hostName (far h) := by decide

theorem socketName_injective : ∀ h h' : Fin 2, socketName (hostName h) = socketName (hostName h') → h = h' := by decide +kernel

theorem hostName_inRange : ∀ h : Fin 2, InRange (hostName h) := by decide

theorem Kind.header_length (k : Kind) : k.header.length ≤ maxMailSize := by cases k <;> decide

theorem Kind.box_inRange (k : Kind) : InRange k.box := by cases k <;> decide

theorem Kind.box_legal (k : Kind) : 0 ≤ k.box ∧ k.box < kernelBoxes := by cases k <;> decide

theorem Kind.box_injective {k k' : Kind} (h : k.box = k'.box) : k = k' := by
  cases k <;> cases k' <;> first | rfl | cases h

/-- Another box is left alone. -/
theorem update_box (boxes : Boxes) (k k' : Kind) (messages : List Wire.Mail) :
    Function.update boxes k.box messages k'.box = if k' = k then messages else boxes k'.box := by
  by_cases hk : k' = k
  · rw [hk, Function.update_self, if_pos rfl]
  · rw [Function.update_of_ne fun hbox => hk (Kind.box_injective hbox), if_neg hk]

theorem Kind.zero_notMem_text (k : Kind) : 0 ∉ k.text := by cases k <;> decide

/-! ## What is printed -/

/-- A string that is in the buffer with its zero is printed. -/
theorem cString_of {text : List UInt8} (hzero : 0 ∉ text) {size : Nat} {buffer : Block size} (hlength : text.length < size)
    (h : ∀ j < text.length + 1, buffer.bytes j = (literal text).bytes j) : cString buffer = .ok text := by
  obtain ⟨r, rfl⟩ := Nat.exists_eq_add_of_le (Nat.succ_le_of_lt hlength)
  have htext : (List.range text.length).map buffer.bytes = text := by
    refine List.ext_getElem (by simp) ?_
    intro i _ hi
    simp [h i (by omega), literal, hi]
  have hend : buffer.bytes text.length = 0 := by
    rw [h _ (Nat.lt_succ_self _)]
    simp [literal]
  have hbytes : (List.range (text.length.succ + r)).map buffer.bytes =
      text ++ 0 :: ((List.range r).map fun i => buffer.bytes (text.length.succ + i)) := by
    rw [List.range_add, List.range_succ, List.map_append, List.map_append, htext, List.map_singleton, hend, List.append_assoc,
      List.map_map]
    rfl
  have hall : ∀ c ∈ text, (!decide (c = 0)) = true := by
    intro c hc
    have hne : c ≠ 0 := fun h0 => hzero (h0 ▸ hc)
    simp [hne]
  unfold cString
  rw [hbytes, if_pos (by simp), List.takeWhile_append_of_pos hall]
  simp

/-! ## The statements of the test -/

/-- How far the test is. -/
def Pc.rank : Pc → Nat
  | send => 0
  | sent => 1
  | receive => 2
  | acknowledge => 3
  | acknowledged => 4
  | receiveAck => 5
  | done => 6

/-- How many messages of a kind have been sent. -/
def Pc.hasSent (p : Pc) : Kind → Nat
  | .hello => if 1 ≤ p.rank then 1 else 0
  | .ack => if 4 ≤ p.rank then 1 else 0

/-- How many messages of a kind have been read. -/
def Pc.hasRead (p : Pc) : Kind → Nat
  | .hello => if 3 ≤ p.rank then 1 else 0
  | .ack => if 6 ≤ p.rank then 1 else 0

/-- What a machine has printed. -/
def transcript (h : Fin 2) (p : Pc) : List UInt8 :=
  (if p.hasRead .hello = 1 then line data (hostName (far h)) 1 else []) ++
    if p.hasRead .ack = 1 then line ack (hostName (far h)) 1 else []

/-- What holds of a machine; `b` is the message in its network input. -/
structure Sound (h : Fin 2) (s : Host) (b : Option Kind) : Prop where
  idle : s.networkOut.sendBusy = false
  waits : s.sendInts + s.messageSent = if s.pc = .sent ∨ s.pc = .acknowledged then 1 else 0
  replyTo : s.pc ≠ .send → s.outMailHdr.from_ = 1
  greeted : s.pc.hasRead .hello = 1 → s.inPktHdr.from_ = hostName (far h) ∧ s.inMailHdr.from_ = 1
  printed : s.printed = transcript h s.pc
  empty : b = none → s.networkIn.inHdr.length = 0 ∧ s.messageAvailable = 0
  full : ∀ k, b = some k → s.messageAvailable = 1 ∧ ∃ d, Says (h, k) d ∧ Buffered (hostName (far h)) (target h) k.header d s.networkIn
  boxes : ∀ k : Kind, ∀ mail ∈ s.boxes k.box, Holds (hostName (far h)) (target h) k.header (literal k.text) mail

variable {h : Fin 2} {s s' : Host} {b : Option Kind}

theorem Sound.start (junk : Host) : Sound h (Host.new junk) none where
  idle := rfl
  waits := rfl
  replyTo hpc := absurd rfl hpc
  greeted hread := absurd hread (show ¬Pc.send.hasRead .hello = 1 by decide)
  printed := rfl
  empty _ := ⟨rfl, rfl⟩
  full _ hb := nomatch hb
  boxes _ _ hmail := absurd hmail List.not_mem_nil

/-! ## What a statement does -/

/-- How much a machine can still do by itself: a statement may send a packet, which counts 2 on the wire and causes an interrupt. -/
def Host.work (s : Host) : Nat := 4 * (6 - s.pc.rank) + s.sendInts + s.messageAvailable

/-- A statement has been executed: it has sent a message, returned from `Send`, or read a message. -/
inductive Did (h : Fin 2) (s : Host) (b : Option Kind) (lost : Bool) : Host → Option Datagram → Prop where
  | sends {k : Kind} {d : Datagram} {s' : Host} : s.pc.sends = some k → Says (far h, k) d → Sound h s' b → s'.work + 3 = s.work →
      s'.boxes = s.boxes → (∀ k', s'.pc.hasRead k' = s.pc.hasRead k') →
      (∀ k', s'.pc.hasSent k' = s.pc.hasSent k' + if k' = k then 1 else 0) → Did h s b lost s' (if lost then none else some d)
  | returns {s' : Host} : s.pc.sends = none → Sound h s' b → s'.work + 4 = s.work → s'.boxes = s.boxes →
      (∀ k', s'.pc.hasRead k' = s.pc.hasRead k') → (∀ k', s'.pc.hasSent k' = s.pc.hasSent k') → Did h s b lost s' none
  | reads {k : Kind} {s' : Host} : s.pc.sends = none → Sound h s' b → s'.work + 4 = s.work →
      (∀ k', (s.boxes k'.box).length = (s'.boxes k'.box).length + if k' = k then 1 else 0) →
      (∀ k', s'.pc.hasRead k' = s.pc.hasRead k' + if k' = k then 1 else 0) → (∀ k', s'.pc.hasSent k' = s.pc.hasSent k') →
      Did h s b lost s' none

/-- The thread sleeps, or is done. -/
inductive Sleeps (s : Host) : Prop where
  | interrupt : s.pc = .sent ∨ s.pc = .acknowledged → s.messageSent = 0 → Sleeps s
  | hello : s.pc = .receive → s.boxes Kind.hello.box = [] → Sleeps s
  | ack : s.pc = .receiveAck → s.boxes Kind.ack.box = [] → Sleeps s
  | done : s.pc = .done → Sleeps s

theorem says_congr {k : Kind} {d : Datagram} {pktHdr : PacketHeader} (hto : pktHdr.to_ = hostName (far h))
    (hw : OnWire (hostName h) pktHdr k.header (literal k.text) d) : Says (far h, k) d := by
  refine ⟨?_, ?_, hw.mail, hw.bytes⟩
  · rw [hw.toName, hto]
    rfl
  · rw [hw.packet]
    unfold sentHdr
    rw [hto, far_far]
    rfl

/-- `Send` accepts every message of the test. -/
theorem post_of (hidle : s.networkOut.sendBusy = false) (next : Pc) (lost : Bool) (junk wireJunk : Buf) {pktHdr : PacketHeader}
    (hto : pktHdr.to_ = hostName (far h)) (k : Kind) :
    ∃ d, Says (far h, k) d ∧ s.post (hostName h) next lost junk wireJunk pktHdr k.header k.text =
      .ok ({ s with pc := next, outPktHdr := pktHdr, outMailHdr := k.header, sendInts := s.sendInts + 1 },
        if lost then none else some d) := by
  have hints : Ints (hostName h) pktHdr k.header :=
    ⟨hostName_inRange h, hto ▸ hostName_inRange (far h), k.box_inRange, (by decide : InRange 1)⟩
  have haccepted : Accepted s.networkOut k.header (literal k.text) := ⟨hidle, k.header_length, k.box_legal.1, Nat.le_refl _⟩
  obtain ⟨d, hwire, hsend⟩ := send_of hints haccepted lost junk wireJunk
  refine ⟨d, says_congr hto hwire, ?_⟩
  unfold Host.post
  rw [hsend]
  rfl

/-- A message that is in its box is read and printed. -/
theorem collect_of (hs : Sound h s b) (next : Pc) (k : Kind) {mail : Wire.Mail} {messages : List Wire.Mail}
    (hfirst : s.boxes k.box = mail :: messages) :
    ∃ buffer, s.collect next k.box = .ok (some { s with
      pc := next, inPktHdr := sentHdr (hostName (far h)) (target h) k.header, inMailHdr := k.header, buffer
      boxes := Function.update s.boxes k.box messages, printed := s.printed ++ line k.text (hostName (far h)) 1 }) := by
  have hmail := hs.boxes k mail (hfirst ▸ List.mem_cons_self)
  obtain ⟨buffer, hreceive, hbytes, -⟩ := receive_mail hmail k.header_length k.box_legal hfirst s.buffer k.header_length
  have htext : cString buffer = .ok k.text := cString_of k.zero_notMem_text k.header_length hbytes
  refine ⟨buffer, ?_⟩
  unfold Host.collect
  change (Wire.receive kernelBoxes s.boxes k.header.to_ s.buffer >>= _) = _
  rw [hreceive]
  change (cString buffer >>= _) = _
  rw [htext]
  rfl

theorem collect_empty (next : Pc) (k : Kind) (hempty : s.boxes k.box = []) : s.collect next k.box = .ok none := by
  unfold Host.collect Wire.receive Wire.get
  rw [assert_of k.box_legal, ok_bind, hempty]
  rfl

theorem transcript_congr {p p' : Pc} (hread : ∀ k, p.hasRead k = p'.hasRead k) : transcript h p = transcript h p' := by
  unfold transcript
  rw [hread, hread]

/-- A statement that sends a message, and the one after it. -/
inductive Sends : Pc → Pc → Kind → Prop where
  | hello : Sends .send .sent .hello
  | ack : Sends .acknowledge .acknowledged .ack

/-- A return from `Send`, and the statement after it. -/
inductive Returns : Pc → Pc → Prop where
  | hello : Returns .sent .receive
  | ack : Returns .acknowledged .receiveAck

/-- A statement that reads a message, and the one after it. -/
inductive Reads : Pc → Pc → Kind → Prop where
  | hello : Reads .receive .acknowledge .hello
  | ack : Reads .receiveAck .done .ack

/-- The thread waits for the interrupt of the network output. -/
abbrev Pc.waits (p : Pc) : Prop := p = .sent ∨ p = .acknowledged

variable {p next : Pc} {k : Kind}

theorem Sends.waits (hp : Sends p next k) : ¬p.waits ∧ next.waits := by cases hp <;> decide

theorem Sends.spec (hp : Sends p next k) : p.sends = some k ∧ (next.rank = p.rank + 1 ∧ next.rank ≤ 6) ∧
    (∀ k', next.hasRead k' = p.hasRead k') ∧ ∀ k', next.hasSent k' = p.hasSent k' + if k' = k then 1 else 0 := by
  cases hp <;> refine ⟨rfl, by decide, ?_, ?_⟩ <;> intro k' <;> cases k' <;> rfl

theorem Returns.waits (hp : Returns p next) : p.waits ∧ ¬next.waits := by cases hp <;> decide

theorem Returns.spec (hp : Returns p next) : (p.sends = none ∧ p ≠ .send) ∧ (next.rank = p.rank + 1 ∧ next.rank ≤ 6) ∧
    (∀ k', next.hasRead k' = p.hasRead k') ∧ ∀ k', next.hasSent k' = p.hasSent k' := by
  cases hp <;> refine ⟨by decide, by decide, ?_, ?_⟩ <;> intro k' <;> cases k' <;> rfl

theorem Reads.waits (hp : Reads p next k) : ¬p.waits ∧ ¬next.waits := by cases hp <;> decide

theorem Reads.spec (hp : Reads p next k) : (p.sends = none ∧ p ≠ .send) ∧ (next.rank = p.rank + 1 ∧ next.rank ≤ 6) ∧
    (∀ k', next.hasRead k' = p.hasRead k' + if k' = k then 1 else 0) ∧ ∀ k', next.hasSent k' = p.hasSent k' := by
  cases hp <;> refine ⟨by decide, by decide, ?_, ?_⟩ <;> intro k' <;> cases k' <;> rfl

theorem Reads.transcript (hp : Reads p next k) :
    NetworkTest.transcript h p ++ line k.text (hostName (far h)) 1 = NetworkTest.transcript h next := by
  cases hp <;> simp [NetworkTest.transcript, Pc.hasRead, Pc.rank, Kind.text]

theorem did_post (hs : Sound h s b) {lost : Bool} {pktHdr : PacketHeader} {d : Datagram} (hpc : Sends s.pc next k)
    (hd : Says (far h, k) d) :
    Did h s b lost { s with pc := next, outPktHdr := pktHdr, outMailHdr := k.header, sendInts := s.sendInts + 1 }
      (if lost then none else some d) := by
  obtain ⟨hsends, hrank, hread, hsent⟩ := hpc.spec
  obtain ⟨hbefore, hafter⟩ := hpc.waits
  have hwaits := hs.waits
  rw [if_neg hbefore] at hwaits
  refine .sends hsends hd
    ⟨hs.idle, ?_, fun _ => rfl, fun hr => hs.greeted ((hread _).symm.trans hr), hs.printed.trans (transcript_congr hread).symm, hs.empty,
      hs.full, hs.boxes⟩ ?_ rfl hread hsent
  · rw [if_pos hafter]
    dsimp only
    omega
  · simp only [Host.work]
    omega

theorem did_wait (hs : Sound h s b) {lost : Bool} (hpc : Returns s.pc next) (hne : s.messageSent ≠ 0) :
    Did h s b lost { s with pc := next, messageSent := s.messageSent - 1 } none := by
  obtain ⟨⟨hsends, hreply⟩, hrank, hread, hsent⟩ := hpc.spec
  obtain ⟨hbefore, hafter⟩ := hpc.waits
  have hwaits := hs.waits
  rw [if_pos hbefore] at hwaits
  refine .returns hsends
    ⟨hs.idle, ?_, fun _ => hs.replyTo hreply, fun hr => hs.greeted ((hread _).symm.trans hr),
      hs.printed.trans (transcript_congr hread).symm, hs.empty, hs.full, hs.boxes⟩ ?_ rfl hread hsent
  · rw [if_neg hafter]
    dsimp only
    omega
  · simp only [Host.work]
    omega

theorem did_collect (hs : Sound h s b) {lost : Bool} {buffer : Block maxMailSize} {mail : Wire.Mail} {messages : List Wire.Mail}
    (hpc : Reads s.pc next k) (hfirst : s.boxes k.box = mail :: messages) :
    Did h s b lost { s with
      pc := next, inPktHdr := sentHdr (hostName (far h)) (target h) k.header, inMailHdr := k.header, buffer
      boxes := Function.update s.boxes k.box messages, printed := s.printed ++ line k.text (hostName (far h)) 1 } none := by
  obtain ⟨⟨hsends, hreply⟩, hrank, hread, hsent⟩ := hpc.spec
  obtain ⟨hbefore, hafter⟩ := hpc.waits
  have hwaits := hs.waits
  rw [if_neg hbefore] at hwaits
  refine .reads (k := k) hsends ⟨hs.idle, ?_, fun _ => hs.replyTo hreply, fun _ => ⟨rfl, rfl⟩, ?_, hs.empty, hs.full, ?_⟩ ?_ ?_ hread hsent
  · rw [if_neg hafter]
    exact hwaits
  · dsimp only
    rw [hs.printed]
    exact hpc.transcript
  · intro k' mail' hmail'
    dsimp only at hmail'
    rw [update_box] at hmail'
    split at hmail'
    · rename_i hk
      subst hk
      exact hs.boxes k' mail' (hfirst ▸ List.mem_cons_of_mem _ hmail')
    · exact hs.boxes k' mail' hmail'
  · simp only [Host.work]
    omega
  · intro k'
    dsimp only
    rw [update_box]
    split
    · rename_i hk
      rw [hk, hfirst]
      rfl
    · rfl

/-- A statement ends without a fault: the thread sleeps, or it has been executed. -/
def Runs (h : Fin 2) (s : Host) (b : Option Kind) (lost : Bool) (x : Except Fault (Option (Host × Option Datagram))) : Prop :=
  ∃ r, x = .ok r ∧ (r = none → Sleeps s) ∧ ∀ s' sent, r = some (s', sent) → Did h s b lost s' sent

theorem runs_some {lost : Bool} {x : Except Fault (Option (Host × Option Datagram))} {sent : Option Datagram}
    (hx : x = .ok (some (s', sent))) (hdid : Did h s b lost s' sent) : Runs h s b lost x := by
  refine ⟨_, hx, fun hr => (nomatch hr), ?_⟩
  intro s'' sent' hr
  cases hr
  exact hdid

theorem runs_none {lost : Bool} {x : Except Fault (Option (Host × Option Datagram))} (hx : x = .ok none) (hsleeps : Sleeps s) :
    Runs h s b lost x :=
  ⟨none, hx, fun _ => hsleeps, fun _ _ hr => nomatch hr⟩

theorem runs_wait (hs : Sound h s b) {lost : Bool} (hpc : Returns s.pc next) :
    Runs h s b lost (.ok ((s.wait next).map fun s => (s, none))) := by
  unfold Host.wait
  by_cases hsent : s.messageSent = 0
  · rw [if_pos hsent]
    exact runs_none rfl (.interrupt hpc.waits.1 hsent)
  · rw [if_neg hsent]
    exact runs_some rfl (did_wait hs hpc hsent)

theorem runs_collect (hs : Sound h s b) {lost : Bool} (hpc : Reads s.pc next k) :
    Runs h s b lost (s.collect next k.box >>= fun r => .ok (r.map fun s => (s, none))) := by
  rcases hbox : s.boxes k.box with _ | ⟨mail, messages⟩
  · rw [collect_empty next k hbox]
    refine runs_none rfl ?_
    generalize hp : s.pc = p at hpc
    cases hpc with
    | hello => exact .hello hp hbox
    | ack => exact .ack hp hbox
  · obtain ⟨buffer, hcollect⟩ := collect_of hs next k hbox
    rw [hcollect]
    exact runs_some rfl (did_collect hs hpc hbox)

theorem runs_post (hs : Sound h s b) {lost : Bool} {junk wireJunk : Buf} {pktHdr : PacketHeader} {mailHdr : MailHeader}
    (hpc : Sends s.pc next k) (hto : pktHdr.to_ = hostName (far h)) (hmail : mailHdr = k.header) :
    Runs h s b lost (s.post (hostName h) next lost junk wireJunk pktHdr mailHdr k.text >>= fun r => .ok (some r)) := by
  obtain ⟨d, hd, hpost⟩ := post_of hs.idle next lost junk wireJunk hto k
  rw [hmail, hpost]
  exact runs_some rfl (did_post hs hpc hd)

/-- No statement of the test fails. -/
theorem main_of (hs : Sound h s b) (lost : Bool) (junk wireJunk : Buf) : Runs h s b lost (s.main (hostName h) lost junk wireJunk) := by
  unfold Host.main
  cases hpc : s.pc with
  | send => exact runs_post hs (k := .hello) (hpc ▸ .hello) (farHost_hostName h) rfl
  | sent => exact runs_wait hs (hpc ▸ .hello)
  | receive => exact runs_collect hs (k := .hello) (hpc ▸ .hello)
  | acknowledge =>
    obtain ⟨hfrom, hbox⟩ := hs.greeted (by rw [hpc]; rfl)
    have hreply := hs.replyTo (by rw [hpc]; decide)
    refine runs_post hs (k := .ack) (hpc ▸ .ack) hfrom ?_
    dsimp only
    rw [hbox, hreply]
    rfl
  | acknowledged => exact runs_wait hs (hpc ▸ .ack)
  | receiveAck => exact runs_collect hs (k := .ack) (hpc ▸ .ack)
  | done => exact runs_none rfl (.done hpc)

/-! ## What interrupts and the postal worker do -/

/-- The interrupt lets the thread return from `Send`. -/
theorem sendInt_of (hs : Sound h s b) (hint : s.sendInt = some s') :
    Sound h s' b ∧ s'.pc = s.pc ∧ s'.boxes = s.boxes ∧ s'.work + 1 = s.work := by
  unfold Host.sendInt at hint
  split at hint
  · cases hint
  · rename_i hne
    cases hint
    refine ⟨⟨rfl, ?_, hs.replyTo, hs.greeted, hs.printed, hs.empty, hs.full, hs.boxes⟩, rfl, rfl, ?_⟩
    · have hwaits := hs.waits
      dsimp only
      omega
    · simp only [Host.work]
      omega

/-- A packet on the socket is read into a network input that is empty. -/
theorem poll_of (hs : Sound h s none) {k : Kind} {d : Datagram} (hd : Says (h, k) d) (junk : Buf) :
    ∃ s', s.poll (hostName h) junk d = .ok s' ∧ Sound h s' (some k) ∧ s'.pc = s.pc ∧ s'.boxes = s.boxes ∧ s'.work = s.work + 1 := by
  obtain ⟨hempty, havailable⟩ := hs.empty rfl
  obtain ⟨n, hcallBack, hbuffered⟩ := callBack_of hd k.header_length hempty junk
  refine ⟨{ s with networkIn := n, messageAvailable := s.messageAvailable + 1 }, ?_,
    ⟨hs.idle, hs.waits, hs.replyTo, hs.greeted, hs.printed, fun hb => (nomatch hb), ?_, hs.boxes⟩, rfl, rfl, ?_⟩
  · unfold Host.poll
    change (s.networkIn.callBack (target h).to_ junk (some d.buffer) >>= _) = _
    rw [hcallBack]
    rfl
  · intro k' hk'
    cases hk'
    refine ⟨?_, d, hd, hbuffered⟩
    dsimp only
    omega
  · simp only [Host.work]
    omega

/-- The postal worker sleeps, or puts the message that has come in into its box. -/
theorem deliver_of (hs : Sound h s b) (junk : Buf) :
    ∃ r, s.deliver junk = .ok r ∧ (r = none → b = none) ∧ ∀ s', r = some s' → ∃ k, b = some k ∧ Sound h s' none ∧ s'.pc = s.pc ∧
      s'.work + 1 = s.work ∧ ∀ k', (s'.boxes k'.box).length = (s.boxes k'.box).length + if k' = k then 1 else 0 := by
  unfold Host.deliver
  cases b with
  | none =>
    rw [if_pos (hs.empty rfl).2]
    exact ⟨none, rfl, fun _ => rfl, fun _ hr => nomatch hr⟩
  | some k =>
    obtain ⟨havailable, d, hd, hbuffered⟩ := hs.full k rfl
    have hwire : OnWire (hostName (far h)) (target h) k.header (literal k.text) d := hd
    have hdelivery := postalDelivery_of hwire hbuffered k.header_length kernelBoxes s.boxes s.packet junk
    rw [if_pos (show 0 ≤ k.header.to_ ∧ k.header.to_ < kernelBoxes from k.box_legal)] at hdelivery
    obtain ⟨mail, n, packet, hholds, hempty, hdelivery⟩ := hdelivery
    rw [if_neg (by omega), hdelivery]
    refine ⟨_, rfl, fun hr => (nomatch hr), ?_⟩
    intro s' hr
    cases hr
    refine ⟨k, rfl, ⟨hs.idle, hs.waits, hs.replyTo, hs.greeted, hs.printed, fun _ => ⟨hempty, ?_⟩, fun _ hb => (nomatch hb), ?_⟩, rfl,
      ?_, ?_⟩
    · dsimp only
      omega
    · intro k' mail' hmail'
      have hmem : mail' ∈ Function.update s.boxes k.box (s.boxes k.box ++ [mail]) k'.box := hmail'
      rw [update_box] at hmem
      split at hmem
      · rename_i hk
        subst hk
        rcases List.mem_append.1 hmem with hmem | hmem
        · exact hs.boxes k' mail' hmem
        · exact (List.mem_singleton.1 hmem) ▸ hholds
      · exact hs.boxes k' mail' hmem
    · simp only [Host.work]
      omega
    · intro k'
      change (Function.update s.boxes k.box (s.boxes k.box ++ [mail]) k'.box).length = _
      rw [update_box]
      split
      · rename_i hk
        rw [hk, List.length_append]
        rfl
      · rfl

end NetworkTest

end Nachos
