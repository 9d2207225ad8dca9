import Nachos.Network.Wire
import Nachos.Network.Delivery

/-!
# Mail arrives as it was sent

Both headers and the data stand one behind the other on the wire (`OnWire`). Each station takes its header off and copies the rest, whose
length it has from the header; no copy leaves an array, since the mail fits into the smallest.
-/

namespace Nachos

namespace Wire

open Loop Bytes PostOffice

variable {hostName : Int} {pktHdr : PacketHeader} {mailHdr : MailHeader} {size : Nat} {data : Block size} {d : Datagram}

/-! ## Headers -/

/-- What is read where three words were stored. -/
theorem header_words {a b : Int} {c : Nat} (ha : InRange a) (hb : InRange b) (hc : c < 4294967296) :
    intAt (words [a, b, c]) 0 = a ∧ intAt (words [a, b, c]) 4 = b ∧ (leWord (words [a, b, c]) 8).toNat = c := by
  refine ⟨intAt_words [a, b, c] 0 ha, intAt_words [a, b, c] 1 hb, ?_⟩
  have hword : leWord (words [a, b, c]) 8 = c := leWord_words [a, b, c] 2 (Int.natCast_nonneg c) (by
    show (c : Int) < 4294967296
    omega)
  rw [hword]
  exact Int.toNat_natCast c

/-- A `PacketHeader` is its first twelve bytes. -/
theorem packetHeader_congr {b b' : Buf} (h : ∀ j < packetHeaderSize, b j = b' j) : PacketHeader.ofBuf b = PacketHeader.ofBuf b' := by
  have hint (o : Nat) (ho : o + 4 ≤ packetHeaderSize) : intAt b o = intAt b' o := intAt_congr fun k hk => h _ (by omega)
  have hword : leWord b 8 = leWord b' 8 := leWord_congr fun k hk => h _ (by show 8 + k < 12; omega)
  unfold PacketHeader.ofBuf
  rw [hint 0 (by decide), hint 4 (by decide), hword]

theorem packetHeader_words (hto : InRange pktHdr.to_) (hfrom : InRange pktHdr.from_) (hlength : pktHdr.length < 4294967296) :
    PacketHeader.ofBuf (packetHeaderBytes pktHdr).bytes = pktHdr := by
  obtain ⟨h0, h4, h8⟩ := header_words hto hfrom hlength
  unfold PacketHeader.ofBuf packetHeaderBytes
  dsimp only
  rw [h0, h4, h8]

theorem mailHeader_words (hto : InRange mailHdr.to_) (hfrom : InRange mailHdr.from_) (hlength : mailHdr.length < 4294967296) :
    MailHeader.ofBuf (mailHeaderBytes mailHdr).bytes = mailHdr := by
  obtain ⟨h0, h4, h8⟩ := header_words hto hfrom hlength
  unfold MailHeader.ofBuf mailHeaderBytes
  dsimp only
  rw [h0, h4, h8]

/-- The name of a socket has room in a `char[32]`. -/
theorem length_socketName {to_ : Int} (h : InRange to_) : (socketName to_).length + 1 ≤ 32 := by
  have hdigits : (Decimal.digits to_.natAbs).length ≤ 10 := by
    refine Decimal.length_digits_le (by decide) ?_
    unfold InRange at h
    omega
  have hsign : (if to_ < 0 then [45] else [] : List UInt8).length ≤ 1 := by split <;> decide
  have hprefix : ("SOCKET_".toList.map fun c => UInt8.ofNat c.toNat).length = 7 := by rw [List.length_map]; rfl
  unfold socketName
  rw [List.length_append, List.length_append, hprefix]
  omega

/-! ## Sending -/

/-- The `PacketHeader` that goes out with a mail. -/
def sentHdr (hostName : Int) (pktHdr : PacketHeader) (mailHdr : MailHeader) : PacketHeader :=
  { to_ := pktHdr.to_, from_ := hostName, length := mailHdr.length + mailHeaderSize }

/-- The two headers and the data of a mail on the wire. -/
structure OnWire (hostName : Int) (pktHdr : PacketHeader) (mailHdr : MailHeader) (data : Block size) (d : Datagram) : Prop where
  toName : d.toName = socketName pktHdr.to_
  packet : PacketHeader.ofBuf d.buffer.bytes = sentHdr hostName pktHdr mailHdr
  mail : MailHeader.ofBuf (payload d.buffer.bytes) = mailHdr
  bytes : ∀ j < mailHdr.length, payload d.buffer.bytes (mailHeaderSize + j) = data.bytes j

/-- The integers of the headers and of the machine, as the types of the source have them. -/
structure Ints (hostName : Int) (pktHdr : PacketHeader) (mailHdr : MailHeader) : Prop where
  host : InRange hostName
  to_ : InRange pktHdr.to_
  mailTo : InRange mailHdr.to_
  mailFrom : InRange mailHdr.from_

/-- What `Send` checks, and what a reader of the data needs. -/
structure Accepted (network : NetworkOutput) (mailHdr : MailHeader) (data : Block size) : Prop where
  idle : network.sendBusy = false
  length : mailHdr.length ≤ maxMailSize
  to_ : 0 ≤ mailHdr.to_
  data : mailHdr.length ≤ size

/-- A mail that is accepted goes out, if it is not lost, as its headers and its data. -/
theorem send_of {network : NetworkOutput} (hints : Ints hostName pktHdr mailHdr) (h : Accepted network mailHdr data) (lost : Bool)
    (junk wireJunk : Buf) : ∃ d, OnWire hostName pktHdr mailHdr data d ∧
      send hostName network lost junk wireJunk pktHdr mailHdr data = .ok (network, if lost then none else some d) := by
  have hmail : mailHdr.length ≤ 40 := h.length
  -- the concatenation in `Send` of the post office, then the one in `Send` of the network
  obtain ⟨hinnerHdr, hinner⟩ := copy_copy (mailHeaderBytes mailHdr).bytes data.bytes junk 12 mailHdr.length
  generalize hpost : copy data.bytes 0 (copy (mailHeaderBytes mailHdr).bytes 0 junk 0 12) 12 mailHdr.length = post at hinnerHdr hinner
  obtain ⟨houterHdr, houter⟩ :=
    copy_copy (packetHeaderBytes (sentHdr hostName pktHdr mailHdr)).bytes post wireJunk 12 (mailHdr.length + 12)
  generalize hwire : copy post 0 (copy (packetHeaderBytes (sentHdr hostName pktHdr mailHdr)).bytes 0 wireJunk 0 12) 12
    (mailHdr.length + 12) = wire at houterHdr houter
  refine ⟨⟨socketName pktHdr.to_, ⟨wire⟩⟩, ⟨rfl, ?_, ?_, ?_⟩, ?_⟩
  · rw [packetHeader_congr houterHdr]
    refine packetHeader_words hints.to_ hints.host ?_
    show mailHdr.length + 12 < 4294967296
    omega
  · have hpayload : ∀ j < mailHeaderSize, payload wire j = (mailHeaderBytes mailHdr).bytes j := by
      intro j hj
      have hj' : j < 12 := hj
      exact (houter j (by omega)).trans (hinnerHdr j hj')
    rw [MailHeader.ofBuf_congr hpayload]
    exact mailHeader_words hints.mailTo hints.mailFrom (by omega)
  · intro j hj
    have houter' := houter (12 + j) (by omega)
    exact houter'.trans (hinner j hj)
  · unfold send
    dsimp only
    rw [assert_of h.length, ok_bind, assert_of h.to_, ok_bind]
    rw [bcopy_of (by decide) (by decide), ok_bind, bcopy_of (by have hdata := h.data; omega) (by
      show 12 + mailHdr.length ≤ 52
      omega), ok_bind]
    unfold NetworkOutput.send sprintfSocketName
    rw [if_pos (length_socketName hints.to_), ok_bind, assert_of ⟨h.idle, Nat.succ_pos _, (by
      show mailHdr.length + 12 ≤ 52
      omega), rfl⟩, ok_bind]
    cases lost with
    | true => rfl
    | false =>
      rw [if_neg (by decide)]
      dsimp only
      rw [bcopy_of (by decide) (by decide), ok_bind, bcopy_of (by
        show 0 + (mailHdr.length + 12) ≤ 52
        omega) (by
        show 12 + (mailHdr.length + 12) ≤ 64
        omega), ok_bind]
      subst hpost hwire
      rfl

/-- What holds of a mail when `Send` has gone through. -/
theorem of_send {network n' : NetworkOutput} {lost : Bool} {junk wireJunk : Buf} {sent : Option Datagram}
    (h : send hostName network lost junk wireJunk pktHdr mailHdr data = .ok (n', sent)) : Accepted network mailHdr data := by
  unfold send at h
  obtain ⟨hlength, h⟩ := of_assert_bind h
  obtain ⟨hto, h⟩ := of_assert_bind h
  obtain ⟨b, -, h⟩ := of_bind_ok h
  obtain ⟨b', hb', h⟩ := of_bind_ok h
  obtain ⟨hdata, -, -⟩ := of_bcopy hb'
  unfold NetworkOutput.send at h
  obtain ⟨toName, -, h⟩ := of_bind_ok h
  obtain ⟨hchecks, -⟩ := of_assert_bind h
  exact ⟨hchecks.1, hlength, hto, by omega⟩

/-! ## Receiving -/

/-- The device has a packet that went out, as far as it is long. -/
structure Buffered (hostName : Int) (pktHdr : PacketHeader) (mailHdr : MailHeader) (d : Datagram) (n : NetworkInput) : Prop where
  inHdr : n.inHdr = sentHdr hostName pktHdr mailHdr
  inbox : ∀ j < mailHdr.length + mailHeaderSize, n.inbox.bytes j = payload d.buffer.bytes j

/-- The machine that a packet names buffers it. -/
theorem callBack_of (h : OnWire hostName pktHdr mailHdr data d) (hlength : mailHdr.length ≤ maxMailSize) {n : NetworkInput}
    (hempty : n.inHdr.length = 0) (junk : Buf) :
    ∃ n', n.callBack pktHdr.to_ junk (some d.buffer) = .ok (n', true) ∧ Buffered hostName pktHdr mailHdr d n' := by
  have hmail : mailHdr.length ≤ 40 := hlength
  have hread : ∀ j < 64, copy d.buffer.bytes 0 junk 0 64 j = d.buffer.bytes j := by
    intro j hj
    rw [copy_start _ _ _ _ hj, Nat.zero_add]
  have hhdr : PacketHeader.ofBuf (copy d.buffer.bytes 0 junk 0 64) = sentHdr hostName pktHdr mailHdr := by
    rw [← h.packet]
    exact packetHeader_congr fun j hj => hread j (Nat.lt_trans hj (by decide))
  have hfits : (sentHdr hostName pktHdr mailHdr).length ≤ maxPacketSize := by
    show mailHdr.length + 12 ≤ 52
    omega
  unfold NetworkInput.callBack
  rw [if_neg (not_not.2 hempty)]
  dsimp only
  rw [bcopy_of (by decide) (by decide), ok_bind]
  dsimp only
  rw [hhdr, assert_of ⟨rfl, hfits⟩, ok_bind, bcopy_of (by
    show 12 + (mailHdr.length + 12) ≤ 64
    omega) (by
    show 0 + (mailHdr.length + 12) ≤ 52
    omega), ok_bind]
  refine ⟨_, rfl, rfl, ?_⟩
  intro j hj
  have hj' : j < mailHdr.length + 12 := hj
  exact (copy_start (copy d.buffer.bytes 0 junk 0 64) n.inbox.bytes 12 _ hj).trans (hread _ (by omega))

/-- A mail object holds what was sent. -/
structure Holds (hostName : Int) (pktHdr : PacketHeader) (mailHdr : MailHeader) (data : Block size) (mail : Mail) : Prop where
  packet : mail.pktHdr = sentHdr hostName pktHdr mailHdr
  header : mail.mailHdr = mailHdr
  bytes : ∀ j < mailHdr.length, mail.data.bytes j = data.bytes j

/-- `NetworkInput::Receive` hands out the packet that is buffered, and empties the device: its length is never zero. -/
theorem receive_of {n : NetworkInput} (h : Buffered hostName pktHdr mailHdr d n) (hlength : mailHdr.length ≤ maxMailSize)
    (buffer : Block maxPacketSize) :
    ∃ buffer' n', n.receive buffer = .ok (sentHdr hostName pktHdr mailHdr, buffer', n') ∧ n'.inHdr.length = 0 ∧
      ∀ j < mailHdr.length + mailHeaderSize, buffer'.bytes j = payload d.buffer.bytes j := by
  have hmail : mailHdr.length ≤ 40 := hlength
  unfold NetworkInput.receive
  dsimp only
  rw [h.inHdr, if_pos (show (sentHdr hostName pktHdr mailHdr).length ≠ 0 from Nat.succ_ne_zero _), bcopy_of (by
    show 0 + (mailHdr.length + 12) ≤ 52
    omega) (by
    show 0 + (mailHdr.length + 12) ≤ 52
    omega), ok_bind]
  refine ⟨_, _, rfl, rfl, ?_⟩
  intro j hj
  have hcopy := copy_start n.inbox.bytes buffer.bytes 0 (mailHdr.length + 12) hj
  rw [Nat.zero_add] at hcopy
  exact hcopy.trans (h.inbox j hj)

/-- The postal worker puts a packet that is buffered into the box that the mail names, if there is that box. -/
theorem postalDelivery_of (hw : OnWire hostName pktHdr mailHdr data d) {n : NetworkInput} (h : Buffered hostName pktHdr mailHdr d n)
    (hlength : mailHdr.length ≤ maxMailSize) (numBoxes : Int) (boxes : Boxes) (buffer : Block maxPacketSize) (junk : Buf) :
    if 0 ≤ mailHdr.to_ ∧ mailHdr.to_ < numBoxes then
      ∃ mail n' buffer', Holds hostName pktHdr mailHdr data mail ∧ n'.inHdr.length = 0 ∧
        postalDelivery numBoxes boxes n buffer junk =
          .ok (Function.update boxes mailHdr.to_ (boxes mailHdr.to_ ++ [mail]), n', buffer')
    else postalDelivery numBoxes boxes n buffer junk = .error .assertFailed := by
  obtain ⟨buffer', n', hreceive, hempty, hbytes⟩ := receive_of h hlength buffer
  have hhdr : MailHeader.ofBuf buffer'.bytes = mailHdr := by
    refine (MailHeader.ofBuf_congr fun j hj => hbytes j ?_).trans hw.mail
    exact Nat.lt_of_lt_of_le hj (Nat.le_add_left _ _)
  unfold postalDelivery
  rw [hreceive, ok_bind]
  dsimp only
  rw [hhdr]
  split
  · rename_i hbox
    rw [assert_of hbox, ok_bind, assert_of hlength, ok_bind]
    unfold put Mail.new
    have hmail : mailHdr.length ≤ 40 := hlength
    rw [assert_of (by
      show mailHdr.length ≤ 40
      omega), ok_bind, bcopy_of (by
      show 12 + mailHdr.length ≤ 52
      omega) (by
      show 0 + mailHdr.length ≤ 40
      omega)]
    refine ⟨_, n', buffer', ⟨rfl, rfl, ?_⟩, hempty, rfl⟩
    intro j hj
    rw [← hw.bytes j hj]
    exact (copy_start buffer'.bytes junk 12 _ hj).trans (hbytes _ (by
      show 12 + j < mailHdr.length + 12
      omega))
  · rename_i hbox
    rw [assert_not hbox]
    rfl

/-- Who receives a mail obtains its headers and its data, and nothing else of the buffer changes. -/
theorem receive_mail {mail : Mail} (h : Holds hostName pktHdr mailHdr data mail) (hlength : mailHdr.length ≤ maxMailSize)
    {numBoxes : Int} (hbox : 0 ≤ mailHdr.to_ ∧ mailHdr.to_ < numBoxes) {boxes : Boxes} {messages : List Mail}
    (hfirst : boxes mailHdr.to_ = mail :: messages) {n : Nat} (out : Block n) (hout : mailHdr.length ≤ n) :
    ∃ out' : Block n, receive numBoxes boxes mailHdr.to_ out =
        .ok (some (sentHdr hostName pktHdr mailHdr, mailHdr, out', Function.update boxes mailHdr.to_ messages)) ∧
      (∀ j < mailHdr.length, out'.bytes j = data.bytes j) ∧ ∀ j, mailHdr.length ≤ j → out'.bytes j = out.bytes j := by
  unfold receive get
  rw [assert_of hbox, ok_bind, hfirst]
  dsimp only
  rw [h.header, h.packet, bcopy_of (by rwa [Nat.zero_add]) (by rwa [Nat.zero_add]), ok_bind]
  refine ⟨⟨copy mail.data.bytes 0 out.bytes 0 mailHdr.length⟩, ?_, ?_, ?_⟩
  · change (assert (mailHdr.length ≤ maxMailSize) >>= fun _ => _) = _
    rw [assert_of hlength]
    rfl
  · intro j hj
    have hcopy := copy_start mail.data.bytes out.bytes 0 mailHdr.length hj
    rw [Nat.zero_add] at hcopy
    exact hcopy.trans (h.bytes j hj)
  · intro j hj
    exact copy_outside _ _ _ _ _ (by omega)

/-! ## The post office -/

/-- The device without the size of its array. -/
def NetworkInput.unsized (n : NetworkInput) : PostOffice.NetworkInput := { inHdr := n.inHdr, inbox := n.inbox.bytes }

/-- A poll that goes through is the poll of the post office. -/
theorem callBack_unsized {n n' : NetworkInput} {junk : Buf} {packet : Option (Block maxWireSize)} {avail : Bool}
    (h : n.callBack hostName junk packet = .ok (n', avail)) :
    n.unsized.callBack hostName (packet.map Block.bytes) = .ok (n'.unsized, avail) := by
  unfold NetworkInput.callBack at h
  unfold PostOffice.NetworkInput.callBack
  by_cases hempty : n.inHdr.length ≠ 0
  · rw [if_pos hempty] at h
    cases h
    exact if_pos hempty
  · rw [if_neg hempty] at h
    rw [if_neg (show ¬n.unsized.inHdr.length ≠ 0 from hempty)]
    cases packet with
    | none =>
      cases h
      rfl
    | some packet =>
      dsimp only at h
      rw [bcopy_of (by decide) (by decide), ok_bind] at h
      dsimp only at h
      have hread : ∀ j < 64, copy packet.bytes 0 junk 0 64 j = packet.bytes j := by
        intro j hj
        rw [copy_start _ _ _ _ hj, Nat.zero_add]
      have hhdr : PacketHeader.ofBuf (copy packet.bytes 0 junk 0 64) = PacketHeader.ofBuf packet.bytes :=
        packetHeader_congr fun j hj => hread j (Nat.lt_trans hj (by decide))
      rw [hhdr] at h
      obtain ⟨hchecks, h⟩ := of_assert_bind h
      obtain ⟨inbox, hinbox, h⟩ := of_bind_ok h
      obtain ⟨hsource, -, rfl⟩ := of_bcopy hinbox
      cases h
      dsimp only [Option.map_some]
      rw [assert_of hchecks, ok_bind]
      have hsource' : 12 + (PacketHeader.ofBuf packet.bytes).length ≤ 64 := hsource
      have hinbox : copy packet.bytes 12 n.inbox.bytes 0 (PacketHeader.ofBuf packet.bytes).length =
          copy (copy packet.bytes 0 junk 0 64) 12 n.inbox.bytes 0 (PacketHeader.ofBuf packet.bytes).length :=
        copy_congr (fun j hj => (hread _ (by omega)).symm) _ _
      exact congrArg (fun inbox => Except.ok (PostOffice.NetworkInput.mk (PacketHeader.ofBuf packet.bytes) inbox, true)) hinbox

theorem receive_unsized {n n' : NetworkInput} {k : Nat} {buffer buffer' : Block k} {hdr : PacketHeader}
    (h : n.receive buffer = .ok (hdr, buffer', n')) : n.unsized.receive buffer.bytes = (hdr, buffer'.bytes, n'.unsized) := by
  unfold NetworkInput.receive at h
  unfold PostOffice.NetworkInput.receive
  dsimp only [NetworkInput.unsized] at h ⊢
  by_cases hempty : n.inHdr.length ≠ 0
  · rw [if_pos hempty] at h
    obtain ⟨b, hb, h⟩ := of_bind_ok h
    obtain ⟨-, -, rfl⟩ := of_bcopy hb
    cases h
    simp [hempty]
  · rw [if_neg hempty] at h
    cases h
    simp [not_not.1 hempty]

theorem mail_unsized {junk : Buf} {pktH : PacketHeader} {mailH : MailHeader} {k : Nat} {block : Block k} {off : Nat} {mail : Mail}
    (h : Mail.new junk pktH mailH block off = .ok mail) (address : Nat) : PostOffice.Mail.new address pktH mailH block.bytes off =
      .ok { address, pktHdr := mail.pktHdr, mailHdr := mail.mailHdr, data := slice mail.data.bytes 0 mailH.length } := by
  unfold Mail.new at h
  obtain ⟨hlength, h⟩ := of_assert_bind h
  obtain ⟨b, hb, h⟩ := of_bind_ok h
  obtain ⟨-, -, rfl⟩ := of_bcopy hb
  cases h
  unfold PostOffice.Mail.new
  rw [assert_of hlength, ok_bind]
  refine congrArg (fun data => Except.ok (PostOffice.Mail.mk address pktH mailH data)) ?_
  refine slice_congr ?_
  intro j hj
  exact (copy_inside block.bytes junk off 0 mailH.length hj).symm

/-- What is sent to a box that there is is a legal packet of the post office, whose runs deliver it. -/
theorem legal_of_onWire (h : OnWire hostName pktHdr mailHdr data d) (hlength : mailHdr.length ≤ maxMailSize) {numBoxes : Int}
    (hbox : 0 ≤ mailHdr.to_ ∧ mailHdr.to_ < numBoxes) : Legal pktHdr.to_ numBoxes d.buffer.bytes := by
  have hmail : mailHdr.length ≤ 40 := hlength
  have hpacket : (PacketHeader.ofBuf d.buffer.bytes).length = mailHdr.length + 12 := by
    rw [h.packet]
    rfl
  have hto : (PacketHeader.ofBuf d.buffer.bytes).to_ = pktHdr.to_ := by
    rw [h.packet]
    rfl
  refine ⟨hto, ⟨by omega, ?_⟩, ?_, ?_⟩
  · rw [hpacket]
    show mailHdr.length + 12 ≤ 52
    omega
  · rw [h.mail]
    exact hbox
  · rw [h.mail]
    show mailHdr.length ≤ 40
    omega

/-! ## The whole way -/

/-- Nothing ever sets `sendBusy`. -/
theorem idle_of_reachable {network : NetworkOutput} (h : NetworkOutput.system.Reachable network) : network.sendBusy = false := by
  refine h.invariant (I := fun n => n.sendBusy = false) ?_ ?_
  · rintro _ rfl
    rfl
  · rintro n n' _ hidle (rfl | ⟨hostName, lost, junk, size, hdr, data, sent, hsend⟩)
    · rfl
    · unfold NetworkOutput.send at hsend
      obtain ⟨toName, -, hsend⟩ := of_bind_ok hsend
      obtain ⟨-, hsend⟩ := of_assert_bind hsend
      split at hsend
      · cases hsend
        exact hidle
      · obtain ⟨_, -, hsend⟩ := of_bind_ok hsend
        obtain ⟨_, -, hsend⟩ := of_bind_ok hsend
        cases hsend
        exact hidle

/-- A mail that fits arrives as it was sent: `Send` goes through, `ASSERT`s included, and sends it in `MaxWireSize` bytes; the machine it
names buffers it, the postal worker puts it at the end of its box, and who takes it out of there obtains the headers and the data. No
copy on the way leaves its arrays. -/
theorem mail_round_trip {network : NetworkOutput} (hnetwork : NetworkOutput.system.Reachable network)
    (hints : Ints hostName pktHdr mailHdr) (hlength : mailHdr.length ≤ maxMailSize) (data : Block size) (hdata : mailHdr.length ≤ size)
    {numBoxes : Int} (hbox : 0 ≤ mailHdr.to_ ∧ mailHdr.to_ < numBoxes) {n : NetworkInput} (hempty : n.inHdr.length = 0) (boxes : Boxes)
    (buffer : Block maxPacketSize) (junk₁ junk₂ junk₃ junk₄ : Buf) :
    ∃ d, send hostName network false junk₁ junk₂ pktHdr mailHdr data = .ok (network, some d) ∧ d.toName = socketName pktHdr.to_ ∧
      packetHeaderSize + (PacketHeader.ofBuf d.buffer.bytes).length ≤ maxWireSize ∧
      ∃ n', n.callBack pktHdr.to_ junk₃ (some d.buffer) = .ok (n', true) ∧
        ∃ mail n'' buffer', postalDelivery numBoxes boxes n' buffer junk₄ =
            .ok (Function.update boxes mailHdr.to_ (boxes mailHdr.to_ ++ [mail]), n'', buffer') ∧ n''.inHdr.length = 0 ∧
          ∀ (k : Nat) (out : Block k) (boxes' : Boxes) (messages : List Mail), mailHdr.length ≤ k →
            boxes' mailHdr.to_ = mail :: messages →
            ∃ out' : Block k, receive numBoxes boxes' mailHdr.to_ out = .ok (some
                ({ to_ := pktHdr.to_, from_ := hostName, length := mailHdr.length + mailHeaderSize }, mailHdr, out',
                  Function.update boxes' mailHdr.to_ messages)) ∧
              (∀ j < mailHdr.length, out'.bytes j = data.bytes j) ∧ ∀ j, mailHdr.length ≤ j → out'.bytes j = out.bytes j := by
  have haccepted : Accepted network mailHdr data := ⟨idle_of_reachable hnetwork, hlength, hbox.1, hdata⟩
  obtain ⟨d, hwire, hsend⟩ := send_of hints haccepted false junk₁ junk₂
  obtain ⟨n', hcallBack, hbuffered⟩ := callBack_of hwire hlength hempty junk₃
  have hdelivery := postalDelivery_of hwire hbuffered hlength numBoxes boxes buffer junk₄
  rw [if_pos hbox] at hdelivery
  obtain ⟨mail, n'', buffer', hholds, hempty', hdelivery⟩ := hdelivery
  refine ⟨d, hsend, hwire.toName, ?_, n', hcallBack, mail, n'', buffer', hdelivery, hempty', ?_⟩
  · rw [hwire.packet]
    have hmail : mailHdr.length ≤ 40 := hlength
    show 12 + (mailHdr.length + 12) ≤ 64
    omega
  · intro k out boxes' messages hout hfirst
    exact receive_mail hholds hlength hbox hfirst out hout

/-- The string "Hi!" to box 0 of machine 1. -/
theorem mail_round_trip_hi :
    let data : Block 4 := ⟨fun j => ([72, 105, 33, 0] : List UInt8).getD j 0⟩
    ∃ d, send 0 .new false (fun _ => 7) (fun _ => 9) ⟨1, 0, 0⟩ ⟨0, 1, 4⟩ data = .ok (.new, some d) ∧ d.toName = socketName 1 := by
  intro data
  have hints : Ints 0 ⟨1, 0, 0⟩ ⟨0, 1, 4⟩ := ⟨by decide, by decide, by decide, by decide⟩
  have hbox : (0 : Int) ≤ 0 ∧ (0 : Int) < 10 := by decide
  obtain ⟨d, hsend, hname, -⟩ := mail_round_trip (n := ⟨⟨0, 0, 0⟩, ⟨fun _ => 0⟩⟩) (.init rfl) hints (by decide) data (by decide) hbox rfl
    (fun _ => []) ⟨fun _ => 0⟩ (fun _ => 7) (fun _ => 9) (fun _ => 0) (fun _ => 0)
  exact ⟨d, hsend, hname⟩

/-- No `ASSERT` fails on the machine that a datagram arrives at: not in `CallBack`, not in `PostalDelivery` and not in `Receive`, called for
the box that the mail names when it is the first there. -/
def Passes (numBoxes : Int) (pktHdr : PacketHeader) (mailHdr : MailHeader) (d : Datagram) (n : NetworkInput) (boxes : Boxes)
    (buffer : Block maxPacketSize) (junk junk' : Buf) : Prop :=
  ∃ n', n.callBack pktHdr.to_ junk (some d.buffer) = .ok (n', true) ∧
    ∃ mail n'' buffer', postalDelivery numBoxes boxes n' buffer junk' =
        .ok (Function.update boxes mailHdr.to_ (boxes mailHdr.to_ ++ [mail]), n'', buffer') ∧
      ∀ (out : Block maxMailSize) (boxes' : Boxes) (messages : List Mail), boxes' mailHdr.to_ = mail :: messages →
        ∃ r, receive numBoxes boxes' mailHdr.to_ out = .ok (some r)

/-- A mail that `Send` accepts passes all `ASSERT`s of the machine that it names, with the boxes of `Kernel::Initialize`, if and only if its
box is one of them. -/
theorem accepted_passes_iff {network network' : NetworkOutput} {lost : Bool} {junk₁ junk₂ : Buf} (hints : Ints hostName pktHdr mailHdr)
    (hsend : send hostName network lost junk₁ junk₂ pktHdr mailHdr data = .ok (network', some d)) {n : NetworkInput}
    (hempty : n.inHdr.length = 0) (boxes : Boxes) (buffer : Block maxPacketSize) (junk₃ junk₄ : Buf) :
    Passes kernelBoxes pktHdr mailHdr d n boxes buffer junk₃ junk₄ ↔ mailHdr.to_ < kernelBoxes := by
  have haccepted := of_send hsend
  have hwire : OnWire hostName pktHdr mailHdr data d := by
    obtain ⟨d', hwire, hsend'⟩ := send_of hints haccepted lost junk₁ junk₂
    cases lost with
    | true => cases hsend'.symm.trans hsend
    | false =>
      cases hsend'.symm.trans hsend
      exact hwire
  obtain ⟨n₁, hcallBack, hbuffered⟩ := callBack_of hwire haccepted.length hempty junk₃
  have hdelivery := postalDelivery_of hwire hbuffered haccepted.length kernelBoxes boxes buffer junk₄
  constructor
  · rintro ⟨n', hcallBack', mail, n'', buffer', hdelivery', -⟩
    cases hcallBack.symm.trans hcallBack'
    by_contra hlarge
    rw [if_neg fun hbox => hlarge hbox.2, hdelivery'] at hdelivery
    cases hdelivery
  · intro hsmall
    have hbox : 0 ≤ mailHdr.to_ ∧ mailHdr.to_ < kernelBoxes := ⟨haccepted.to_, hsmall⟩
    rw [if_pos hbox] at hdelivery
    obtain ⟨mail, n'', buffer', hholds, -, hdelivery⟩ := hdelivery
    refine ⟨n₁, hcallBack, mail, n'', buffer', hdelivery, ?_⟩
    intro out boxes' messages hfirst
    obtain ⟨out', hreceive, -⟩ := receive_mail hholds haccepted.length hbox hfirst out haccepted.length
    exact ⟨_, hreceive⟩

/-- An empty mail from box 0 of machine 0 to a box of machine 1 is sent and buffered there. -/
theorem send_empty (box : Int) (h : 0 ≤ box ∧ box ≤ 2147483647) : ∃ d, OnWire 0 ⟨1, 0, 0⟩ ⟨box, 0, 0⟩ (⟨fun _ => 0⟩ : Block 0) d ∧
    send 0 .new false (fun _ => 0) (fun _ => 0) ⟨1, 0, 0⟩ ⟨box, 0, 0⟩ (⟨fun _ => 0⟩ : Block 0) = .ok (.new, some d) := by
  have hbox : InRange box := by
    unfold InRange
    omega
  exact send_of ⟨by decide, by decide, hbox, (by decide : InRange 0)⟩ ⟨rfl, Nat.zero_le _, h.1, Nat.zero_le _⟩ false (fun _ => 0) fun _ => 0

theorem accepted_passes_iff_nine : ∃ d, send 0 .new false (fun _ => 0) (fun _ => 0) ⟨1, 0, 0⟩ ⟨9, 0, 0⟩ (⟨fun _ => 0⟩ : Block 0) =
      .ok (.new, some d) ∧
    Passes kernelBoxes ⟨1, 0, 0⟩ ⟨9, 0, 0⟩ d ⟨⟨0, 0, 0⟩, ⟨fun _ => 0⟩⟩ (fun _ => []) ⟨fun _ => 0⟩ (fun _ => 0) fun _ => 0 := by
  obtain ⟨d, -, hsend⟩ := send_empty 9 (by decide)
  exact ⟨d, hsend, (accepted_passes_iff ⟨by decide, by decide, by decide, by decide⟩ hsend rfl _ _ _ _).2 (by decide)⟩

/-- A mail to box 10 is accepted, and stops the machine that it names. -/
theorem box_ten_aborts : ∃ d n, send 0 .new false (fun _ => 0) (fun _ => 0) ⟨1, 0, 0⟩ ⟨10, 0, 0⟩ (⟨fun _ => 0⟩ : Block 0) =
      .ok (.new, some d) ∧
    (⟨⟨0, 0, 0⟩, ⟨fun _ => 0⟩⟩ : NetworkInput).callBack 1 (fun _ => 0) (some d.buffer) = .ok (n, true) ∧
    postalDelivery kernelBoxes (fun _ => []) n ⟨fun _ => 0⟩ (fun _ => 0) = .error .assertFailed := by
  obtain ⟨d, hwire, hsend⟩ := send_empty 10 (by decide)
  obtain ⟨n, hcallBack, hbuffered⟩ := callBack_of hwire (by decide) (n := ⟨⟨0, 0, 0⟩, ⟨fun _ => 0⟩⟩) rfl fun _ => 0
  have hdelivery := postalDelivery_of hwire hbuffered (by decide) kernelBoxes (fun _ => []) ⟨fun _ => 0⟩ fun _ => 0
  rw [if_neg (by decide)] at hdelivery
  exact ⟨d, n, hsend, hcallBack, hdelivery⟩

end Wire

end Nachos
