import Nachos.Network.PostOffice
import Nachos.Prelude.Blocks
import Nachos.Prelude.Decimal
import Nachos.Prelude.Transition

/-!
# The way of a mail (machine/network.cc, network/post.cc)

One mail from `Send` on one machine to `Receive` on another, with the arrays it passes through as blocks that have a size. What the locks,
semaphores and interrupts between the calls do is left out here, and so is the socket: what is sent is what is read.
-/

namespace Nachos

namespace Wire

open Bytes PostOffice

/-- `bcopy(src + so, dst + o, n)`. -/
def bcopy {m size : Nat} (src : Block m) (so : Nat) (dst : Block size) (o n : Nat) : Except Fault (Block size) :=
  Block.copy .outOfBounds src so dst o n

theorem bcopy_of {m size : Nat} {src : Block m} {so : Nat} {dst : Block size} {o n : Nat} (h : so + n ≤ m) (h' : o + n ≤ size) :
    bcopy src so dst o n = .ok ⟨copy src.bytes so dst.bytes o n⟩ := Block.copy_ok h h'

theorem of_bcopy {m size : Nat} {src : Block m} {so : Nat} {dst b : Block size} {o n : Nat} (h : bcopy src so dst o n = .ok b) :
    so + n ≤ m ∧ o + n ≤ size ∧ b = ⟨copy src.bytes so dst.bytes o n⟩ := Block.of_copy_ok h

/-- The bytes of a `PacketHeader`. -/
def packetHeaderBytes (hdr : PacketHeader) : Block packetHeaderSize := ⟨words [hdr.to_, hdr.from_, hdr.length]⟩

/-- The bytes of a `MailHeader`. -/
def mailHeaderBytes (hdr : MailHeader) : Block mailHeaderSize := ⟨words [hdr.to_, hdr.from_, hdr.length]⟩

/-- `sprintf(name, "SOCKET_%d", hostName)`, without the zero at the end. -/
def socketName (hostName : Int) : List UInt8 :=
  ("SOCKET_".toList.map fun c => UInt8.ofNat c.toNat) ++ (if hostName < 0 then [45] else []) ++ Decimal.digits hostName.natAbs

/-- `sprintf` to a `char name[size]`. -/
def sprintfSocketName (size : Nat) (hostName : Int) : Except Fault (List UInt8) :=
  if (socketName hostName).length + 1 ≤ size then .ok (socketName hostName) else .error .outOfBounds

/-! ## Sending -/

/-- `class NetworkOutput` (machine/network.h). -/
structure NetworkOutput where
  sendBusy : Bool

/-- What `SendToSocket` is called with. -/
structure Datagram where
  toName : List UInt8
  buffer : Block maxWireSize

namespace NetworkOutput

/-- `NetworkOutput::NetworkOutput`. -/
def new : NetworkOutput := { sendBusy := false }

/-- `NetworkOutput::CallBack`, up to the call of `callWhenDone`. -/
def callBack (n : NetworkOutput) : NetworkOutput := { n with sendBusy := false }

/-- `NetworkOutput::Send`, for the machine `hostName`: what goes out, if the packet is not lost. It does not set `sendBusy`. `junk` is what
is in the memory that `new` returns. -/
def send (hostName : Int) (n : NetworkOutput) (lost : Bool) (junk : Buf) {size : Nat} (hdr : PacketHeader) (data : Block size) :
    Except Fault (NetworkOutput × Option Datagram) := do
  let toName ← sprintfSocketName 32 hdr.to_
  assert (n.sendBusy = false ∧ hdr.length > 0 ∧ hdr.length ≤ maxPacketSize ∧ hdr.from_ = hostName)
  if lost then return (n, none) -- emulate a lost packet
  else
    -- concatenate hdr and data into a single buffer, and send it out
    let buffer : Block maxWireSize := ⟨junk⟩
    let buffer ← bcopy (packetHeaderBytes hdr) 0 buffer 0 packetHeaderSize
    let buffer ← bcopy data 0 buffer packetHeaderSize hdr.length
    return (n, some { toName, buffer })

end NetworkOutput

/-- `PostOfficeOutput::Send`, without its lock and semaphore. -/
def send (hostName : Int) (network : NetworkOutput) (lost : Bool) (junk wireJunk : Buf) {size : Nat} (pktHdr : PacketHeader)
    (mailHdr : MailHeader) (data : Block size) : Except Fault (NetworkOutput × Option Datagram) := do
  let buffer : Block maxPacketSize := ⟨junk⟩ -- space to hold concatenated mailHdr + data
  assert (mailHdr.length ≤ maxMailSize)
  assert (0 ≤ mailHdr.to_)
  -- fill in pktHdr, for the Network layer
  let pktHdr := { pktHdr with from_ := hostName, length := mailHdr.length + mailHeaderSize }
  -- concatenate MailHeader and data
  let buffer ← bcopy (mailHeaderBytes mailHdr) 0 buffer 0 mailHeaderSize
  let buffer ← bcopy data 0 buffer mailHeaderSize mailHdr.length
  network.send hostName lost wireJunk pktHdr buffer

/-- The runs of a `NetworkOutput`. -/
def NetworkOutput.system : Transition.System NetworkOutput where
  init n := n = new
  step n n' := n' = n.callBack ∨ ∃ (hostName : Int) (lost : Bool) (junk : Buf) (size : Nat) (hdr : PacketHeader) (data : Block size)
    (sent : Option Datagram), n.send hostName lost junk hdr data = .ok (n', sent)

/-! ## Receiving -/

/-- `class NetworkInput` (machine/network.h). -/
structure NetworkInput where
  inHdr : PacketHeader
  inbox : Block maxPacketSize

/-- `class Mail` (network/post.h). -/
structure Mail where
  pktHdr : PacketHeader
  mailHdr : MailHeader
  data : Block maxMailSize

/-- The number of mail boxes that `Kernel::Initialize` asks for. -/
abbrev kernelBoxes : Int := 10

/-- The boxes of a post office, by number: the list `messages` of each. -/
abbrev Boxes := Int → List Mail

/-- `NetworkInput::CallBack`, up to the call of `callWhenAvail`, and whether there is that call. -/
def NetworkInput.callBack (hostName : Int) (n : NetworkInput) (junk : Buf) (packet : Option (Block maxWireSize)) :
    Except Fault (NetworkInput × Bool) :=
  if n.inHdr.length ≠ 0 then return (n, false) -- do nothing if packet is already buffered
  else
    match packet with
    | none => return (n, false)
    | some packet => do
      let buffer : Block maxWireSize := ⟨junk⟩
      let buffer ← bcopy packet 0 buffer 0 maxWireSize -- `ReadFromSocket`
      -- divide packet into header and data
      let inHdr := PacketHeader.ofBuf buffer.bytes
      assert (inHdr.to_ = hostName ∧ inHdr.length ≤ maxPacketSize)
      let inbox ← bcopy buffer packetHeaderSize n.inbox 0 inHdr.length
      return ({ inHdr, inbox }, true)

/-- `NetworkInput::Receive`. -/
def NetworkInput.receive (n : NetworkInput) {size : Nat} (data : Block size) : Except Fault (PacketHeader × Block size × NetworkInput) := do
  let hdr := n.inHdr
  let n := { n with inHdr := { n.inHdr with length := 0 } }
  let data ← if hdr.length ≠ 0 then bcopy n.inbox 0 data 0 hdr.length else pure data
  return (hdr, data, n)

/-- `Mail::Mail`, with the data at `msgData` in a block. -/
def Mail.new (junk : Buf) (pktH : PacketHeader) (mailH : MailHeader) {size : Nat} (block : Block size) (msgData : Nat) :
    Except Fault Mail := do
  assert (mailH.length ≤ maxMailSize)
  let data ← bcopy block msgData ⟨junk⟩ 0 mailH.length
  return { pktHdr := pktH, mailHdr := mailH, data }

/-- `MailBox::Put`. -/
def put (boxes : Boxes) (box : Int) (junk : Buf) (pktHdr : PacketHeader) (mailHdr : MailHeader) {size : Nat} (block : Block size)
    (data : Nat) : Except Fault Boxes := do
  let mail ← Mail.new junk pktHdr mailHdr block data
  return Function.update boxes box (boxes box ++ [mail])

/-- `MailBox::Get`; there is no result while the box is empty. -/
def get (boxes : Boxes) (box : Int) {size : Nat} (data : Block size) :
    Except Fault (Option (PacketHeader × MailHeader × Block size × Boxes)) :=
  match boxes box with
  | [] => return none
  | mail :: messages => do
    let data ← bcopy mail.data 0 data 0 mail.mailHdr.length
    return some (mail.pktHdr, mail.mailHdr, data, Function.update boxes box messages)

/-- The loop body of `PostOfficeInput::PostalDelivery`, after the wait for a message. -/
def postalDelivery (numBoxes : Int) (boxes : Boxes) (network : NetworkInput) (buffer : Block maxPacketSize) (junk : Buf) :
    Except Fault (Boxes × NetworkInput × Block maxPacketSize) := do
  let (pktHdr, buffer, network) ← network.receive buffer
  let mailHdr := MailHeader.ofBuf buffer.bytes
  -- check that arriving message is legal!
  assert (0 ≤ mailHdr.to_ ∧ mailHdr.to_ < numBoxes)
  assert (mailHdr.length ≤ maxMailSize)
  -- put into mailbox
  let boxes ← put boxes mailHdr.to_ junk pktHdr mailHdr buffer mailHeaderSize
  return (boxes, network, buffer)

/-- `PostOfficeInput::Receive`; there is no result while the box is empty. -/
def receive (numBoxes : Int) (boxes : Boxes) (box : Int) {size : Nat} (data : Block size) :
    Except Fault (Option (PacketHeader × MailHeader × Block size × Boxes)) := do
  assert (box ≥ 0 ∧ box < numBoxes)
  match ← get boxes box data with
  | none => return none
  | some (pktHdr, mailHdr, data, boxes) =>
    assert (mailHdr.length ≤ maxMailSize)
    return some (pktHdr, mailHdr, data, boxes)

end Wire

end Nachos
