import Nachos.Threads.Guarded

/-!
# Incoming mail (machine/network.cc, network/post.cc)

The network device buffers one packet. An interrupt polls the socket, reads a packet when none is buffered, and raises a semaphore; the
postal worker, a thread of its own, waits for that, takes the packet out of the device and puts its mail on the list of a mail box.
Other threads call `Receive` on the boxes. When a poll comes, and which packet it finds on the socket, is left open.
-/

namespace Nachos

namespace PostOffice

open Bytes

/-- `class PacketHeader` (machine/network.h). -/
structure PacketHeader where
  to_ : Int
  from_ : Int
  length : Nat
  deriving DecidableEq

/-- `class MailHeader` (network/post.h). -/
structure MailHeader where
  to_ : Int
  from_ : Int
  length : Nat
  deriving DecidableEq

/-- `sizeof(PacketHeader)`. -/
abbrev packetHeaderSize : Nat := 12

/-- `sizeof(MailHeader)`. -/
abbrev mailHeaderSize : Nat := 12

/-- `MaxWireSize`. -/
abbrev maxWireSize : Nat := 64

/-- `MaxPacketSize`. -/
abbrev maxPacketSize : Nat := maxWireSize - packetHeaderSize

/-- `MaxMailSize`. -/
abbrev maxMailSize : Nat := maxPacketSize - mailHeaderSize

/-- `*(PacketHeader *)buffer`. -/
def PacketHeader.ofBuf (buffer : Buf) : PacketHeader where
  to_ := intAt buffer 0
  from_ := intAt buffer 4
  length := (leWord buffer 8).toNat

/-- `*(MailHeader *)buffer`. -/
def MailHeader.ofBuf (buffer : Buf) : MailHeader where
  to_ := intAt buffer 0
  from_ := intAt buffer 4
  length := (leWord buffer 8).toNat

/-- `class Mail` (network/post.h). `address` tells one object from another: they are numbered as `new` makes them. `data` are the bytes
that are set. -/
structure Mail where
  address : Nat
  pktHdr : PacketHeader
  mailHdr : MailHeader
  data : List UInt8
  deriving DecidableEq

/-- `Mail::Mail`, with the data at `msgData` in a buffer. -/
def Mail.new (address : Nat) (pktH : PacketHeader) (mailH : MailHeader) (buffer : Buf) (msgData : Nat) : Except Fault Mail := do
  assert (mailH.length ≤ maxMailSize)
  return { address, pktHdr := pktH, mailHdr := mailH, data := slice buffer msgData mailH.length }

/-- `class NetworkInput` (machine/network.h). -/
structure NetworkInput where
  inHdr : PacketHeader
  inbox : Buf

/-- `NetworkInput::CallBack`, which schedules the next poll first, up to the call of `callWhenAvail`, and whether there is that call.
`packet` is what the socket has, in `MaxWireSize` bytes. -/
def NetworkInput.callBack (hostName : Int) (n : NetworkInput) (packet : Option Buf) : Except Fault (NetworkInput × Bool) :=
  if n.inHdr.length ≠ 0 then return (n, false) -- do nothing if packet is already buffered
  else
    match packet with
    | none => return (n, false)
    | some buffer => do
      let inHdr := PacketHeader.ofBuf buffer
      assert (inHdr.to_ = hostName ∧ inHdr.length ≤ maxPacketSize)
      return ({ inHdr, inbox := copy buffer packetHeaderSize n.inbox 0 inHdr.length }, true)

/-- `NetworkInput::Receive`: the header, what is in the buffer of the caller then, and the device. -/
def NetworkInput.receive (n : NetworkInput) (data : Buf) : PacketHeader × Buf × NetworkInput :=
  (n.inHdr, if n.inHdr.length ≠ 0 then copy n.inbox 0 data 0 n.inHdr.length else data, { n with inHdr := { n.inHdr with length := 0 } })

/-- The thread `t` of the constructor, "postal worker". -/
abbrev postalWorker : Tid := 1

/-- `PostOfficeInput::messageAvailable`. -/
def messageAvailable : SemId := 0

/-- The post office apart from its boxes, whose lists are the monitors: `boxes[i].messages` is monitor `i`. The second field is how
many mails were made. The last is history, which no code reads: the packets read from the socket, oldest first. -/
structure Office where
  network : NetworkInput
  mails : Nat
  arrived : List Buf

/-- The statement a thread is about to execute. -/
inductive Pc where
  /-- The end of the constructor: `t->Fork(PostOfficeInput::PostalDelivery, this)`. -/
  | start
  /-- The postal worker begins: `buffer = new char[MaxPacketSize]`. -/
  | begin
  /-- `messageAvailable->P()`. -/
  | wait (buffer : Buf)
  /-- `pktHdr = network->Receive(buffer)`. -/
  | receive (buffer : Buf)
  /-- The rest of the loop, up to `messages->Append(mail)`. -/
  | put (pktHdr : PacketHeader) (buffer : Buf)
  | user
  /-- `MailBox::Get`, after `messages->RemoveFront()`, and the end of `PostOfficeInput::Receive`. -/
  | get (box : Int) (mail : Option Mail)
  /-- The call of `Receive` returns. -/
  | done (box : Int) (mail : Mail)

/-- What user code does next. -/
inductive Op where
  | none
  | yield
  | fork (t : Tid)
  | finish
  | receive (box : Int)

/-- What a step depends on: what user code does, and the contents of the memory that `new` returns. -/
structure Input where
  op : Op
  junk : Buf

/-- `PostalDelivery`, `Receive`, and the code that calls it. -/
def step (numBoxes : Int) (_ : Tid) (m : Office) : Pc → Input → Except Fault (Office × Guarded.Request Mail Synch.listOps Pc)
  | .start, _ => .ok (m, .call (.fork postalWorker .begin) .user)
  | .begin, x => .ok (m, .call .none (.wait x.junk))
  | .wait buffer, _ => .ok (m, .call (.p messageAvailable) (.receive buffer))
  | .receive buffer, _ =>
    let (pktHdr, buffer, network) := m.network.receive buffer
    .ok ({ m with network }, .call .none (.put pktHdr buffer))
  | .put pktHdr buffer, _ => do
    let mailHdr := MailHeader.ofBuf buffer
    -- check that arriving message is legal!
    assert (0 ≤ mailHdr.to_ ∧ mailHdr.to_ < numBoxes)
    assert (mailHdr.length ≤ maxMailSize)
    let mail ← Mail.new m.mails pktHdr mailHdr buffer mailHeaderSize
    return ({ m with mails := m.mails + 1 }, .operation mailHdr.to_.toNat (.append mail) rfl fun _ => .wait buffer)
  | .user, { op := .none, .. } => .ok (m, .call .none .user)
  | .user, { op := .yield, .. } => .ok (m, .call .yield .user)
  | .user, { op := .fork t', .. } => .ok (m, .call (.fork t' .user) .user)
  | .user, { op := .finish, .. } => .ok (m, .call .finish .user)
  | .user, { op := .receive box, .. } => do
    assert (0 ≤ box ∧ box < numBoxes)
    return (m, .operation box.toNat .removeFront rfl fun mail => .get box mail)
  | .get _ none, _ => .error .nullDereference
  | .get box (some mail), _ => do
    assert (mail.mailHdr.length ≤ maxMailSize)
    return (m, .call .none (.done box mail))
  | .done _ _, _ => .ok (m, .call .none .user)

/-- What a packet carries after its header. -/
def payload (packet : Buf) : Buf := fun j => packet (packetHeaderSize + j)

/-- A legal packet: it is for this host and not empty, its mail box number is in range, and its lengths are within the limits. -/
structure Legal (hostName numBoxes : Int) (packet : Buf) : Prop where
  host : (PacketHeader.ofBuf packet).to_ = hostName
  length : 0 < (PacketHeader.ofBuf packet).length ∧ (PacketHeader.ofBuf packet).length ≤ maxPacketSize
  box : 0 ≤ (MailHeader.ofBuf (payload packet)).to_ ∧ (MailHeader.ofBuf (payload packet)).to_ < numBoxes
  mailLength : (MailHeader.ofBuf (payload packet)).length ≤ maxMailSize

/-- What a poll finds on the socket: nothing, or a legal packet. -/
abbrev Poll (hostName numBoxes : Int) := Option { packet : Buf // Legal hostName numBoxes packet }

/-- A poll: `PostOfficeInput::CallBack` calls `V` when a packet was read. -/
def poll {hostName numBoxes : Int} (m : Office) (d : Poll hostName numBoxes) : Except Fault (Office × List SemId) := do
  let (network, avail) ← m.network.callBack hostName (d.map Subtype.val)
  return if avail then ({ m with network, arrived := m.arrived ++ (d.map Subtype.val).toList }, [messageAvailable])
    else ({ m with network }, [])

/-- The post office and the code that receives from it. -/
abbrev code (hostName numBoxes : Int) : Guarded.Code where
  Item := Mail
  items := inferInstance
  ops := Synch.listOps
  ops_fork := fun _ => rfl
  ops_finish := rfl
  Shared := Office
  Pc := Pc
  Input := Input
  Device := Poll hostName numBoxes
  code := step numBoxes
  device := poll

/-- The post office at the end of the constructor: no packet is buffered. -/
def Office.new (junk : NetworkInput) : Office where
  network := { junk with inHdr := { junk.inHdr with length := 0 } }
  mails := 0
  arrived := []

/-- The start: the main thread is about to fork the postal worker. -/
def boot (hostName numBoxes : Int) (junk : NetworkInput) : Boot (Guarded.client (code hostName numBoxes)) :=
  Guarded.boot (code hostName numBoxes) (.new junk) .start fun s => if s = messageAvailable then some 0 else none

end PostOffice

end Nachos
