import Nachos.Network.Wire

/-!
# The two-machine test of the network (threads/kernel.cc)

`Kernel::NetworkTest` on two machines, which send each other a greeting and acknowledge it. On each machine there are the thread that runs
the test, the interrupt of the network output, the polls of the network input and the postal worker. Between the machines are the packets
that are sent and not yet read; they are read in any order, and the network may lose any of them. How the threads of one machine share
a mail box is in PostOffice.
-/

namespace Nachos

namespace NetworkTest

open Bytes PostOffice Wire

/-! ## The texts -/

/-- The characters of a string literal. -/
def chars (s : String) : List UInt8 := s.toList.map fun c => UInt8.ofNat c.toNat

/-- A string literal in memory, with the zero at its end. -/
def literal (text : List UInt8) : Block (text.length + 1) := ⟨fun j => text.getD j 0⟩

/-- `char *data`. -/
def data : List UInt8 := chars "Hello there!"

/-- `char *ack`. -/
def ack : List UInt8 := chars "Got it!"

/-- `cout << buffer`: the characters in front of the first zero. -/
def cString {size : Nat} (buffer : Block size) : Except Fault (List UInt8) :=
  let bytes := (List.range size).map buffer.bytes
  if 0 ∈ bytes then .ok (bytes.takeWhile fun c => !decide (c = 0)) else .error .outOfBounds

/-- `cout << n`. -/
def number (n : Int) : List UInt8 := (if n < 0 then [45] else []) ++ Decimal.digits n.natAbs

/-- A line of the output. -/
def line (text : List UInt8) (host box : Int) : List UInt8 :=
  chars "Got: " ++ text ++ chars " : from " ++ number host ++ chars ", box " ++ number box ++ chars "\n"

/-- `farHost`. -/
def farHost (hostName : Int) : Int := if hostName = 0 then 1 else 0

/-! ## One machine -/

/-- The statement of the test that comes next. At `sent` and `acknowledged` the thread is inside of `Send`, in `messageSent->P`. -/
inductive Pc where
  | send
  | sent
  | receive
  | acknowledge
  | acknowledged
  | receiveAck
  | done
  deriving DecidableEq

/-- A machine: the variables of the test and what it has printed, the network output with the number of its interrupts that are scheduled,
the network input, and the mail boxes. `packet` is the buffer of the postal worker. -/
structure Host where
  pc : Pc
  outPktHdr : PacketHeader
  inPktHdr : PacketHeader
  outMailHdr : MailHeader
  inMailHdr : MailHeader
  buffer : Block maxMailSize
  printed : List UInt8
  networkOut : NetworkOutput
  sendInts : Nat
  messageSent : Nat
  networkIn : Wire.NetworkInput
  messageAvailable : Nat
  packet : Block maxPacketSize
  boxes : Boxes

namespace Host

/-- A machine whose kernel is initialized; `junk` is what was in its memory. -/
def new (junk : Host) : Host :=
  { junk with
    pc := .send, printed := [], networkOut := .new, sendInts := 0, messageSent := 0,
    networkIn := { junk.networkIn with inHdr := { junk.networkIn.inHdr with length := 0 } }, messageAvailable := 0, boxes := fun _ => [] }

/-- `postOfficeOut->Send`, up to the wait: the packet, if the network does not lose it. -/
def post (hostName : Int) (s : Host) (next : Pc) (lost : Bool) (junk wireJunk : Buf) (outPktHdr : PacketHeader) (outMailHdr : MailHeader)
    (text : List UInt8) : Except Fault (Host × Option Datagram) := do
  let (networkOut, sent) ← Wire.send hostName s.networkOut lost junk wireJunk outPktHdr outMailHdr (literal text)
  return ({ s with pc := next, outPktHdr, outMailHdr, networkOut, sendInts := s.sendInts + 1 }, sent)

/-- `messageSent->P`; there is no result while the thread sleeps. -/
def wait (s : Host) (next : Pc) : Option Host :=
  if s.messageSent = 0 then none else some { s with pc := next, messageSent := s.messageSent - 1 }

/-- `postOfficeIn->Receive`, and the line that is printed; there is no result while the thread sleeps. -/
def collect (s : Host) (next : Pc) (box : Int) : Except Fault (Option Host) := do
  match ← Wire.receive kernelBoxes s.boxes box s.buffer with
  | none => return none
  | some (inPktHdr, inMailHdr, buffer, boxes) =>
    let text ← cString buffer
    return some { s with
      pc := next, inPktHdr, inMailHdr, buffer, boxes, printed := s.printed ++ line text inPktHdr.from_ inMailHdr.from_ }

/-- The next statement of `Kernel::NetworkTest`, and what is sent; there is no result while the thread sleeps or when it is done. -/
def main (hostName : Int) (s : Host) (lost : Bool) (junk wireJunk : Buf) : Except Fault (Option (Host × Option Datagram)) :=
  match s.pc with
  | .send => do
    -- construct packet, mail header for original message
    let outPktHdr := { s.outPktHdr with to_ := farHost hostName }
    let outMailHdr := { to_ := 0, from_ := 1, length := data.length + 1 }
    return some (← s.post hostName .sent lost junk wireJunk outPktHdr outMailHdr data)
  | .sent => return (s.wait .receive).map fun s => (s, none)
  | .receive => do return (← s.collect .acknowledge 0).map fun s => (s, none)
  | .acknowledge => do
    -- send acknowledgement to the other machine, using the "reply to" mailbox in the message that just arrived
    let outPktHdr := { s.outPktHdr with to_ := s.inPktHdr.from_ }
    let outMailHdr := { s.outMailHdr with to_ := s.inMailHdr.from_, length := ack.length + 1 }
    return some (← s.post hostName .acknowledged lost junk wireJunk outPktHdr outMailHdr ack)
  | .acknowledged => return (s.wait .receiveAck).map fun s => (s, none)
  | .receiveAck => do return (← s.collect .done 1).map fun s => (s, none)
  | .done => return none

/-- The interrupt of the network output, when one is scheduled: `NetworkOutput::CallBack` and `PostOfficeOutput::CallBack`. -/
def sendInt (s : Host) : Option Host :=
  if s.sendInts = 0 then none
  else some { s with sendInts := s.sendInts - 1, networkOut := s.networkOut.callBack, messageSent := s.messageSent + 1 }

/-- A poll that finds a packet: `NetworkInput::CallBack` and `PostOfficeInput::CallBack`. -/
def poll (hostName : Int) (s : Host) (junk : Buf) (packet : Datagram) : Except Fault Host := do
  let (networkIn, avail) ← s.networkIn.callBack hostName junk (some packet.buffer)
  return { s with networkIn, messageAvailable := if avail then s.messageAvailable + 1 else s.messageAvailable }

/-- One round of the postal worker; there is no result while it sleeps in `messageAvailable->P`. -/
def deliver (s : Host) (junk : Buf) : Except Fault (Option Host) :=
  if s.messageAvailable = 0 then return none
  else do
    let (boxes, networkIn, packet) ← postalDelivery kernelBoxes s.boxes s.networkIn s.packet junk
    return some { s with messageAvailable := s.messageAvailable - 1, boxes, networkIn, packet }

end Host

/-! ## Both machines -/

/-- The two messages that a machine sends. -/
inductive Kind where
  | hello
  | ack
  deriving DecidableEq

/-- What a statement sends. -/
def Pc.sends : Pc → Option Kind
  | .send => some .hello
  | .acknowledge => some .ack
  | _ => none

/-- `hostName` of a machine. -/
def hostName (h : Fin 2) : Int := (h.val : Int)

/-- The other machine. -/
def far (h : Fin 2) : Fin 2 := 1 - h

/-- The machines and the packets between them. The last field is history: which messages the network has lost, by the machine that they
were for. -/
structure World where
  hosts : Fin 2 → Host
  flight : List Datagram
  lost : List (Fin 2 × Kind)

/-- The machine `h` is in another state. -/
def World.set (w : World) (h : Fin 2) (s : Host) : World := { w with hosts := Function.update w.hosts h s }

/-- The steps, each with the machine it happens on. A poll that finds no packet, or no room for it, does nothing. -/
inductive Step : World → Fin 2 → World → Prop where
  | main {w : World} {h : Fin 2} {s : Host} {lost : Bool} {junk wireJunk : Buf} {sent : Option Datagram} :
      (w.hosts h).main (hostName h) lost junk wireJunk = .ok (some (s, sent)) →
      Step w h { w.set h s with
        flight := w.flight ++ sent.toList
        lost := if lost then w.lost ++ ((w.hosts h).pc.sends.map fun k => (far h, k)).toList else w.lost }
  | sendInt {w : World} {h : Fin 2} {s : Host} : (w.hosts h).sendInt = some s → Step w h (w.set h s)
  | poll {w : World} {h : Fin 2} {s : Host} {junk : Buf} {packet : Datagram} {before after : List Datagram} :
      w.flight = before ++ packet :: after → packet.toName = socketName (hostName h) → (w.hosts h).networkIn.inHdr.length = 0 →
      (w.hosts h).poll (hostName h) junk packet = .ok s → Step w h { w.set h s with flight := before ++ after }
  | deliver {w : World} {h : Fin 2} {s : Host} {junk : Buf} : (w.hosts h).deliver junk = .ok (some s) → Step w h (w.set h s)

/-- Both machines start the test, with nothing between them. -/
def start (junk : Fin 2 → Host) : World := { hosts := fun h => .new (junk h), flight := [], lost := [] }

/-- Something that can happen fails an `ASSERT`, or leaves an array. -/
def Faults (w : World) : Prop :=
  ∃ (h : Fin 2) (e : Fault), (∃ lost junk wireJunk, (w.hosts h).main (hostName h) lost junk wireJunk = .error e) ∨
    (∃ junk, ∃ packet ∈ w.flight, packet.toName = socketName (hostName h) ∧ (w.hosts h).poll (hostName h) junk packet = .error e) ∨
    ∃ junk, (w.hosts h).deliver junk = .error e

/-- Nothing can happen any more. -/
def Stuck (w : World) : Prop := ∀ h w', ¬Step w h w'

end NetworkTest

end Nachos
