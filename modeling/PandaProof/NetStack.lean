import Mathlib.Data.List.FinRange
import PandaProof.Prog

/-!
# The network daemon: its state and how it sends

The tables of `net.rs` and the functions that put a frame on the wire, byte for byte.
The daemon runs in Ring 3 and shares memory with its clients, so two things can go wrong
that the Rust type system does not rule out: a raw pointer into a client's buffer may
lie outside every buffer the daemon has mapped, and a copy may leave the local array it
is meant for (a slice panics, a raw copy overruns).  Both are a `Fault`, and the code
stops there.

The arithmetic is that of the release build: every fixed-width operation wraps.  What
the kernel answers to each system call, what it draws at random and what the clients'
memory holds when it is read are arbitrary (`Env`), and may change from one call to the
next.
-/
namespace Panda.Net

abbrev Bytes := List UInt8

/-- An address of either family, IPv4 ones IPv4-mapped. -/
abbrev Ip := Vector UInt8 16

abbrev Mac := Vector UInt8 6

/-! ## Constants -/

def maxFrame : Nat := 1514
def tcpMss : Nat := 1460
/-- The array of `send_datagram`. -/
def maxDatagram : Nat := 8 + 512
/-- The array of `dns_query`. -/
def maxQuery : Nat := 12 + 255 + 4
/-- `TCP_MSS_V6`. -/
def tcpMssV6 : Nat := tcpMss - 20

def ethertypeArp : UInt16 := 0x0806
def ethertypeIpv4 : UInt16 := 0x0800
def ethertypeIpv6 : UInt16 := 0x86DD
def protocolIcmpv6 : UInt8 := 58
def protocolIcmp : UInt8 := 1
def protocolUdp : UInt8 := 17
def protocolTcp : UInt8 := 6
def broadcast : Mac := .replicate 6 0xFF
def pingIdentifier : UInt16 := 0x5044

def fin : UInt8 := 0x01
def syn : UInt8 := 0x02
def rst : UInt8 := 0x04
def psh : UInt8 := 0x08
def ack : UInt8 := 0x10

def firstRtoTicks : UInt32 := 5
def solicitations : UInt32 := 3

def unspecified : Ip := .replicate 16 0

/-- The address is IPv6, and in the buffer: `net::IPV6`. -/
def ipv6Word : UInt64 := 0xFFFFFFFFFFFFFFFF

/-! ## Bytes -/

def be16 (x : UInt16) : Bytes := [(x >>> 8).toUInt8, x.toUInt8]

def be32 (x : UInt32) : Bytes :=
  [(x >>> 24).toUInt8, (x >>> 16).toUInt8, (x >>> 8).toUInt8, x.toUInt8]

/-- `u32::from_be_bytes`. -/
def fromBe32 (a b c d : UInt8) : UInt32 :=
  (a.toUInt32 <<< 24) ||| (b.toUInt32 <<< 16) ||| (c.toUInt32 <<< 8) ||| d.toUInt32

def mapped (v4 : UInt32) : Ip :=
  #v[0, 0, 0, 0, 0, 0, 0, 0, 0, 0, 0xFF, 0xFF,
    (v4 >>> 24).toUInt8, (v4 >>> 16).toUInt8, (v4 >>> 8).toUInt8, v4.toUInt8]

def asV4 (ip : Ip) : Option UInt32 :=
  if ip.toList.take 12 = [0, 0, 0, 0, 0, 0, 0, 0, 0, 0, 0xFF, 0xFF] then
    some (fromBe32 ip[12] ip[13] ip[14] ip[15])
  else none

def isLinkLocal (ip : Ip) : Bool := ip[0] == 0xFE && ip[1] &&& 0xC0 == 0x80

/-- The multicast group a neighbour solicitation for `ip` goes to. -/
def solicitedNode (ip : Ip) : Ip :=
  #v[0xFF, 2, 0, 0, 0, 0, 0, 0, 0, 0, 0, 1, 0xFF, ip[13], ip[14], ip[15]]

/-- The sum of the bytes taken as big-endian words; it cannot overflow. -/
def addWords (sum : Nat) : Bytes → Nat
  | a :: b :: rest => addWords (sum + (a.toNat * 256 + b.toNat)) rest
  | [a] => sum + a.toNat * 256
  | [] => sum

def fold (sum : Nat) : UInt16 :=
  if 0xFFFF < sum then fold (sum % 0x10000 + sum / 0x10000) else ~~~ UInt16.ofNat sum
decreasing_by omega

/-- The Internet checksum. -/
def checksum (bytes : Bytes) : UInt16 := fold (addWords 0 bytes)

/-- The checksum UDP, TCP and ICMPv6 carry, over a pseudo-header laid out per family. -/
def transportChecksum (protocol : UInt8) (source destination : Ip) (bytes : Bytes) : UInt16 :=
  let pseudo : Bytes := match asV4 source, asV4 destination with
    | some source, some destination =>
      be32 source ++ be32 destination ++ [0, protocol] ++ be16 (UInt16.ofNat bytes.length)
    | _, _ =>
      source.toList ++ destination.toList ++ be32 (UInt32.ofNat bytes.length) ++ [0, 0, 0, protocol]
  fold (addWords (addWords 0 pseudo) bytes)

/-! ## Tables -/

/-- A buffer as the kernel maps it: somewhere in the lower half of the address space. -/
structure Region where
  base : UInt64
  size : UInt64
  fits : base.toNat + size.toNat ≤ 0x800000000000
  deriving DecidableEq

/-- Nothing mapped. -/
def Region.none : Region := ⟨0, 0, by decide⟩

/-- An entry of the mappings table; a zero handle is a free entry. -/
structure Mapping where
  handle : UInt64
  region : Region
  deriving DecidableEq

inductive ConnState
  | free
  | synSent
  | synReceived
  | established
  | finWait1
  | finWait2
  | closing
  | closeWait
  | lastAck
  deriving DecidableEq

structure Connection where
  state : ConnState := .free
  owner : UInt64 := 0
  reply : UInt64 := 0
  remote : Ip := unspecified
  remotePort : UInt16 := 0
  localPort : UInt16 := 0
  base : UInt64 := 0
  size : UInt64 := 0
  filled : UInt64 := 0
  delivered : Bool := false
  unacknowledged : UInt32 := 0
  nextSend : UInt32 := 0
  nextReceive : UInt32 := 0
  flightFlags : UInt8 := 0
  flightBase : UInt64 := 0
  flightLength : UInt64 := 0
  closeRequested : Bool := false
  waited : UInt32 := 0
  timeout : UInt32 := 0
  retries : UInt32 := 0
  deriving DecidableEq

/-- The client may still send. -/
@[simp] abbrev Connection.IsOpen (c : Connection) : Prop :=
  c.state = .established ∨ c.state = .closeWait

structure Listener where
  port : UInt16 := 0
  owner : UInt64 := 0
  reply : UInt64 := 0
  base : UInt64 := 0
  size : UInt64 := 0

structure Binding where
  port : UInt16 := 0
  reply : UInt64 := 0
  base : UInt64 := 0
  size : UInt64 := 0

/-- A frame waiting for the MAC of `nextHop`, which is unspecified for a free slot. -/
structure Waiting where
  frame : Bytes
  nextHop : Ip

structure Ping where
  token : UInt64 := 0
  reply : UInt64 := 0
  address : Ip := unspecified
  /-- Zero for a free slot. -/
  sequence : UInt16 := 0

structure Resolve where
  /-- Zero for a free slot. -/
  id : UInt16 := 0
  /-- 1 for A, 28 for AAAA. -/
  kind : UInt16 := 0
  reply : UInt64 := 0
  token : UInt64 := 0
  base : UInt64 := 0
  length : UInt64 := 0
  waited : UInt32 := 0
  tries : UInt32 := 0

inductive Dhcp
  | done
  | discovering
  | requesting
  deriving DecidableEq

structure Stack where
  mac : Mac
  address : UInt32
  gateway : UInt32
  netmask : UInt32
  arp : Fin 8 → Ip × Mac
  arpNext : Fin 8
  waiting : Fin 2 → Waiting
  pings : Fin 8 → Ping
  nextSequence : UInt16
  bindings : Fin 8 → Binding
  mappings : Fin 8 → Mapping
  nextIdentification : UInt16
  control : UInt64
  connections : Fin 8 → Connection
  listeners : Fin 4 → Listener
  timerArmed : Bool
  nextPort : UInt16
  dhcp : Dhcp
  dhcpWaited : UInt32
  transaction : UInt32
  offered : UInt32
  dhcpServer : UInt32
  offeredDns : UInt32
  configWaiters : Fin 4 → UInt64
  dnsServer : Ip
  dnsPort : UInt16
  resolves : Fin 4 → Resolve
  dnsLocalPort : UInt16
  linkLocal : Ip
  global6 : Ip
  router6 : Ip
  dns6 : Ip
  solicited : UInt32
  solicitWaited : UInt32
  config6Waiters : Fin 4 → UInt64

/-- The four words of a message. -/
abbrev Words := UInt64 × UInt64 × UInt64 × UInt64

structure Message where
  tag : UInt64
  words : Words
  sender : UInt64
  deriving DecidableEq

/-! ## What surrounds the daemon -/

/-- Where a TCP segment goes and what it says to its receiver. -/
structure Outgoing where
  destination : Ip
  localPort : UInt16
  remotePort : UInt16
  /-- Zero where ACK is not set. -/
  acknowledgement : UInt32
  flags : UInt8
  deriving DecidableEq

/-- What the daemon does that others can see, and a record of some things it does that
they cannot. -/
inductive Event
  | netSend (frame : Bytes)
  | ipcSend (endpoint : UInt64) (message : Message)
  | bufferUnmap (handle : UInt64)
  /-- Bytes copied into a client's buffer. -/
  | clientWrite (address : Nat) (bytes : Bytes)
  /-- On record: a frame put into a waiting slot. -/
  | parked (slot : Fin 2) (frame : Bytes) (nextHop : Ip)
  /-- A frame sent from a waiting slot, now that `mac` has been learned for `address`. -/
  | released (slot : Fin 2) (address : Ip) (mac : Mac) (frame : Bytes)
  /-- On record: a segment with these flags is handed to IP for this connection, as its slot
  stands. -/
  | segment (connection : Connection) (flags : UInt8)
  /-- On record: a segment that belongs to no connection is handed to IP. -/
  | refusal (segment : Outgoing)
  /-- On record: an unsigned subtraction wrapped. -/
  | underflow
  deriving DecidableEq

/-- What each system call answers and what client memory holds, by the number of the
call. -/
structure Env where
  /-- `buffer_map`, with the size `buffer_info` reports. -/
  bufferMap : Nat → UInt64 → Option Region
  /-- The kernel numbers buffers from 1. -/
  bufferMap_zero : ∀ k, bufferMap k 0 = none
  /-- Whether `buffer_info` succeeds. -/
  bufferInfo : Nat → UInt64 → Bool
  random : Nat → UInt64
  timerSet : Nat → Bool
  memory : Nat → Nat → UInt8

structure World where
  stack : Stack
  calls : Nat
  /-- Newest first. -/
  log : List Event

inductive Fault
  /-- Client memory touched outside every mapped buffer. -/
  | client (address length : Nat)
  /-- A copy to `start` does not fit a local array of `size` bytes. -/
  | slice (size start length : Nat)
  /-- An index outside a slice of `size` bytes. -/
  | index (size position : Nat)
  /-- A range outside a slice of `size` bytes. -/
  | range (size start stop : Nat)
  /-- A slice of `length` bytes made into an array of another length. -/
  | conversion (expected length : Nat)
  deriving DecidableEq

/-- The daemon's code. -/
abbrev Daemon := Prog World Fault

/-- The daemon's tables. -/
def getStack : Daemon Stack := do
  let w ← Prog.get
  pure w.stack

def modifyStack (f : Stack → Stack) : Daemon Unit :=
  Prog.modify fun w => { w with stack := f w.stack }

def emit (e : Event) : Daemon Unit :=
  Prog.modify fun w => { w with log := e :: w.log }

/-- The number of the next answer from outside. -/
def call : Daemon Nat := do
  let w ← Prog.get
  Prog.modify fun w => { w with calls := w.calls + 1 }
  pure w.calls

/-- `iter().position(..)`. -/
def position {n : Nat} (p : Fin n → Bool) : Option (Fin n) := (List.finRange n).find? p

/-- The bytes `[address, address + length)` all belong to one mapped buffer. -/
def Inside (s : Stack) (address length : Nat) : Prop :=
  length = 0 ∨ ∃ i, (s.mappings i).region.base.toNat ≤ address ∧
    address + length ≤ (s.mappings i).region.base.toNat + (s.mappings i).region.size.toNat

instance (s : Stack) (address length : Nat) : Decidable (Inside s address length) :=
  inferInstanceAs (Decidable (_ ∨ _))

/-- Copy out of a client's buffer. -/
def readClient (env : Env) (address : UInt64) (length : UInt64) : Daemon Bytes := do
  let s ← getStack
  if Inside s address.toNat length.toNat then
    let k ← call
    pure ((List.range length.toNat).map fun i => env.memory k (address.toNat + i))
  else Prog.throw (.client address.toNat length.toNat)

/-- Copy into a client's buffer. -/
def writeClient (address : UInt64) (bytes : Bytes) : Daemon Unit := do
  let s ← getStack
  if Inside s address.toNat bytes.length then emit (.clientWrite address.toNat bytes)
  else Prog.throw (.client address.toNat bytes.length)

/-- `a - b`, which wraps; that it did goes on record. -/
def subtract (a b : UInt64) : Daemon UInt64 := do
  if a < b then emit .underflow else pure ()
  pure (a - b)

/-- `array[at..at + bytes.len()].copy_from_slice(bytes)`. -/
def put (array : Bytes) (start : Nat) (bytes : Bytes) : Daemon Bytes :=
  if start + bytes.length ≤ array.length then
    pure (array.take start ++ bytes ++ array.drop (start + bytes.length))
  else Prog.throw (.slice array.length start bytes.length)

/-- Several copies in turn. -/
def putAll (array : Bytes) : List (Nat × Bytes) → Daemon Bytes
  | [] => pure array
  | (start, bytes) :: rest => do
    let array ← put array start bytes
    putAll array rest

/-- `[0u8; size]`. -/
def zeros (size : Nat) : Bytes := List.replicate size 0

/-! ## Sending -/

/-- `destination[0] == 0xff`. -/
abbrev isMulticast (destination : Ip) : Prop := destination[0] = 0xFF

/-- The address this machine sends to `destination` from. -/
def sourceFor (s : Stack) (destination : Ip) : Ip :=
  if (asV4 destination).isSome then mapped s.address
  else if isLinkLocal destination ∨ isMulticast destination ∨ s.global6 = unspecified then
    s.linkLocal
  else s.global6

/-- Hold a frame until its next hop's MAC is known; with every slot taken it is
dropped. -/
def park (frame : Bytes) (nextHop : Ip) : Daemon Unit := do
  let s ← getStack
  match position fun i => (s.waiting i).nextHop = unspecified with
  | none => pure ()
  | some slot =>
    let _ ← put (zeros maxFrame) 0 frame
    emit (.parked slot frame nextHop)
    modifyStack fun s => { s with waiting := Function.update s.waiting slot ⟨frame, nextHop⟩ }

def requestMac (address : UInt32) : Daemon Unit := do
  let s ← getStack
  let request ← putAll (zeros 42)
    [(0, broadcast.toList), (6, s.mac.toList), (12, be16 ethertypeArp),
      (14, [0, 1, 0x08, 0x00, 6, 4, 0, 1]), (22, s.mac.toList), (28, be32 s.address),
      (38, be32 address)]
  emit (.netSend request)

/-- Put the next hop's MAC into a frame and send it. -/
def sendTo (frame : Bytes) (mac : Bytes) : Daemon Unit := do
  let frame ← put frame 0 mac
  emit (.netSend frame)

/-- The headers `send_ipv4` writes, before their checksum. -/
abbrev ipv4Header (s : Stack) (destination : UInt32) (protocol : UInt8) (total : Nat) :
    List (Nat × Bytes) :=
  [(6, s.mac.toList), (12, be16 ethertypeIpv4), (14, [0x45]), (16, be16 (UInt16.ofNat total)),
    (18, be16 s.nextIdentification), (20, be16 0x4000), (22, [64]), (23, [protocol]),
    (26, be32 s.address), (30, be32 destination)]

/-- Wrap `payload` in IPv4 and Ethernet and send it, resolving the next hop first if
need be. -/
def sendIpv4 (destination : UInt32) (protocol : UInt8) (payload : Bytes) : Daemon Unit := do
  let s ← getStack
  let total := 20 + payload.length
  if maxFrame < 14 + total then pure ()
  else
    let frame ← putAll (zeros maxFrame) (ipv4Header s destination protocol total)
    modifyStack fun s => { s with nextIdentification := s.nextIdentification + 1 }
    let sum := checksum ((frame.drop 14).take 20)
    let frame ← putAll frame [(24, be16 sum), (34, payload)]
    let length := 14 + total
    if destination = 0xFFFFFFFF then sendTo (frame.take length) broadcast.toList
    else
      let nextHop := mapped
        (if destination &&& s.netmask = s.address &&& s.netmask then destination else s.gateway)
      match position fun i => (s.arp i).1 = nextHop with
      | some i => sendTo (frame.take length) (s.arp i).2.toList
      | none =>
        park (frame.take length) nextHop
        match asV4 nextHop with
        | some address => requestMac address
        | none => pure ()

/-- The Ethernet and IPv6 headers of `send_ipv6`, and the payload. -/
abbrev ipv6Parts (s : Stack) (destination : Ip) (nextHeader : UInt8) (payload : Bytes) :
    List (Nat × Bytes) :=
  [(6, s.mac.toList), (12, be16 ethertypeIpv6), (14, [0x60]),
    (18, be16 (UInt16.ofNat payload.length)), (20, [nextHeader]), (21, [255]),
    (22, (sourceFor s destination).toList), (38, destination.toList), (54, payload)]

def ipv6Frame (destination : Ip) (nextHeader : UInt8) (payload : Bytes) : Daemon Bytes := do
  let s ← getStack
  putAll (zeros maxFrame) (ipv6Parts s destination nextHeader payload)

/-- A frame to a multicast group needs no next hop. -/
def sendMulticast (frame : Bytes) (destination : Ip) : Daemon Unit := do
  let frame ← putAll frame [(0, [0x33, 0x33]), (2, destination.toList.drop 12)]
  emit (.netSend frame)

/-- `message[2..4]` of an ICMPv6 message: its checksum. -/
def icmpv6Checksummed (destination : Ip) (message : Bytes) : Daemon Bytes := do
  let message ← put message 2 [0, 0]
  let s ← getStack
  let sum := transportChecksum protocolIcmpv6 (sourceFor s destination) destination message
  put message 2 (be16 sum)

/-- `solicit_neighbour`.  Its message goes to a multicast group, so `send_ipv6` sends it
without looking for a next hop. -/
def solicitNeighbour (target : Ip) : Daemon Unit := do
  let s ← getStack
  let solicitation ← putAll (zeros 32)
    [(0, [135]), (8, target.toList), (24, [1, 1]), (26, s.mac.toList)]
  let group := solicitedNode target
  let message ← icmpv6Checksummed group solicitation
  if maxFrame < 54 + message.length then pure ()
  else
    let frame ← ipv6Frame group protocolIcmpv6 message
    sendMulticast (frame.take (54 + message.length)) group

/-- Where an IPv6 packet goes first. -/
def Stack.nextHop6 (s : Stack) (destination : Ip) : Ip :=
  let onLink := isLinkLocal destination ∨
    (s.global6 ≠ unspecified ∧ destination.toList.take 8 = s.global6.toList.take 8)
  if onLink then destination else s.router6

/-- Wrap `payload` in IPv6 and Ethernet and send it, finding the next hop's MAC first if
need be. -/
def sendIpv6 (destination : Ip) (nextHeader : UInt8) (payload : Bytes) : Daemon Unit := do
  let s ← getStack
  let length := 54 + payload.length
  if maxFrame < length then pure ()
  else
    let frame ← ipv6Frame destination nextHeader payload
    if isMulticast destination then sendMulticast (frame.take length) destination
    else
      let nextHop := s.nextHop6 destination
      if nextHop = unspecified then pure ()
      else
        match position fun i => (s.arp i).1 = nextHop with
        | some i => sendTo (frame.take length) (s.arp i).2.toList
        | none =>
          park (frame.take length) nextHop
          solicitNeighbour nextHop

/-- Checksum an ICMPv6 message and send it. -/
def sendIcmpv6 (destination : Ip) (message : Bytes) : Daemon Unit := do
  let message ← icmpv6Checksummed destination message
  sendIpv6 destination protocolIcmpv6 message

/-- The solicitation goes out through `send_icmpv6`, as the source writes it: the
recursion of the two ends at the multicast branch. -/
theorem solicitNeighbour_eq (target : Ip) : solicitNeighbour target = (do
    let s ← getStack
    let solicitation ← putAll (zeros 32)
      [(0, [135]), (8, target.toList), (24, [1, 1]), (26, s.mac.toList)]
    sendIcmpv6 (solicitedNode target) solicitation) := by
  funext w
  simp only [solicitNeighbour, sendIcmpv6, sendIpv6]
  rfl

/-- Send `payload` to either family. -/
def sendIp (destination : Ip) (protocol : UInt8) (payload : Bytes) : Daemon Unit :=
  match asV4 destination with
  | some address => sendIpv4 address protocol payload
  | none => sendIpv6 destination protocol payload

/-- Checksum a UDP datagram and send it; a checksum of zero is sent as all ones. -/
def sendUdpDatagram (destination : Ip) (datagram : Bytes) : Daemon Unit := do
  let datagram ← put datagram 6 [0, 0]
  let s ← getStack
  let sum := transportChecksum protocolUdp (sourceFor s destination) destination datagram
  let datagram ← put datagram 6 (be16 (if sum = 0 then 0xFFFF else sum))
  sendIp destination protocolUdp datagram

/-- A UDP datagram of this daemon's own, rather than a client's. -/
def sendDatagram (destination : Ip) (localPort remote : UInt16) (payload : Bytes) :
    Daemon Unit := do
  let length := 8 + payload.length
  let datagram ← putAll (zeros maxDatagram)
    [(0, be16 localPort), (2, be16 remote), (4, be16 (UInt16.ofNat length)), (8, payload)]
  sendUdpDatagram destination (datagram.take length)

end Panda.Net
