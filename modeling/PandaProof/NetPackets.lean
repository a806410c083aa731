import PandaProof.NetCommand

/-!
# The network daemon: frames and the timer

`frame` and everything it calls: ARP, both versions of IP, ICMP, ICMPv6 with its options,
UDP, DHCP, DNS and the receiving side of TCP; and `tick`.  Every index and every slice of
the source is checked here as Rust checks it, so that a length or an offset from the wire
that leaves its packet is a `Fault`.  The loops run over lengths and offsets from the
packet and are plain recursive functions.

`drain` takes up to 64 frames for one notification; here each frame is handled on its own.
-/
namespace Panda.Net

open Function UInt64

def maxRtoTicks : UInt32 := 40
def maxRetries : UInt32 := 6
def requestTicks : UInt32 := 10
def dnsTries : UInt32 := 3
def dhcpCookie : Bytes := [99, 130, 83, 99]
def allNodes : Ip := #v[0xFF, 2, 0, 0, 0, 0, 0, 0, 0, 0, 0, 0, 0, 0, 0, 1]

/-! ## Reading -/

/-- `bytes[at]`. -/
def byte (bytes : Bytes) (k : Nat) : Daemon UInt8 :=
  if h : k < bytes.length then pure bytes[k] else Prog.throw (.index bytes.length k)

/-- `&bytes[start..stop]`. -/
def slice (bytes : Bytes) (start stop : Nat) : Daemon Bytes :=
  if start ≤ stop ∧ stop ≤ bytes.length then pure ((bytes.take stop).drop start)
  else Prog.throw (.range bytes.length start stop)

/-- `bytes.try_into().unwrap()`. -/
def array (n : Nat) (bytes : Bytes) : Daemon (Vector UInt8 n) :=
  if h : bytes.length = n then pure ⟨bytes.toArray, by simpa using h⟩
  else Prog.throw (.conversion n bytes.length)

def readU16 (bytes : Bytes) (k : Nat) : Daemon UInt16 := do
  let a ← byte bytes k
  let b ← byte bytes (k + 1)
  pure ((a.toUInt16 <<< 8) ||| b.toUInt16)

def readU32 (bytes : Bytes) (k : Nat) : Daemon UInt32 := do
  let a ← byte bytes k
  let b ← byte bytes (k + 1)
  let c ← byte bytes (k + 2)
  let d ← byte bytes (k + 3)
  pure (fromBe32 a b c d)

def readIp (bytes : Bytes) (k : Nat) : Daemon Ip := do
  let ip ← slice bytes k (k + 16)
  array 16 ip

/-- `for index in ..`, over the slots of a table. -/
def forSlots {n : Nat} (body : Fin n → Daemon Unit) : List (Fin n) → Daemon Unit
  | [] => pure ()
  | slot :: rest => do
    body slot
    forSlots body rest

/-! ## Neighbours -/

/-- The frame in `slot` goes out if it waits for `address`.  Its array is `MAX_FRAME`
bytes long, so that the MAC always fits it. -/
def release (address : Ip) (mac : Mac) (slot : Fin 2) : Daemon Unit := do
  let s ← getStack
  let waiting := s.waiting slot
  if waiting.nextHop = address then
    let frame := (mac.toList ++ waiting.frame.drop 6).take waiting.frame.length
    emit (.released slot address mac frame)
    modifyStack fun s => { s with
      waiting := update s.waiting slot ⟨frame, unspecified⟩ }
  else pure ()

def learn (address : Ip) (mac : Mac) : Daemon Unit := do
  let s ← getStack
  match position fun i => (s.arp i).1 = address with
  | some i => modifyStack fun s => { s with arp := update s.arp i (address, mac) }
  | none =>
    modifyStack fun s => { s with
      arp := update s.arp s.arpNext (address, mac)
      arpNext := ⟨(s.arpNext.val + 1) % 8, Nat.mod_lt _ (Nat.zero_lt_succ 7)⟩ }
  forSlots (release address mac) (List.finRange 2)

def arp (packet : Bytes) : Daemon Unit := do
  if packet.length < 28 then pure () else
  let hardware ← readU16 packet 0
  let protocol ← readU16 packet 2
  let hardwareLength ← byte packet 4
  let protocolLength ← byte packet 5
  if hardware ≠ 1 ∨ protocol ≠ ethertypeIpv4 ∨ hardwareLength ≠ 6 ∨ protocolLength ≠ 4 then
    pure ()
  else
  let operation ← readU16 packet 6
  let senderMac ← slice packet 8 14
  let senderMac ← array 6 senderMac
  let sender ← readU32 packet 14
  let target ← readU32 packet 24
  let s ← getStack
  -- learned only from traffic that concerns this machine
  if target ≠ s.address then pure () else
  learn (mapped sender) senderMac
  if operation = 1 then
    let reply ← putAll (zeros 42)
      [(0, senderMac.toList), (6, s.mac.toList), (12, be16 ethertypeArp),
        (14, [0, 1, 0x08, 0x00, 6, 4, 0, 2]), (22, s.mac.toList), (28, be32 s.address),
        (32, senderMac.toList), (38, be32 sender)]
    emit (.netSend reply)
  else pure ()

/-! ## ICMP -/

/-- The same message back, as a reply of type `kind`, in an array of `size` bytes. -/
def echoReply (size : Nat) (kind : UInt8) (message : Bytes) : Daemon Bytes := do
  let length := min message.length size
  let echoed ← slice message 0 length
  let reply ← putAll (zeros size) [(0, echoed), (0, [kind])]
  pure (reply.take length)

/-- An echo reply to one of ours. -/
def pong (source : Ip) (word : UInt64) (sequence : UInt16) : Daemon Unit := do
  let s ← getStack
  match position fun i => (s.pings i).sequence = sequence ∧ (s.pings i).address = source with
  | none => pure ()
  | some i =>
    ipcSend (s.pings i).reply tagPong ((s.pings i).token, word, 0, 0)
    modifyStack fun s => { s with
      pings := update s.pings i { s.pings i with sequence := 0 } }

def icmp (source : UInt32) (message : Bytes) : Daemon Unit := do
  if message.length < 8 ∨ checksum message ≠ 0 then pure () else
  let kind ← byte message 0
  if kind = 8 then
    let reply ← echoReply (maxFrame - 34) 0 message
    let reply ← put reply 2 [0, 0]
    let reply ← put reply 2 (be16 (checksum reply))
    sendIpv4 source protocolIcmp reply
  else if kind = 0 then
    let identifier ← readU16 message 4
    if identifier = pingIdentifier then
      let sequence ← readU16 message 6
      pong (mapped source) source.toUInt64 sequence
    else pure ()
  else pure ()

/-! ## DHCP -/

variable (env : Env)

/-- What a DHCP message says. -/
structure DhcpMessage where
  kind : UInt8 := 0
  netmask : UInt32 := 0
  router : UInt32 := 0
  dns : UInt32 := 0
  server : UInt32 := 0

/-- One option of a DHCP message, its value at `value`. -/
def dhcpOption (message : Bytes) (code : UInt8) (length value : Nat) (found : DhcpMessage) :
    Daemon DhcpMessage := do
  if code = 53 ∧ length = 1 then
    let kind ← byte message value
    pure { found with kind := kind }
  else if code = 1 ∧ length = 4 then
    let netmask ← readU32 message value
    pure { found with netmask := netmask }
  else if code = 3 ∧ 4 ≤ length then
    let router ← readU32 message value
    pure { found with router := router }
  else if code = 6 ∧ 4 ≤ length then
    let dns ← readU32 message value
    pure { found with dns := dns }
  else if code = 54 ∧ length = 4 then
    let server ← readU32 message value
    pure { found with server := server }
  else pure found

/-- The options of a DHCP message from `start` on; `none` if one runs off its end. -/
def dhcpMessage (message : Bytes) (start : Nat) (found : DhcpMessage) :
    Daemon (Option DhcpMessage) := do
  if _h : start + 1 < message.length then
    let code ← byte message start
    if code = 255 then pure (some found)
    else if code = 0 then dhcpMessage message (start + 1) found
    else
      let length ← byte message (start + 1)
      let value := start + 2
      if message.length < value + length.toNat then pure none
      else
        let found ← dhcpOption message code length.toNat value found
        dhcpMessage message (value + length.toNat) found
  else pure (some found)
termination_by message.length - start
decreasing_by all_goals omega

/-- Answer those who asked for the configuration before there was one. -/
def answerWaiters (answer : UInt64 → Daemon Unit) : List UInt64 → Daemon Unit
  | [] => pure ()
  | waiter :: rest => do
    if waiter ≠ 0 then answer waiter else pure ()
    answerWaiters answer rest

def dhcpReply (message : Bytes) : Daemon Unit := do
  if message.length < 240 then pure () else
  let operation ← byte message 0
  let transaction ← readU32 message 4
  let hardware ← slice message 28 34
  let cookie ← slice message 236 240
  let s ← getStack
  if operation ≠ 2 ∨ transaction ≠ s.transaction ∨ hardware ≠ s.mac.toList ∨
      cookie ≠ dhcpCookie then
    pure ()
  else
  match ← dhcpMessage message 240 {} with
  | none => pure ()
  | some found =>
    if s.dhcp = .discovering ∧ found.kind = dhcpOffer then
      let offered ← readU32 message 16
      modifyStack fun s => { s with
        offered := offered
        dhcpServer := found.server
        dhcp := .requesting
        dhcpWaited := 0 }
      dhcpSend dhcpRequest
    else if s.dhcp = .requesting ∧ found.kind = dhcpAck then
      modifyStack fun s => { s with
        address := s.offered
        netmask := found.netmask
        gateway := found.router
        offeredDns := found.dns
        dnsServer := if s.dnsPort = 0 ∧ found.dns ≠ 0 then mapped found.dns else s.dnsServer
        dnsPort := if s.dnsPort = 0 ∧ found.dns ≠ 0 then 53 else s.dnsPort
        dhcp := .done
        configWaiters := fun _ => 0 }
      answerWaiters configured ((List.finRange 4).map s.configWaiters)
    else if s.dhcp = .requesting ∧ found.kind = dhcpNak then
      let k ← call
      modifyStack fun s => { s with
        transaction := (env.random k).toUInt32
        dhcp := .discovering
        dhcpWaited := 0 }
      dhcpSend dhcpDiscover
    else pure ()

def dhcpTick : Daemon Unit := do
  let s ← getStack
  if s.dhcp = .done then pure () else
  modifyStack fun s => { s with dhcpWaited := s.dhcpWaited + 1 }
  if requestTicks ≤ s.dhcpWaited + 1 then
    modifyStack fun s => { s with dhcpWaited := 0 }
    dhcpSend (if s.dhcp = .discovering then dhcpDiscover else dhcpRequest)
  else pure ()

/-! ## DNS -/

/-- Past a name in a DNS message; `usize::MAX / 2` if it runs off the end. -/
def skipName (message : Bytes) (start : Nat) : Daemon Nat := do
  if h : start < message.length then
    let length ← byte message start
    if length = 0 then pure (start + 1)
    else if length &&& 0xC0 = 0xC0 then pure (start + 2)
    else skipName message (start + 1 + length.toNat)
  else pure 0x7FFFFFFFFFFFFFFF
termination_by message.length - start
decreasing_by omega

def skipQuestions (message : Bytes) : Nat → Nat → Daemon Nat
  | 0, start => pure start
  | questions + 1, start => do
    let start ← skipName message start
    skipQuestions message questions (start + 4)

/-- The first record that answers `lookup`: its address, an IPv6 one being written over
the start of the lookup's buffer. -/
def findAnswer (lookup : Resolve) (message : Bytes) : Nat → Nat → Daemon (Option UInt64)
  | 0, _ => pure none
  | answers + 1, start => do
    let start ← skipName message start
    if message.length < start + 10 then pure none else
    let length ← readU16 message (start + 8)
    let kind ← readU16 message start
    let family ← readU16 message (start + 2)
    let size := if lookup.kind = 1 then 4 else 16
    if kind = lookup.kind ∧ family = 1 ∧ length.toNat = size ∧
        start + 10 + size ≤ message.length then
      if size = 4 then
        let address ← readU32 message (start + 10)
        pure (some address.toUInt64)
      else
        let address ← slice message (start + 10) message.length
        writeClient lookup.base (address.take 16)
        pure (some ipv6Word)
    else findAnswer lookup message answers (start + 10 + length.toNat)

def dnsReply (slot : Fin 4) (message : Bytes) : Daemon Unit := do
  let s ← getStack
  let lookup := s.resolves slot
  if message.length < 12 then pure () else
  let id ← readU16 message 0
  let flags ← byte message 2
  if id ≠ lookup.id ∨ flags &&& 0x80 = 0 then pure () else
  let flags ← byte message 3
  let code := (flags &&& 0x0F).toUInt64
  let questions ← readU16 message 4
  let answers ← readU16 message 6
  let start ← skipQuestions message questions.toNat 12
  let found ← findAnswer lookup message answers.toNat start
  let (address, status) : UInt64 × UInt64 := if code = 0 then
      match found with
      | some address => (address, resolveFound)
      | none => (0, resolveNoAddress)
    else (0, code)
  modifyStack fun s => { s with resolves := update s.resolves slot {} }
  ipcSend lookup.reply tagResolved (lookup.token, address, status, 0)

/-- One lookup at a tick of the timer. -/
def dnsTickSlot (slot : Fin 4) : Daemon Unit := do
  let s ← getStack
  let lookup := s.resolves slot
  if lookup.id = 0 then pure ()
  else if lookup.waited + 1 < requestTicks then
    modifyStack fun s => { s with
      resolves := update s.resolves slot { lookup with waited := lookup.waited + 1 } }
  else if dnsTries < lookup.tries + 1 then
    modifyStack fun s => { s with resolves := update s.resolves slot {} }
    ipcSend lookup.reply tagResolved (lookup.token, 0, resolveTimedOut, 0)
  else
    modifyStack fun s => { s with
      resolves := update s.resolves slot { lookup with waited := 0, tries := lookup.tries + 1 } }
    let _ ← dnsQuery env slot

def dnsTick : Daemon Unit := forSlots (dnsTickSlot env) (List.finRange 4)

/-! ## UDP -/

/-- The lookup a port belongs to: `port.checked_sub(dns_local_port)`, below `RESOLVERS`. -/
def lookupSlot (s : Stack) (port : UInt16) : Option (Fin 4) :=
  if h : s.dnsLocalPort ≤ port ∧ (port - s.dnsLocalPort).toNat < 4 then
    some ⟨(port - s.dnsLocalPort).toNat, h.2⟩
  else none

/-- A datagram for a client's port, into the client's buffer; an IPv6 source goes ahead
of the payload. -/
def deliver (source : Ip) (sourcePort port : UInt16) (payload : Bytes) : Daemon Unit := do
  let s ← getStack
  match position fun i => (s.bindings i).port = port ∧ (s.bindings i).base ≠ 0 with
  | none => pure ()
  | some i =>
    let binding := s.bindings i
    let skip : UInt64 := if (asV4 source).isSome then 0 else 16
    if binding.size < skip then pure () else
    let room ← subtract binding.size skip
    let taken := min (ofNat payload.length) room
    writeClient binding.base (source.toList.take skip.toNat)
    writeClient (binding.base + skip) (payload.take taken.toNat)
    let sender : UInt64 := ((asV4 source).map UInt32.toUInt64).getD ipv6Word
    ipcSend binding.reply tagDatagram (taken, sender, sourcePort.toUInt64, port.toUInt64)

def udp (source destination : Ip) (datagram : Bytes) : Daemon Unit := do
  if datagram.length < 8 then pure () else
  let v4 := (asV4 source).isSome
  if v4 = false ∧ transportChecksum protocolUdp source destination datagram ≠ 0 then pure () else
  let sourcePort ← readU16 datagram 0
  let port ← readU16 datagram 2
  let stated ← readU16 datagram 4
  -- `clamp(8, datagram.len())`
  let length := min (max stated.toNat 8) datagram.length
  let payload ← slice datagram 8 length
  let s ← getStack
  if v4 = true ∧ port = dhcpClientPort ∧ s.dhcp ≠ .done then dhcpReply env payload else
  match lookupSlot s port with
  | some slot =>
    if (s.resolves slot).id ≠ 0 ∧ source = s.dnsServer ∧ sourcePort = s.dnsPort then
      dnsReply slot payload
    else pure ()
  | none => deliver source sourcePort port payload

/-! ## TCP -/

/-- What was in flight has been acknowledged. -/
def flightLanded (index : Fin 8) : Daemon Unit := do
  let s ← getStack
  let connection := s.connections index
  modifyConnection index fun c => { c with
    unacknowledged := c.nextSend, flightFlags := 0, flightLength := 0 }
  if connection.flightFlags &&& fin ≠ 0 then
    match connection.state with
    | .finWait1 => modifyConnection index fun c => { c with state := .finWait2 }
    | .closing | .lastAck => finish index closedFinished
    | _ => pure ()
  else
    if 0 < connection.flightLength then
      tell index tagTcpSent (ofNat index, connection.flightLength, 0, 0)
    else pure ()
    if connection.closeRequested = true ∧ connection.IsOpen then
      modifyConnection index fun c => { c with closeRequested := false }
      sendFin env index
    else pure ()

def announceOpen (index : Fin 8) : Daemon Unit := do
  let s ← getStack
  let c := s.connections index
  if asV4 c.remote = none ∧ 16 ≤ c.size then writeClient c.base c.remote.toList else pure ()
  let remote : UInt64 := ((asV4 c.remote).map UInt32.toUInt64).getD ipv6Word
  tell index tagTcpOpen (ofNat index, remote, c.remotePort.toUInt64, c.localPort.toUInt64)

/-- A segment that arrived, its header read. -/
structure Incoming where
  sequence : UInt32
  acknowledgement : UInt32
  flags : UInt8
  payload : Bytes

/-- A segment with data or a FIN. -/
abbrev Incoming.Full (segment : Incoming) : Prop :=
  segment.payload ≠ [] ∨ segment.flags &&& fin ≠ 0

/-- The states in which the peer's data is taken. -/
def receiving (state : ConnState) : Bool :=
  state = .established ∨ state = .finWait1 ∨ state = .finWait2

/-- The data of a segment is next in order, the client has read its buffer, and the data
fits it. -/
def Takes (c : Connection) (segment : Incoming) : Prop :=
  segment.sequence = c.nextReceive ∧ c.delivered = false ∧
    c.filled + ofNat segment.payload.length ≤ c.size

instance (c : Connection) (segment : Incoming) : Decidable (Takes c segment) :=
  inferInstanceAs (Decidable (_ ∧ _))

/-- Such data goes into the client's buffer. -/
def takeData (index : Fin 8) (segment : Incoming) : Daemon Bool := do
  let s ← getStack
  let c := s.connections index
  let length := ofNat segment.payload.length
  if Takes c segment then
    writeClient (c.base + c.filled) segment.payload
    modifyConnection index fun c => { c with
      filled := c.filled + length
      nextReceive := c.nextReceive + UInt32.ofNat segment.payload.length
      delivered := true }
    tell index tagTcpData (ofNat index, c.filled + length, 0, 0)
    pure true
  else pure false

/-- Whether a segment's data is accepted; a segment without data always is. -/
def acceptData (index : Fin 8) (segment : Incoming) (receives : Bool) : Daemon Bool :=
  if segment.payload ≠ [] ∧ receives = true then takeData index segment
  else pure (decide (segment.payload = []))

/-- The peer's FIN, in order or not. -/
def takeFin (index : Fin 8) (segment : Incoming) (receives accepted : Bool) : Daemon Unit := do
  let s ← getStack
  let connection := s.connections index
  let finInOrder := segment.flags &&& fin ≠ 0 ∧ accepted = true ∧
    segment.sequence + UInt32.ofNat segment.payload.length = connection.nextReceive
  if finInOrder ∧ receives = true then
    modifyConnection index fun c => { c with nextReceive := connection.nextReceive + 1 }
    sendAck index
    match connection.state with
    | .established =>
      modifyConnection index fun c => { c with state := .closeWait }
      tell index tagTcpClosed (ofNat index, closedPeerFinished, 0, 0)
    | .finWait1 => modifyConnection index fun c => { c with state := .closing }
    | _ => finish index closedFinished
  else if segment.Full then
    -- taken or not, say where this side is
    sendAck index
  else pure ()

/-- The end of `tcp`: the segment's data and its FIN. -/
def tcpData (index : Fin 8) (segment : Incoming) : Daemon Unit := do
  let s ← getStack
  let receives := receiving (s.connections index).state
  let accepted ← acceptData index segment receives
  takeFin index segment receives accepted

/-- A reset is believed only at the expected place, so a blind guess cannot tear a
connection down. -/
def Believed (c : Connection) (segment : Incoming) : Prop :=
  if c.state = .synSent then
    segment.flags &&& ack ≠ 0 ∧ segment.acknowledgement = c.nextSend
  else segment.sequence = c.nextReceive

instance (c : Connection) (segment : Incoming) : Decidable (Believed c segment) := by
  unfold Believed
  infer_instance

/-- A segment acknowledges what is in flight. -/
def Acknowledges (c : Connection) (segment : Incoming) : Prop :=
  segment.flags &&& ack ≠ 0 ∧ c.unacknowledged ≠ c.nextSend ∧ segment.acknowledgement = c.nextSend

instance (c : Connection) (segment : Incoming) : Decidable (Acknowledges c segment) :=
  inferInstanceAs (Decidable (_ ∧ _))

/-- A segment for a connection. -/
def tcpConnection (index : Fin 8) (segment : Incoming) : Daemon Unit := do
  let s ← getStack
  let connection := s.connections index
  if segment.flags &&& rst ≠ 0 then
    if Believed connection segment then finish index closedReset else pure ()
  else
  match connection.state with
  | .synSent =>
    if segment.flags &&& (syn ||| ack) = syn ||| ack ∧
        segment.acknowledgement = connection.nextSend then
      modifyConnection index fun c => { c with
        nextReceive := segment.sequence + 1, state := .established }
      flightLanded env index
      sendAck index
      announceOpen index
    else pure ()
  | .synReceived =>
    if segment.flags &&& ack = 0 ∨ segment.acknowledgement ≠ connection.nextSend then pure ()
    else
      modifyConnection index fun c => { c with state := .established }
      flightLanded env index
      announceOpen index
      tcpData index segment
  | _ =>
    if Acknowledges connection segment then
      flightLanded env index
      tcpData index segment
    else tcpData index segment

/-- A SYN for a port someone is listening on becomes a connection. -/
def accept (source : Ip) (remotePort localPort : UInt16) (sequence : UInt32) : Daemon Bool := do
  let s ← getStack
  match position fun i => (s.listeners i).port = localPort ∧ (s.listeners i).base ≠ 0 with
  | none => pure false
  | some listener =>
    match position fun i => (s.connections i).state = .free with
    | none => pure false
    | some index =>
      let listening := s.listeners listener
      modifyStack fun s => { s with listeners := update s.listeners listener {} }
      let k ← call
      let start := (env.random k).toUInt32
      modifyConnection index fun _ => {
        state := .synReceived
        owner := listening.owner
        reply := listening.reply
        remote := source
        remotePort := remotePort
        localPort := localPort
        base := listening.base
        size := listening.size
        unacknowledged := start
        nextSend := start
        nextReceive := sequence + 1 }
      startFlight env index syn 0 0
      pure true

/-- A segment that belongs to no connection, on record. -/
def refuse (destination : Ip) (localPort remotePort : UInt16) (sequence acknowledgement : UInt32)
    (flags : UInt8) : Daemon Unit := do
  emit (.refusal ⟨destination, localPort, remotePort, acknowledgement, flags⟩)
  segment destination localPort remotePort sequence acknowledgement flags 0 []

/-- A segment for no connection: accepted, or refused in the form RFC 793 asks for. -/
def tcpUnknown (source : Ip) (remotePort localPort : UInt16) (segment : Incoming) :
    Daemon Unit := do
  if segment.flags &&& rst ≠ 0 then pure () else
  let accepted ← if segment.flags &&& syn ≠ 0 ∧ segment.flags &&& ack = 0 then
      accept env source remotePort localPort segment.sequence
    else pure false
  if accepted = true then pure ()
  else if segment.flags &&& ack ≠ 0 then
    refuse source localPort remotePort segment.acknowledgement 0 rst
  else
    let length := UInt32.ofNat segment.payload.length +
      if segment.flags &&& (syn ||| fin) ≠ 0 then 1 else 0
    refuse source localPort remotePort 0 (segment.sequence + length) (rst ||| ack)

/-- The connection a segment belongs to. -/
def matching (s : Stack) (source : Ip) (remotePort localPort : UInt16) : Option (Fin 8) :=
  position fun i => (s.connections i).state ≠ .free ∧ (s.connections i).remote = source ∧
    (s.connections i).remotePort = remotePort ∧ (s.connections i).localPort = localPort

def tcp (source destination : Ip) (segment : Bytes) : Daemon Unit := do
  if segment.length < 20 ∨ transportChecksum protocolTcp source destination segment ≠ 0 then
    pure ()
  else
  let remotePort ← readU16 segment 0
  let localPort ← readU16 segment 2
  let sequence ← readU32 segment 4
  let acknowledgement ← readU32 segment 8
  let offset ← byte segment 12
  let offset := (offset >>> 4).toNat * 4
  let flags ← byte segment 13
  if offset < 20 ∨ segment.length < offset then pure () else
  let payload ← slice segment offset segment.length
  let incoming : Incoming := ⟨sequence, acknowledgement, flags, payload⟩
  let s ← getStack
  match matching s source remotePort localPort with
  | none => tcpUnknown env source remotePort localPort incoming
  | some index => tcpConnection env index incoming

/-! ## IPv4 -/

def ipv4 (packet : Bytes) : Daemon Unit := do
  if packet.length < 20 then pure () else
  let first ← byte packet 0
  let header := (first &&& 0x0F).toNat * 4
  let total ← readU16 packet 2
  if first >>> 4 ≠ 4 ∨ header < 20 ∨ total.toNat < header ∨ packet.length < total.toNat then
    pure ()
  else
  let head ← slice packet 0 header
  -- fragments are not reassembled
  let fragment ← readU16 packet 6
  if checksum head ≠ 0 ∨ fragment &&& 0x3FFF ≠ 0 then pure () else
  let destination ← readU32 packet 16
  let s ← getStack
  if destination ≠ s.address ∧ destination ≠ 0xFFFFFFFF ∧ s.address ≠ 0 then pure () else
  let source ← readU32 packet 12
  let payload ← slice packet header total.toNat
  let protocol ← byte packet 9
  if protocol = protocolIcmp then icmp source payload
  else if protocol = protocolUdp then udp env (mapped source) (mapped destination) payload
  else if protocol = protocolTcp then tcp env (mapped source) (mapped destination) payload
  else pure ()

/-! ## IPv6 -/

/-- The options neighbour discovery carries, from `start` on: each one's kind and the
whole option.  Stops at one that claims no length or runs off the end. -/
def options (bytes : Bytes) (start : Nat) : Daemon (List (UInt8 × Bytes)) := do
  match bytes[start + 1]? with
  | none => pure []
  | some units =>
    let length := units.toNat * 8
    if _h : length = 0 ∨ bytes.length < start + length then pure []
    else
      let option ← slice bytes start (start + length)
      let kind ← byte option 0
      let rest ← options bytes (start + length)
      pure ((kind, option) :: rest)
termination_by bytes.length - start
decreasing_by omega

/-- The link-layer address of an option: `option[2..8].try_into().unwrap()`. -/
def optionMac (option : Bytes) : Daemon Mac := do
  let mac ← slice option 2 8
  array 6 mac

/-- What a router advertises: a network of 64 bits and a DNS server. -/
structure Advertised where
  network : Option Ip := none
  dns : Ip := unspecified

/-- The options of a router advertisement, in turn. -/
def routerOptions (source : Ip) : List (UInt8 × Bytes) → Advertised → Daemon Advertised
  | [], found => pure found
  | (kind, option) :: rest, found => do
    if kind = 1 ∧ 8 ≤ option.length then
      let mac ← optionMac option
      learn source mac
      routerOptions source rest found
    else if kind = 3 ∧ 32 ≤ option.length then
      let length ← byte option 2
      if length = 64 then
        let network ← readIp option 16
        routerOptions source rest { found with network := some network }
      else routerOptions source rest found
    else if kind = 25 ∧ 24 ≤ option.length then
      let dns ← readIp option 8
      routerOptions source rest { found with dns := dns }
    else routerOptions source rest found

def routerAdvertisement (source : Ip) (message : Bytes) : Daemon Unit := do
  let bytes ← slice message 16 message.length
  let list ← options bytes 0
  let found ← routerOptions source list {}
  match found.network with
  | none => pure ()
  | some network =>
    let s ← getStack
    modifyStack fun s => { s with
      router6 := source
      -- the router's half of the address, and this machine's
      global6 := if s.global6 = unspecified then
          .ofFn fun i => if i.val < 8 then network.get i else s.linkLocal.get i
        else s.global6
      dns6 := if found.dns ≠ unspecified then found.dns else s.dns6
      dnsServer := if found.dns ≠ unspecified ∧ s.dnsPort = 0 then found.dns else s.dnsServer
      dnsPort := if found.dns ≠ unspecified ∧ s.dnsPort = 0 then 53 else s.dnsPort
      config6Waiters := fun _ => 0 }
    answerWaiters configured6 ((List.finRange 4).map s.config6Waiters)

/-- The first option of a kind that holds a link-layer address. -/
def findOption (kind : UInt8) (list : List (UInt8 × Bytes)) : Option Bytes :=
  (list.find? fun o => o.1 = kind ∧ 8 ≤ o.2.length).map Prod.snd

/-- Learn `address` from the link-layer option of a neighbour message. -/
def learnOption (kind : UInt8) (address : Ip) (message : Bytes) : Daemon Unit := do
  let bytes ← slice message 24 message.length
  let list ← options bytes 0
  match findOption kind list with
  | none => pure ()
  | some option =>
    let mac ← optionMac option
    learn address mac

/-- The answer to a solicitation: solicited and override, unless it came from nobody in
particular, in which case the answer goes to everyone. -/
def advertise (source target : Ip) : Daemon Unit := do
  let s ← getStack
  let advert ← putAll (zeros 32)
    [(0, [136]), (4, [if source = unspecified then 0x20 else 0x60]), (8, target.toList),
      (24, [2, 1]), (26, s.mac.toList)]
  sendIcmpv6 (if source = unspecified then allNodes else source) advert

def neighbourSolicitation (source : Ip) (message : Bytes) : Daemon Unit := do
  let target ← readIp message 8
  let s ← getStack
  if target ≠ s.linkLocal ∧ (target ≠ s.global6 ∨ s.global6 = unspecified) then pure ()
  else if source ≠ unspecified then
    learnOption 1 source message
    advertise source target
  else advertise source target

def neighbourAdvertisement (message : Bytes) : Daemon Unit := do
  let target ← readIp message 8
  learnOption 2 target message

def icmpv6 (source destination : Ip) (hopLimit : UInt8) (message : Bytes) : Daemon Unit := do
  if message.length < 8 ∨ transportChecksum protocolIcmpv6 source destination message ≠ 0 then
    pure ()
  else
  -- a router would have spent a hop
  let fromLink := hopLimit = 255
  let kind ← byte message 0
  if kind = 128 then
    let reply ← echoReply (maxFrame - 54) 129 message
    sendIcmpv6 source reply
  else if kind = 129 then
    let identifier ← readU16 message 4
    if identifier = pingIdentifier then
      let sequence ← readU16 message 6
      pong source ipv6Word sequence
    else pure ()
  else if kind = 134 ∧ fromLink ∧ isLinkLocal source = true ∧ 16 ≤ message.length then
    routerAdvertisement source message
  else if kind = 135 ∧ fromLink ∧ 24 ≤ message.length then neighbourSolicitation source message
  else if kind = 136 ∧ fromLink ∧ 24 ≤ message.length then neighbourAdvertisement message
  else pure ()

/-- Whether a packet is for this machine.  The global address shares its last 24 bits
with the link-local one, so one solicited-node group covers both. -/
def ours (s : Stack) (destination : Ip) : Prop :=
  destination = s.linkLocal ∨ (destination = s.global6 ∧ s.global6 ≠ unspecified) ∨
    destination = allNodes ∨ destination = solicitedNode s.linkLocal

instance (s : Stack) (destination : Ip) : Decidable (ours s destination) :=
  inferInstanceAs (Decidable (_ ∨ _))

def ipv6 (packet : Bytes) : Daemon Unit := do
  if packet.length < 40 then pure () else
  let first ← byte packet 0
  let length ← readU16 packet 4
  if first >>> 4 ≠ 6 ∨ packet.length < 40 + length.toNat then pure () else
  let nextHeader ← byte packet 6
  let hopLimit ← byte packet 7
  let source ← readIp packet 8
  let destination ← readIp packet 24
  let s ← getStack
  if ¬ ours s destination then pure () else
  let payload ← slice packet 40 (40 + length.toNat)
  if nextHeader = protocolIcmpv6 then icmpv6 source destination hopLimit payload
  else if nextHeader = protocolUdp then udp env source destination payload
  else if nextHeader = protocolTcp then tcp env source destination payload
  else pure ()

def frame (bytes : Bytes) : Daemon Unit := do
  if bytes.length < 14 then pure () else
  let kind ← readU16 bytes 12
  let packet ← slice bytes 14 bytes.length
  if kind = ethertypeArp then arp packet
  else if kind = ethertypeIpv4 then ipv4 env packet
  else if kind = ethertypeIpv6 then ipv6 env packet
  else pure ()

/-! ## The timer -/

def solicitTick : Daemon Unit := do
  let s ← getStack
  if s.global6 ≠ unspecified ∨ solicitations ≤ s.solicited then pure () else
  modifyStack fun s => { s with solicitWaited := s.solicitWaited + 1 }
  if requestTicks ≤ s.solicitWaited + 1 then
    modifyStack fun s => { s with solicitWaited := 0, solicited := s.solicited + 1 }
    solicitRouter
  else pure ()

/-- One connection at a tick: what has waited too long is sent again, and what has been
sent too often is given up. -/
def tickConnection (index : Fin 8) : Daemon Unit := do
  let s ← getStack
  let connection := s.connections index
  if connection.state = .free ∨ connection.unacknowledged = connection.nextSend then pure ()
  else
    modifyConnection index fun c => { c with waited := c.waited + 1 }
    if connection.waited + 1 < connection.timeout then pure ()
    else
      modifyConnection index fun c => { c with retries := c.retries + 1 }
      if maxRetries < connection.retries + 1 then
        sendReset index
        finish index closedTimedOut
      else
        modifyConnection index fun c => { c with
          waited := 0, timeout := min (c.timeout * 2) maxRtoTicks }
        transmit env index

/-- Resend what has waited too long, and give up on what has been resent too often. -/
def tick : Daemon Unit := do
  modifyStack fun s => { s with timerArmed := false }
  dhcpTick
  dnsTick env
  solicitTick
  forSlots (tickConnection env) (List.finRange 8)
  armTimer env

end Panda.Net
