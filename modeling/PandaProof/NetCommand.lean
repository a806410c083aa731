import PandaProof.NetStack

/-!
# The network daemon: start-up and client commands

What `main` does before its loop, and `command` with everything it calls: the mappings
table, pings, UDP, the client side of TCP, and lookups.  A command's four words and its
sender are arbitrary.
-/
namespace Panda.Net

open Function

/-! ## Tags and statuses -/

def tagPing : UInt64 := 1
def tagPong : UInt64 := 2
def tagUdpBind : UInt64 := 3
def tagDatagram : UInt64 := 4
def tagUdpSend : UInt64 := 5
def tagTcpConnect : UInt64 := 6
def tagTcpListen : UInt64 := 7
@[simp] def tagTcpOpen : UInt64 := 8
def tagTcpSend : UInt64 := 9
@[simp] def tagTcpSent : UInt64 := 10
@[simp] def tagTcpData : UInt64 := 11
def tagTcpConsumed : UInt64 := 12
def tagTcpClose : UInt64 := 13
@[simp] def tagTcpClosed : UInt64 := 14
def tagNetConfig : UInt64 := 15
def tagNetConfigured : UInt64 := 16
def tagResolve : UInt64 := 17
@[simp] def tagResolved : UInt64 := 18
def tagNetConfig6 : UInt64 := 19
def tagNetConfigured6 : UInt64 := 20
def tagResolve6 : UInt64 := 21

def closedPeerFinished : UInt64 := 0
def closedFinished : UInt64 := 1
def closedReset : UInt64 := 2
def closedTimedOut : UInt64 := 3
def closedNoRoom : UInt64 := 4

def resolveFound : UInt64 := 0
def resolveNoAddress : UInt64 := 0x100
def resolveTimedOut : UInt64 := 0x101
def resolveBadName : UInt64 := 0x102

def dhcpDiscover : UInt8 := 1
def dhcpOffer : UInt8 := 2
def dhcpRequest : UInt8 := 3
def dhcpAck : UInt8 := 5
def dhcpNak : UInt8 := 6
def dhcpClientPort : UInt16 := 68
def dhcpServerPort : UInt16 := 67

/-- A message of the daemon's own. -/
def ipcSend (endpoint : UInt64) (tag : UInt64) (words : Words) : Daemon Unit :=
  emit (.ipcSend endpoint ⟨tag, words, 0⟩)

variable (env : Env)

/-! ## The timer -/

def armTimer : Daemon Unit := do
  let s ← getStack
  let waiting := (∃ i, (s.connections i).state ≠ .free ∧
      (s.connections i).unacknowledged ≠ (s.connections i).nextSend) ∨
    s.dhcp ≠ .done ∨ (∃ i, (s.resolves i).id ≠ 0) ∨
    (s.global6 = unspecified ∧ s.solicited < solicitations)
  if waiting ∧ s.timerArmed = false then
    let k ← call
    if env.timerSet k then modifyStack fun s => { s with timerArmed := true } else pure ()
  else pure ()

/-! ## Start-up -/

/-- The `Stack` that `main` builds; `dns` is the parameter `address << 16 | port`. -/
def Stack.start (mac : Mac) (control : UInt64) (address gateway netmask : UInt32) (dns : UInt64)
    (nextPort : UInt16) (transaction : UInt32) (dnsLocalPort : UInt16) : Stack where
  mac := mac
  address := address
  gateway := gateway
  netmask := netmask
  arp := fun _ => (unspecified, .replicate 6 0)
  arpNext := 0
  waiting := fun _ => ⟨[], unspecified⟩
  pings := fun _ => {}
  nextSequence := 1
  bindings := fun _ => {}
  mappings := fun _ => ⟨0, .none⟩
  nextIdentification := 1
  control := control
  connections := fun _ => {}
  listeners := fun _ => {}
  timerArmed := false
  nextPort := nextPort
  dhcp := .done
  dhcpWaited := 0
  transaction := transaction
  offered := 0
  dhcpServer := 0
  offeredDns := 0
  configWaiters := fun _ => 0
  dnsServer := mapped (dns >>> 16).toUInt32
  dnsPort := dns.toUInt16
  resolves := fun _ => {}
  dnsLocalPort := dnsLocalPort
  linkLocal := #v[0xFE, 0x80, 0, 0, 0, 0, 0, 0, mac[0] ^^^ 2, mac[1], mac[2], 0xFF, 0xFE,
    mac[3], mac[4], mac[5]]
  global6 := unspecified
  router6 := unspecified
  dns6 := unspecified
  solicited := 1
  solicitWaited := 0
  config6Waiters := fun _ => 0

def allRouters : Ip := #v[0xFF, 2, 0, 0, 0, 0, 0, 0, 0, 0, 0, 0, 0, 0, 0, 2]

def solicitRouter : Daemon Unit := do
  let s ← getStack
  let solicitation ← putAll (zeros 16) [(0, [133]), (8, [1, 1]), (10, s.mac.toList)]
  sendIcmpv6 allRouters solicitation

/-- The options of a DHCP message. -/
def dhcpOptions (s : Stack) (kind : UInt8) : Bytes :=
  [53, 1, kind] ++
    (if kind = dhcpRequest then [50, 4] ++ be32 s.offered ++ [54, 4] ++ be32 s.dhcpServer
      else []) ++
    [55, 3, 1, 3, 6, 255]

def dhcpSend (kind : UInt8) : Daemon Unit := do
  let s ← getStack
  let message ← putAll (zeros 300)
    [(0, [1, 1, 6, 0]), (4, be32 s.transaction), (10, be16 0x8000), (28, s.mac.toList),
      (236, [99, 130, 83, 99])]
  let options ← put (zeros 32) 0 (dhcpOptions s kind)
  let message ← put message 240 (options.take (dhcpOptions s kind).length)
  sendDatagram (mapped 0xFFFFFFFF) dhcpClientPort dhcpServerPort message

/-- What `main` does between building its `Stack` and its first frame or message. -/
def boot : Daemon Unit := do
  solicitRouter
  armTimer env
  let s ← getStack
  if s.address = 0 then
    modifyStack fun s => { s with dhcp := .discovering }
    dhcpSend dhcpDiscover
    armTimer env
  else pure ()

/-! ## Client buffers -/

/-- Whether anything still in use reads or writes the buffer mapped at `base`. -/
def refersTo (s : Stack) (base : UInt64) : Prop :=
  (∃ i, (s.bindings i).base = base) ∨ (∃ i, (s.listeners i).base = base) ∨
    (∃ i, (s.connections i).state ≠ .free ∧
      ((s.connections i).base = base ∨ (s.connections i).flightBase = base)) ∨
    ∃ i, (s.resolves i).id ≠ 0 ∧ (s.resolves i).base = base

instance (s : Stack) (base : UInt64) : Decidable (refersTo s base) :=
  inferInstanceAs (Decidable (_ ∨ _))

/-- The end of `mapping`: map the buffer and enter it at `slot`. -/
def mapInto (slot : Fin 8) (buffer : UInt64) : Daemon (Option Region) := do
  let k ← call
  match env.bufferMap k buffer with
  | none => pure none
  | some region =>
    let k ← call
    if env.bufferInfo k buffer then
      modifyStack fun s => { s with mappings := update s.mappings slot ⟨buffer, region⟩ }
      pure (some region)
    else
      emit (.bufferUnmap buffer)
      pure none

/-- A buffer the client shared, mapped into this process once.  With the table full, one
that nothing refers to any more is given up for it. -/
def mapping (buffer : UInt64) : Daemon (Option Region) := do
  let s ← getStack
  match position fun i => (s.mappings i).handle = buffer with
  | some i => pure (some (s.mappings i).region)
  | none =>
    match position fun i => (s.mappings i).handle = 0 with
    | some slot => mapInto env slot buffer
    | none =>
      match position fun i => ¬ refersTo s (s.mappings i).region.base with
      | none => pure none
      | some slot =>
        emit (.bufferUnmap (s.mappings slot).handle)
        modifyStack fun s => { s with mappings := update s.mappings slot ⟨0, .none⟩ }
        mapInto env slot buffer

/-- The address in the first 16 bytes of a buffer. -/
def ipOfBytes (bytes : Bytes) : Ip := .ofFn fun i => bytes.getD i 0

/-- The address a client named: a word for IPv4, or `IPV6` and the 16 bytes at the start
of `buffer`. -/
def namedAddress (word buffer : UInt64) : Daemon (Option Ip) := do
  if word ≠ ipv6Word then pure (some (mapped word.toUInt32))
  else
    match ← mapping env buffer with
    | none => pure none
    | some region =>
      if 16 ≤ region.size then
        let bytes ← readClient env region.base 16
        pure (some (ipOfBytes bytes))
      else pure none

/-! ## Pings and UDP -/

/-- `b'a' + (index % 26)`, 32 of them. -/
def echoData : Bytes := (List.range 32).map fun i => 97 + UInt8.ofNat (i % 26)

def ping (word reply token buffer : UInt64) : Daemon Unit := do
  match ← namedAddress env word buffer with
  | none => pure ()
  | some address =>
    let s ← getStack
    match position fun i => (s.pings i).sequence = 0 with
    | none => pure ()
    | some slot =>
      let sequence := s.nextSequence
      modifyStack fun s => { s with
        nextSequence := max (s.nextSequence + 1) 1
        pings := update s.pings slot ⟨token, reply, address, sequence⟩ }
      let echo ← putAll (zeros 40) [(4, be16 pingIdentifier), (6, be16 sequence), (8, echoData)]
      match asV4 address with
      | some v4 =>
        let echo ← put echo 0 [8]
        let echo ← put echo 2 (be16 (checksum echo))
        sendIpv4 v4 protocolIcmp echo
      | none =>
        let echo ← put echo 0 [128]
        sendIcmpv6 address echo

def bind (port : UInt16) (reply buffer : UInt64) : Daemon Unit := do
  match ← mapping env buffer with
  | none => pure ()
  | some region =>
    let s ← getStack
    match position fun i => (s.bindings i).port = port ∨ (s.bindings i).base = 0 with
    | none => pure ()
    | some slot =>
      modifyStack fun s => { s with
        bindings := update s.bindings slot ⟨port, reply, region.base, region.size⟩ }

def sendUdp (buffer length word : UInt64) (localPort remote : UInt16) : Daemon Unit := do
  let found ← mapping env buffer
  let named ← namedAddress env word buffer
  match found, named with
  | some region, some destination =>
    -- for IPv6 the payload follows the address
    let skip : UInt64 := if word = ipv6Word then 16 else 0
    let room : UInt64 := UInt64.ofNat (if skip = 0 then maxFrame - 34 else maxFrame - 54)
    if region.size < skip + length ∨ room < 8 + length then pure ()
    else
      let datagram ← putAll (zeros (maxFrame - 34))
        [(0, be16 localPort), (2, be16 remote), (4, be16 (8 + length).toUInt16)]
      let payload ← readClient env (region.base + skip) length
      let datagram ← put datagram 8 payload
      sendUdpDatagram destination (datagram.take (8 + length).toNat)
  | _, _ => pure ()

/-! ## TCP -/

def mss (remote : Ip) : Nat := if (asV4 remote).isSome then tcpMss else tcpMssV6

/-- Change one connection. -/
def modifyConnection (index : Fin 8) (f : Connection → Connection) : Daemon Unit :=
  modifyStack fun s => { s with
    connections := update s.connections index (f (s.connections index)) }

/-- What `segment` writes, the header being so long. -/
abbrev segmentParts (destination : Ip) (localPort remotePort : UInt16)
    (sequence acknowledgement : UInt32) (flags : UInt8) (window : UInt16) (header : Nat)
    (payload : Bytes) : List (Nat × Bytes) :=
  [(0, be16 localPort), (2, be16 remotePort), (4, be32 sequence)] ++
    (if flags &&& ack ≠ 0 then [(8, be32 acknowledgement)] else []) ++
    [(12, [(UInt8.ofNat header / 4) <<< 4]), (13, [flags]), (14, be16 window)] ++
    (if header = 24 then [(20, [2, 4]), (22, be16 (UInt16.ofNat (mss destination)))] else []) ++
    [(header, payload)]

def segment (destination : Ip) (localPort remotePort : UInt16) (sequence acknowledgement : UInt32)
    (flags : UInt8) (window : UInt16) (payload : Bytes) : Daemon Unit := do
  -- a SYN carries one option: the largest segment this side takes
  let header : Nat := if flags &&& syn ≠ 0 then 24 else 20
  let bytes ← putAll (zeros (24 + tcpMss)) (segmentParts destination localPort remotePort sequence
    acknowledgement flags window header payload)
  let length := header + payload.length
  let s ← getStack
  let sum := transportChecksum protocolTcp (sourceFor s destination) destination (bytes.take length)
  let bytes ← put bytes 16 (be16 sum)
  sendIp destination protocolTcp (bytes.take length)

def connectionSegment (index : Fin 8) (sequence : UInt32) (flags : UInt8) (payload : Bytes) :
    Daemon Unit := do
  let s ← getStack
  let c := s.connections index
  -- shut while the client has data to read
  let window : UInt16 ← if c.delivered then pure 0
    else do
      let room ← subtract c.size c.filled
      pure (min room 0xFFFF).toUInt16
  emit (.segment c flags)
  segment c.remote c.localPort c.remotePort sequence c.nextReceive flags window payload

def sendAck (index : Fin 8) : Daemon Unit := do
  let s ← getStack
  connectionSegment index (s.connections index).nextSend ack []

def sendReset (index : Fin 8) : Daemon Unit := do
  let s ← getStack
  connectionSegment index (s.connections index).nextSend rst []

def transmit (index : Fin 8) : Daemon Unit := do
  let s ← getStack
  let c := s.connections index
  let flags := if c.state ≠ .synSent then c.flightFlags ||| ack else c.flightFlags
  let data ← readClient env c.flightBase c.flightLength
  let payload ← put (zeros tcpMss) 0 data
  connectionSegment index c.unacknowledged flags (payload.take data.length)

/-- The connection with this in flight. -/
def launched (c : Connection) (flags : UInt8) (base length : UInt64) : Connection :=
  { c with
    unacknowledged := c.nextSend
    nextSend := c.nextSend + (length.toUInt32 + if flags &&& (syn ||| fin) ≠ 0 then 1 else 0)
    flightFlags := flags
    flightBase := base
    flightLength := length
    waited := 0
    timeout := firstRtoTicks
    retries := 0 }

/-- Put something in flight and send it. -/
def startFlight (index : Fin 8) (flags : UInt8) (base length : UInt64) : Daemon Unit := do
  modifyConnection index fun c => launched c flags base length
  transmit env index
  armTimer env

def tell (index : Fin 8) (tag : UInt64) (words : Words) : Daemon Unit := do
  let s ← getStack
  ipcSend (s.connections index).reply tag words

/-- The connection is over: tell its owner why and free the slot. -/
def finish (index : Fin 8) (reason : UInt64) : Daemon Unit := do
  tell index tagTcpClosed (UInt64.ofNat index, reason, 0, 0)
  modifyConnection index fun _ => {}

def connect (owner word : UInt64) (localPort remotePort : UInt16) (reply buffer : UInt64) :
    Daemon Unit := do
  let found ← mapping env buffer
  let named ← namedAddress env word buffer
  match found, named with
  | some region, some address =>
    let s ← getStack
    match position fun i => (s.connections i).state = .free with
    | none => ipcSend reply tagTcpClosed (0xFFFFFFFFFFFFFFFF, closedNoRoom, 0, 0)
    | some index =>
      -- `checked_add(1)`, starting over at 49152
      let nextPort := if s.nextPort = 0xFFFF then 49152 else s.nextPort + 1
      let chosen := if localPort ≠ 0 then localPort else nextPort
      modifyStack fun s => if localPort ≠ 0 then s else { s with nextPort := nextPort }
      let k ← call
      let start := (env.random k).toUInt32
      modifyConnection index fun _ => {
        state := .synSent
        owner := owner
        reply := reply
        remote := address
        remotePort := remotePort
        localPort := chosen
        base := region.base
        size := region.size
        unacknowledged := start
        nextSend := start }
      startFlight env index syn 0 0
  | _, _ => pure ()

def listen (owner : UInt64) (port : UInt16) (reply buffer : UInt64) : Daemon Unit := do
  match ← mapping env buffer with
  | none => pure ()
  | some region =>
    let s ← getStack
    match position fun i => (s.listeners i).base = 0 ∨
        ((s.listeners i).port = port ∧ (s.listeners i).owner = owner) with
    | none => pure ()
    | some slot =>
      modifyStack fun s => { s with
        listeners := update s.listeners slot ⟨port, owner, reply, region.base, region.size⟩ }

def sendTcp (index : Fin 8) (buffer length : UInt64) : Daemon Unit := do
  let s ← getStack
  let c := s.connections index
  let idle := c.unacknowledged = c.nextSend ∧ c.closeRequested = false
  match ← mapping env buffer with
  | some region =>
    if c.IsOpen ∧ idle ∧ 0 < length ∧ length.toNat ≤ mss c.remote ∧ length ≤ region.size then
      startFlight env index psh region.base length
    else tell index tagTcpSent (UInt64.ofNat index, 0, 0, 0)
  | none => tell index tagTcpSent (UInt64.ofNat index, 0, 0, 0)

def sendFin (index : Fin 8) : Daemon Unit := do
  modifyConnection index fun c => { c with
    state := if c.state = .closeWait then .lastAck else .finWait1 }
  startFlight env index fin 0 0

def close (index : Fin 8) : Daemon Unit := do
  let s ← getStack
  let c := s.connections index
  match c.state with
  | .synSent | .synReceived =>
    sendReset index
    finish index closedFinished
  | .established | .closeWait =>
    if c.unacknowledged = c.nextSend then sendFin env index
    else modifyConnection index fun c => { c with closeRequested := true }
  | _ => pure ()

/-- The client has read its buffer: the window opens again. -/
def consumed (index : Fin 8) : Daemon Unit := do
  modifyConnection index fun c => { c with filled := 0, delivered := false }
  sendAck index

/-! ## Configuration and lookups -/

def configured (reply : UInt64) : Daemon Unit := do
  let s ← getStack
  ipcSend reply tagNetConfigured
    (s.address.toUInt64, s.gateway.toUInt64, s.netmask.toUInt64, s.offeredDns.toUInt64)

def config (reply : UInt64) : Daemon Unit := do
  let s ← getStack
  if s.dhcp = .done then configured reply
  else
    match position fun i => s.configWaiters i = 0 with
    | none => pure ()
    | some slot =>
      modifyStack fun s => { s with configWaiters := update s.configWaiters slot reply }

/-- `u64::from_be_bytes` of half an address. -/
def half (ip : Ip) (start : Nat) : UInt64 :=
  ((ip.toList.drop start).take 8).foldl (fun x b => (x <<< 8) ||| b.toUInt64) 0

def configured6 (reply : UInt64) : Daemon Unit := do
  let s ← getStack
  ipcSend reply tagNetConfigured6 (half s.global6 0, half s.global6 8, half s.dns6 0, half s.dns6 8)

def config6 (reply : UInt64) : Daemon Unit := do
  let s ← getStack
  if s.global6 ≠ unspecified then configured6 reply
  else
    match position fun i => s.config6Waiters i = 0 with
    | none => pure ()
    | some slot =>
      modifyStack fun s => { s with
        config6Waiters := update s.config6Waiters slot reply }

/-- The labels of a name, each with its length before it; `none` if one is empty or
overlong. -/
def dnsLabels (query : Bytes) (start : Nat) : List Bytes → Daemon (Option (Bytes × Nat))
  | [] => pure (some (query, start))
  | label :: rest => do
    if label = [] ∨ 63 < label.length then pure none
    else
      let query ← putAll query [(start, [UInt8.ofNat label.length]), (start + 1, label)]
      dnsLabels query (start + 1 + label.length) rest

/-- Send the lookup in `slot`.  `false` if its name is not a name. -/
def dnsQuery (slot : Fin 4) : Daemon Bool := do
  let s ← getStack
  let lookup := s.resolves slot
  let name ← readClient env lookup.base lookup.length
  let query ← putAll (zeros maxQuery) [(0, be16 lookup.id), (2, be16 0x0100), (4, be16 1)]
  match ← dnsLabels query 12 (name.splitOnP (· = 46)) with
  | none => pure false
  | some (query, start) =>
    let query ← putAll query [(start, [0]), (start + 1, be16 lookup.kind), (start + 3, [0, 1])]
    sendDatagram s.dnsServer (s.dnsLocalPort + UInt16.ofNat slot) s.dnsPort (query.take (start + 5))
    pure true

def resolve (buffer length reply token : UInt64) (kind : UInt16) : Daemon Unit := do
  let answer (status : UInt64) : Daemon Unit := ipcSend reply tagResolved (token, 0, status, 0)
  match ← mapping env buffer with
  | none => pure ()
  | some region =>
    if length = 0 ∨ 253 < length ∨ region.size < length ∨ (kind = 28 ∧ region.size < 16) then
      answer resolveBadName
    else
      let s ← getStack
      if s.dnsPort = 0 then answer resolveTimedOut
      else
        match position fun i => (s.resolves i).id = 0 with
        | none => answer resolveTimedOut
        | some slot =>
          let k ← call
          let id := max (env.random k).toUInt16 1
          modifyStack fun s => { s with
            resolves := update s.resolves slot ⟨id, kind, reply, token, region.base, length, 0, 1⟩ }
          if ← dnsQuery env slot then armTimer env
          else
            modifyStack fun s => { s with resolves := update s.resolves slot {} }
            answer resolveBadName

/-! ## Commands -/

/-- The commands that name a connection, which only its owner may use. -/
def connectionCommand (message : Message) : Daemon Unit := do
  let s ← getStack
  if h : message.words.1.toNat < 8 then
    let index : Fin 8 := ⟨message.words.1.toNat, h⟩
    if (s.connections index).state = .free ∨ (s.connections index).owner ≠ message.sender then
      pure ()
    else if message.tag = tagTcpSend then
      sendTcp env index message.words.2.1 message.words.2.2.1
    else if message.tag = tagTcpConsumed then consumed index
    else if message.tag = tagTcpClose then close env index
    else pure ()
  else pure ()

/-- The first match of `command`. -/
def generalCommand (message : Message) : Daemon Unit :=
  let a := message.words.1
  let b := message.words.2.1
  let c := message.words.2.2.1
  let d := message.words.2.2.2
  if message.tag = tagPing then ping env a b c d
  else if message.tag = tagUdpBind then bind env a.toUInt16 b c
  else if message.tag = tagUdpSend then sendUdp env a b c (d >>> 16).toUInt16 d.toUInt16
  else if message.tag = tagTcpConnect then
    connect env message.sender a (b >>> 16).toUInt16 b.toUInt16 c d
  else if message.tag = tagTcpListen then listen env message.sender a.toUInt16 b c
  else if message.tag = tagNetConfig then config a
  else if message.tag = tagResolve then resolve env a b c d 1
  else if message.tag = tagResolve6 then resolve env a b c d 28
  else if message.tag = tagNetConfig6 then config6 a
  else pure ()

def command (message : Message) : Daemon Unit := do
  generalCommand env message
  connectionCommand env message

end Panda.Net
