import PandaProof.Machine
import PandaProof.NetReads

/-!
# The network daemon as a machine

The main loop of `net.rs`: frames, commands and ticks of the timer in any order, each
handled to its end before the next is looked at.  A step that faults is no step: the
daemon is dead.

A frame may carry a TCP segment; `arrival` says which, by the bytes alone.
-/
namespace Panda.Net

/-- What the kernel hands over: at most `MAX_FRAME` bytes. -/
abbrev Frame := { bytes : Bytes // bytes.length ≤ maxFrame }

inductive Input
  | frame (bytes : Frame)
  | message (m : Message)
  | tick

/-- The sender of the kernel's own notifications, which are frames and ticks here. -/
def kernelSender : UInt64 := 0xFFFFFFFFFFFFFFFF

def handle (env : Env) : Input → Daemon Unit
  | .frame bytes => frame env bytes.val
  | .message m => if m.sender = kernelSender then pure () else command env m
  | .tick => tick env

/-- The daemon from its start-up on. -/
def daemon (env : Env) : Machine World Input where
  Init w := ∃ (mac : Mac) (control : UInt64) (address gateway netmask : UInt32) (dns : UInt64)
    (nextPort : UInt16) (transaction : UInt32) (dnsLocalPort : UInt16) (calls : Nat),
    boot env ⟨Stack.start mac control address gateway netmask dns nextPort transaction
      dnsLocalPort, calls, []⟩ = (.ok (), w)
  step w a :=
    match handle env a w with
    | (.ok (), w') => some w'
    | (.error _, _) => none

/-- A TCP segment as it arrives. -/
structure Arrival where
  source : Ip
  remotePort : UInt16
  localPort : UInt16
  segment : Incoming

/-- The fields of a TCP segment. -/
def Incoming.read (segment : Bytes) : Incoming where
  sequence := longAt segment 4
  acknowledgement := longAt segment 8
  flags := byteAt segment 13
  payload := part segment ((byteAt segment 12 >>> 4).toNat * 4) segment.length

def Arrival.read (source : Ip) (segment : Bytes) : Arrival :=
  ⟨source, wordAt segment 0, wordAt segment 2, .read segment⟩

/-- The TCP segment in an IPv4 packet. -/
def arrivalIpv4 (packet : Bytes) : Option Arrival :=
  if byteAt packet 9 = protocolTcp then
    some (.read (mapped (longAt packet 12))
      (part packet ((byteAt packet 0 &&& 0x0F).toNat * 4) (wordAt packet 2).toNat))
  else none

/-- The TCP segment in an IPv6 packet. -/
def arrivalIpv6 (packet : Bytes) : Option Arrival :=
  if byteAt packet 6 = protocolTcp then
    some (.read (ipAt packet 8) (part packet 40 (40 + (wordAt packet 4).toNat)))
  else none

/-- The TCP segment a frame carries, if it carries one. -/
def arrival (bytes : Bytes) : Option Arrival :=
  let packet := part bytes 14 bytes.length
  if wordAt bytes 12 = ethertypeIpv4 then arrivalIpv4 packet
  else if wordAt bytes 12 = ethertypeIpv6 then arrivalIpv6 packet
  else none

/-- The segment belongs to the connection. -/
def Arrival.Matches (x : Arrival) (c : Connection) : Prop :=
  c.state ≠ .free ∧ c.remote = x.source ∧ c.remotePort = x.remotePort ∧ c.localPort = x.localPort

instance (x : Arrival) (c : Connection) : Decidable (x.Matches c) :=
  inferInstanceAs (Decidable (_ ∧ _))

theorem matching_some {s : Stack} {x : Arrival} {i : Fin 8}
    (h : matching s x.source x.remotePort x.localPort = some i) : x.Matches (s.connections i) := by
  have := position_some h
  simpa [Arrival.Matches] using this

end Panda.Net
