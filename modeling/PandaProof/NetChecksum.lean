import PandaProof.NetPeers

/-!
# Checksums of UDP over IPv6

IPv4 and IPv6 addresses share one type, an IPv4 address being a mapped one, and `udp`
tells the two apart by the source address.  A datagram that arrives over IPv6 from a
mapped source is therefore taken for an IPv4 one, whose checksum is not looked at.
-/
namespace Panda.Net

/-- The checksum of RFC 8200, over the IPv6 pseudo-header: zero when it verifies. -/
def ipv6Checksum (protocol : UInt8) (source destination : Ip) (bytes : Bytes) : UInt16 :=
  fold (addWords (addWords 0 (source.toList ++ destination.toList ++
    be32 (UInt32.ofNat bytes.length) ++ [0, 0, 0, protocol])) bytes)

theorem transportChecksum_eq {source : Ip} (h : asV4 source = none) (protocol : UInt8)
    (destination : Ip) (bytes : Bytes) : transportChecksum protocol source destination bytes =
      ipv6Checksum protocol source destination bytes := by
  unfold transportChecksum ipv6Checksum
  rw [h]

/-- The payload of an IPv6 packet. -/
def payloadIpv6 (packet : Bytes) : Bytes := part packet 40 (40 + (wordAt packet 4).toNat)

/-- An IPv6 packet from `source` with a UDP datagram whose checksum does not verify. -/
structure Corrupt (source : Ip) (packet : Bytes) : Prop where
  protocol : byteAt packet 6 = protocolUdp
  sender : ipAt packet 8 = source
  checksum : ipv6Checksum protocolUdp source (ipAt packet 24) (payloadIpv6 packet) ≠ 0

variable (env : Env) {w : World} {source : Ip} {packet : Bytes}

/-- A packet gets past the checks of `ipv6`. -/
def Taken (s : Stack) (packet : Bytes) : Prop :=
  40 ≤ packet.length ∧ byteAt packet 0 >>> 4 = 6 ∧
    40 + (wordAt packet 4).toNat ≤ packet.length ∧ ours s (ipAt packet 24)

instance (s : Stack) (packet : Bytes) : Decidable (Taken s packet) :=
  inferInstanceAs (Decidable (_ ∧ _))

/-- What `ipv6` does with a UDP packet. -/
theorem ipv6_udp_eq (hprotocol : byteAt packet 6 = protocolUdp) :
    ipv6 env packet w = if Taken w.stack packet then
      udp env (ipAt packet 8) (ipAt packet 24) (payloadIpv6 packet) w else (.ok (), w) := by
  unfold ipv6
  split
  · rename_i h40
    rw [if_neg fun h : Taken w.stack packet => by have := h.1; omega]
    rfl
  rename_i h40
  simp (disch := omega) only [byte_eq, readU16_eq, pure_bind_eq]
  split
  · rename_i hbad
    rw [if_neg fun h : Taken w.stack packet => ?_]
    · rfl
    rcases hbad with hversion | hlong
    · exact hversion h.2.1
    · have := h.2.2.1
      omega
  rename_i hfits
  simp only [not_or, not_lt, not_not] at hfits
  simp (disch := omega) only [readIp_eq, slice_eq, pure_bind_eq]
  rw [getStack_bind]
  split
  · rename_i hours
    rw [if_neg fun h : Taken w.stack packet => hours h.2.2.2]
    rfl
  rename_i hours
  have hne : byteAt packet 6 ≠ protocolIcmpv6 := by
    rw [hprotocol]
    decide
  have htaken : Taken w.stack packet := ⟨by omega, hfits.1, hfits.2, not_not.mp hours⟩
  rw [if_pos htaken, if_neg hne]
  rfl

theorem udp_of_corrupt {destination : Ip} {datagram : Bytes} (hsource : asV4 source = none)
    (h : ipv6Checksum protocolUdp source destination datagram ≠ 0) :
    udp env source destination datagram w = (.ok (), w) := by
  unfold udp
  split
  · rfl
  dsimp only
  rw [if_pos ⟨by rw [hsource]; rfl, by rw [transportChecksum_eq hsource]; exact h⟩]
  rfl

/-- A corrupt datagram from an address of IPv6 is dropped. -/
theorem ipv6_of_corrupt (hsource : asV4 source = none) (h : Corrupt source packet) :
    ipv6 env packet w = (.ok (), w) := by
  rw [ipv6_udp_eq env h.protocol, h.sender]
  split
  · exact udp_of_corrupt env hsource h.checksum
  · rfl

/-! ## Mapped sources -/

/-- A sum that verifies is a multiple of 65535. -/
theorem mod_of_fold_eq_zero (sum : Nat) (h : fold sum = 0) : sum % 65535 = 0 := by
  induction sum using Nat.strong_induction_on with
  | _ sum ih =>
    unfold fold at h
    split at h
    · have := ih _ (by omega) h
      omega
    have hsum := congrArg UInt16.toNat h
    rw [UInt16.toNat_not, UInt16.toNat_ofNat_of_lt' (by show sum < 65536; omega)] at hsum
    simp at hsum
    omega

/-- A datagram from a mapped source goes to a client whatever its checksum is. -/
theorem udp_of_mapped {v4 : UInt32} (hsource : asV4 source = some v4) (destination : Ip)
    {datagram : Bytes} (hlen : 8 ≤ datagram.length) (hdhcp : w.stack.dhcp = .done)
    (hlookup : lookupSlot w.stack (wordAt datagram 2) = none) :
    udp env source destination datagram w = deliver source (wordAt datagram 0) (wordAt datagram 2)
        (part datagram 8 (min (max (wordAt datagram 4).toNat 8) datagram.length)) w := by
  unfold udp
  rw [if_neg (by omega)]
  dsimp only
  rw [if_neg (by rw [hsource]; simp)]
  simp (disch := omega) only [readU16_eq, pure_bind_eq]
  rw [slice_eq (by omega) (by omega), pure_bind_eq, getStack_bind,
    if_neg (by simp [hdhcp]), hlookup]

/-- A daemon with one binding, at port 7777. -/
def listening : World := { freshWorld with
  stack := { freshWorld.stack with
    bindings := fun k => if k.val = 0 then ⟨7777, 1, 0x400000, 0x1000⟩ else {}
    mappings := fun k => if k.val = 0 then ⟨7, (onePage.bufferMap 0 7).getD .none⟩
      else ⟨0, .none⟩ } }

/-- A datagram of one byte for the binding, with a checksum at will. -/
def datagramWith (checksum : UInt16) : Bytes :=
  be16 53 ++ be16 7777 ++ be16 9 ++ be16 checksum ++ [1]

/-- The datagram from `source` to the daemon's link-local address. -/
def packetFrom (source : Ip) (checksum : UInt16) : Bytes :=
  [0x60, 0, 0, 0, 0, 9, 17, 64] ++ source.toList ++ listening.stack.linkLocal.toList ++
    datagramWith checksum

theorem ipAt_append (before after : Bytes) (ip : Ip) :
    ipAt (before ++ ip.toList ++ after) before.length = ip := by
  refine Vector.ext fun i hi => ?_
  unfold ipAt byteAt
  rw [Vector.getElem_ofFn, List.getD_eq_getElem?_getD, List.append_assoc,
    List.getElem?_append_right (by omega), Nat.add_sub_cancel_left,
    List.getElem?_append_left (by simpa using hi)]
  simp [hi]

theorem part_append (before after : Bytes) :
    part (before ++ after) before.length (before.length + after.length) = after := by
  rw [part, ← List.length_append, List.take_length, List.drop_left]

theorem ipAt_packetFrom (source : Ip) (checksum : UInt16) :
    ipAt (packetFrom source checksum) 8 = source := by
  have h := ipAt_append [0x60, 0, 0, 0, 0, 9, 17, 64]
    (listening.stack.linkLocal.toList ++ datagramWith checksum) source
  simpa [packetFrom] using h

theorem ipAt_packetFrom_destination (source : Ip) (checksum : UInt16) :
    ipAt (packetFrom source checksum) 24 = listening.stack.linkLocal := by
  have h := ipAt_append ([0x60, 0, 0, 0, 0, 9, 17, 64] ++ source.toList) (datagramWith checksum)
    listening.stack.linkLocal
  simpa [packetFrom] using h

theorem payload_packetFrom (source : Ip) (checksum : UInt16) :
    payloadIpv6 (packetFrom source checksum) = datagramWith checksum := by
  have h := part_append ([0x60, 0, 0, 0, 0, 9, 17, 64] ++ source.toList ++
    listening.stack.linkLocal.toList) (datagramWith checksum)
  have hlength : (datagramWith checksum).length = 9 := rfl
  rw [hlength] at h
  simpa [packetFrom, payloadIpv6, wordAt, byteAt] using h

/-- One of the checksums 0 and 1 does not verify. -/
theorem exists_corrupt (source : Ip) : ∃ checksum, Corrupt source (packetFrom source checksum) := by
  by_contra hnone
  have hsum : ∀ checksum, ipv6Checksum protocolUdp source listening.stack.linkLocal
      (datagramWith checksum) = 0 := by
    intro checksum
    by_contra hne
    refine hnone ⟨checksum, rfl, ipAt_packetFrom source checksum, ?_⟩
    rw [ipAt_packetFrom_destination, payload_packetFrom]
    exact hne
  have h0 := mod_of_fold_eq_zero _ (hsum 0)
  have h1 := mod_of_fold_eq_zero _ (hsum 1)
  have hnext : ∀ sum, addWords sum (datagramWith 1) = addWords sum (datagramWith 0) + 1 := by
    intro sum
    rfl
  rw [hnext] at h1
  have hlength : (datagramWith 1).length = (datagramWith 0).length := rfl
  rw [hlength] at h1
  omega

/-- The binding's client gets the datagram. -/
theorem runs_deliver_listening {v4 : UInt32} (hsource : asV4 source = some v4) :
    Runs (deliver source 53 7777 [1]) listening fun _ w' => w'.view.log.length = 2 := by
  have hposition : position (fun i => decide ((listening.stack.bindings i).port = 7777 ∧
      (listening.stack.bindings i).base ≠ 0)) = some 0 := by decide
  unfold deliver
  refine Prog.wp_bind.mpr (wp_getStack.mpr ?_)
  simp only [hposition, hsource, Option.isSome_some, if_true]
  rw [if_neg (by decide)]
  unfold subtract
  rw [if_neg (by decide), pure_bind_eq]
  refine Runs.bind (does_writeClient (.inl rfl)) fun _ w₁ h₁ => ?_
  have hmappings : w₁.stack.mappings = listening.stack.mappings := congrArg View.mappings h₁.view
  refine Runs.bind (does_writeClient ?_) fun _ w₂ h₂ => ?_
  · rw [hmappings]
    exact .inr ⟨0, by decide, by decide⟩
  refine Runs.mono (sends_ipcSend (by simp [tagDatagram])) fun _ w₃ h₃ => ?_
  rw [h₃.view, h₂.view, h₁.view]
  rfl

theorem packetFrom_has_effect {v4 : UInt32} (hsource : asV4 source = some v4) (checksum : UInt16) :
    ipv6 onePage (packetFrom source checksum) listening ≠ (.ok (), listening) := by
  have hlength : wordAt (packetFrom source checksum) 4 = 9 := by
    show ((0 : UInt8).toUInt16 <<< 8) ||| (9 : UInt8).toUInt16 = 9
    decide
  have htaken : Taken listening.stack (packetFrom source checksum) := by
    refine ⟨by simp [packetFrom]; omega, ?_, ?_, ?_⟩
    · show (0x60 : UInt8) >>> 4 = 6
      decide
    · rw [hlength]
      simp [packetFrom, datagramWith]
    · rw [ipAt_packetFrom_destination]
      exact .inl rfl
  have hprotocol : byteAt (packetFrom source checksum) 6 = protocolUdp := rfl
  have hword : ∀ (k : Nat) (x : UInt16), byteAt (datagramWith checksum) k = (x >>> 8).toUInt8 →
      byteAt (datagramWith checksum) (k + 1) = x.toUInt8 →
      ((x >>> 8).toUInt8.toUInt16 <<< 8) ||| x.toUInt8.toUInt16 = x →
      wordAt (datagramWith checksum) k = x := by
    intro k x h h' hx
    rw [wordAt, h, h', hx]
  have hsourcePort := hword 0 53 rfl rfl (by decide)
  have hport := hword 2 7777 rfl rfl (by decide)
  have hstated := hword 4 9 rfl rfl (by decide)
  rw [ipv6_udp_eq onePage hprotocol, if_pos htaken, ipAt_packetFrom, payload_packetFrom,
    udp_of_mapped onePage hsource _ (by simp [datagramWith]) rfl (by rw [hport]; rfl), hsourcePort,
    hport, hstated]
  obtain ⟨⟨⟩, w', hrun, hlog⟩ := Prog.wp_iff_ok.mp (runs_deliver_listening hsource)
  intro h
  have hsame : deliver source 53 7777 [1] listening = (.ok (), listening) := h
  rw [hsame] at hrun
  obtain rfl : listening = w' := congrArg Prod.snd hrun
  cases hlog

/-- **Corrupt datagrams over IPv6 are dropped, unless the source is a mapped address.**
Whatever the daemon's state, every corrupt datagram from `source` has no effect, exactly
when `source` does not look like an IPv4 address. -/
theorem corrupt_dropped_iff (source : Ip) :
    (∀ env w packet, Corrupt source packet → ipv6 env packet w = (.ok (), w)) ↔
      asV4 source = none := by
  constructor
  · intro hdropped
    by_contra hsome
    obtain ⟨_, hv4⟩ := Option.ne_none_iff_exists'.mp hsome
    obtain ⟨checksum, hcorrupt⟩ := exists_corrupt source
    exact packetFrom_has_effect hv4 checksum (hdropped _ _ _ hcorrupt)
  · intro hsource env w packet hcorrupt
    exact ipv6_of_corrupt env hsource hcorrupt

/-- The packet from ::ffff:1.2.3.4, its checksum left at zero, in a frame. -/
def forgedFrame : Frame :=
  ⟨[2, 2, 2, 2, 2, 2, 11, 11, 11, 11, 11, 11, 0x86, 0xDD] ++ packetFrom (mapped 0x01020304) 0,
    by decide +kernel⟩

/-- **A corrupt datagram is delivered**: a client has bound port 7777, and a datagram over
IPv6 from ::ffff:1.2.3.4, its checksum wrong, ends up in the client's buffer. -/
theorem corrupt_delivered : Corrupt (mapped 0x01020304) (packetFrom (mapped 0x01020304) 0) ∧
      ∃ w, (daemon ownPages).Reachable w ∧ .clientWrite 0x401000 [1] ∉ w.log ∧
        .clientWrite 0x401000 [1] ∈ (frame ownPages forgedFrame.val w).2.log := by
  refine ⟨⟨rfl, ipAt_packetFrom _ _, by decide +kernel⟩, ?_⟩
  exact (daemon ownPages).exists_reachable
    [.message ⟨tagUdpBind, (7777, 1, 1, 0), 9⟩] _ (init_booted ownPages) (by decide +kernel)

end Panda.Net
