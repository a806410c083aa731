import PandaProof.NetBounds
import PandaProof.NetSound

/-!
# Frames and ticks

`frame` and `tick` from a sound state: no index, slice or conversion of the source fails,
whatever the bytes are, and all that happens to the tables is acts.  Each parser of the
chain has one lemma, and each check of a length appears in it as the bound of the reads
that follow.
-/
namespace Panda.Net

open Prog UInt64

variable {w : World} {Z : Prop} (env : Env)

/-! ## DHCP -/

/-- The options of a DHCP message never leave it. -/
theorem runs_dhcpOption {message : Bytes} (code : UInt8) {length value : Nat} (found : DhcpMessage)
    (h : value + length ≤ message.length) :
    Runs (dhcpOption message code length value found) w fun _ w' => w' = w := by
  unfold dhcpOption
  split
  · rw [byte_eq (by omega), pure_bind_eq]
    exact wp_pure.mpr rfl
  split
  · rw [readU32_eq (by omega), pure_bind_eq]
    exact wp_pure.mpr rfl
  split
  · rw [readU32_eq (by omega), pure_bind_eq]
    exact wp_pure.mpr rfl
  split
  · rw [readU32_eq (by omega), pure_bind_eq]
    exact wp_pure.mpr rfl
  split
  · rw [readU32_eq (by omega), pure_bind_eq]
    exact wp_pure.mpr rfl
  · exact wp_pure.mpr rfl

theorem runs_dhcpMessage (message : Bytes) (start : Nat) (found : DhcpMessage) :
    Runs (dhcpMessage message start found) w fun _ w' => w' = w := by
  unfold dhcpMessage
  split
  · rename_i hstart
    rw [byte_eq (by omega), byte_eq (by omega), pure_bind_eq, pure_bind_eq]
    split
    · exact wp_pure.mpr rfl
    split
    · exact runs_dhcpMessage message (start + 1) found
    dsimp only
    split
    · exact wp_pure.mpr rfl
    refine .bind (runs_dhcpOption _ _ (by omega)) ?_
    intro found' w' hw'
    rw [hw']
    exact runs_dhcpMessage message _ found'
  · exact wp_pure.mpr rfl
termination_by message.length - start
decreasing_by all_goals omega

theorem sends_dhcpReply (message : Bytes) : Sends (dhcpReply env message) w := by
  unfold dhcpReply
  split
  · exact .pure
  rename_i hlen
  simp (disch := omega) only [byte_eq, readU32_eq, slice_eq, pure_bind_eq]
  refine .getStack ?_
  split
  · exact Does.pure
  refine Runs.bind (runs_dhcpMessage _ _ _) ?_
  rintro found w' rfl
  split
  · exact Does.pure
  split
  · exact Sends.bind (wp_modifyStack.mpr ⟨rfl, id, .same rfl⟩) fun _ _ => sends_dhcpSend _
  split
  · refine Sends.bind (wp_modifyStack.mpr ⟨rfl, id, .same rfl⟩) fun _ _ => ?_
    exact sends_answerWaiters (fun _ _ => sends_configured _) _
  split
  · refine Sends.bind (wp_call.mpr ⟨rfl, id, .same rfl⟩) fun _ _ => ?_
    exact .bind (wp_modifyStack.mpr ⟨rfl, id, .same rfl⟩) fun _ _ => sends_dhcpSend _
  · exact Does.pure

theorem sends_dhcpTick : Sends dhcpTick w := by
  unfold dhcpTick
  refine .getStack ?_
  split
  · exact Does.pure
  refine Sends.bind (wp_modifyStack.mpr ⟨rfl, id, .same rfl⟩) fun _ _ => ?_
  split
  · exact .bind (wp_modifyStack.mpr ⟨rfl, id, .same rfl⟩) fun _ _ => sends_dhcpSend _
  · exact .pure

theorem sends_solicitTick : Sends solicitTick w := by
  unfold solicitTick
  refine .getStack ?_
  split
  · exact Does.pure
  refine Sends.bind (wp_modifyStack.mpr ⟨rfl, id, .same rfl⟩) fun _ _ => ?_
  split
  · exact .bind (wp_modifyStack.mpr ⟨rfl, id, .same rfl⟩) fun _ _ => sends_solicitRouter
  · exact .pure

/-! ## Client buffers -/

variable {m : Fin 8 → Mapping} {base size : UInt64}

theorem Held.covers (h : Held m base size) : Covers m base.toNat size.toNat := by
  obtain ⟨k, -, rfl, rfl⟩ := h
  exact .inr ⟨k, le_rfl, le_rfl⟩

theorem Held.fits (h : Held m base size) : base.toNat + size.toNat ≤ 0x800000000000 := by
  obtain ⟨k, -, rfl, rfl⟩ := h
  exact (m k).region.fits

theorem HeldFor.covers {length : UInt64} (h : HeldFor m base length) :
    Covers m base.toNat length.toNat := by
  obtain ⟨_, hheld, hle⟩ := h
  exact hheld.covers.part (s := 0) (by have := le_iff_toNat_le.mp hle; omega)

theorem Alive.backed {c : Connection} (h : Alive Z m c) : Backed m c := by
  rcases h.buffer with ⟨-, hbase, hsize⟩ | hheld
  · exact ⟨by rw [hbase, hsize]; decide, .inl (by rw [hsize]; rfl), h.filled⟩
  · exact ⟨hheld.fits, hheld.covers, h.filled⟩

theorem does_writeClient {address : UInt64} {bytes : Bytes}
    (h : Covers w.stack.mappings address.toNat bytes.length) :
    Does (writeClient address bytes) w (w.view.record [.clientWrite address.toNat bytes]) := by
  unfold writeClient
  refine .getStack ?_
  rw [if_pos (inside_iff_covers.mpr h)]
  exact wp_emit.mpr ⟨rfl, tracked_cons rfl, .cons rfl rfl⟩

/-! ## DNS -/

theorem runs_skipName (message : Bytes) (start : Nat) :
    Runs (skipName message start) w fun _ w' => w' = w := by
  unfold skipName
  split
  · rename_i hstart
    rw [byte_eq hstart, pure_bind_eq]
    split
    · exact wp_pure.mpr rfl
    split
    · exact wp_pure.mpr rfl
    · exact runs_skipName message _
  · exact wp_pure.mpr rfl
termination_by message.length - start
decreasing_by omega

theorem runs_skipQuestions (message : Bytes) (questions start : Nat) :
    Runs (skipQuestions message questions start) w fun _ w' => w' = w := by
  induction questions generalizing start with
  | zero => exact wp_pure.mpr rfl
  | succ questions ih =>
    refine .bind (runs_skipName message start) ?_
    rintro start' w' rfl
    exact ih _

/-- Looking for an answer writes an IPv6 address at most, and that at the start of the
lookup's buffer. -/
theorem runs_findAnswer {lookup : Resolve}
    (h : lookup.kind ≠ 1 → Covers w.stack.mappings lookup.base.toNat 16) (message : Bytes)
    (answers start : Nat) : Runs (findAnswer lookup message answers start) w fun _ w' =>
      ∃ events, WritesIn events lookup.base.toNat 16 ∧ Becomes w (w.view.record events) w' := by
  have hnothing : ∃ events, WritesIn events lookup.base.toNat 16 ∧
      Becomes w (w.view.record events) w := ⟨[], by simp [WritesIn], Quiet.refl w⟩
  induction answers generalizing start with
  | zero => exact wp_pure.mpr hnothing
  | succ answers ih =>
    unfold findAnswer
    refine .bind (runs_skipName message start) ?_
    rintro start' w' rfl
    split
    · exact wp_pure.mpr hnothing
    rename_i hroom
    simp (disch := omega) only [readU16_eq, pure_bind_eq]
    by_cases hkind : lookup.kind = 1
    · simp only [if_pos hkind, if_true]
      split
      · rw [readU32_eq (by omega), pure_bind_eq]
        exact wp_pure.mpr hnothing
      · exact ih _
    simp only [if_neg hkind, Nat.reduceEqDiff, if_false]
    split
    · rw [slice_eq (by omega) le_rfl, pure_bind_eq]
      have htaken : ((part message (start' + 10) message.length).take 16).length = 16 := by
        simp
        omega
      refine .bind (does_writeClient (by rw [htaken]; exact h hkind)) fun _ w' hw' => ?_
      refine wp_pure.mpr ⟨_, ?_, hw'⟩
      rintro e he
      rw [List.mem_singleton.mp he]
      exact ⟨_, _, rfl, le_rfl, by rw [htaken]⟩
    · exact ih _

section Frames

variable {bytes : Frame} {T : Prop}

theorem handles_dnsReply (hsound : Sound Z w.view) {slot : Fin 4}
    (hid : (w.stack.resolves slot).id ≠ 0) (message : Bytes) :
    Handles (.frame bytes) T (dnsReply slot message) w := by
  have hasked : Asked w.stack.mappings (w.stack.resolves slot) := hsound.resolves slot hid
  unfold dnsReply
  refine .getStack ?_
  dsimp only
  split
  · exact Handles.pure
  simp (disch := omega) only [readU16_eq, byte_eq, pure_bind_eq]
  split
  · exact Handles.pure
  refine Runs.bind (runs_skipQuestions _ _ _) ?_
  intro start w' hw'
  rw [hw']
  refine .bind (runs_findAnswer ?_ _ _ _) ?_
  · exact fun hkind => (hasked.kind.resolve_left hkind).2.covers
  rintro found w₁ ⟨events, hwrites, hbecomes⟩
  refine .bind (P := fun _ w' => Moves (.frame bytes) T w w') (wp_modifyStack.mpr ?_)
    fun _ w₂ hmoves => ?_
  · refine Becomes.moves (v := { (w.view.record events) with
      resolves := Function.update w.view.resolves slot {} })
      ⟨?_, hbecomes.tracked, hbecomes.wired⟩
      (.answer rfl hid hwrites)
    have hview := hbecomes.view
    rw [← hview]
    show World.view _ = { w₁.view with resolves := Function.update w.view.resolves slot {} }
    have hresolves : w.view.resolves = w₁.stack.resolves := (congrArg View.resolves hview).symm
    rw [hresolves]
    rfl
  · refine .mono ?_ fun _ _ h => hmoves.trans h
    refine Sends.handles (sends_ipcSend ?_)
    simp

/-! ## UDP -/

/-- A datagram for a client stays in the client's buffer. -/
theorem handles_deliver (hsound : Sound Z w.view) (source : Ip) (sourcePort port : UInt16)
    (payload : Bytes) : Handles (.frame bytes) T (deliver source sourcePort port payload) w := by
  unfold deliver
  refine .getStack ?_
  split
  · exact Handles.pure
  rename_i k hk
  have hbase : (w.stack.bindings k).base ≠ 0 := by
    have := position_some hk
    simp only [decide_eq_true_eq] at this
    exact this.2
  have hheld : Held w.stack.mappings (w.stack.bindings k).base (w.stack.bindings k).size :=
    hsound.bindings k hbase
  dsimp only
  generalize hbinding : w.stack.bindings k = binding at hbase hheld
  generalize hskip : (if (asV4 source).isSome then 0 else 16 : UInt64) = skip
  have hskip16 : skip.toNat ≤ 16 := by
    rw [← hskip]
    split <;> decide
  split
  · exact Handles.pure
  rename_i hroom
  have hle : skip.toNat ≤ binding.size.toNat := UInt64.le_iff_toNat_le.mp (UInt64.not_lt.mp hroom)
  have hfits := hheld.fits
  unfold subtract
  rw [if_neg hroom]
  simp only [pure_bind_eq]
  have hsource : (source.toList.take skip.toNat).length = skip.toNat := by
    simp
    omega
  generalize htaken : payload.take (min (ofNat payload.length) (binding.size - skip)).toNat = taken
  have htaken' : taken.length ≤ binding.size.toNat - skip.toNat := by
    have hmin : min (ofNat payload.length) (binding.size - skip) ≤ binding.size - skip := by
      show (if ofNat payload.length ≤ binding.size - skip then _ else _) ≤ _
      split
      · assumption
      · exact UInt64.le_refl _
    have hsub := UInt64.toNat_sub_of_le _ _ (UInt64.not_lt.mp hroom)
    have hmin' := le_iff_toNat_le.mp hmin
    rw [← htaken, List.length_take]
    omega
  have hstart : (binding.base + skip).toNat = binding.base.toNat + skip.toNat := by
    rw [UInt64.toNat_add]
    omega
  refine Runs.bind (does_writeClient ?_) fun _ w₁ h₁ => ?_
  · rw [hsource]
    exact hheld.covers.part (s := 0) (by omega)
  refine .bind (does_writeClient ?_) fun _ w₂ h₂ => ?_
  · have hmappings : w₁.stack.mappings = w.stack.mappings := congrArg View.mappings h₁.view
    rw [hmappings, hstart]
    exact hheld.covers.part (by omega)
  have hwrites : WritesIn [.clientWrite binding.base.toNat (source.toList.take skip.toNat),
      .clientWrite (binding.base + skip).toNat taken] binding.base.toNat binding.size.toNat := by
    rintro e (_ | ⟨_, _ | ⟨_, ⟨⟩⟩⟩)
    · exact ⟨_, _, rfl, le_rfl, by omega⟩
    · exact ⟨_, _, rfl, by omega, by omega⟩
  have hbecomes := h₂.view
  rw [h₁.view, View.record_record] at hbecomes
  have hview : w.view.bindings k = binding := hbinding
  rw [← hview] at hbase
  have hmoves : Moves (.frame bytes) T w w₂ :=
    Becomes.moves ⟨hbecomes, fun ht => h₂.tracked (h₁.tracked ht), h₁.wired.trans h₂.wired⟩
      (.deliver rfl hbase (by rw [hview]; exact hwrites))
  refine .mono ?_ fun _ _ h => hmoves.trans h
  refine Sends.handles (sends_ipcSend ?_)
  simp [tagDatagram]

theorem handles_udp (hsound : Sound Z w.view) (source destination : Ip) (datagram : Bytes) :
    Handles (.frame bytes) T (udp env source destination datagram) w := by
  unfold udp
  split
  · exact .pure
  rename_i hlen
  dsimp only
  split
  · exact .pure
  simp (disch := omega) only [readU16_eq, pure_bind_eq]
  rw [slice_eq (by omega) (by omega), pure_bind_eq]
  refine .getStack ?_
  split
  · exact (sends_dhcpReply env _).handles
  split
  · split
    · rename_i hid
      exact handles_dnsReply hsound hid.1 _
    · exact Handles.pure
  · exact handles_deliver hsound ..

/-! ## TCP -/

variable {x : Arrival}

/-- A segment for no connection is accepted or refused. -/
theorem handles_accept (hx : arrival bytes.val = some x) (source : Ip)
    (remotePort localPort : UInt16) (sequence : UInt32) :
    Handles (.frame bytes) T (accept env source remotePort localPort sequence) w := by
  unfold accept
  refine .getStack ?_
  split
  · exact Handles.pure
  rename_i k hk
  have hlistens : (w.view.listeners k).base ≠ 0 := by
    have := position_some hk
    simp only [decide_eq_true_eq] at this
    exact this.2
  split
  · exact Handles.pure
  rename_i index hindex
  have hfree : (w.view.connections index).state = .free := by
    simpa [World.view] using position_some hindex
  refine wp_bind.mpr (wp_modifyStack.mpr (wp_bind.mpr (wp_call.mpr ?_)))
  refine ((gives_modifyConnection.bind_quiet (Gives.bind_silent (f := fun _ => pure true)
      (gives_startFlight env syn (.inl rfl) (fits_zero _ _)) Gives.pure)).runs rfl rfl).mono ?_
  rintro _ w' ⟨-, hbecomes⟩
  exact Becomes.moves ⟨hbecomes.view, hbecomes.tracked, hbecomes.wired⟩
    (.accept rfl hx hlistens rfl rfl hfree ⟨rfl, rfl, rfl, rfl⟩)

theorem handles_refuse (destination : Ip) (localPort remotePort : UInt16)
    (sequence acknowledgement : UInt32) {flags : UInt8}
    (hack : flags &&& ack = 0 → acknowledgement = 0) : Handles (.frame bytes) T
      (refuse destination localPort remotePort sequence acknowledgement flags) w := by
  unfold refuse
  refine wp_bind.mpr (wp_emit.mpr ((carries_segment _ _ _ _ _ _ _ (fits_zero _ _)).mono ?_))
  rintro _ w' ⟨⟨hview, htracked⟩, hcarries⟩
  have hsame : (if flags &&& ack ≠ 0 then acknowledgement else 0) = acknowledgement := by
    split
    · rfl
    · exact (hack (not_not.mp ‹_›)).symm
  rw [hsame] at hcarries
  exact Becomes.moves ⟨hview, fun ht => htracked (tracked_cons rfl ht),
    (hcarries.recorded rfl rfl).wired⟩ (.turnAway rfl)

theorem handles_tcpUnknown (hx : arrival bytes.val = some x) (source : Ip)
    (remotePort localPort : UInt16) (segment : Incoming) :
    Handles (.frame bytes) T (tcpUnknown env source remotePort localPort segment) w := by
  have hrefuse : ∀ w', Handles (.frame bytes) T (if segment.flags &&& ack ≠ 0 then
      refuse source localPort remotePort segment.acknowledgement 0 rst
      else refuse source localPort remotePort 0 (segment.sequence +
        (UInt32.ofNat segment.payload.length +
          if segment.flags &&& (syn ||| fin) ≠ 0 then 1 else 0)) (rst ||| ack)) w' := by
    intro w'
    split
    · exact handles_refuse _ _ _ _ _ fun _ => rfl
    · exact handles_refuse _ _ _ _ _ fun h => absurd h (by decide)
  unfold tcpUnknown
  split
  · exact .pure
  dsimp only
  by_cases hsyn : segment.flags &&& syn ≠ 0 ∧ segment.flags &&& ack = 0
  · rw [if_pos hsyn]
    refine .bind (handles_accept env hx ..) fun accepted w' _ => ?_
    split
    · exact .pure
    · exact hrefuse w'
  · rw [if_neg hsyn]
    exact hrefuse w

/-- **TCP**: a segment is a turn of the connection it belongs to. -/
theorem handles_tcp (hsound : Sound Z w.view) {source : Ip} (destination : Ip) {segment : Bytes}
    (hlen : segment.length ≤ maxFrame) (hx : arrival bytes.val = some (.read source segment)) :
    Handles (.frame bytes) T (tcp env source destination segment) w := by
  unfold tcp
  split
  · exact .pure
  rename_i hbad
  have h20 : 20 ≤ segment.length := by
    by_contra h
    exact hbad (.inl (by omega))
  simp (disch := omega) only [readU16_eq, readU32_eq, byte_eq, pure_bind_eq]
  split
  · exact .pure
  rename_i hoffset
  rw [slice_eq (by omega) le_rfl, pure_bind_eq]
  refine .getStack ?_
  split
  · exact handles_tcpUnknown env hx ..
  rename_i i hi
  have hmatches := matching_some (x := .read source segment) hi
  refine (gives_tcpConnection env ?_ fun _ => ?_).handles (.segment rfl hx hmatches)
  · show (part segment _ segment.length).length ≤ maxFrame
    simp
    omega
  · exact (hsound.connections i hmatches.1).backed

/-! ## Frames -/

variable {packet : Bytes}

theorem handles_ipv4 (hsound : Sound Z w.view) (hlen : packet.length ≤ maxFrame)
    (hx : arrival bytes.val = arrivalIpv4 packet) :
    Handles (.frame bytes) T (ipv4 env packet) w := by
  unfold ipv4
  split
  · exact .pure
  rename_i h20
  simp (disch := omega) only [byte_eq, readU16_eq, pure_bind_eq]
  split
  · exact .pure
  rename_i hheader
  simp only [not_or, not_lt] at hheader
  obtain ⟨-, _, htotal, hfits⟩ := hheader
  simp (disch := omega) only [slice_eq, pure_bind_eq]
  split
  · exact .pure
  simp (disch := omega) only [readU32_eq, pure_bind_eq]
  refine .getStack ?_
  split
  · exact Handles.pure
  split
  · exact (sends_icmp ..).handles
  split
  · exact handles_udp env hsound ..
  split
  · rename_i htcp
    refine handles_tcp env hsound _ (by simp; omega) ?_
    rw [hx, arrivalIpv4, if_pos htcp]
  · exact Handles.pure

/-- A neighbour advertisement of the unspecified address. -/
def AdvertisesNobody (bytes : Bytes) : Prop :=
  wordAt bytes 12 = ethertypeIpv6 ∧ byteAt bytes 20 = protocolIcmpv6 ∧ byteAt bytes 54 = 136 ∧
    ipAt bytes 62 = unspecified

instance (bytes : Bytes) : Decidable (AdvertisesNobody bytes) :=
  inferInstanceAs (Decidable (_ ∧ _))

theorem handles_ipv6 (hsound : Sound Z w.view) (hlen : packet.length ≤ maxFrame)
    (hx : arrival bytes.val = arrivalIpv6 packet)
    (hT : T → ¬ (64 ≤ packet.length ∧ byteAt packet 6 = protocolIcmpv6 ∧
      byteAt packet 40 = 136 ∧ ipAt packet 48 = unspecified)) :
    Handles (.frame bytes) T (ipv6 env packet) w := by
  unfold ipv6
  split
  · exact .pure
  rename_i h40
  simp (disch := omega) only [byte_eq, readU16_eq, pure_bind_eq]
  split
  · exact .pure
  rename_i hfits
  simp only [not_or, not_lt] at hfits
  simp (disch := omega) only [readIp_eq, pure_bind_eq]
  refine .getStack ?_
  split
  · exact Handles.pure
  rw [slice_eq (by omega) hfits.2, pure_bind_eq]
  split
  · rename_i hicmp
    refine Runs.mono (hears_icmpv6 _ _ _ _) fun _ _ h =>
      Heard.moves ⟨h.1, fun ht => h.2.1 ?_, h.2.2⟩
    rintro ⟨h24, hkind, htarget⟩
    rw [length_part] at h24
    rw [byteAt_part (by omega)] at hkind
    rw [ipAt_part (by omega)] at htarget
    exact hT ht ⟨by omega, hicmp, hkind, htarget⟩
  split
  · exact handles_udp env hsound ..
  split
  · rename_i htcp
    refine handles_tcp env hsound _ (by simp; omega) ?_
    rw [hx, arrivalIpv6, if_pos htcp]
  · exact Handles.pure

/-- **A frame is a few acts**, whatever its bytes are. -/
theorem handles_frame (bytes : Frame) (hsound : Sound Z w.view) :
    Handles (.frame bytes) (¬ AdvertisesNobody bytes.val) (frame env bytes.val) w := by
  have hmax := bytes.property
  unfold frame
  split
  · exact .pure
  rename_i h14
  simp (disch := omega) only [readU16_eq, slice_eq, pure_bind_eq]
  have hpacket : (part bytes.val 14 bytes.val.length).length ≤ maxFrame := by
    rw [length_part]
    omega
  split
  · exact (sends_arp _).handles
  split
  · rename_i hkind
    refine handles_ipv4 env hsound hpacket ?_
    simp [arrival, if_pos hkind]
  split
  · rename_i harp hv4 hkind
    refine handles_ipv6 env hsound hpacket ?_ ?_
    · simp [arrival, if_neg hv4, if_pos hkind]
    rintro hnobody ⟨h64, hnext, htype, htarget⟩
    rw [length_part] at h64
    rw [byteAt_part (by omega)] at hnext htype
    rw [ipAt_part (by omega)] at htarget
    exact hnobody ⟨hkind, hnext, htype, htarget⟩
  · exact .pure

end Frames

/-! ## Ticks -/

section Ticks

variable {T : Prop}

/-- What holds of the tables and survives every round of a loop. -/
theorem handles_forSlots {n : Nat} {body : Fin n → Daemon Unit}
    (hbody : ∀ slot w, Sound Z w.view → Handles .tick T (body slot) w) (slots : List (Fin n))
    (hsound : Sound Z w.view) : Handles .tick T (forSlots body slots) w := by
  induction slots generalizing w with
  | nil => exact .pure
  | cons slot rest ih =>
    exact .bind (hbody slot w hsound) fun _ w' h => ih (hsound.acts False.elim h.acts)

theorem handles_dnsTickSlot (slot : Fin 4) (hsound : Sound Z w.view) :
    Handles .tick T (dnsTickSlot env slot) w := by
  unfold dnsTickSlot
  refine .getStack ?_
  dsimp only
  split
  · exact Handles.pure
  rename_i hid
  split
  · exact wp_modifyStack.mpr (Becomes.moves ⟨rfl, id, .same rfl⟩ (.wait hid rfl rfl rfl))
  split
  · refine Handles.bind (wp_modifyStack.mpr (Becomes.moves ⟨rfl, id, .same rfl⟩ .giveUp))
      fun _ w' _ => ?_
    refine Sends.handles (sends_ipcSend ?_)
    simp
  have hasked : Asked w.stack.mappings (w.stack.resolves slot) := hsound.resolves slot hid
  refine Runs.bind (P := fun _ w' => Moves .tick T w w' ∧ w'.stack.mappings = w.stack.mappings ∧
    (w'.stack.resolves slot).base = (w.stack.resolves slot).base ∧
    (w'.stack.resolves slot).length = (w.stack.resolves slot).length)
    (wp_modifyStack.mpr ⟨Becomes.moves ⟨rfl, id, .same rfl⟩ (.wait hid rfl rfl rfl),
      rfl, by simp, by simp⟩)
    fun _ w' h => ?_
  obtain ⟨hmoves, hmappings, hbase, hlength⟩ := h
  refine .mono ?_ fun _ _ h => hmoves.trans h
  refine Handles.bind (Sends.handles (sends_dnsQuery env ?_ ?_)) fun _ _ _ => Handles.pure
  · rw [inside_iff_covers, hmappings, hbase, hlength]
    exact hasked.name.covers
  · rw [hlength]
    exact le_iff_toNat_le.mp hasked.length

variable {m : Fin 8 → Mapping} {c : Connection}

/-- What a live connection has in flight can be sent again. -/
theorem Alive.covers_flight (h : Alive Z m c) :
    Covers m c.flightBase.toNat c.flightLength.toNat ∧
      Fits c.remote (flightSent c) c.flightLength.toNat := by
  have hnone : c.flightLength = 0 → Covers m c.flightBase.toNat c.flightLength.toNat ∧
      Fits c.remote (flightSent c) c.flightLength.toNat := by
    intro hzero
    rw [hzero]
    exact ⟨.inl rfl, fits_zero _ _⟩
  cases h.phase with
  | idle _ _ _ hlength | greeting _ _ _ _ hlength | parting _ _ _ hlength => exact hnone hlength
  | sending _ _ hflags _ hlength hheld => exact ⟨hheld.covers, fits_flight hflags hlength⟩

theorem gives_tickConnection {S : Prop} {i : Fin 8} (h : c.state ≠ .free → Alive Z m c) :
    Gives S m i (tickConnection env i) c () (tickTurn i c) := by
  unfold tickConnection tickTurn
  refine .getStack fun s _ hs => ?_
  rw [hs]
  dsimp only
  split
  · exact .pure
  rename_i hflight
  simp only [not_or] at hflight
  obtain ⟨hcovers, hfits⟩ := (h hflight.1).covers_flight
  refine .bind_quiet (d := { c with waited := c.waited + 1 }) gives_modifyConnection ?_
  split
  · exact .pure
  refine .bind_quiet (d := { c with waited := c.waited + 1, retries := c.retries + 1 })
    gives_modifyConnection ?_
  split
  · exact gives_sendReset.bind (gives_finish _)
  · exact .bind_quiet gives_modifyConnection (gives_transmit env hcovers hfits)

theorem handles_tickConnection (i : Fin 8) (hsound : Sound Z w.view) :
    Handles .tick T (tickConnection env i) w :=
  (gives_tickConnection env (hsound.connections i)).handles (.tick rfl)

/-- **A tick is a few acts.** -/
theorem handles_tick (hsound : Sound Z w.view) : Handles .tick T (tick env) w := by
  unfold tick
  refine .bind (wp_modifyStack.mpr (Quiet.moves ⟨rfl, id, .same rfl⟩)) fun _ w₁ h₁ => ?_
  refine .bind sends_dhcpTick.handles fun _ w₂ h₂ => ?_
  have hsound₂ := hsound.acts False.elim (h₁.trans h₂).acts
  refine .bind (handles_forSlots (fun _ _ => handles_dnsTickSlot env _) _ hsound₂) fun _ w₃ h₃ => ?_
  refine .bind sends_solicitTick.handles fun _ w₄ h₄ => ?_
  have hsound₄ := hsound₂.acts False.elim (h₃.trans h₄).acts
  refine .bind (handles_forSlots (fun _ _ => handles_tickConnection env _) _ hsound₄)
    fun _ w₅ h₅ => ?_
  exact (sends_armTimer env).handles

end Ticks

end Panda.Net
