import PandaProof.NetTurns

/-!
# What a frame says

Reading inside a packet is reading a list: below, each checked read of the daemon is the
plain value once its bounds are known.  ARP, ICMP and ICMPv6 then only send and learn: the
view stays as it is.  The waiting slots stay on record too, unless the address learned is
the one that marks a free slot.
-/
namespace Panda.Net

open Prog List

/-! ## Plain reads -/

section Reads

variable {bytes : Bytes} {k start stop : Nat}

@[simp] theorem length_part (bytes : Bytes) (start stop : Nat) :
    (part bytes start stop).length = min stop bytes.length - start := by
  simp [part]

theorem byteAt_part (h : start + k < stop) :
    byteAt (part bytes start stop) k = byteAt bytes (start + k) := by
  unfold byteAt part
  simp only [getD_eq_getElem?_getD, getElem?_drop]
  rw [getElem?_take_of_lt h]

theorem ipAt_part (h : start + k + 16 ≤ stop) :
    ipAt (part bytes start stop) k = ipAt bytes (start + k) := by
  unfold ipAt
  congr 1
  funext i
  rw [byteAt_part (by omega), Nat.add_assoc]

theorem byte_eq (h : k < bytes.length) : byte bytes k = pure (byteAt bytes k) := by
  simp [byte, h, byteAt]

theorem slice_eq (h : start ≤ stop) (h' : stop ≤ bytes.length) :
    slice bytes start stop = pure (part bytes start stop) := by
  simp [slice, h, h', part]

theorem getStack_bind {A : Type} {w : World} (f : Stack → Daemon A) :
    (getStack >>= f) w = f w.stack w := rfl

theorem readU16_eq (h : k + 2 ≤ bytes.length) : readU16 bytes k = pure (wordAt bytes k) := by
  unfold readU16
  rw [byte_eq (by omega), byte_eq (by omega)]
  rfl

theorem readU32_eq (h : k + 4 ≤ bytes.length) : readU32 bytes k = pure (longAt bytes k) := by
  unfold readU32
  rw [byte_eq (by omega), byte_eq (by omega), byte_eq (by omega), byte_eq (by omega)]
  rfl

theorem array_eq {n : Nat} (h : bytes.length = n) :
    array n bytes = pure (.ofFn fun i => byteAt bytes i) := by
  subst h
  unfold array
  rw [dif_pos rfl]
  congr 1
  ext i hi
  simp [byteAt]

theorem readIp_eq (h : k + 16 ≤ bytes.length) : readIp bytes k = pure (ipAt bytes k) := by
  unfold readIp
  rw [slice_eq (by omega) h, pure_bind_eq, array_eq (by simp; omega)]
  congr 1
  unfold ipAt
  congr 1
  funext i
  exact byteAt_part (by omega)

end Reads

/-! ## Learning -/

/-- The view stays as it is, and so does the record of the waiting slots, if `T` holds; no TCP
segment goes out that is not on record. -/
def Heard (T : Prop) (w w' : World) : Prop :=
  w'.view = w.view ∧ (T → Tracked w → Tracked w') ∧ Wired w w'

/-- The code runs without a fault and is only heard. -/
abbrev Hears {A : Type} (T : Prop) (p : Daemon A) (w : World) : Prop :=
  Runs p w fun _ w' => Heard T w w'

section Hears

variable {A B : Type} {T : Prop} {w : World} {p : Daemon B} {f : B → Daemon A}

theorem Hears.bind (hp : Hears T p w) (hf : ∀ b w', Hears T (f b) w') : Hears T (p >>= f) w :=
  Runs.bind hp fun b w' h => (hf b w').mono fun _ _ h' =>
    ⟨h'.1.trans h.1, fun hT ht => h'.2.1 hT (h.2.1 hT ht), h.2.2.trans h'.2.2⟩

theorem Sends.hears (h : Sends p w) : Hears T p w :=
  Runs.mono h fun _ _ h' => ⟨h'.view, fun _ => h'.tracked, h'.wired⟩

theorem Hears.sends (h : Hears T p w) (hT : T) : Sends p w :=
  Runs.mono h fun _ _ h' => ⟨h'.1, h'.2.1 hT, h'.2.2⟩

end Hears

variable {w : World} (address : Ip) (mac : Mac)

/-- A slot given up for the address its frame waited for. -/
theorem tracked_release {slot : Fin 2} (haddress : address ≠ unspecified)
    (hhop : (w.stack.waiting slot).nextHop = address) {frame : Bytes}
    (hframe : frame = patched mac (w.stack.waiting slot).frame) (h : Tracked w) : Tracked
      { w with
        stack := { w.stack with
          waiting := Function.update w.stack.waiting slot ⟨frame, unspecified⟩ }
        log := .released slot address mac frame :: w.log } := by
  obtain ⟨horderly, hslots⟩ := h
  refine ⟨⟨⟨(w.stack.waiting slot).frame, ?_, hframe⟩, horderly⟩, fun slot' => ?_⟩
  · rw [hslots slot, hhop, if_neg haddress]
  by_cases hslot : slot = slot'
  · subst hslot
    simp [waitsAt, Event.waits]
  · simpa [waitsAt, Event.waits, hslot, Function.update_of_ne (Ne.symm hslot)]
      using hslots slot'

theorem hears_release (slot : Fin 2) :
    Hears (address ≠ unspecified) (release address mac slot) w := by
  unfold release
  refine .getStack ?_
  dsimp only
  split
  · rename_i hhop
    refine wp_bind.mpr (wp_emit.mpr (wp_modifyStack.mpr ?_))
    exact ⟨by simp [World.view, Event.visible], fun h => tracked_release address mac h hhop rfl,
      .cons rfl rfl⟩
  · exact Does.pure.hears

theorem hears_forSlots {n : Nat} {T : Prop} {body : Fin n → Daemon Unit}
    (h : ∀ slot w, Hears T (body slot) w) {slots : List (Fin n)} :
    Hears T (forSlots body slots) w := by
  induction slots generalizing w with
  | nil => exact Does.pure.hears
  | cons slot rest ih => exact .bind (h slot w) fun _ _ => ih

/-- **Learning an address** other than the unspecified one keeps the waiting slots on
record. -/
theorem hears_learn : Hears (address ≠ unspecified) (learn address mac) w := by
  unfold learn
  refine .getStack ?_
  have hrest : ∀ w', Hears (address ≠ unspecified)
      (forSlots (release address mac) (finRange 2)) w' := fun w' =>
    hears_forSlots fun slot _ => hears_release address mac slot
  split
  · exact Hears.bind (wp_modifyStack.mpr ⟨rfl, fun _ => id, .same rfl⟩) fun _ => hrest
  · exact Hears.bind (wp_modifyStack.mpr ⟨rfl, fun _ => id, .same rfl⟩) fun _ => hrest

theorem sends_arp (packet : Bytes) : Sends (arp packet) w := by
  unfold arp
  split
  · exact .pure
  rename_i hlen
  simp (disch := omega) only [readU16_eq, byte_eq, slice_eq, readU32_eq,
    array_eq (n := 6) (show (part packet 8 14).length = 6 by simp; omega), pure_bind_eq]
  split
  · exact .pure
  refine .getStack ?_
  split
  · exact Does.pure
  refine Sends.bind ((hears_learn _ _).sends (mapped_ne_unspecified _)) fun _ w' => ?_
  split
  · generalize (Vector.ofFn fun i => byteAt (part packet 8 14) i : Mac) = sender
    have hparts : ∀ p ∈ [(0, sender.toList), (6, w.stack.mac.toList), (12, be16 ethertypeArp),
        (14, [0, 1, 0x08, 0x00, 6, 4, 0, 2]), (22, w.stack.mac.toList), (28, be32 w.stack.address),
        (32, sender.toList), (38, be32 (longAt packet 14))],
        p.1 + p.2.length ≤ (zeros 42).length := by
      simp
    rw [(putAll_eq hparts).1, pure_bind_eq]
    refine wp_emit.mpr (quiet_emit rfl rfl (read_of_arp ?_))
    simp only [wordAt, byteAt_overwriteAll hparts]
    simp
    exact wordAt_be16 _
  · exact .pure

/-! ## ICMP -/

variable {message : Bytes}

theorem runs_echoReply {size : Nat} (kind : UInt8) (hsize : 0 < size) (hmessage : message ≠ []) :
    Runs (echoReply size kind message) w fun reply w' =>
      reply.length = min message.length size ∧ w' = w := by
  have hpos : 0 < message.length := length_pos_iff.mpr hmessage
  unfold echoReply
  simp (disch := omega) only [slice_eq, pure_bind_eq]
  refine .bind (runs_putAll ?_) ?_
  · simp
    omega
  rintro reply w' ⟨hreply, rfl⟩
  refine wp_pure.mpr ⟨?_, rfl⟩
  rw [length_zeros] at hreply
  rw [length_take]
  omega

theorem sends_ipcSend {endpoint tag : UInt64} {words : Words} (h : ¬ tcpTag tag) :
    Sends (ipcSend endpoint tag words) w := by
  refine wp_emit.mpr (quiet_emit ?_ rfl rfl)
  exact decide_eq_false h

theorem sends_pong (source : Ip) (word : UInt64) (sequence : UInt16) :
    Sends (pong source word sequence) w := by
  unfold pong
  refine .getStack ?_
  split
  · exact Does.pure
  · refine Sends.bind (sends_ipcSend (by simp [tagPong])) fun _ w' => ?_
    exact wp_modifyStack.mpr ⟨rfl, id, .same rfl⟩

theorem sends_icmp (source : UInt32) (message : Bytes) : Sends (icmp source message) w := by
  unfold icmp
  split
  · exact .pure
  rename_i hbad
  have hlen : 8 ≤ message.length := by
    by_contra h
    exact hbad (.inl (by omega))
  simp (disch := omega) only [byte_eq, readU16_eq, pure_bind_eq]
  split
  · refine Runs.bind (runs_echoReply 0 (by decide) (by rintro rfl; simp at hlen)) ?_
    rintro reply w' ⟨hreply, rfl⟩
    simp only [maxFrame] at hreply
    refine .bind (runs_put (by simp; omega)) ?_
    rintro reply' w' ⟨_, rfl⟩
    refine .bind (runs_put (by simp; omega)) ?_
    rintro reply'' w' ⟨-, rfl⟩
    exact sends_sendIpv4 _ (by decide) _
  split
  · split
    · exact sends_pong ..
    · exact .pure
  · exact .pure

/-! ## ICMPv6 -/

/-- The options of neighbour discovery never leave their packet, and each is at least
eight bytes long. -/
theorem runs_options (bytes : Bytes) (start : Nat) :
    Runs (options bytes start) w fun list w' => w' = w ∧ ∀ o ∈ list, 8 ≤ o.2.length := by
  unfold options
  split
  · simp
  rename_i units _
  dsimp only
  split
  · simp
  rename_i hrun
  have hfits : start + units.toNat * 8 ≤ bytes.length := by omega
  have hpart : (part bytes start (start + units.toNat * 8)).length = units.toNat * 8 := by
    simp
    omega
  simp (disch := omega) only [slice_eq, pure_bind_eq, byte_eq]
  refine .bind (runs_options bytes (start + units.toNat * 8)) ?_
  rintro rest w' ⟨rfl, hrest⟩
  refine wp_pure.mpr ⟨rfl, ?_⟩
  rintro o (_ | ⟨_, ho⟩)
  · simp only [hpart]
    omega
  · exact hrest o ho
termination_by bytes.length - start
decreasing_by omega

variable {option : Bytes}

theorem optionMac_eq (h : 8 ≤ option.length) :
    optionMac option = pure (.ofFn fun i => byteAt (part option 2 8) i) := by
  unfold optionMac
  rw [slice_eq (by omega) h, pure_bind_eq, array_eq (by simp; omega)]

variable {source : Ip}

theorem sends_routerOptions (hsource : source ≠ unspecified)
    (list : List (UInt8 × Bytes)) (found : Advertised) :
    Sends (routerOptions source list found) w := by
  induction list generalizing found w with
  | nil => exact .pure
  | cons o rest ih =>
    obtain ⟨_, _⟩ := o
    unfold routerOptions
    split
    · rename_i h
      rw [optionMac_eq h.2, pure_bind_eq]
      exact .bind ((hears_learn _ _).sends hsource) fun _ _ => ih _
    split
    · rename_i h
      rw [byte_eq (by omega), pure_bind_eq]
      split
      · rw [readIp_eq (by omega), pure_bind_eq]
        exact ih _
      · exact ih _
    split
    · rename_i h
      rw [readIp_eq (by omega), pure_bind_eq]
      exact ih _
    · exact ih _

theorem sends_answerWaiters {answer : UInt64 → Daemon Unit}
    (h : ∀ waiter w, Sends (answer waiter) w) (waiters : List UInt64) :
    Sends (answerWaiters answer waiters) w := by
  induction waiters generalizing w with
  | nil => exact .pure
  | cons waiter rest ih =>
    unfold answerWaiters
    split
    · exact .bind (h waiter w) fun _ _ => ih
    · exact ih

theorem sends_configured (reply : UInt64) : Sends (configured reply) w := by
  unfold configured
  refine wp_bind.mpr (wp_getStack.mpr (sends_ipcSend ?_))
  simp [tagNetConfigured]

theorem sends_configured6 (reply : UInt64) : Sends (configured6 reply) w := by
  unfold configured6
  refine wp_bind.mpr (wp_getStack.mpr (sends_ipcSend ?_))
  simp [tagNetConfigured6]

theorem sends_routerAdvertisement (hsource : source ≠ unspecified)
    (hlen : 16 ≤ message.length) : Sends (routerAdvertisement source message) w := by
  unfold routerAdvertisement
  rw [slice_eq hlen le_rfl, pure_bind_eq]
  refine Runs.bind (runs_options _ 0) ?_
  rintro list w' ⟨rfl, -⟩
  refine Sends.bind (sends_routerOptions hsource list _) fun found w'' => ?_
  split
  · exact .pure
  · refine .getStack ?_
    refine Sends.bind (wp_modifyStack.mpr ⟨rfl, id, .same rfl⟩) fun _ w''' => ?_
    exact sends_answerWaiters (fun _ _ => sends_configured6 _) _

theorem findOption_length {kind : UInt8} {list : List (UInt8 × Bytes)}
    (h : findOption kind list = some option) : 8 ≤ option.length := by
  obtain ⟨o, ho, rfl⟩ := Option.map_eq_some_iff.mp h
  have := find?_some ho
  simp only [decide_eq_true_eq] at this
  exact this.2

theorem hears_learnOption (kind : UInt8) (address : Ip) (hlen : 24 ≤ message.length) :
    Hears (address ≠ unspecified) (learnOption kind address message) w := by
  unfold learnOption
  rw [slice_eq hlen le_rfl, pure_bind_eq]
  refine Runs.bind (runs_options _ 0) ?_
  rintro list w' ⟨rfl, -⟩
  split
  · exact Does.pure.hears
  · rename_i option hoption
    rw [optionMac_eq (findOption_length hoption), pure_bind_eq]
    exact hears_learn _ _

theorem sends_advertise (source target : Ip) : Sends (advertise source target) w := by
  unfold advertise
  refine .getStack ?_
  refine Runs.bind (runs_putAll (by simp)) ?_
  rintro advert w' ⟨hlen, rfl⟩
  exact sends_sendIcmpv6 _ (by simp at hlen; omega)

theorem sends_neighbourSolicitation (source : Ip) (hlen : 24 ≤ message.length) :
    Sends (neighbourSolicitation source message) w := by
  unfold neighbourSolicitation
  rw [readIp_eq (by omega), pure_bind_eq]
  refine .getStack ?_
  split
  · exact Does.pure
  split
  · rename_i hsource
    exact Sends.bind ((hears_learnOption 1 source hlen).sends hsource) fun _ _ =>
      sends_advertise ..
  · exact sends_advertise ..

theorem hears_neighbourAdvertisement (hlen : 24 ≤ message.length) :
    Hears (ipAt message 8 ≠ unspecified) (neighbourAdvertisement message) w := by
  unfold neighbourAdvertisement
  rw [readIp_eq (by omega), pure_bind_eq]
  exact hears_learnOption _ _ hlen

theorem linkLocal_ne_unspecified (h : isLinkLocal source = true) : source ≠ unspecified := by
  rintro rfl
  cases h

/-- **ICMPv6** changes nothing of the view, and keeps the waiting slots on record unless
it is an advertisement of the unspecified address. -/
theorem hears_icmpv6 (source destination : Ip) (hopLimit : UInt8) (message : Bytes) :
    Hears (¬ (24 ≤ message.length ∧ byteAt message 0 = 136 ∧ ipAt message 8 = unspecified))
      (icmpv6 source destination hopLimit message) w := by
  unfold icmpv6
  split
  · exact Does.pure.hears
  rename_i hbad
  have hlen : 8 ≤ message.length := by
    by_contra h
    exact hbad (.inl (by omega))
  simp (disch := omega) only [byte_eq, readU16_eq, pure_bind_eq]
  split
  · refine Sends.hears ?_
    refine Runs.bind (runs_echoReply 129 (by decide) (by rintro rfl; simp at hlen)) ?_
    rintro reply w' ⟨hreply, rfl⟩
    simp only [maxFrame] at hreply
    exact sends_sendIcmpv6 _ (by omega)
  split
  · refine Sends.hears ?_
    split
    · exact sends_pong ..
    · exact .pure
  split
  · rename_i h
    exact (sends_routerAdvertisement (linkLocal_ne_unspecified h.2.2.1) h.2.2.2).hears
  split
  · rename_i h
    exact (sends_neighbourSolicitation source h.2.2).hears
  split
  · rename_i h
    refine .mono (hears_neighbourAdvertisement h.2.2) fun _ _ h' =>
      ⟨h'.1, fun hT => h'.2.1 ?_, h'.2.2⟩
    exact fun htarget => hT ⟨h.2.2, h.1, htarget⟩
  · exact Does.pure.hears

end Panda.Net
