import PandaProof.RingRuns

/-!
# What a ring delivers

The counters of a ring are 32 bits wide and run free: a message's slot is its counter's
value modulo the number of slots, and the counter wraps.  Seen from the messages, number
`j` goes through slot `j mod 2^32 mod slots`.  That is `j mod slots`, and consecutive
messages use the slots in turn, exactly when the number of slots divides `2^32`.

The invariant (`Delivery`) follows the true numbers of messages sent and received.  For a
number of slots that does not divide `2^32`, a message sent just after the wrap lands on one
that has not been read (`delivers_iff`).
-/
namespace Panda.Channel

open Function List Option
open Panda.Ring (Side)

variable {c : Config} {s s' : State} {side : Side}

/-- Number `j` modulo `2^32`, as a counter holds it. -/
abbrev counted (j : Nat) : BitVec 32 := .ofNat 32 j

/-- `2^32`, where the counters wrap. -/
def wrap : Nat := 4294967296

/-- Nothing that has been sent and not received is in the slot being written. -/
def NoOverwrite (c : Config) (s : State) : Prop :=
  ∀ mine i, s.pc .sender = .copy mine i → ∀ j, s.received.length ≤ j → j < s.sent.length →
    slotOf c (counted j) ≠ slotOf c mine

/-! ## The slots -/

theorem slotOf_counted (h : c.slots.toNat ∣ wrap) (j : Nat) :
    slotOf c (counted j) = j % c.slots.toNat := by
  simp only [slotOf, counted, BitVec.toNat_umod, BitVec.toNat_ofNat]
  exact Nat.mod_mod_of_dvd _ h

variable {j k : Nat}

/-- Fewer messages apart than there are slots, two messages use different slots. -/
theorem slotOf_ne (h : c.slots.toNat ∣ wrap) (hjk : j < k)
    (hk : k < j + c.slots.toNat) : slotOf c (counted j) ≠ slotOf c (counted k) := by
  rw [slotOf_counted h, slotOf_counted h]
  intro heq
  have hdvd : c.slots.toNat ∣ k - j :=
    Nat.dvd_of_mod_eq_zero (Nat.sub_mod_eq_zero_of_mod_eq heq.symm)
  have := Nat.le_of_dvd (by omega) hdvd
  omega

/-- The distance between two counters that are not far apart. -/
theorem toNat_counted_sub (hjk : j ≤ k) (hk : k < j + wrap) :
    (counted k - counted j).toNat = k - j := by
  simp only [counted, BitVec.toNat_sub, BitVec.toNat_ofNat, wrap] at hk ⊢
  omega

theorem slots_lt_wrap (c : Config) : c.slots.toNat < wrap := by
  have h := c.accepted.2
  simp only [Ring.maxSlots, wrap] at h ⊢
  omega

/-- What an attempt that goes on has found out about the true numbers. -/
theorem queued_ready (hjk : j ≤ k) (hk : k ≤ j + c.slots.toNat)
    (h : (queued c (counted k) (counted j)).any (ready c side) = true) : match side with
    | .sender => k < j + c.slots.toNat
    | .receiver => j < k := by
  have hslots := slots_lt_wrap c
  have hdist := toNat_counted_sub hjk (by omega)
  obtain ⟨q, hq, hready⟩ := (any_eq_true _ _).mp h
  unfold queued at hq
  split at hq
  · cases hq
    cases side with
    | sender =>
      have hlt : counted k - counted j < c.slots := of_decide_eq_true hready
      rw [BitVec.lt_def, hdist] at hlt
      show k < j + c.slots.toNat
      omega
    | receiver =>
      have hlt : 0 < counted k - counted j := of_decide_eq_true hready
      rw [BitVec.lt_def, hdist] at hlt
      have : 0 < k - j := hlt
      show j < k
      omega
  · cases hq

/-- And the other way round. -/
theorem ready_queued (side : Side) (hjk : j ≤ k) (hk : k ≤ j + c.slots.toNat) (h : match side with
      | .sender => k < j + c.slots.toNat
      | .receiver => j < k) :
    (queued c (counted k) (counted j)).any (ready c side) = true := by
  have hslots := slots_lt_wrap c
  have hdist := toNat_counted_sub hjk (by omega)
  have hle : counted k - counted j ≤ c.slots := by
    rw [BitVec.le_def, hdist]
    omega
  rw [queued, if_pos hle]
  cases side with
  | sender =>
    have h : k < j + c.slots.toNat := h
    refine decide_eq_true (p := counted k - counted j < c.slots) ?_
    rw [BitVec.lt_def, hdist]
    omega
  | receiver =>
    have h : j < k := h
    refine decide_eq_true (p := 0 < counted k - counted j) ?_
    rw [BitVec.lt_def, hdist]
    show 0 < k - j
    omega

/-! ## What a step does to the messages -/

namespace Pc

/-- What a side read for its own counter, while an attempt is under way. -/
def mine : Pc → Option (BitVec 32)
  | .loadTail mine | .loadHead mine _ | .copy mine _ | .publish mine => some mine
  | .idle | .start | .loadFlag | .wake | .unblock _ | .raise | .lookTail | .lookHead _ | .enter
  | .park | .recheck | .lower _ => none

/-- How many bytes of the slot are copied. -/
def copied : Pc → Option Nat
  | .copy _ i => some i.val
  | .publish _ => some 64
  | .idle | .start | .loadTail _ | .loadHead _ _ | .loadFlag | .wake | .unblock _ | .raise
  | .lookTail | .lookHead _ | .enter | .park | .recheck | .lower _ => none

end Pc

/-- The shared counters, the slots and the messages are the same. -/
structure Still (s s' : State) : Prop where
  counter : s'.counter = s.counter
  data : s'.data = s.data
  sent : s'.sent = s.sent
  received : s'.received = s.received

/-- What a step of one side does to the messages. -/
inductive Transfer (c : Config) (s : State) (side : Side) (s' : State) : Prop
  /-- Nothing; no attempt is under way after it. -/
  | outside (h : Still s s') (hmessage : s'.message side.other = s.message side.other)
      (hother : s'.pc side.other = s.pc side.other) (hpc : (s'.pc side).mine = none)
  | loadTail (hs' : s' = s.setPc side (.loadTail (s.counter side)))
  | loadHead {mine : BitVec 32} (hpc : s.pc side = .loadTail mine)
      (hs' : s' = s.setPc side (.loadHead mine (s.counter .sender)))
  | start {mine tail : BitVec 32} (hpc : s.pc side = .loadHead mine tail)
      (hready : (queued c tail (s.counter .receiver)).any (ready c side) = true)
      (hs' : s' = s.setPc side (.copy mine 0))
  | copy {mine : BitVec 32} {i : Fin 64} (hpc : s.pc side = .copy mine i)
      (hs' : s' = (copyByte c s side mine i).setPc side (.afterByte mine i))
  | publish {mine : BitVec 32} (hpc : s.pc side = .publish mine)
      (hs' : s' = (advance s side mine).setPc side .loadFlag)

theorem transfer_setPc {pc : Pc} (hpc : pc.mine = none) : Transfer c s side (s.setPc side pc) :=
  .outside ⟨rfl, rfl, rfl, rfl⟩ rfl (update_of_ne side.other_ne _ _) (by rw [setPc_self]; exact hpc)

theorem transfer_failed : Transfer c s side (s.failed side) := by
  unfold State.failed
  split
  · exact transfer_setPc rfl
  split
  · exact .outside ⟨rfl, rfl, rfl, rfl⟩ rfl (update_of_ne side.other_ne _ _)
      (by rw [setPc_self]; rfl)
  · exact transfer_setPc rfl

theorem transfer_of_go (hs : go c s side = some s') : Transfer c s side s' := by
  -- Most steps only move the program counter, and leave the words it looks at alone.
  have hrest : ∀ {t : State} {pc : Pc}, some (t.setPc side pc) = some s' → Still s t →
      t.message = s.message → t.pc = s.pc → pc.mine = none → Transfer c s side s' := by
    intro t pc heq hstill hmessage hpcs hpc
    cases heq
    refine .outside { hstill with } ?_ ?_ ?_
    · exact congrFun hmessage _
    · exact (update_of_ne side.other_ne _ _).trans (congrFun hpcs _)
    · rw [setPc_self]
      exact hpc
  have hplain : ∀ {pc : Pc}, some (s.setPc side pc) = some s' → pc.mine = none →
      Transfer c s side s' := fun heq hpc => hrest heq ⟨rfl, rfl, rfl, rfl⟩ rfl rfl hpc
  unfold go at hs
  dsimp only at hs
  split at hs
  · cases hs
  split at hs
  · cases hs
  · exact .loadTail (some.inj hs).symm
  · exact .loadHead ‹_› (some.inj hs).symm
  · split at hs
    · exact .start ‹_› ‹_› (some.inj hs).symm
    · cases hs
      exact transfer_failed
  · exact .copy ‹_› (some.inj hs).symm
  · exact .publish ‹_› (some.inj hs).symm
  · exact hplain hs (by split <;> rfl)
  · split at hs
    · exact hrest hs ⟨rfl, rfl, rfl, rfl⟩ rfl rfl rfl
    · exact hplain hs rfl
  · split at hs
    · exact hrest hs ⟨rfl, rfl, rfl, rfl⟩ rfl rfl rfl
    · exact hplain hs rfl
  · exact hrest hs ⟨rfl, rfl, rfl, rfl⟩ rfl rfl rfl
  · exact hplain hs rfl
  · split at hs
    · exact hplain hs rfl
    · exact hplain hs (by split <;> rfl)
  · split at hs
    · exact hrest hs ⟨rfl, rfl, rfl, rfl⟩ rfl rfl (by split <;> rfl)
    · exact hplain hs rfl
  · exact hrest hs ⟨rfl, rfl, rfl, rfl⟩ rfl rfl (by split <;> rfl)
  · split at hs
    · exact hplain hs (by split <;> rfl)
    · exact hplain hs rfl
  · split at hs
    · exact hrest hs ⟨rfl, rfl, rfl, rfl⟩ rfl rfl rfl
    · exact hrest hs ⟨rfl, rfl, rfl, rfl⟩ rfl rfl rfl

/-! ## The invariant -/

/-- The ring against the true numbers of messages sent and received. -/
structure Delivery (c : Config) (s : State) : Prop where
  tail : s.counter .sender = counted s.sent.length
  head : s.counter .receiver = counted s.received.length
  got : s.received <+: s.sent
  room : s.sent.length ≤ s.received.length + c.slots.toNat
  /-- What has not been read is where it was put. -/
  unread : ∀ j m, s.received.length ≤ j → s.sent[j]? = some m → s.data (slotOf c (counted j)) = m
  mine : ∀ side m, (s.pc side).mine = some m → m = s.counter side
  /-- The tail a side has loaded; the receiver's may be out of date. -/
  seen : ∀ side m t, s.pc side = .loadHead m t → ∃ n, t = counted n ∧ s.received.length ≤ n ∧
    n ≤ s.sent.length ∧ (side = .sender → n = s.sent.length)
  writing : ∀ k, (s.pc .sender).copied = some k →
    s.sent.length < s.received.length + c.slots.toNat ∧
    ∀ i : Fin 64, i.val < k → s.data (slotOf c (s.counter .sender)) i = s.message .sender i
  reading : ∀ k, (s.pc .receiver).copied = some k → ∃ m, s.sent[s.received.length]? = some m ∧
    ∀ i : Fin 64, i.val < k → s.message .receiver i = m i

theorem counted_succ (j : Nat) : counted j + 1 = counted (j + 1) := by
  simp [counted, BitVec.ofNat_add]

theorem copied_of_mine {pc : Pc} (h : pc.mine = none) : pc.copied = none := by
  cases pc <;> first | rfl | cases h

theorem copied_next (mine : BitVec 32) (i : Fin 64) :
    (Pc.afterByte mine i).copied = some (i.val + 1) := by
  unfold Pc.afterByte
  split
  · rfl
  · have hlast : i.val + 1 = 64 := by omega
    rw [hlast]
    rfl

theorem mine_next (mine : BitVec 32) (i : Fin 64) :
    (Pc.afterByte mine i).mine = some mine := by
  unfold Pc.afterByte
  split <;> rfl

/-- How far a side has copied the message it is at. -/
def Copies (c : Config) (s : State) : Side → Nat → Prop
  | .sender, k => s.sent.length < s.received.length + c.slots.toNat ∧
    ∀ i : Fin 64, i.val < k → s.data (slotOf c (s.counter .sender)) i = s.message .sender i
  | .receiver, k => ∃ m, s.sent[s.received.length]? = some m ∧
    ∀ i : Fin 64, i.val < k → s.message .receiver i = m i

/-- What a side has found out, at `pc`. -/
structure Knows (c : Config) (s : State) (side : Side) (pc : Pc) : Prop where
  mine : ∀ m, pc.mine = some m → m = s.counter side
  seen : ∀ m t, pc = .loadHead m t → ∃ n, t = counted n ∧ s.received.length ≤ n ∧
    n ≤ s.sent.length ∧ (side = .sender → n = s.sent.length)
  copied : ∀ k, pc.copied = some k → Copies c s side k

/-- Nothing, outside an attempt. -/
theorem Knows.out {pc : Pc} (h : pc.mine = none) : Knows c s side pc := by
  refine ⟨fun m hm => ?_, fun m t hp => ?_, fun k hk => ?_⟩
  · rw [h] at hm
    cases hm
  · rw [hp] at h
    cases h
  · rw [copied_of_mine h] at hk
    cases hk

variable {mine : BitVec 32} {i : Fin 64}

theorem Knows.next (hmine : mine = s.counter side) (h : Copies c s side (i.val + 1)) :
    Knows c s side (.afterByte mine i) := by
  refine ⟨fun m hm => ?_, fun m t hp => ?_, fun k hk => ?_⟩
  · rw [mine_next] at hm
    exact some.inj hm ▸ hmine
  · unfold Pc.afterByte at hp
    split at hp <;> cases hp
  · rw [copied_next] at hk
    exact some.inj hk ▸ h

theorem Delivery.knows (h : Delivery c s) (x : Side) : Knows c s x (s.pc x) := by
  refine ⟨h.mine x, h.seen x, ?_⟩
  cases x with
  | sender => exact h.writing
  | receiver => exact h.reading

theorem Delivery.of_sides (side : Side) (htail : s.counter .sender = counted s.sent.length)
    (hhead : s.counter .receiver = counted s.received.length) (hgot : s.received <+: s.sent)
    (hroom : s.sent.length ≤ s.received.length + c.slots.toNat)
    (hunread : ∀ j m, s.received.length ≤ j → s.sent[j]? = some m →
      s.data (slotOf c (counted j)) = m)
    (hself : Knows c s side (s.pc side)) (hother : Knows c s side.other (s.pc side.other)) :
    Delivery c s := by
  have hknows : ∀ x, Knows c s x (s.pc x) := by
    intro x
    by_cases hx : x = side
    · exact hx ▸ hself
    · exact Side.eq_other_of_ne hx ▸ hother
  exact ⟨htail, hhead, hgot, hroom, hunread, fun x => (hknows x).mine, fun x => (hknows x).seen,
    (hknows .sender).copied, (hknows .receiver).copied⟩

/-- A step that only moves one side on. -/
theorem Delivery.still (h : Delivery c s) (hstill : Still s s')
    (hmessage : s'.message side.other = s.message side.other)
    (hother : s'.pc side.other = s.pc side.other) (hself : Knows c s' side (s'.pc side)) :
    Delivery c s' := by
  obtain ⟨hcounter, hdata, hsent, hreceived⟩ := hstill
  have hknows := h.knows side.other
  refine .of_sides side ?_ ?_ ?_ ?_ ?_ hself ⟨?_, ?_, ?_⟩
  · rw [hcounter, hsent]
    exact h.tail
  · rw [hcounter, hreceived]
    exact h.head
  · rw [hreceived, hsent]
    exact h.got
  · rw [hreceived, hsent]
    exact h.room
  · rw [hreceived, hsent, hdata]
    exact h.unread
  · rw [hother, hcounter]
    exact hknows.mine
  · rw [hother, hreceived, hsent]
    exact hknows.seen
  · intro k hk
    have hcopies := hknows.copied k (hother ▸ hk)
    cases side <;> simp only [Side.other] at hmessage <;>
      simpa only [Side.other, Copies, hreceived, hsent, hdata, hcounter, hmessage] using hcopies

/-- A byte goes into a slot that holds nothing unread. -/
theorem Delivery.copy_sender (hdvd : c.slots.toNat ∣ wrap) (h : Delivery c s)
    (hpc : s.pc .sender = .copy mine i) : Delivery c ((copyByte c s .sender mine i).setPc .sender
      (.afterByte mine i)) := by
  have hmine : mine = s.counter .sender := h.mine .sender mine (by rw [hpc]; rfl)
  obtain ⟨hroom, hbytes⟩ := h.writing i.val (by rw [hpc]; rfl)
  refine .of_sides .sender h.tail h.head h.got h.room ?_ ?_ ?_
  · intro j m hj hm
    have hj : s.received.length ≤ j := hj
    have hlt : j < s.sent.length := (List.getElem?_eq_some_iff.mp hm).1
    have hne : slotOf c (counted j) ≠ slotOf c mine := by
      rw [hmine, h.tail]
      exact slotOf_ne hdvd hlt (by omega)
    show update s.data _ _ _ = m
    rw [update_of_ne hne]
    exact h.unread j m hj hm
  · rw [setPc_self]
    refine .next hmine ⟨hroom, fun b hb => ?_⟩
    show update s.data (slotOf c mine) _ (slotOf c (s.counter .sender)) b = _
    rw [← hmine, update_self]
    by_cases hbi : b = i
    · rw [hbi, update_self]
      rfl
    · rw [update_of_ne hbi, hmine]
      exact hbytes b (by omega)
  · rw [setPc_of_ne _ _ (by decide)]
    exact { h.knows .receiver with }

/-- A byte comes out of the slot of the oldest message that has not been received. -/
theorem Delivery.copy_receiver (h : Delivery c s) (hpc : s.pc .receiver = .copy mine i) :
    Delivery c ((copyByte c s .receiver mine i).setPc .receiver
      (.afterByte mine i)) := by
  have hmine : mine = s.counter .receiver := h.mine .receiver mine (by rw [hpc]; rfl)
  obtain ⟨message, hfirst, hbytes⟩ := h.reading i.val (by rw [hpc]; rfl)
  refine .of_sides .receiver h.tail h.head h.got h.room h.unread ?_ ?_
  · rw [setPc_self]
    refine .next hmine ⟨message, hfirst, fun b hb => ?_⟩
    show update s.message .receiver (update (s.message .receiver) i
      (s.data (slotOf c mine) i)) .receiver b = message b
    rw [update_self]
    by_cases hbi : b = i
    · rw [hbi, update_self, hmine, h.head, h.unread _ message le_rfl hfirst]
    · rw [update_of_ne hbi]
      exact hbytes b (by omega)
  · rw [setPc_of_ne _ _ (by decide)]
    exact { h.knows .sender with }

theorem Delivery.publish_sender (h : Delivery c s) (hpc : s.pc .sender = .publish mine) :
    Delivery c ((advance s .sender mine).setPc .sender .loadFlag) := by
  have hmine : mine = counted s.sent.length := (h.mine .sender mine (by rw [hpc]; rfl)).trans h.tail
  obtain ⟨hroom, hbytes⟩ := h.writing 64 (by rw [hpc]; rfl)
  refine .of_sides .sender ?_ h.head ?_ ?_ ?_ (by rw [setPc_self]; exact .out rfl) ?_
  · show update s.counter .sender (mine + 1) .sender = _
    rw [update_self, hmine, counted_succ]
    show _ = counted (s.sent ++ [s.message .sender]).length
    rw [length_append, length_singleton]
  · exact h.got.trans (prefix_append _ _)
  · show (s.sent ++ [s.message .sender]).length ≤ _
    rw [length_append, length_singleton]
    exact hroom
  · intro j m hj hm
    have hm : (s.sent ++ [s.message .sender])[j]? = some m := hm
    rcases Nat.lt_or_ge j s.sent.length with hlt | hge
    · rw [getElem?_append_left hlt] at hm
      exact h.unread j m hj hm
    have hlt : j < (s.sent ++ [s.message .sender]).length := (List.getElem?_eq_some_iff.mp hm).1
    rw [length_append, length_singleton] at hlt
    obtain rfl : j = s.sent.length := by omega
    rw [getElem?_concat_length] at hm
    cases hm
    funext b
    exact h.tail ▸ hbytes b b.isLt
  · rw [setPc_of_ne _ _ (by decide)]
    have hknows := h.knows .receiver
    refine ⟨hknows.mine, fun m t hp => ?_, fun k hk => ?_⟩
    · obtain ⟨n, ht, hle, _, -⟩ := hknows.seen m t hp
      refine ⟨n, ht, hle, ?_, by simp [Side.other]⟩
      show n ≤ (s.sent ++ [s.message .sender]).length
      rw [length_append]
      omega
    · obtain ⟨m, hm, hb⟩ := hknows.copied k hk
      refine ⟨m, ?_, hb⟩
      show (s.sent ++ [s.message .sender])[s.received.length]? = some m
      rw [List.getElem?_append_left (List.getElem?_eq_some_iff.mp hm).1, hm]

theorem Delivery.publish_receiver (h : Delivery c s) (hpc : s.pc .receiver = .publish mine) :
    Delivery c ((advance s .receiver mine).setPc .receiver .loadFlag) := by
  have hmine : mine = counted s.received.length :=
    (h.mine .receiver mine (by rw [hpc]; rfl)).trans h.head
  obtain ⟨m, hfirst, hbytes⟩ := h.reading 64 (by rw [hpc]; rfl)
  obtain rfl : s.message .receiver = m := funext fun b => hbytes b b.isLt
  have hlt : s.received.length < s.sent.length := (List.getElem?_eq_some_iff.mp hfirst).1
  have hlength : (s.received ++ [s.message .receiver]).length = s.received.length + 1 := by
    rw [length_append, length_singleton]
  refine .of_sides .receiver h.tail ?_ ?_ ?_ ?_ (by rw [setPc_self]; exact .out rfl) ?_
  · show update s.counter .receiver (mine + 1) .receiver = counted (_ ++ [_]).length
    rw [update_self, hmine, counted_succ, hlength]
  · show s.received ++ [s.message .receiver] <+: s.sent
    obtain ⟨rest, hrest⟩ := h.got
    rw [← hrest, getElem?_append_right le_rfl, Nat.sub_self] at hfirst
    cases rest with
    | nil => cases hfirst
    | cons first rest =>
      cases hfirst
      exact ⟨rest, by rw [← hrest]; simp⟩
  · show s.sent.length ≤ (s.received ++ [s.message .receiver]).length + _
    rw [hlength]
    have := h.room
    omega
  · intro j m hj hm
    have hj : (s.received ++ [s.message .receiver]).length ≤ j := hj
    rw [hlength] at hj
    exact h.unread j m (by omega) hm
  · rw [setPc_of_ne _ _ (by decide)]
    have hknows := h.knows .sender
    refine ⟨hknows.mine, fun m t hp => ?_, fun k hk => ?_⟩
    · obtain ⟨n, ht, -, hn, hall⟩ := hknows.seen m t hp
      refine ⟨n, ht, ?_, hn, hall⟩
      show (s.received ++ [s.message .receiver]).length ≤ n
      have := hall rfl
      omega
    · obtain ⟨hroom, hb⟩ := hknows.copied k hk
      refine ⟨?_, hb⟩
      show _ < (s.received ++ [s.message .receiver]).length + _
      rw [hlength]
      exact hroom.trans_le (by omega)

theorem Delivery.transfer (hdvd : c.slots.toNat ∣ wrap) (h : Delivery c s)
    (ht : Transfer c s side s') : Delivery c s' := by
  -- An attempt that moves on without touching the ring.
  have hmoves : ∀ {pc : Pc}, Knows c s side pc → Delivery c (s.setPc side pc) := by
    intro pc hknows
    refine h.still ⟨rfl, rfl, rfl, rfl⟩ rfl (update_of_ne side.other_ne _ _) ?_
    rw [setPc_self]
    cases side <;> exact { hknows with }
  cases ht with
  | outside hstill hmessage hother hpc => exact h.still hstill hmessage hother (.out hpc)
  | loadTail hs' =>
    subst hs'
    refine hmoves ⟨fun m hm => (some.inj hm).symm, fun m t hp => ?_, fun k hk => ?_⟩
    · cases hp
    · cases hk
  | loadHead hpc hs' =>
    subst hs'
    have hmine := (h.knows side).mine
    rw [hpc] at hmine
    refine hmoves ⟨hmine, fun m t hp => ?_, fun k hk => ?_⟩
    · cases hp
      exact ⟨_, h.tail, h.got.length_le, le_rfl, fun _ => rfl⟩
    · cases hk
  | start hpc hready hs' =>
    subst hs'
    obtain ⟨n, rfl, hle, hn, hall⟩ := h.seen side _ _ hpc
    have hroom := h.room
    rw [h.head] at hready
    have hfound := queued_ready hle (by omega) hready
    have hmine := (h.knows side).mine
    rw [hpc] at hmine
    refine hmoves ⟨hmine, fun m t hp => ?_, fun k hk => ?_⟩
    · cases hp
    cases hk
    cases side with
    | sender =>
      have := hall rfl
      exact ⟨this ▸ hfound, fun i hi => absurd hi (Nat.not_lt_zero _)⟩
    | receiver =>
      exact ⟨_, getElem?_eq_getElem (hfound.trans_le hn), fun i hi => absurd hi (Nat.not_lt_zero _)⟩
  | copy hpc hs' =>
    subst hs'
    cases side with
    | sender => exact h.copy_sender hdvd hpc
    | receiver => exact h.copy_receiver hpc
  | publish hpc hs' =>
    subst hs'
    cases side with
    | sender => exact h.publish_sender hpc
    | receiver => exact h.publish_receiver hpc

theorem delivery_step (hdvd : c.slots.toNat ∣ wrap) {l : Label} (h : Delivery c s)
    (hs : step c s l = some s') : Delivery c s' := by
  cases l with
  | call x waits message =>
    simp only [step] at hs
    split at hs
    · cases hs
      have hpc : (State.setPc { s with
          attempts := update s.attempts x (if waits then some 0 else none)
          message := update s.message x message } x .start).pc x = .start :=
        setPc_self _ _ _
      refine h.transfer hdvd (.outside ⟨rfl, rfl, rfl, rfl⟩ ?_ ?_ (congrArg Pc.mine hpc))
      · exact update_of_ne x.other_ne _ _
      · exact setPc_of_ne _ _ x.other_ne
    · cases hs
  | go => exact h.transfer hdvd (transfer_of_go hs)
  | elsewhere =>
    obtain ⟨-, rfl⟩ := Machine.of_guard hs
    exact { h with }
  | stray =>
    cases hs
    exact { h with }

theorem delivery_fresh (h : Fresh c s) : Delivery c s := by
  refine .of_sides .sender ?_ ?_ ?_ ?_ ?_ (.out ?_) (.out ?_)
  · rw [h.counter, h.sent]
    rfl
  · rw [h.counter, h.received]
    rfl
  · rw [h.received]
    exact nil_prefix
  · rw [h.sent]
    exact Nat.zero_le _
  · intro j m _ hm
    rw [h.sent] at hm
    cases hm
  · rw [h.pc]
    rfl
  · rw [h.pc]
    rfl

/-- **The counters keep up with the messages**, whatever the two sides do, on a ring whose
size divides `2^32`. -/
theorem delivery_reachable (hdvd : c.slots.toNat ∣ wrap) (h : (machine c).Reachable s) :
    Delivery c s := h.invariant (I := Delivery c) (fun _ => delivery_fresh)
    fun hs _ hstep => delivery_step hdvd hs hstep

theorem Delivery.noOverwrite (hdvd : c.slots.toNat ∣ wrap) (h : Delivery c s) :
    NoOverwrite c s := by
  intro mine i hpc j hj hlt
  obtain ⟨_, -⟩ := h.writing i.val (by rw [hpc]; rfl)
  rw [h.mine .sender mine (by rw [hpc]; rfl), h.tail]
  exact slotOf_ne hdvd hlt (by omega)

/-! ## Past the wrap -/

/-- Both sides are outside the library, with so much sent and received. -/
structure Resting (c : Config) (s : State) (sent received : List Slot) : Prop where
  pc : ∀ side, s.pc side = .idle
  running : ∀ side, s.parking.blocked (c.thread side) = false
  flag : ∀ side, s.flag side = 0
  tail : s.counter .sender = counted sent.length
  head : s.counter .receiver = counted received.length
  sent : s.sent = sent
  received : s.received = received

section Resting
variable {sent received : List Slot}

theorem Resting.send (h : Resting c s sent received) (hs : (machine c).Reachable s)
    (hle : received.length ≤ sent.length) (hroom : sent.length < received.length + c.slots.toNat)
    (message : Slot) : ∃ s', (machine c).Reachable s' ∧ Resting c s' (sent ++ [message]) received ∧
      s'.data = update s.data (slotOf c (counted sent.length)) message := by
  have hready : (queued c (s.counter .sender) (s.counter .receiver)).any (ready c .sender) =
      true := by
    rw [h.tail, h.head]
    exact ready_queued .sender hle hroom.le hroom
  have hleads := leads_call (h.running .sender) (h.pc .sender) hready (h.flag _) message
  rw [exchanged_sender] at hleads
  refine ⟨_, hleads.reachable hs, ⟨h.pc, h.running, h.flag, ?_, h.head, ?_, h.received⟩, ?_⟩
  · show update s.counter .sender (s.counter .sender + 1) .sender = _
    rw [update_self, h.tail, counted_succ, length_append, length_singleton]
  · show s.sent ++ [update s.message .sender message .sender] = _
    rw [h.sent, update_self]
  · show update s.data (slotOf c (s.counter .sender)) (update s.message .sender message .sender) = _
    rw [h.tail, update_self]

theorem Resting.receive (h : Resting c s sent received) (hs : (machine c).Reachable s)
    (hlt : received.length < sent.length) (hroom : sent.length ≤ received.length + c.slots.toNat) :
    ∃ s', (machine c).Reachable s' ∧
      Resting c s' sent (received ++ [s.data (slotOf c (counted received.length))]) := by
  have hready : (queued c (s.counter .sender) (s.counter .receiver)).any (ready c .receiver) =
      true := by
    rw [h.tail, h.head]
    exact ready_queued .receiver hlt.le hroom hlt
  have hleads := leads_call (h.running .receiver) (h.pc .receiver) hready (h.flag _) fun _ => 0
  rw [exchanged_receiver] at hleads
  refine ⟨_, hleads.reachable hs, h.pc, h.running, h.flag, h.tail, ?_, h.sent, ?_⟩
  · show update s.counter .receiver (s.counter .receiver + 1) .receiver = _
    rw [update_self, h.head, counted_succ, length_append, length_singleton]
  · show s.received ++ [s.data (slotOf c (s.counter .receiver))] = _
    rw [h.received, h.head]

end Resting

/-- Any number of copies of one message, each received as it is sent. -/
theorem lockstep (c : Config) (message : Slot) (n : Nat) : ∃ s, (machine c).Reachable s ∧
    Resting c s (replicate n message) (replicate n message) := by
  have hslots := c.accepted.1
  induction n with
  | zero =>
    exact ⟨fresh c, .init (fresh_fresh c), fun _ => rfl, fun _ => rfl, fun _ => rfl, rfl, rfl, rfl,
      rfl⟩
  | succ n ih =>
    obtain ⟨s, hs, hrest⟩ := ih
    obtain ⟨_, hs₁, hrest₁, hdata⟩ := hrest.send hs le_rfl (by omega) message
    obtain ⟨s₂, hs₂, hrest₂⟩ := hrest₁.receive hs₁ (by simp) (by simp; omega)
    rw [hdata, update_self, ← replicate_succ'] at hrest₂
    exact ⟨s₂, hs₂, hrest₂⟩

/-- And then some more, not received yet. -/
theorem lockstep_ahead (c : Config) (message : Slot) (n k : Nat) (hk : k ≤ c.slots.toNat) :
    ∃ s, (machine c).Reachable s ∧
      Resting c s (replicate (n + k) message) (replicate n message) := by
  induction k with
  | zero => exact lockstep c message n
  | succ k ih =>
    obtain ⟨s, hs, hrest⟩ := ih (by omega)
    obtain ⟨s₁, hs₁, hrest₁, -⟩ := hrest.send hs (by simp) (by simp; omega) message
    rw [← replicate_succ'] at hrest₁
    exact ⟨s₁, hs₁, hrest₁⟩

/-- The last counter before the wrap that is in slot 0, and the first one after it. -/
theorem slotOf_around_wrap (c : Config) (h : ¬ c.slots.toNat ∣ wrap) :
    slotOf c (counted (wrap - wrap % c.slots.toNat)) = slotOf c (counted wrap) := by
  have hrest : 0 < wrap % c.slots.toNat :=
    Nat.pos_of_ne_zero fun h0 => h (Nat.dvd_of_mod_eq_zero h0)
  have hslot : ∀ j, slotOf c (counted j) = j % wrap % c.slots.toNat := by
    intro j
    simp only [slotOf, counted, BitVec.toNat_umod, BitVec.toNat_ofNat]
    rfl
  have hlt : wrap - wrap % c.slots.toNat < wrap := by
    have : 0 < wrap := by decide
    omega
  have hdvd : c.slots.toNat ∣ wrap - wrap % c.slots.toNat := Nat.dvd_sub_mod wrap
  rw [hslot, hslot, Nat.mod_eq_of_lt hlt, Nat.mod_self, Nat.zero_mod, Nat.mod_eq_zero_of_dvd hdvd]

/-- A message that comes too early is noticed. -/
theorem not_prefix_of_early {a b : Slot} (hne : a ≠ b) {n : Nat} (hk : k < n) :
    ¬ replicate k a ++ [b] <+: replicate n a ++ [b] := by
  rintro ⟨rest, hrest⟩
  have hearly : (replicate k a ++ [b] ++ rest)[k]? = some b := by simp
  have hright : (replicate n a ++ [b])[k]? = some a := by
    rw [getElem?_append_left (by simpa using hk), getElem?_replicate, if_pos hk]
  rw [hrest, hright] at hearly
  exact hne (some.inj hearly)

/-- If the number of slots does not divide `2^32`, a message can be overtaken. -/
theorem overtaken (c : Config) (h : ¬ c.slots.toNat ∣ wrap) :
    ∃ s, (machine c).Reachable s ∧ ¬ s.received <+: s.sent := by
  have hslots := c.accepted.1
  have hrest : wrap % c.slots.toNat < c.slots.toNat := Nat.mod_lt _ (by omega)
  have hle : wrap % c.slots.toNat ≤ wrap := Nat.mod_le _ _
  have hpos : 0 < wrap % c.slots.toNat := Nat.pos_of_ne_zero fun h0 => h (Nat.dvd_of_mod_eq_zero h0)
  -- As many zeros as bring the tail to the wrap, of which those since slot 0 are unread.
  obtain ⟨s, hs, hresting⟩ := lockstep_ahead c (fun _ => 0) (wrap - wrap % c.slots.toNat)
    (wrap % c.slots.toNat) hrest.le
  rw [Nat.sub_add_cancel hle] at hresting
  -- One more message, a different one, goes to slot 0 again.
  obtain ⟨_, hs₁, hresting₁, hdata⟩ := hresting.send hs
    (by rw [length_replicate, length_replicate]; omega)
    (by rw [length_replicate, length_replicate]; omega) fun _ => 1
  obtain ⟨s₂, hs₂, hresting₂⟩ := hresting₁.receive hs₁
    (by rw [length_append, length_replicate, length_replicate]; omega) (by
      rw [length_append, length_singleton, length_replicate, length_replicate]
      omega)
  rw [hdata, length_replicate, length_replicate, slotOf_around_wrap c h, update_self] at hresting₂
  refine ⟨s₂, hs₂, ?_⟩
  rw [hresting₂.received, hresting₂.sent]
  refine not_prefix_of_early (fun heq => ?_) (by omega)
  cases congrFun heq 0

/-- **A ring delivers every message once and in order, and overwrites nothing unread,
exactly when its number of slots divides `2^32`.**  That is about every run of one sender
and one receiver, with any number of messages. -/
theorem delivers_iff (c : Config) :
    (∀ s, (machine c).Reachable s → s.received <+: s.sent ∧ NoOverwrite c s) ↔
      c.slots.toNat ∣ wrap := by
  constructor
  · intro hall
    by_contra hdvd
    obtain ⟨s, hs, hearly⟩ := overtaken c hdvd
    exact hearly (hall s hs).1
  · intro hdvd s hs
    have h := delivery_reachable hdvd hs
    exact ⟨h.got, h.noOverwrite hdvd⟩

/-- A ring of three slots, which `create` accepts. -/
def threeSlots : Config := .between 3 (by decide)

/-- Message number `2^32` goes into the slot of message number `2^32 - 1`. -/
theorem three_slots_overtaken : ∃ s, (machine threeSlots).Reachable s ∧ ¬ s.received <+: s.sent :=
  overtaken threeSlots (by decide)

end Panda.Channel
