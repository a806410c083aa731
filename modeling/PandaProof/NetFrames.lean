import PandaProof.NetCommand

/-!
# Segments in their frames

What a frame of the daemon's says about the TCP segment in it, read from the bytes where its
receiver reads them, and what becomes of a segment that is handed to IP: it goes out if the
next hop is known, waits for the next hop in a free slot otherwise, and is dropped if there is
neither.
-/
namespace Panda.Net

open List

/-! ## Plain reads -/

def byteAt (bytes : Bytes) (k : Nat) : UInt8 := bytes.getD k 0

def wordAt (bytes : Bytes) (k : Nat) : UInt16 :=
  ((byteAt bytes k).toUInt16 <<< 8) ||| (byteAt bytes (k + 1)).toUInt16

def longAt (bytes : Bytes) (k : Nat) : UInt32 :=
  fromBe32 (byteAt bytes k) (byteAt bytes (k + 1)) (byteAt bytes (k + 2)) (byteAt bytes (k + 3))

/-- The bytes from `start` up to `stop`. -/
def part (bytes : Bytes) (start stop : Nat) : Bytes := (bytes.take stop).drop start

def ipAt (bytes : Bytes) (k : Nat) : Ip := .ofFn fun i => byteAt bytes (k + i)

/-- The header of the segment that starts at `start`, as its receiver at `destination` reads
it. -/
def Outgoing.header (destination : Ip) (bytes : Bytes) (start : Nat) : Outgoing :=
  ⟨destination, wordAt bytes start, wordAt bytes (start + 2), longAt bytes (start + 8),
    byteAt bytes (start + 13)⟩

/-- The TCP segment in a frame, if there is one.  The headers below it are the shortest there
are, as the daemon writes them. -/
def Outgoing.read (frame : Bytes) : Option Outgoing :=
  if wordAt frame 12 = ethertypeIpv4 ∧ byteAt frame 23 = protocolTcp then
    some (.header (mapped (longAt frame 30)) frame 34)
  else if wordAt frame 12 = ethertypeIpv6 ∧ byteAt frame 20 = protocolTcp then
    some (.header (ipAt frame 38) frame 54)
  else none

/-- The TCP segment in a packet, if it is one. -/
def Outgoing.of (destination : Ip) (protocol : UInt8) (payload : Bytes) : Option Outgoing :=
  if protocol = protocolTcp then some (.header destination payload 0) else none

/-- The TCP segment an event puts on the wire, or into a waiting slot on its way there. -/
def Event.outgoing : Event → Option Outgoing
  | .netSend frame => Outgoing.read frame
  | .parked _ frame _ => Outgoing.read frame
  | _ => none

/-- What goes out for a connection. -/
def Connection.outgoing (c : Connection) (flags : UInt8) : Outgoing :=
  ⟨c.remote, c.localPort, c.remotePort, if flags &&& ack ≠ 0 then c.nextReceive else 0, flags⟩

/-- The segment a record stands for. -/
def Event.recorded : Event → Option Outgoing
  | .segment c flags => some (c.outgoing flags)
  | .refusal answer => some answer
  | _ => none

/-! ## Copies into arrays -/

/-- The array with `bytes` copied to `start`. -/
def overwrite (array : Bytes) (start : Nat) (bytes : Bytes) : Bytes :=
  array.take start ++ bytes ++ array.drop (start + bytes.length)

/-- Several copies in turn. -/
def overwriteAll (array : Bytes) (parts : List (Nat × Bytes)) : Bytes :=
  parts.foldl (fun array p => overwrite array p.1 p.2) array

section Overwrite

variable {array bytes : Bytes} {start k n : Nat} {parts : List (Nat × Bytes)}

theorem put_eq (h : start + bytes.length ≤ array.length) :
    put array start bytes = pure (overwrite array start bytes) := by
  rw [put, if_pos h]
  rfl

theorem length_overwrite (h : start + bytes.length ≤ array.length) :
    (overwrite array start bytes).length = array.length := by
  simp only [overwrite, length_append, length_take, length_drop]
  omega

theorem overwriteAll_overwriteAll {more : List (Nat × Bytes)} :
    overwriteAll (overwriteAll array parts) more = overwriteAll array (parts ++ more) :=
  foldl_append.symm

theorem putAll_eq (h : ∀ p ∈ parts, p.1 + p.2.length ≤ array.length) :
    putAll array parts = pure (overwriteAll array parts) ∧
      (overwriteAll array parts).length = array.length := by
  induction parts generalizing array with
  | nil => exact ⟨rfl, rfl⟩
  | cons p parts ih =>
    obtain ⟨hp, hparts⟩ := forall_mem_cons.mp h
    have hlength := length_overwrite hp
    have hfits : ∀ q ∈ parts, q.1 + q.2.length ≤ (overwrite array p.1 p.2).length := by
      rwa [hlength]
    obtain ⟨heq, hall⟩ := ih hfits
    refine ⟨?_, hall.trans hlength⟩
    rw [putAll, put_eq hp]
    exact heq

theorem byteAt_overwrite (h : start + bytes.length ≤ array.length) :
    byteAt (overwrite array start bytes) k =
      if start ≤ k ∧ k < start + bytes.length then byteAt bytes (k - start)
      else byteAt array k := by
  simp only [byteAt, overwrite, getD_eq_getElem?_getD]
  have hstart : (array.take start).length = start := by
    rw [length_take]
    omega
  split
  · rw [append_assoc, getElem?_append_right (by omega), getElem?_append_left (by omega), hstart]
  rcases Nat.lt_or_ge k start with hlt | hge
  · rw [append_assoc, getElem?_append_left (by omega), getElem?_take_of_lt hlt]
  · rw [getElem?_append_right (by rw [length_append]; omega), getElem?_drop, length_append, hstart]
    congr 2
    omega

/-- A byte comes from the last part copied over it. -/
theorem byteAt_overwriteAll (h : ∀ p ∈ parts, p.1 + p.2.length ≤ array.length) :
    byteAt (overwriteAll array parts) k = (parts.reverse.findSome? fun p =>
      if p.1 ≤ k ∧ k < p.1 + p.2.length then some (byteAt p.2 (k - p.1)) else none).getD
        (byteAt array k) := by
  induction parts generalizing array with
  | nil => rfl
  | cons p parts ih =>
    obtain ⟨hp, hparts⟩ := forall_mem_cons.mp h
    rw [reverse_cons, findSome?_append]
    have hfits : ∀ q ∈ parts, q.1 + q.2.length ≤ (overwrite array p.1 p.2).length := by
      rwa [length_overwrite hp]
    have hrest := ih hfits
    rw [byteAt_overwrite hp] at hrest
    refine hrest.trans ?_
    cases (parts.reverse.findSome? fun p =>
      if p.1 ≤ k ∧ k < p.1 + p.2.length then some (byteAt p.2 (k - p.1)) else none) with
    | some b => rfl
    | none =>
      simp only [Option.getD_none, Option.none_or, findSome?_cons, findSome?_nil]
      split <;> rfl

theorem byteAt_take (h : k < n) : byteAt (bytes.take n) k = byteAt bytes k := by
  simp only [byteAt, getD_eq_getElem?_getD, getElem?_take_of_lt h]

end Overwrite

/-! ## Numbers and addresses in bytes -/

theorem wordAt_be16 (x : UInt16) : wordAt (be16 x) 0 = x := by
  refine UInt16.eq_of_toBitVec_eq (BitVec.eq_of_getElem_eq fun i hi => ?_)
  simp [wordAt, byteAt, be16, -UInt16.toUInt16_toUInt8]
  grind

theorem longAt_be32 (x : UInt32) : longAt (be32 x) 0 = x := by
  refine UInt32.eq_of_toBitVec_eq (BitVec.eq_of_getElem_eq fun i hi => ?_)
  simp [longAt, byteAt, be32, fromBe32, -UInt32.toUInt32_toUInt8]
  grind

theorem be32_fromBe32 (a b c d : UInt8) : be32 (fromBe32 a b c d) = [a, b, c, d] := by
  have hbits : ∀ x y : UInt8, (∀ i (hi : i < 8), x.toBitVec[i] = y.toBitVec[i]) → x = y :=
    fun x y h => UInt8.eq_of_toBitVec_eq (BitVec.eq_of_getElem_eq h)
  simp only [be32, fromBe32, cons.injEq, and_true]
  refine ⟨hbits _ _ fun i hi => ?_, hbits _ _ fun i hi => ?_, hbits _ _ fun i hi => ?_,
    hbits _ _ fun i hi => ?_⟩ <;> simp <;> grind

theorem asV4_mapped (v4 : UInt32) : asV4 (mapped v4) = some v4 :=
  congrArg some (longAt_be32 v4)

theorem mapped_asV4 {ip : Ip} {v4 : UInt32} (h : asV4 ip = some v4) : mapped v4 = ip := by
  unfold asV4 at h
  split at h
  · rename_i hhead
    obtain rfl := Option.some.inj h
    have hlast : ip.toList.drop 12 = be32 (fromBe32 ip[12] ip[13] ip[14] ip[15]) := by
      rw [be32_fromBe32]
      rw [drop_eq_getElem_cons (by simp), drop_eq_getElem_cons (by simp),
        drop_eq_getElem_cons (by simp), drop_eq_getElem_cons (by simp),
        drop_of_length_le (by simp)]
      rfl
    apply Vector.toList_inj.mp
    rw [← take_append_drop 12 ip.toList, hhead, hlast]
    rfl
  · simp at h

/-! ## Segments in packets -/

variable {f g payload : Bytes} {protocol : UInt8} {destination : Ip}

/-- The MAC of the next hop is in the first bytes of a frame, and the segment is not. -/
theorem read_congr (h : ∀ k, 12 ≤ k → byteAt f k = byteAt g k) :
    Outgoing.read f = Outgoing.read g := by
  have hip : ipAt f 38 = ipAt g 38 := by
    unfold ipAt
    congr 1
    funext i
    exact h _ (by omega)
  have hword : ∀ k, 12 ≤ k → wordAt f k = wordAt g k := fun k hk => by
    rw [wordAt, wordAt, h k hk, h (k + 1) (by omega)]
  have hlong : ∀ k, 12 ≤ k → longAt f k = longAt g k := fun k hk => by
    rw [longAt, longAt, h k hk, h (k + 1) (by omega), h (k + 2) (by omega), h (k + 3) (by omega)]
  unfold Outgoing.read Outgoing.header
  simp (disch := omega) only [hip, hword, hlong, h]

theorem header_congr {i j : Nat} (h : ∀ k, k < 14 → byteAt f (i + k) = byteAt g (j + k)) :
    Outgoing.header destination f i = Outgoing.header destination g j := by
  have h0 := h 0 (by omega)
  simp only [Nat.add_zero] at h0
  simp only [Outgoing.header, wordAt, longAt, Nat.add_assoc]
  rw [h0, h 1 (by omega), h 2 (by omega), h 3 (by omega), h 8 (by omega), h 9 (by omega),
    h 10 (by omega), h 11 (by omega), h 13 (by omega)]

theorem read_ipv4 {address : UInt32} (h12 : wordAt f 12 = ethertypeIpv4)
    (h23 : byteAt f 23 = protocol) (h30 : longAt f 30 = address)
    (hpayload : protocol = protocolTcp → ∀ k, k < 14 → byteAt f (34 + k) = byteAt payload k) :
    Outgoing.read f = Outgoing.of (mapped address) protocol payload := by
  unfold Outgoing.read Outgoing.of
  rw [h12, h23, h30]
  by_cases htcp : protocol = protocolTcp
  · rw [if_pos ⟨rfl, htcp⟩, if_pos htcp]
    exact congrArg some (header_congr fun k hk => (hpayload htcp k hk).trans (by rw [Nat.zero_add]))
  · rw [if_neg fun h => htcp h.2, if_neg fun h => absurd h.1 (by decide), if_neg htcp]

theorem read_ipv6 (h12 : wordAt f 12 = ethertypeIpv6) (h20 : byteAt f 20 = protocol)
    (h38 : ipAt f 38 = destination)
    (hpayload : protocol = protocolTcp → ∀ k, k < 14 → byteAt f (54 + k) = byteAt payload k) :
    Outgoing.read f = Outgoing.of destination protocol payload := by
  unfold Outgoing.read Outgoing.of
  rw [h12, h20, h38, if_neg fun h => absurd h.1 (by decide)]
  by_cases htcp : protocol = protocolTcp
  · rw [if_pos ⟨rfl, htcp⟩, if_pos htcp]
    exact congrArg some (header_congr fun k hk => (hpayload htcp k hk).trans (by rw [Nat.zero_add]))
  · rw [if_neg fun h => htcp h.2, if_neg htcp]

theorem read_of_arp (h12 : wordAt f 12 = ethertypeArp) : Outgoing.read f = none := by
  unfold Outgoing.read
  rw [h12, if_neg fun h => absurd h.1 (by decide), if_neg fun h => absurd h.1 (by decide)]

/-! ## What becomes of a segment -/

/-- How far a packet gets: out of the machine, to a waiting slot if there is one, or
nowhere. -/
inductive Reach
  | direct
  | unresolved
  | nowhere
  deriving DecidableEq

/-- A next hop can be sent to if its MAC is known. -/
def Stack.via (s : Stack) (nextHop : Ip) : Reach :=
  if (position fun i => (s.arp i).1 = nextHop).isSome then .direct else .unresolved

/-- How far an IPv4 packet gets. -/
def Stack.reach4 (s : Stack) (destination : UInt32) : Reach :=
  if destination = 0xFFFFFFFF then .direct
  else s.via (mapped
    (if destination &&& s.netmask = s.address &&& s.netmask then destination else s.gateway))

/-- How far an IPv6 packet gets. -/
def Stack.reach6 (s : Stack) (destination : Ip) : Reach :=
  if isMulticast destination then .direct
  else if s.nextHop6 destination = unspecified then .nowhere
  else s.via (s.nextHop6 destination)

/-- How far a packet to `destination` gets. -/
def Stack.reach (s : Stack) (destination : Ip) : Reach :=
  match asV4 destination with
  | some address => s.reach4 address
  | none => s.reach6 destination

/-- The number of free waiting slots. -/
def Stack.room (s : Stack) : Nat :=
  (finRange 2).countP fun i => (s.waiting i).nextHop = unspecified

/-- Whether a packet that gets so far gets out, or into one of the free slots. -/
def Reach.Takes (r : Reach) (room : Nat) : Prop := r = .direct ∨ r = .unresolved ∧ 0 < room

instance instDecidableReachTakes (r : Reach) (room : Nat) : Decidable (r.Takes room) :=
  inferInstanceAs (Decidable (_ ∨ _))

/-- The waiting slots it needs. -/
def Reach.slots (r : Reach) : Nat := if r = .unresolved then 1 else 0

/-- The segments that get out, or into a waiting slot, of those handed to IP one after the
other. -/
def carried (reach : Ip → Reach) : Nat → List Outgoing → List Outgoing
  | _, [] => []
  | room, segment :: rest =>
    (if (reach segment.destination).Takes room then [segment] else []) ++
      carried reach (room - (reach segment.destination).slots) rest

/-- The waiting slots that segments need. -/
def needs (reach : Ip → Reach) : List Outgoing → Nat
  | [] => 0
  | segment :: rest => (reach segment.destination).slots + needs reach rest

variable {reach : Ip → Reach} {room : Nat} {first rest : List Outgoing}

theorem needs_append : needs reach (first ++ rest) = needs reach first + needs reach rest := by
  induction first with
  | nil => exact (Nat.zero_add _).symm
  | cons segment first ih => rw [cons_append, needs, needs, ih, Nat.add_assoc]

theorem carried_append : carried reach room (first ++ rest) =
    carried reach room first ++ carried reach (room - needs reach first) rest := by
  induction first generalizing room with
  | nil => rfl
  | cons segment first ih =>
    rw [cons_append, carried, carried, ih, append_assoc, Nat.sub_sub]
    rfl

theorem carried_subset : carried reach room first ⊆ first := by
  induction first generalizing room with
  | nil => exact Subset.refl _
  | cons segment first ih =>
    refine append_subset.mpr ⟨?_, subset_cons_of_subset _ ih⟩
    split <;> simp

/-- The segments that events put on the wire or into waiting slots.  Events stand newest
first, segments oldest first. -/
def puts (events : List Event) : List Outgoing := events.reverse.filterMap Event.outgoing

/-- The segments that events record as handed to IP. -/
def records (events : List Event) : List Outgoing := events.reverse.filterMap Event.recorded

theorem puts_append (new old : List Event) : puts (new ++ old) = puts old ++ puts new := by
  simp [puts]

theorem records_append (new old : List Event) :
    records (new ++ old) = records old ++ records new := by
  simp [records]

/-- What happened between two states, newest first. -/
def added (w w' : World) : List Event := w'.log.take (w'.log.length - w.log.length)

theorem added_eq {w w' : World} {events : List Event} (h : w'.log = events ++ w.log) :
    added w w' = events := by
  rw [added, h, length_append, Nat.add_sub_cancel, take_left]

/-- The frame an event puts on the wire. -/
def Event.frame : Event → Option Bytes
  | .netSend frame => some frame
  | .released _ _ _ frame => some frame
  | _ => none

/-- The frames that went on the wire between two states, oldest first. -/
def transmitted (w w' : World) : List Bytes := (added w w').reverse.filterMap Event.frame

/-- From `w` to `w'` the network was handed the segments `pending` and after them those put on
record, and it carried of them what it can. -/
structure Carries (pending : List Outgoing) (w w' : World) : Prop where
  reach : w'.stack.reach = w.stack.reach
  log : ∃ events, w'.log = events ++ w.log ∧
    puts events = carried w.stack.reach w.stack.room (pending ++ records events) ∧
    w'.stack.room = w.stack.room - needs w.stack.reach (pending ++ records events)

/-- Every segment put on the wire, or on its way there, was put on record. -/
def Wired (w w' : World) : Prop :=
  ∃ events, w'.log = events ++ w.log ∧ puts events ⊆ records events

variable {w w' w'' : World}

theorem Carries.same (hreach : w'.stack.reach = w.stack.reach)
    (hroom : w'.stack.room = w.stack.room) (hlog : w'.log = w.log) : Carries [] w w' :=
  ⟨hreach, [], hlog, rfl, hroom⟩

theorem Carries.trans (h : Carries [] w w') (h' : Carries [] w' w'') : Carries [] w w'' := by
  obtain ⟨hreach, events, hlog, hputs, hroom⟩ := h
  obtain ⟨hreach', events', hlog', hputs', hroom'⟩ := h'
  refine ⟨hreach'.trans hreach, events' ++ events, by rw [hlog', hlog, append_assoc], ?_, ?_⟩
  · rw [puts_append, records_append, hputs, hputs', hreach, hroom, nil_append, nil_append,
      nil_append, carried_append]
  · rw [hroom', hroom, hreach, records_append, nil_append, nil_append, nil_append, Nat.sub_sub,
      needs_append]

/-- A segment goes on record and then is handed to IP. -/
theorem Carries.recorded {e : Event} {segment : Outgoing} (hrecorded : e.recorded = some segment)
    (houtgoing : e.outgoing = none)
    (h : Carries [segment] { w with log := e :: w.log } w') : Carries [] w w' := by
  obtain ⟨hreach, events, hlog, hputs, hroom⟩ := h
  have hrecords : records (events ++ [e]) = [segment] ++ records events := by
    simp [records, hrecorded]
  refine ⟨hreach, events ++ [e], by rw [hlog]; simp, ?_, ?_⟩
  · rw [hrecords, nil_append, ← hputs]
    simp [puts, houtgoing]
  · rw [hrecords, nil_append]
    exact hroom

/-- Something is done that concerns no segment. -/
theorem Carries.cons {e : Event} (hrecorded : e.recorded = none) (houtgoing : e.outgoing = none) :
    Carries [] w { w with log := e :: w.log } :=
  ⟨rfl, [e], rfl, by simp [puts, records, hrecorded, houtgoing, carried],
    by simp [records, hrecorded, needs]⟩

theorem Carries.wired (h : Carries [] w w') : Wired w w' := by
  obtain ⟨-, events, hlog, hputs, -⟩ := h
  exact ⟨events, hlog, hputs ▸ carried_subset⟩

theorem Wired.same (hlog : w'.log = w.log) : Wired w w' := ⟨[], hlog, Subset.refl _⟩

theorem Wired.trans (h : Wired w w') (h' : Wired w' w'') : Wired w w'' := by
  obtain ⟨events, hlog, hputs⟩ := h
  obtain ⟨events', hlog', hputs'⟩ := h'
  refine ⟨events' ++ events, by rw [hlog', hlog, append_assoc], ?_⟩
  rw [puts_append, records_append]
  exact append_subset.mpr ⟨subset_append_of_subset_left _ hputs,
    subset_append_of_subset_right _ hputs'⟩

theorem Wired.cons {e : Event} (hlog : w'.log = e :: w.log) (houtgoing : e.outgoing = none) :
    Wired w w' :=
  ⟨[e], hlog, by simp [puts, houtgoing]⟩

end Panda.Net
