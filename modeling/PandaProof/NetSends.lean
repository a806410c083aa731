import PandaProof.NetFrames

/-!
# What sending changes

The daemon's tables fall into two parts.  The tables that name client buffers — mappings,
bindings, listeners, connections and lookups — are what most of its guarantees are about,
together with what its clients see; both are the `View` of a world.  The rest is
addresses, caches, counters and timers, and the waiting slots for frames whose next hop is
not known yet.

Sending a packet of any kind touches only the rest: it runs without a fault, the view
stays as it is, the waiting slots keep agreeing with the record of what was parked and
released (`Tracked`), and no TCP segment goes out that is not on record (`Wired`).  Every
function that sends has this as its one lemma.
-/
namespace Panda.Net

open List Prog

/-- The code runs to its end without a fault, and `Q` holds there. -/
abbrev Runs {A : Type} (p : Daemon A) (w : World) (Q : A → World → Prop) : Prop :=
  p.Wp w Q fun _ _ => False

section Rules

variable {A B : Type} {w : World} {Q : A → World → Prop} {R : Fault → World → Prop}

@[simp] theorem wp_getStack {Q : Stack → World → Prop} : getStack.Wp w Q R ↔ Q w.stack w := by
  simp [getStack]

@[simp] theorem wp_modifyStack {Q : Unit → World → Prop} {f : Stack → Stack} :
    (modifyStack f).Wp w Q R ↔ Q () { w with stack := f w.stack } := by
  simp [modifyStack]

@[simp] theorem wp_emit {Q : Unit → World → Prop} {e : Event} :
    (emit e).Wp w Q R ↔ Q () { w with log := e :: w.log } := by
  simp [emit]

@[simp] theorem wp_call {Q : Nat → World → Prop} :
    call.Wp w Q R ↔ Q w.calls { w with calls := w.calls + 1 } := by
  simp [call]

/-- Sequencing, by what the first part guarantees. -/
theorem Runs.bind {p : Daemon B} {f : B → Daemon A} {P : B → World → Prop} (hp : Runs p w P)
    (hf : ∀ b w', P b w' → Runs (f b) w' Q) : Runs (p >>= f) w Q :=
  wp_bind.mpr (hp.mono hf fun _ _ h => h)

theorem Runs.mono {p : Daemon A} {Q' : A → World → Prop} (h : Runs p w Q)
    (hQ : ∀ a w', Q a w' → Q' a w') : Runs p w Q' := Prog.Wp.mono h hQ fun _ _ h => h

/-- What the run came to is known. -/
theorem Runs.with_eq {p : Daemon A} (h : Runs p w Q) :
    Runs p w fun a w' => Q a w' ∧ p w = (.ok a, w') := by
  obtain ⟨a, w', hrun, hq⟩ := Prog.wp_iff_ok.mp h
  exact Prog.wp_iff_ok.mpr ⟨a, w', hrun, hq, hrun⟩

theorem Runs.getStack {f : Stack → Daemon A} (h : Runs (f w.stack) w Q) :
    Runs (getStack >>= f) w Q := wp_bind.mpr (wp_getStack.mpr h)

end Rules

/-! ## Copies into local arrays -/

@[simp] theorem length_be16 (x : UInt16) : (be16 x).length = 2 := rfl
@[simp] theorem length_be32 (x : UInt32) : (be32 x).length = 4 := rfl
@[simp] theorem length_zeros (size : Nat) : (zeros size).length = size := by simp [zeros]

variable {w : World}

variable {array : Bytes}

/-- A copy that fits leaves the array's length alone. -/
theorem runs_put {bytes : Bytes} {start : Nat} (h : start + bytes.length ≤ array.length) :
    Runs (put array start bytes) w fun out w' => out.length = array.length ∧ w' = w := by
  rw [put_eq h]
  exact wp_pure.mpr ⟨length_overwrite h, rfl⟩

theorem runs_putAll {parts : List (Nat × Bytes)}
    (h : ∀ p ∈ parts, p.1 + p.2.length ≤ array.length) :
    Runs (putAll array parts) w fun out w' => out.length = array.length ∧ w' = w := by
  rw [(putAll_eq h).1]
  exact wp_pure.mpr ⟨(putAll_eq h).2, rfl⟩

/-! ## What is seen of a world -/

/-- The messages about TCP connections, and what the daemon does to client memory. -/
def Event.visible : Event → Bool
  | .ipcSend _ m =>
    m.tag = tagTcpOpen ∨ m.tag = tagTcpSent ∨ m.tag = tagTcpData ∨ m.tag = tagTcpClosed
  | .clientWrite .. | .segment .. | .refusal _ | .underflow => true
  | _ => false

/-- The tables that name client buffers, and the visible part of the log. -/
structure View where
  mappings : Fin 8 → Mapping
  bindings : Fin 8 → Binding
  listeners : Fin 4 → Listener
  connections : Fin 8 → Connection
  resolves : Fin 4 → Resolve
  /-- Newest first. -/
  log : List Event

def World.view (w : World) : View :=
  ⟨w.stack.mappings, w.stack.bindings, w.stack.listeners, w.stack.connections, w.stack.resolves,
    w.log.filter Event.visible⟩

/-- Events added to the log, oldest first. -/
def View.record (v : View) (events : List Event) : View := { v with log := events.reverse ++ v.log }

theorem View.record_record (v : View) (first next : List Event) :
    (v.record first).record next = v.record (first ++ next) := by
  simp [View.record]

/-! ## Waiting frames -/

/-- What an event does to the frame that waits in a slot. -/
def Event.waits (slot : Fin 2) (e : Event) (before : Option (Bytes × Ip)) : Option (Bytes × Ip) :=
  match e with
  | .parked i frame nextHop => if i = slot then some (frame, nextHop) else before
  | .released i _ _ _ => if i = slot then none else before
  | _ => before

/-- The frame that waits in a slot by the record, and its next hop. -/
def waitsAt (slot : Fin 2) (log : List Event) : Option (Bytes × Ip) :=
  log.foldr (Event.waits slot) none

/-- A frame with the MAC of its next hop in place. -/
def patched (mac : Mac) (frame : Bytes) : Bytes := (mac.toList ++ frame.drop 6).take frame.length

/-- What is sent from a slot was waiting there for that very address, and goes out with the MAC
learned for it. -/
def Event.Proper (before : List Event) : Event → Prop
  | .released slot address mac frame => ∃ parked, waitsAt slot before = some (parked, address) ∧
      frame = patched mac parked
  | _ => True

instance (before : List Event) (e : Event) : Decidable (e.Proper before) := by
  cases e with
  | released slot address mac frame =>
    refine decidable_of_iff ((waitsAt slot before).any fun p =>
      p.2 = address ∧ frame = patched mac p.1) ?_
    simp only [Option.any_eq_true, decide_eq_true_eq, Prod.exists, Event.Proper]
    constructor
    · rintro ⟨parked, hop, hwaits, rfl, hframe⟩
      exact ⟨parked, hwaits, hframe⟩
    · rintro ⟨parked, hwaits, hframe⟩
      exact ⟨parked, address, hwaits, rfl, hframe⟩
  | _ => exact .isTrue trivial

/-- Every release of the log was proper when it happened. -/
def Orderly : List Event → Prop
  | [] => True
  | e :: before => e.Proper before ∧ Orderly before

instance instDecidableOrderly : (log : List Event) → Decidable (Orderly log)
  | [] => .isTrue trivial
  | e :: before =>
    have := instDecidableOrderly before
    inferInstanceAs (Decidable (e.Proper before ∧ Orderly before))

/-- The releases so far were proper, and the slots hold what the record says. -/
def Tracked (w : World) : Prop :=
  Orderly w.log ∧ ∀ slot, waitsAt slot w.log =
    if (w.stack.waiting slot).nextHop = unspecified then none
    else some ((w.stack.waiting slot).frame, (w.stack.waiting slot).nextHop)

/-- Whether an event is about the waiting slots. -/
def Event.stored : Event → Bool
  | .parked .. | .released .. => true
  | _ => false

/-- Other events leave the record of the waiting slots as it is. -/
theorem tracked_cons {e : Event} (he : e.stored = false) {s : Stack} {calls : Nat}
    {log : List Event} (h : Tracked ⟨s, calls, log⟩) : Tracked ⟨s, calls, e :: log⟩ := by
  obtain ⟨horderly, hslots⟩ := h
  cases e <;> first
    | exact ⟨⟨trivial, horderly⟩, hslots⟩
    | simp [Event.stored] at he

/-! ## What a piece of code does -/

/-- `w'` looks like `v`, the waiting slots stay on record on the way from `w`, and so does
every TCP segment that goes out. -/
structure Becomes (w : World) (v : View) (w' : World) : Prop where
  view : w'.view = v
  tracked : Tracked w → Tracked w'
  wired : Wired w w'

/-- Nothing of the view changes. -/
abbrev Quiet (w w' : World) : Prop := Becomes w w.view w'

/-- The code runs without a fault and leaves a world that looks like `v`. -/
abbrev Does {A : Type} (p : Daemon A) (w : World) (v : View) : Prop :=
  Runs p w fun _ w' => Becomes w v w'

/-- The code runs without a fault and changes nothing of the view. -/
abbrev Sends {A : Type} (p : Daemon A) (w : World) : Prop := Does p w w.view

section Does

variable {A B : Type} {p : Daemon B} {f : B → Daemon A} {v v' : View}

theorem Quiet.refl (w : World) : Quiet w w := ⟨rfl, id, .same rfl⟩

theorem Quiet.trans {w' w'' : World} (h : Quiet w w') (h' : Quiet w' w'') : Quiet w w'' :=
  ⟨by rw [h'.view, h.view], fun ht => h'.tracked (h.tracked ht), h.wired.trans h'.wired⟩

/-- Something the view does not show goes on the log. -/
theorem quiet_emit {e : Event} (hv : e.visible = false) (hs : e.stored = false)
    (ho : e.outgoing = none) : Quiet w { w with log := e :: w.log } :=
  ⟨by simp [World.view, hv], tracked_cons hs, .cons rfl ho⟩

/-- One part after the other. -/
theorem Does.bind (hp : Does p w v) (hf : ∀ b w', w'.view = v → Does (f b) w' v') :
    Does (p >>= f) w v' := Runs.bind hp fun b w' h => (hf b w' h.view).mono fun _ _ h' =>
    ⟨h'.view, fun ht => h'.tracked (h.tracked ht), h.wired.trans h'.wired⟩

theorem Does.pure {a : A} : Sends (pure a : Daemon A) w := wp_pure.mpr (Quiet.refl w)

theorem Sends.bind (hp : Sends p w) (hf : ∀ b w', Sends (f b) w') : Sends (p >>= f) w :=
  Does.bind hp fun b w' h => by
    rw [← h]
    exact hf b w'

end Does

/-! ## Sending -/

section Position

variable {k : Nat} {p : Fin k → Bool} {i : Fin k}

theorem position_eq_none : position p = none ↔ ∀ i, p i = false := by
  simp [position]

theorem position_some (h : position p = some i) : p i = true :=
  find?_some h

theorem position_of_unique (hi : p i = true)
    (hu : ∀ j, p j = true → j = i) : position p = some i := by
  cases hp : position p with
  | none => simp [position_eq_none.mp hp i] at hi
  | some j => rw [hu j (position_some hp)]

end Position

/-- What becomes of a packet that gets so far, with the segment in it if it is a TCP packet. -/
structure Passes (packet : Option Outgoing) (r : Reach) (w w' : World) : Prop where
  view : w'.view = w.view
  tracked : Tracked w → Tracked w'
  reach : w'.stack.reach = w.stack.reach
  log : ∃ events, w'.log = events ++ w.log ∧ records events = [] ∧
    puts events = if r.Takes w.stack.room then packet.toList else []
  room : w'.stack.room = w.stack.room - r.slots

/-- A frame goes on the wire, with the TCP segment in it if there is one. -/
def Transmits (packet : Option Outgoing) (w w' : World) : Prop :=
  ∃ frame, Outgoing.read frame = packet ∧ w' = { w with log := .netSend frame :: w.log }

section Passes

variable {packet : Option Outgoing} {nextHop : Ip} {frame : Bytes} {r : Reach} {w' w'' : World}

/-- Any other packet is only sent. -/
theorem Passes.quiet (h : Passes none r w w') : Quiet w w' := by
  obtain ⟨events, hlog, -, hputs⟩ := h.log
  refine ⟨h.view, h.tracked, events, hlog, ?_⟩
  rw [hputs]
  split <;> exact nil_subset _

theorem Passes.carries {segment : Outgoing}
    (h : Passes (some segment) (w.stack.reach segment.destination) w w') :
    Carries [segment] w w' := by
  obtain ⟨events, hlog, hrecords, hputs⟩ := h.log
  refine ⟨h.reach, events, hlog, ?_, by simpa [needs, hrecords] using h.room⟩
  rw [hputs, hrecords]
  simp [carried]

theorem Transmits.passes (h : Transmits packet w w') : Passes packet .direct w w' := by
  obtain ⟨frame, hread, rfl⟩ := h
  refine ⟨by simp [World.view, Event.visible], tracked_cons rfl, rfl,
    ⟨[.netSend frame], rfl, rfl, ?_⟩, by simp [Reach.slots]⟩
  cases packet <;> simp [puts, Event.outgoing, hread, Reach.Takes]

/-- With nowhere to go it is dropped. -/
theorem passes_nowhere : Passes packet .nowhere w w :=
  ⟨rfl, id, rfl, ⟨[], rfl, rfl, by simp [puts, Reach.Takes]⟩, by simp [Reach.slots]⟩

/-- The next hop is asked for. -/
theorem Passes.asked (h : Passes packet r w w') (hasked : Transmits none w' w'') :
    Passes packet r w w'' := by
  obtain ⟨frame, hread, rfl⟩ := hasked
  obtain ⟨events, hlog, hrecords, hputs⟩ := h.log
  refine ⟨?_, fun ht => tracked_cons rfl (h.tracked ht), h.reach,
    ⟨.netSend frame :: events, by simp [hlog], ?_, ?_⟩, h.room⟩
  · rw [← h.view]
    simp [World.view, Event.visible]
  · simpa [records, Event.recorded] using hrecords
  · simpa [puts, Event.outgoing, hread] using hputs

/-- A frame parked in a free slot is what waits there. -/
theorem tracked_park {slot : Fin 2} (hhop : nextHop ≠ unspecified) (h : Tracked w) : Tracked
      { w with
        stack := { w.stack with
          waiting := Function.update w.stack.waiting slot ⟨frame, nextHop⟩ }
        log := .parked slot frame nextHop :: w.log } := by
  refine ⟨⟨trivial, h.1⟩, fun slot' => ?_⟩
  have hold := h.2 slot'
  by_cases hslot : slot = slot'
  · subst hslot
    simp [waitsAt, Event.waits, hhop]
  · simpa [waitsAt, Event.waits, hslot, Function.update_of_ne (Ne.symm hslot)] using hold

/-- A frame put into a free slot leaves one free slot less. -/
theorem room_park {s : Stack} {slot : Fin 2} (frame : Bytes)
    (hfree : (s.waiting slot).nextHop = unspecified) (hhop : nextHop ≠ unspecified) :
    { s with waiting := Function.update s.waiting slot ⟨frame, nextHop⟩ }.room = s.room - 1 ∧
      0 < s.room := by
  have hroom : ∀ s : Stack, s.room = (if (s.waiting 0).nextHop = unspecified then 1 else 0) +
      if (s.waiting 1).nextHop = unspecified then 1 else 0 := fun s => by
    simp [Stack.room, finRange_succ, countP_cons, Nat.add_comm]
  rw [hroom, hroom]
  match slot with
  | 0 => simp [hfree, hhop, Nat.add_pos_left]
  | 1 => simp [hfree, hhop]

theorem passes_park (hread : Outgoing.read frame = packet) (hhop : nextHop ≠ unspecified)
    (h : frame.length ≤ maxFrame) :
    Runs (park frame nextHop) w fun _ w' => Passes packet .unresolved w w' := by
  unfold park
  refine .getStack ?_
  split
  · rename_i hnone
    have hroom : w.stack.room = 0 := countP_eq_zero.mpr fun i _ => by
      simpa using position_eq_none.mp hnone i
    exact wp_pure.mpr ⟨rfl, id, rfl, ⟨[], rfl, rfl, by simp [puts, Reach.Takes, hroom]⟩,
      by simp [hroom]⟩
  rename_i slot hslot
  obtain ⟨hroom, hpos⟩ := room_park frame (of_decide_eq_true (position_some hslot)) hhop
  refine Runs.bind (runs_put (by simpa using h)) ?_
  rintro _ w' ⟨-, rfl⟩
  refine wp_bind.mpr (wp_emit.mpr (wp_modifyStack.mpr ?_))
  refine ⟨by simp [World.view, Event.visible], tracked_park hhop, rfl,
    ⟨[.parked slot frame nextHop], rfl, rfl, ?_⟩, hroom⟩
  cases packet <;> simp [puts, Event.outgoing, hread, Reach.Takes, hpos]

end Passes

theorem mapped_ne_unspecified (v4 : UInt32) : mapped v4 ≠ unspecified := by
  intro h
  have h10 := congrArg (fun ip : Ip => ip[10]) h
  exact absurd h10 (by simp [mapped, unspecified])

/-! ## Frames -/

/-- A value in hand is simply passed on. -/
@[simp] theorem pure_bind_eq {A B : Type} (a : A) (f : A → Daemon B) :
    (pure a >>= f : Daemon B) = f a := rfl

variable {frame payload : Bytes} {packet : Option Outgoing}

theorem transmits_sendTo {mac : Bytes} (hread : Outgoing.read frame = packet)
    (hmac : mac.length ≤ 12) (h : mac.length ≤ frame.length) :
    Runs (sendTo frame mac) w fun _ w' => Transmits packet w w' := by
  unfold sendTo
  have hfits : 0 + mac.length ≤ frame.length := by omega
  rw [put_eq hfits, pure_bind_eq]
  refine wp_emit.mpr ⟨_, (read_congr fun k hk => ?_).trans hread, rfl⟩
  rw [byteAt_overwrite hfits, if_neg (by omega)]

theorem transmits_sendMulticast (destination : Ip) (hread : Outgoing.read frame = packet)
    (h : 6 ≤ frame.length) :
    Runs (sendMulticast frame destination) w fun _ w' => Transmits packet w w' := by
  unfold sendMulticast
  have hfits : ∀ p ∈ [(0, [0x33, 0x33]), (2, destination.toList.drop 12)],
      p.1 + p.2.length ≤ frame.length := by
    simp
    omega
  rw [(putAll_eq hfits).1, pure_bind_eq]
  refine wp_emit.mpr ⟨_, (read_congr fun k hk => ?_).trans hread, rfl⟩
  rw [byteAt_overwriteAll hfits]
  have h0 : ¬ k < 2 := by omega
  have h2 : ¬ k < 6 := by omega
  simp [h0, h2]

theorem transmits_requestMac (address : UInt32) :
    Runs (requestMac address) w fun _ w' => Transmits none w w' := by
  unfold requestMac
  refine .getStack ?_
  have hfits : ∀ p ∈ [(0, broadcast.toList), (6, w.stack.mac.toList), (12, be16 ethertypeArp),
      (14, [0, 1, 0x08, 0x00, 6, 4, 0, 1]), (22, w.stack.mac.toList),
      (28, be32 w.stack.address), (38, be32 address)], p.1 + p.2.length ≤ (zeros 42).length := by
    simp
  rw [(putAll_eq hfits).1, pure_bind_eq]
  refine wp_emit.mpr ⟨_, ?_, rfl⟩
  refine read_of_arp ?_
  simp only [wordAt, byteAt_overwriteAll hfits]
  simp
  exact wordAt_be16 _

variable {protocol : UInt8}

/-- The segment is where its receiver looks for it. -/
theorem read_ipv4Frame (s : Stack) (destination : UInt32) (sum : UInt16)
    {total : Nat} {parts : List (Nat × Bytes)} {array : Bytes} (hparts : parts =
      ipv4Header s destination protocol total ++ [(24, be16 sum), (34, payload)])
    (hfits : ∀ p ∈ parts, p.1 + p.2.length ≤ array.length)
    (hheader : protocol = protocolTcp → 14 ≤ payload.length) :
    Outgoing.read ((overwriteAll array parts).take (14 + (20 + payload.length))) =
      Outgoing.of (mapped destination) protocol payload := by
  have hbyte : ∀ k, k < 34 + payload.length →
      byteAt ((overwriteAll array parts).take (14 + (20 + payload.length))) k = _ := fun k hk => by
    rw [byteAt_take (by omega), byteAt_overwriteAll hfits, hparts]
  refine read_ipv4 ?_ ?_ ?_ fun htcp k hk => ?_
  · simp (disch := omega) only [wordAt, hbyte]
    simp
    exact wordAt_be16 _
  · rw [hbyte 23 (by omega)]
    simp [byteAt]
  · simp (disch := omega) only [longAt, hbyte]
    simp
    exact longAt_be32 _
  · have := hheader htcp
    rw [hbyte _ (by omega)]
    have hk : k < payload.length := by omega
    simp [hk]

/-- A frame goes to its next hop, or waits for it while it is asked for. -/
theorem passes_via (s : Stack) {nextHop : Ip} {ask : Daemon Unit}
    (hread : Outgoing.read frame = packet) (hhop : nextHop ≠ unspecified) (hlow : 6 ≤ frame.length)
    (hhigh : frame.length ≤ maxFrame)
    (hask : ∀ w, Runs ask w fun _ w' => Transmits none w w') :
    Runs (match position fun i => (s.arp i).1 = nextHop with
      | some i => sendTo frame (s.arp i).2.toList
      | none => do
        park frame nextHop
        ask) w fun _ w' => Passes packet (s.via nextHop) w w' := by
  unfold Stack.via
  split
  · rename_i i hi
    rw [hi]
    exact (transmits_sendTo hread (by simp) (by simpa using hlow)).mono fun _ _ h => h.passes
  · rename_i hnone
    rw [hnone]
    exact .bind (passes_park hread hhop hhigh) fun _ w' h => (hask w').mono fun _ _ h' => h.asked h'

/-- **`send_ipv4`**: what fits a frame passes. -/
theorem passes_sendIpv4 (destination : UInt32) (hfits : 34 + payload.length ≤ maxFrame)
    (hheader : protocol = protocolTcp → 14 ≤ payload.length) :
    Runs (sendIpv4 destination protocol payload) w fun _ w' =>
      Passes (Outgoing.of (mapped destination) protocol payload) (w.stack.reach4 destination)
        w w' := by
  unfold sendIpv4
  refine .getStack ?_
  dsimp only
  rw [if_neg (by omega)]
  have hparts : ∀ sum, ∀ p ∈ ipv4Header w.stack destination protocol (20 + payload.length) ++
      [(24, be16 sum), (34, payload)], p.1 + p.2.length ≤ (zeros maxFrame).length := by
    simp [maxFrame] at hfits ⊢
    omega
  obtain ⟨heq, hlength⟩ := putAll_eq (forall_mem_append.mp (hparts 0)).1
  rw [heq, pure_bind_eq]
  refine wp_bind.mpr (wp_modifyStack.mpr ?_)
  generalize checksum (take 20 _) = sum
  have hsecond := (forall_mem_append.mp (hparts sum)).2
  rw [← hlength] at hsecond
  obtain ⟨heq', hlength'⟩ := putAll_eq hsecond
  rw [heq', pure_bind_eq, overwriteAll_overwriteAll]
  have hread := read_ipv4Frame w.stack destination sum rfl (hparts sum) hheader
  rw [hlength, overwriteAll_overwriteAll, length_zeros] at hlength'
  generalize htake : take (14 + (20 + payload.length)) _ = frame at hread ⊢
  replace htake := congrArg length htake
  rw [length_take, hlength'] at htake
  have hlow : 6 ≤ frame.length := by omega
  unfold Stack.reach4
  split
  · refine (transmits_sendTo hread (by simp) (by simpa using hlow)).mono fun _ _ h => ?_
    obtain ⟨hview, htracked, hreach, hlog, hroom⟩ := h.passes
    exact ⟨hview, htracked, hreach, hlog, hroom⟩
  · rw [asV4_mapped]
    refine (passes_via w.stack hread (mapped_ne_unspecified _) hlow (by omega) fun _ =>
      transmits_requestMac _).mono fun _ _ h => ?_
    obtain ⟨hview, htracked, hreach, hlog, hroom⟩ := h
    exact ⟨hview, htracked, hreach, hlog, hroom⟩

theorem runs_icmpv6Checksummed {message : Bytes} (destination : Ip) (h : 4 ≤ message.length) :
    Runs (icmpv6Checksummed destination message) w fun out w' =>
      out.length = message.length ∧ w' = w := by
  unfold icmpv6Checksummed
  refine .bind (runs_put (by simpa using h)) ?_
  rintro out w' ⟨hout, rfl⟩
  refine .getStack ?_
  exact (runs_put (by simp; omega)).mono fun out' w' hout' => ⟨hout'.1.trans hout, hout'.2⟩

theorem runs_ipv6Frame (destination : Ip) (hfits : 54 + payload.length ≤ maxFrame)
    (hheader : protocol = protocolTcp → 14 ≤ payload.length) :
    Runs (ipv6Frame destination protocol payload) w fun frame w' =>
      ((frame.take (54 + payload.length)).length = 54 + payload.length ∧
        Outgoing.read (frame.take (54 + payload.length)) =
          Outgoing.of destination protocol payload) ∧ w' = w := by
  unfold ipv6Frame
  refine .getStack ?_
  have hparts : ∀ p ∈ ipv6Parts w.stack destination protocol payload,
      p.1 + p.2.length ≤ (zeros maxFrame).length := by
    simp [maxFrame] at hfits ⊢
    omega
  obtain ⟨heq, hlength⟩ := putAll_eq hparts
  rw [heq]
  have hbyte : ∀ k, k < 54 + payload.length → byteAt ((overwriteAll (zeros maxFrame)
      (ipv6Parts w.stack destination protocol payload)).take (54 + payload.length)) k = _ :=
    fun k hk => by rw [byteAt_take hk, byteAt_overwriteAll hparts]
  refine wp_pure.mpr ⟨⟨?_, read_ipv6 ?_ ?_ ?_ fun htcp k hk => ?_⟩, rfl⟩
  · rw [length_take, hlength, length_zeros]
    omega
  · simp (disch := omega) only [wordAt, hbyte]
    simp
    exact wordAt_be16 _
  · rw [hbyte 20 (by omega)]
    simp [byteAt]
  · refine Vector.ext fun i hi => ?_
    have hlow : 38 + i < 54 := by omega
    simp only [ipAt, Vector.getElem_ofFn]
    rw [hbyte _ (by omega)]
    simp [hlow, byteAt, show ¬ 54 ≤ 38 + i by omega, hi]
  · have := hheader htcp
    rw [hbyte _ (by omega)]
    have hk : k < payload.length := by omega
    simp [hk]

theorem transmits_solicitNeighbour (target : Ip) :
    Runs (solicitNeighbour target) w fun _ w' => Transmits none w w' := by
  unfold solicitNeighbour
  refine .getStack ?_
  refine Runs.bind (runs_putAll (by simp)) ?_
  rintro solicitation w' ⟨hlen, rfl⟩
  refine .bind (runs_icmpv6Checksummed _ (by simp at hlen; omega)) ?_
  rintro message w' ⟨hmessage, rfl⟩
  have hfits : 54 + message.length ≤ maxFrame := by
    simp [maxFrame] at hlen ⊢
    omega
  rw [if_neg (by omega)]
  refine .bind (runs_ipv6Frame _ hfits fun h => absurd h (by decide)) ?_
  rintro frame w' ⟨⟨hframe, hread⟩, rfl⟩
  exact transmits_sendMulticast _ hread (by omega)

/-- **`send_ipv6`** likewise. -/
theorem passes_sendIpv6 (destination : Ip) (hfits : 54 + payload.length ≤ maxFrame)
    (hheader : protocol = protocolTcp → 14 ≤ payload.length) :
    Runs (sendIpv6 destination protocol payload) w fun _ w' =>
      Passes (Outgoing.of destination protocol payload) (w.stack.reach6 destination) w w' := by
  unfold sendIpv6
  refine .getStack ?_
  dsimp only
  rw [if_neg (by omega)]
  refine Runs.bind (runs_ipv6Frame destination hfits hheader) ?_
  rintro frame w' ⟨⟨hframe, hread⟩, rfl⟩
  unfold Stack.reach6
  split
  · exact (transmits_sendMulticast _ hread (by omega)).mono fun _ _ h => h.passes
  split
  · exact wp_pure.mpr passes_nowhere
  · rename_i hhop
    exact passes_via w'.stack hread hhop (by omega) (by omega) fun _ => transmits_solicitNeighbour _

/-- Anything but TCP is only sent. -/
theorem sends_sendIpv4 (destination : UInt32) (hprotocol : protocol ≠ protocolTcp)
    (payload : Bytes) : Sends (sendIpv4 destination protocol payload) w := by
  by_cases hfits : 34 + payload.length ≤ maxFrame
  · refine (passes_sendIpv4 destination hfits fun h => absurd h hprotocol).mono fun _ _ h => ?_
    rw [Outgoing.of, if_neg hprotocol] at h
    exact h.quiet
  · unfold sendIpv4
    refine .getStack ?_
    dsimp only
    rw [if_pos (by omega)]
    exact Does.pure

theorem sends_sendIpv6 (destination : Ip) (hprotocol : protocol ≠ protocolTcp)
    (payload : Bytes) : Sends (sendIpv6 destination protocol payload) w := by
  by_cases hfits : 54 + payload.length ≤ maxFrame
  · refine (passes_sendIpv6 destination hfits fun h => absurd h hprotocol).mono fun _ _ h => ?_
    rw [Outgoing.of, if_neg hprotocol] at h
    exact h.quiet
  · unfold sendIpv6
    refine .getStack ?_
    dsimp only
    rw [if_pos (by omega)]
    exact Does.pure

variable {message : Bytes}

theorem sends_sendIcmpv6 (destination : Ip) (h : 4 ≤ message.length) :
    Sends (sendIcmpv6 destination message) w := by
  unfold sendIcmpv6
  refine Runs.bind (runs_icmpv6Checksummed _ h) ?_
  rintro message' w' ⟨-, rfl⟩
  exact sends_sendIpv6 _ (by decide) _

theorem sends_sendIp (destination : Ip) (hprotocol : protocol ≠ protocolTcp)
    (payload : Bytes) : Sends (sendIp destination protocol payload) w := by
  unfold sendIp
  split
  · exact sends_sendIpv4 _ hprotocol _
  · exact sends_sendIpv6 _ hprotocol _

theorem sends_sendUdpDatagram (destination : Ip) {datagram : Bytes} (h : 8 ≤ datagram.length) :
    Sends (sendUdpDatagram destination datagram) w := by
  unfold sendUdpDatagram
  refine Runs.bind (runs_put (by simpa using h)) ?_
  rintro out w' ⟨_, rfl⟩
  refine .getStack ?_
  refine Runs.bind (runs_put (by simp; omega)) ?_
  rintro out' w' ⟨-, rfl⟩
  exact sends_sendIp _ (by decide) _

theorem sends_sendDatagram (destination : Ip) (localPort remote : UInt16)
    (h : payload.length ≤ 512) : Sends (sendDatagram destination localPort remote payload) w := by
  unfold sendDatagram
  refine Runs.bind (runs_putAll (by simp [maxDatagram]; omega)) ?_
  rintro datagram w' ⟨hlen, rfl⟩
  refine sends_sendUdpDatagram _ ?_
  simp only [length_zeros, maxDatagram] at hlen
  rw [length_take]
  omega

/-! ## Segments -/

/-- A segment with these flags and so many bytes of data fits a frame. -/
def Fits (destination : Ip) (flags : UInt8) (length : Nat) : Prop :=
  (if flags &&& syn ≠ 0 then 24 else 20) + length ≤ mss destination + 20

theorem Fits.le {destination : Ip} {flags : UInt8} {length : Nat}
    (h : Fits destination flags length) : length ≤ tcpMss := by
  unfold Fits mss tcpMssV6 at h
  split at h <;> split at h <;> omega

theorem fits_zero (destination : Ip) (flags : UInt8) : Fits destination flags 0 := by
  unfold Fits mss tcpMssV6 tcpMss
  split <;> split <;> decide

theorem mss_le (destination : Ip) : mss destination ≤ tcpMss := by
  unfold mss tcpMssV6
  split <;> omega

theorem passes_sendIp (destination : Ip) (hfits : payload.length ≤ mss destination + 20)
    (hheader : 14 ≤ payload.length) :
    Runs (sendIp destination protocolTcp payload) w fun _ w' =>
      Passes (some (.header destination payload 0)) (w.stack.reach destination) w w' := by
  unfold sendIp Stack.reach
  unfold mss tcpMssV6 tcpMss at hfits
  cases hv4 : asV4 destination with
  | some address =>
    rw [hv4] at hfits
    rw [← mapped_asV4 hv4]
    exact passes_sendIpv4 address (by simp [maxFrame] at hfits ⊢; omega) fun _ => hheader
  | none =>
    rw [hv4] at hfits
    exact passes_sendIpv6 destination (by simp [maxFrame] at hfits ⊢; omega) fun _ => hheader

section Segment

variable {destination : Ip} {localPort remotePort window sum : UInt16}
  {sequence acknowledgement : UInt32} {flags : UInt8} {header : Nat}

variable {parts : List (Nat × Bytes)} (hparts : parts = segmentParts destination localPort
  remotePort sequence acknowledgement flags window header payload)
  (hhigh : header + payload.length ≤ 24 + tcpMss)
include hparts hhigh

theorem segmentParts_fit : ∀ p ∈ parts, p.1 + p.2.length ≤ (zeros (24 + tcpMss)).length := by
  rw [length_zeros, tcpMss, hparts] at *
  simp only [forall_mem_append]
  refine ⟨⟨⟨⟨by simp, ?_⟩, by simp⟩, ?_⟩, by simpa using hhigh⟩
  · split <;> simp
  · split <;> simp

/-- The checksum and the data lie past what the receiver is to read. -/
theorem header_segment (hheader : header = 24 ∨ header = 20) :
    Outgoing.header destination ((overwrite (overwriteAll (zeros (24 + tcpMss)) parts) 16
      (be16 sum)).take (header + payload.length)) 0 = ⟨destination, localPort, remotePort,
        if flags &&& ack ≠ 0 then acknowledgement else 0, flags⟩ := by
  have hfits := segmentParts_fit hparts hhigh
  have hbyte : ∀ k, k < 14 → byteAt ((overwrite (overwriteAll (zeros (24 + tcpMss)) parts) 16
      (be16 sum)).take (header + payload.length)) k = _ := fun k hk => by
    rw [byteAt_take (by omega), byteAt_overwrite (by rw [(putAll_eq hfits).2]; simp [tcpMss]),
      if_neg (by omega), byteAt_overwriteAll hfits, hparts]
  generalize take (header + payload.length) _ = bytes at hbyte ⊢
  have hzero : ∀ k, byteAt (zeros (24 + tcpMss)) k = 0 := fun k => by
    rw [byteAt, zeros, getD_eq_getElem?_getD, getElem?_replicate]
    split <;> rfl
  simp (disch := omega) only [Outgoing.header, wordAt, longAt, hbyte]
  rcases hheader with rfl | rfl <;> by_cases hack : flags &&& ack = 0 <;> simp [hack, hzero] <;>
    exact ⟨wordAt_be16 _, wordAt_be16 _, by first | rfl | exact longAt_be32 _, rfl⟩

end Segment

/-- **A segment on its way**: what is handed to IP is what the arguments say, and the network
carries it if it can. -/
theorem carries_segment (destination : Ip) (localPort remotePort : UInt16)
    (sequence acknowledgement : UInt32) (flags : UInt8) (window : UInt16)
    (hfits : Fits destination flags payload.length) :
    Runs (segment destination localPort remotePort sequence acknowledgement flags window payload)
      w fun _ w' => (w'.view = w.view ∧ (Tracked w → Tracked w')) ∧
        Carries [⟨destination, localPort, remotePort,
          if flags &&& ack ≠ 0 then acknowledgement else 0, flags⟩] w w' := by
  unfold segment
  dsimp only
  unfold Fits at hfits
  have hmss := mss_le destination
  generalize hheader : (if flags &&& syn ≠ 0 then 24 else 20 : Nat) = header at hfits ⊢
  replace hheader : header = 24 ∨ header = 20 := by
    split at hheader <;> omega
  have hhigh : header + payload.length ≤ 24 + tcpMss := by omega
  generalize hparts : segmentParts _ _ _ _ _ _ _ _ _ = parts
  obtain ⟨heq, hlength⟩ := putAll_eq (segmentParts_fit hparts.symm hhigh)
  rw [heq, pure_bind_eq]
  refine .getStack ?_
  generalize transportChecksum _ _ _ _ = sum
  rw [put_eq (by rw [hlength]; simp [tcpMss]), pure_bind_eq]
  refine (passes_sendIp destination ?_ ?_).mono fun _ _ h => ⟨⟨h.view, h.tracked⟩, ?_⟩
  · rw [length_take]
    omega
  · rw [length_take, length_overwrite (by rw [hlength]; simp [tcpMss]), hlength, length_zeros]
    omega
  · rw [header_segment hparts.symm hhigh hheader] at h
    exact h.carries

theorem sends_solicitRouter : Sends solicitRouter w := by
  unfold solicitRouter
  refine .getStack ?_
  refine Runs.bind (runs_putAll (by simp)) ?_
  rintro solicitation w' ⟨hlen, rfl⟩
  exact sends_sendIcmpv6 _ (by simp at hlen; omega)

theorem length_dhcpOptions (s : Stack) (kind : UInt8) : (dhcpOptions s kind).length ≤ 21 := by
  unfold dhcpOptions
  split <;> simp

theorem sends_dhcpSend (kind : UInt8) : Sends (dhcpSend kind) w := by
  unfold dhcpSend
  refine .getStack ?_
  have hoptions := length_dhcpOptions w.stack kind
  refine Runs.bind (runs_putAll (by simp)) ?_
  rintro message w' ⟨hmessage, rfl⟩
  refine .bind (runs_put (by simp; omega)) ?_
  rintro options w' ⟨-, rfl⟩
  simp only [length_zeros] at hmessage
  refine .bind (runs_put (by rw [length_take]; omega)) ?_
  rintro message' w' ⟨_, rfl⟩
  exact sends_sendDatagram _ _ _ (by omega)

/-! ## The timer, and start-up -/

variable (env : Env)

theorem runs_armTimer : Runs (armTimer env) w fun _ w' => Quiet w w' ∧ Carries [] w w' := by
  unfold armTimer
  refine .getStack ?_
  dsimp only
  split
  · refine wp_bind.mpr (wp_call.mpr ?_)
    split
    · exact wp_modifyStack.mpr ⟨⟨rfl, id, .same rfl⟩, .same rfl rfl rfl⟩
    · exact wp_pure.mpr ⟨⟨rfl, id, .same rfl⟩, .same rfl rfl rfl⟩
  · exact wp_pure.mpr ⟨.refl w, .same rfl rfl rfl⟩

theorem sends_armTimer : Sends (armTimer env) w := (runs_armTimer env).mono fun _ _ h => h.1

/-- Start-up is sending only. -/
theorem sends_boot : Sends (boot env) w := by
  unfold boot
  refine .bind sends_solicitRouter fun _ w' => ?_
  refine .bind (sends_armTimer env) fun _ w' => ?_
  refine .getStack ?_
  split
  · refine Sends.bind (wp_modifyStack.mpr ⟨rfl, id, .same rfl⟩) fun _ w' => ?_
    exact .bind (sends_dhcpSend _) fun _ _ => sends_armTimer env
  · exact Does.pure

end Panda.Net
