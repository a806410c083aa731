import PandaProof.NetSends
import PandaProof.NetPackets

/-!
# Connections as a machine of their own

Whatever happens to a connection — a segment for it, a command of its owner, a tick of
the timer — the daemon's code does two things: it replaces the connection's record, and it
tells the client, writes its buffer or sends segments.  Both depend on the record alone,
so each function of `net.rs` that works on a connection comes down to a pure one from the
old record to the new one and the events, oldest first.  The functions are written out
here beside the code they stand for, and `Gives` says that the code does what they say, and
that the segments among the events are what it puts on the wire, as far as the network carries
them.
-/
namespace Panda.Net

open UInt64 Prog

/-- The bytes `[address, address + length)` all belong to one buffer of a mappings
table. -/
def Covers (m : Fin 8 → Mapping) (address length : Nat) : Prop :=
  length = 0 ∨ ∃ k, (m k).region.base.toNat ≤ address ∧
    address + length ≤ (m k).region.base.toNat + (m k).region.size.toNat

variable {address length : Nat}

theorem inside_iff_covers {s : Stack} :
    Inside s address length ↔ Covers s.mappings address length := Iff.rfl

/-- Connection `i` takes a turn: its new record, and the events, oldest first. -/
def View.turn (v : View) (i : Fin 8) (r : Connection × List Event) : View :=
  { v with connections := Function.update v.connections i r.1, log := r.2.reverse ++ v.log }

@[simp] theorem View.turn_connections_self (v : View) (i : Fin 8) (r : Connection × List Event) :
    (v.turn i r).connections i = r.1 := by
  simp [View.turn]

theorem View.turn_connections_of_ne (v : View) {i j : Fin 8} (r : Connection × List Event)
    (h : j ≠ i) : (v.turn i r).connections j = v.connections j := by
  simp [View.turn, Function.update_of_ne h]

theorem View.turn_same (v : View) (i : Fin 8) : v.turn i (v.connections i, []) = v := by
  simp [View.turn]

theorem View.turn_turn (v : View) (i : Fin 8) (c c' : Connection) (es es' : List Event) :
    (v.turn i (c, es)).turn i (c', es') = v.turn i (c', es ++ es') := by
  simp [View.turn]

/-- One turn after another. -/
def andThen (r : Connection × List Event) (f : Connection → Connection × List Event) :
    Connection × List Event := ((f r.1).1, r.2 ++ (f r.1).2)

theorem andThen_andThen (r : Connection × List Event) (f g : Connection → Connection × List Event) :
    andThen (andThen r f) g = andThen r fun c => andThen (f c) g := by
  simp [andThen]

/-- From a world with the mappings `m` in which connection `i` is `c`, the code returns
`a`; the connection takes the turn `r`, nothing else of the view changes, and the network
carries the segments of the turn.  Where `S` fails the code may also stop at a fault, part of
the way through the turn. -/
def Gives {A : Type} (S : Prop) (m : Fin 8 → Mapping) (i : Fin 8) (p : Daemon A) (c : Connection)
    (a : A) (r : Connection × List Event) : Prop :=
  ∀ w : World, w.stack.mappings = m → w.stack.connections i = c →
    p.Wp w (fun b w' => (b = a ∧ Becomes w (w.view.turn i r) w') ∧ Carries [] w w') fun _ w' =>
      ¬ S ∧ (∃ c' es, es <+: r.2 ∧ w'.view = w.view.turn i (c', es)) ∧ Carries [] w w'

section Rules

variable {A B : Type} {S : Prop} {m : Fin 8 → Mapping} {i : Fin 8} {p : Daemon B}
  {f : B → Daemon A} {c d k : Connection} {a : A} {b : B} {es es' : List Event}
  {r : Connection × List Event}

/-- What the code shows when faults are ruled out. -/
theorem Gives.runs {w : World} (h : Gives True m i p c b r) (hm : w.stack.mappings = m)
    (hc : w.stack.connections i = c) :
    Runs p w fun b' w' => b' = b ∧ Becomes w (w.view.turn i r) w' :=
  Wp.mono (h w hm hc) (fun _ _ h' => h'.1) fun _ _ h' => h'.1 trivial

theorem gives_of_runs (h : ∀ w : World, w.stack.mappings = m → w.stack.connections i = c →
    Runs p w fun b' w' => b' = b ∧ (w'.view = w.view.turn i r ∧ (Tracked w → Tracked w')) ∧
      Carries [] w w') : Gives S m i p c b r := by
  refine fun w hm hc => Wp.mono (h w hm hc) ?_ fun _ _ h' => h'.elim
  rintro b' w' ⟨hb, ⟨hview, htracked⟩, hcarries⟩
  exact ⟨⟨hb, hview, htracked, hcarries.wired⟩, hcarries⟩

/-- One part after the other. -/
theorem Gives.bind (hp : Gives S m i p c b (d, es)) (hf : Gives S m i (f b) d a (k, es')) :
    Gives S m i (p >>= f) c a (k, es ++ es') := by
  intro w hm hc
  refine wp_bind.mpr (Wp.mono (hp w hm hc) ?_ ?_)
  · rintro b' w' ⟨⟨rfl, hbecomes⟩, hcarries⟩
    have hm' : w'.stack.mappings = m := (congrArg View.mappings hbecomes.view).trans hm
    have hc' : w'.stack.connections i = d := by
      have h := congrArg (fun v : View => v.connections i) hbecomes.view
      simpa [World.view] using h
    refine .mono (hf w' hm' hc') ?_ ?_
    · rintro a' w'' ⟨⟨rfl, hbecomes'⟩, hcarries'⟩
      refine ⟨⟨rfl, ?_, fun ht => hbecomes'.tracked (hbecomes.tracked ht),
        hbecomes.wired.trans hbecomes'.wired⟩, hcarries.trans hcarries'⟩
      rw [hbecomes'.view, hbecomes.view, View.turn_turn]
    · rintro _ w'' ⟨hS, ⟨c₁, es₁, hpart, hview⟩, hcarries'⟩
      refine ⟨hS, ⟨c₁, es ++ es₁, (List.prefix_append_right_inj es).mpr hpart, ?_⟩,
        hcarries.trans hcarries'⟩
      rw [hview, hbecomes.view, View.turn_turn]
  · rintro _ w' ⟨hS, ⟨c₁, es₁, hpart, hview⟩, hcarries⟩
    exact ⟨hS, ⟨c₁, es₁, hpart.trans (List.prefix_append es es'), hview⟩, hcarries⟩

theorem Gives.andThen {g : Connection → Connection × List Event} (hp : Gives S m i p c b r)
    (hf : Gives S m i (f b) r.1 a (g r.1)) : Gives S m i (p >>= f) c a (andThen r g) :=
  Gives.bind hp hf

/-- The first part shows nothing. -/
theorem Gives.bind_quiet (hp : Gives S m i p c b (d, [])) (hf : Gives S m i (f b) d a r) :
    Gives S m i (p >>= f) c a r := hp.bind hf

/-- The second part shows nothing. -/
theorem Gives.bind_silent (hp : Gives S m i p c b (d, es))
    (hf : Gives S m i (f b) d a (k, [])) : Gives S m i (p >>= f) c a (k, es) := by
  have h := hp.bind hf
  rwa [List.append_nil] at h

theorem Gives.getStack {f : Stack → Daemon A}
    (h : ∀ s : Stack, s.mappings = m → s.connections i = c → Gives S m i (f s) c a r) :
    Gives S m i (getStack >>= f) c a r := by
  intro w hm hc
  refine wp_bind.mpr (wp_getStack.mpr ?_)
  exact h w.stack hm hc w hm hc

/-- Where nothing is sent, what shows nothing is no turn at all. -/
theorem gives_of_quiet (h : ∀ w : World, Runs p w fun b' w' => b' = b ∧ Quiet w w' ∧
    Carries [] w w') : Gives S m i p c b (c, []) := by
  refine gives_of_runs fun w _ hc => (h w).mono ?_
  rintro b' w' ⟨rfl, hquiet, hcarries⟩
  refine ⟨rfl, ⟨?_, hquiet.tracked⟩, hcarries⟩
  have hc' : w.view.connections i = c := hc
  rw [hquiet.view, ← hc', View.turn_same]

theorem Gives.pure : Gives S m i (pure a : Daemon A) c a (c, []) :=
  gives_of_quiet fun w => wp_pure.mpr ⟨rfl, Quiet.refl w, .same rfl rfl rfl⟩

theorem gives_modifyConnection {g : Connection → Connection} :
    Gives S m i (modifyConnection i g) c () (g c, []) := by
  refine gives_of_runs fun w _ hc =>
    wp_modifyStack.mpr ⟨rfl, ⟨?_, fun h => h⟩, .same rfl rfl rfl⟩
  subst hc
  rfl

theorem gives_emit {e : Event} (hv : e.visible = true) (hs : e.stored = false)
    (hr : e.recorded = none) (ho : e.outgoing = none) : Gives S m i (emit e) c () (c, [e]) := by
  refine gives_of_runs fun w _ hc => wp_emit.mpr ⟨rfl, ⟨?_, tracked_cons hs⟩, .cons hr ho⟩
  subst hc
  simp [World.view, View.turn, hv]

end Rules

variable {S : Prop} {m : Fin 8 → Mapping} {i : Fin 8} {c : Connection}

/-! ## Sending for a connection -/

/-- The record of a segment sent for a connection. -/
def emission (c : Connection) (flags : UInt8) : List Event :=
  (if c.delivered = false ∧ c.size < c.filled then [.underflow] else []) ++
    [.segment c flags]

/-- What `transmit` sends what is in flight with. -/
def flightSent (c : Connection) : UInt8 :=
  if c.state ≠ .synSent then c.flightFlags ||| ack else c.flightFlags

/-- What is in flight goes out. -/
abbrev sentOff (c : Connection) : Connection × List Event := (c, emission c (flightSent c))

theorem gives_subtract (a b : UInt64) :
    Gives S m i (subtract a b) c (a - b) (c, if a < b then [.underflow] else []) := by
  unfold subtract
  split
  · exact (gives_emit rfl rfl rfl rfl).bind Gives.pure
  · exact Gives.pure.bind Gives.pure

/-- The segment on record is the one that is handed to IP. -/
theorem gives_connectionSegment (sequence : UInt32) (flags : UInt8) {payload : Bytes}
    (h : Fits c.remote flags payload.length) :
    Gives S m i (connectionSegment i sequence flags payload) c () (c, emission c flags) := by
  unfold connectionSegment
  refine .getStack fun s _ hs => ?_
  rw [hs]
  have hrest : ∀ window, Gives S m i (do
      emit (.segment c flags)
      segment c.remote c.localPort c.remotePort sequence c.nextReceive flags window payload)
      c () (c, [.segment c flags]) := fun window => by
    refine gives_of_runs fun w _ hc => wp_bind.mpr (wp_emit.mpr ?_)
    refine (carries_segment _ _ _ _ _ _ _ h).mono ?_
    rintro _ w' ⟨⟨hview, htracked⟩, hcarries⟩
    refine ⟨rfl, ⟨?_, fun ht => htracked (tracked_cons rfl ht)⟩, hcarries.recorded rfl rfl⟩
    subst hc
    rw [hview]
    simp only [World.view, View.turn, Function.update_eq_self]
    exact congrArg _ (List.filter_cons_of_pos rfl)
  unfold emission
  by_cases hd : c.delivered = true
  · simp only [hd, Bool.true_eq_false, false_and, if_true, if_false]
    exact .bind Gives.pure (hrest 0)
  · simp only [Bool.not_eq_true] at hd
    simp only [hd, Bool.false_eq_true, true_and, if_false]
    exact (gives_subtract c.size c.filled).bind (Gives.pure.bind_quiet (hrest _))

theorem gives_sendAck : Gives S m i (sendAck i) c () (c, emission c ack) := by
  unfold sendAck
  exact .getStack fun s _ _ => gives_connectionSegment _ _ (fits_zero _ _)

theorem gives_sendReset : Gives S m i (sendReset i) c () (c, emission c rst) := by
  unfold sendReset
  exact .getStack fun s _ _ => gives_connectionSegment _ _ (fits_zero _ _)

variable (env : Env)

/-- What is in flight lies in a mapped buffer and fits a segment. -/
theorem gives_transmit (hcovers : Covers m c.flightBase.toNat c.flightLength.toNat)
    (hfits : Fits c.remote (flightSent c) c.flightLength.toNat) :
    Gives S m i (transmit env i) c () (sentOff c) := by
  have hlen := hfits.le
  unfold transmit
  refine .getStack fun s hm hs => ?_
  rw [hs]
  refine gives_of_runs fun w hwm hwc => ?_
  unfold readClient
  have hinside : Inside w.stack c.flightBase.toNat c.flightLength.toNat := by
    rw [inside_iff_covers, hwm]
    exact hcovers
  refine wp_bind.mpr (Runs.getStack ?_)
  rw [if_pos hinside]
  refine wp_bind.mpr (wp_call.mpr (wp_pure.mpr ?_))
  refine Runs.bind (runs_put (by simp; omega)) ?_
  rintro payload w' ⟨hpayload, rfl⟩
  have hdata : (payload.take ((List.range c.flightLength.toNat).map fun i =>
      env.memory w.calls (c.flightBase.toNat + i)).length).length = c.flightLength.toNat := by
    simp at hpayload ⊢
    omega
  refine Wp.mono (gives_connectionSegment (S := True) _ _ (by rw [hdata]; exact hfits)
    { w with calls := w.calls + 1 } hwm hwc) ?_ fun _ _ h => h.1 trivial
  rintro _ w' ⟨⟨_, hbecomes⟩, hreach, hlog⟩
  exact ⟨rfl, ⟨hbecomes.view, hbecomes.tracked⟩, hreach, hlog⟩

/-- Data that fits a segment goes out in one. -/
theorem fits_flight {length : Nat} (hflags : c.flightFlags = psh) (h : length ≤ mss c.remote) :
    Fits c.remote (flightSent c) length := by
  have hsyn : flightSent c &&& syn = 0 := by
    unfold flightSent
    rw [hflags]
    split <;> decide
  rw [Fits, if_neg (not_not.mpr hsyn)]
  omega

theorem gives_armTimer : Gives S m i (armTimer env) c () (c, []) :=
  gives_of_quiet fun _ => (runs_armTimer env).mono fun _ _ h => ⟨rfl, h⟩

theorem gives_startFlight (flags : UInt8) {base length : UInt64}
    (hcovers : Covers m base.toNat length.toNat)
    (hfits : Fits c.remote (flightSent (launched c flags base length)) length.toNat) :
    Gives S m i (startFlight env i flags base length) c ()
      (sentOff (launched c flags base length)) := by
  unfold startFlight
  refine gives_modifyConnection.bind_quiet ?_
  exact (gives_transmit env (c := launched c flags base length) hcovers hfits).bind_silent
    (gives_armTimer env)

/-! ## Telling the client -/

/-- A message to the client of a connection. -/
@[simp] def message (c : Connection) (tag : UInt64) (words : Words) : Event :=
  .ipcSend c.reply ⟨tag, words, 0⟩

/-- The tags of messages about connections. -/
@[simp] def tcpTag (tag : UInt64) : Prop :=
  tag = tagTcpOpen ∨ tag = tagTcpSent ∨ tag = tagTcpData ∨ tag = tagTcpClosed

theorem gives_tell {tag : UInt64} (words : Words) (h : tcpTag tag) :
    Gives S m i (tell i tag words) c () (c, [message c tag words]) := by
  unfold tell
  refine .getStack fun s _ hs => ?_
  rw [hs]
  refine gives_emit ?_ rfl rfl rfl
  exact decide_eq_true h

/-- The connection is over. -/
@[simp] def closedMessage (i : Fin 8) (c : Connection) (reason : UInt64) : Event :=
  message c tagTcpClosed (ofNat i, reason, 0, 0)

@[simp] def sentMessage (i : Fin 8) (c : Connection) (length : UInt64) : Event :=
  message c tagTcpSent (ofNat i, length, 0, 0)

theorem gives_finish (reason : UInt64) :
    Gives S m i (finish i reason) c () ({}, [closedMessage i c reason]) := by
  unfold finish
  exact (gives_tell _ (by simp)).bind gives_modifyConnection

/-! ## Closing -/

/-- The record in another state. -/
def inState (c : Connection) (state : ConnState) : Connection := { c with state := state }

/-- The record once its client has asked to close while data is in flight. -/
def withRequest (c : Connection) (requested : Bool) : Connection :=
  { c with closeRequested := requested }

/-- `send_fin`, on the record. -/
def finned (c : Connection) : Connection :=
  launched (inState c (if c.state = .closeWait then .lastAck else .finWait1)) fin 0 0

theorem gives_sendFin : Gives S m i (sendFin env i) c () (sentOff (finned c)) := by
  unfold sendFin
  exact gives_modifyConnection.bind_quiet (gives_startFlight env fin (.inl rfl) (fits_zero _ _))

/-- `TCP_CLOSE`. -/
def closeTurn (i : Fin 8) (c : Connection) : Connection × List Event :=
  match c.state with
  | .synSent | .synReceived => ({}, emission c rst ++ [closedMessage i c closedFinished])
  | .established | .closeWait =>
    if c.unacknowledged = c.nextSend then sentOff (finned c) else (withRequest c true, [])
  | _ => (c, [])

theorem gives_close : Gives S m i (close env i) c () (closeTurn i c) := by
  unfold close closeTurn
  refine .getStack fun s _ hs => ?_
  rw [hs]
  dsimp only
  cases c.state with
  | synSent | synReceived => exact gives_sendReset.bind (gives_finish _)
  | established | closeWait =>
    dsimp only
    split
    · exact gives_sendFin env
    · exact gives_modifyConnection
  | free | finWait1 | finWait2 | closing | lastAck => exact .pure

/-- `TCP_CONSUMED`. -/
def emptied (c : Connection) : Connection := { c with filled := 0, delivered := false }

def consumedTurn (c : Connection) : Connection × List Event :=
  (emptied c, emission (emptied c) ack)

theorem gives_consumed : Gives S m i (consumed i) c () (consumedTurn c) := by
  unfold consumed
  exact gives_modifyConnection.bind_quiet gives_sendAck

/-! ## Segments -/

/-- The record with nothing in flight. -/
def settled (c : Connection) : Connection :=
  { c with unacknowledged := c.nextSend, flightFlags := 0, flightLength := 0 }

/-- `flight_landed`, on the record. -/
def landed (i : Fin 8) (c : Connection) : Connection × List Event :=
  if c.flightFlags &&& fin ≠ 0 then
    match c.state with
    | .finWait1 => (inState (settled c) .finWait2, [])
    | .closing | .lastAck => ({}, [closedMessage i c closedFinished])
    | _ => (settled c, [])
  else
    let sent := if 0 < c.flightLength then [sentMessage i c c.flightLength] else []
    if c.closeRequested = true ∧ c.IsOpen then
      let last := finned (withRequest (settled c) false)
      (last, sent ++ emission last (flightSent last))
    else (settled c, sent)

theorem gives_flightLanded : Gives S m i (flightLanded env i) c () (landed i c) := by
  unfold flightLanded landed
  refine .getStack fun s _ hs => ?_
  rw [hs]
  dsimp only
  refine .bind_quiet (d := settled c) gives_modifyConnection ?_
  by_cases hfin : c.flightFlags &&& fin ≠ 0
  · simp only [if_pos hfin]
    cases c.state with
    | finWait1 => exact gives_modifyConnection
    | closing | lastAck => exact gives_finish _
    | free | synSent | synReceived | established | finWait2 | closeWait => exact .pure
  simp only [if_neg hfin]
  have hsent : Gives S m i (tell i tagTcpSent (ofNat i, c.flightLength, 0, 0)) (settled c)
      () (settled c, [sentMessage i c c.flightLength]) := gives_tell _ (by simp)
  have hlast : Gives S m i (do
      modifyConnection i fun c => { c with closeRequested := false }
      sendFin env i) (settled c) () (sentOff (finned (withRequest (settled c) false))) :=
    gives_modifyConnection.bind_quiet (gives_sendFin env)
  by_cases hlen : 0 < c.flightLength <;>
    by_cases hclose : c.closeRequested = true ∧ c.IsOpen
  · simp only [if_pos hlen, if_pos hclose]
    exact hsent.bind hlast
  · simp only [if_pos hlen, if_neg hclose]
    exact hsent.bind_silent Gives.pure
  · simp only [if_neg hlen, if_pos hclose]
    exact hlast
  · simp only [if_neg hlen, if_neg hclose]
    exact .pure

/-- `announce_open`: an IPv6 peer's address goes into the client's buffer. -/
def opening (i : Fin 8) (c : Connection) : List Event :=
  (if asV4 c.remote = none ∧ 16 ≤ c.size then [.clientWrite c.base.toNat c.remote.toList]
    else []) ++
    [message c tagTcpOpen (ofNat i, ((asV4 c.remote).map UInt32.toUInt64).getD ipv6Word,
      c.remotePort.toUInt64, c.localPort.toUInt64)]

theorem gives_writeClient {address : UInt64} {bytes : Bytes}
    (h : S → Covers m address.toNat bytes.length) :
    Gives S m i (writeClient address bytes) c () (c, [.clientWrite address.toNat bytes]) := by
  unfold writeClient
  refine .getStack fun s hm _ => ?_
  split
  · exact gives_emit rfl rfl rfl rfl
  rename_i houtside
  have hS : ¬ S := fun hS => houtside (inside_iff_covers.mpr (hm ▸ h hS))
  intro w _ hc
  refine wp_throw.mpr ⟨hS, ⟨c, [], List.nil_prefix, ?_⟩, .same rfl rfl rfl⟩
  have hc' : w.view.connections i = c := hc
  rw [← hc', View.turn_same]

theorem gives_announceOpen (h : S → 16 ≤ c.size → Covers m c.base.toNat 16) :
    Gives S m i (announceOpen i) c () (c, opening i c) := by
  unfold announceOpen opening
  refine .getStack fun s _ hs => ?_
  rw [hs]
  dsimp only
  have htell : Gives S m i (tell i tagTcpOpen (ofNat i,
      ((asV4 c.remote).map UInt32.toUInt64).getD ipv6Word, c.remotePort.toUInt64,
      c.localPort.toUInt64)) c () (c, [message c tagTcpOpen _]) := gives_tell _ (by simp)
  split
  · rename_i hwrite
    exact (gives_writeClient fun hS => by simpa using h hS hwrite.2).bind htell
  · exact htell

/-- The record once the data is in the client's buffer. -/
def filledWith (c : Connection) (segment : Incoming) : Connection :=
  { c with
    filled := c.filled + ofNat segment.payload.length
    nextReceive := c.nextReceive + UInt32.ofNat segment.payload.length
    delivered := true }

/-- The data in the client's buffer, and the announcement. -/
def delivery (i : Fin 8) (c : Connection) (segment : Incoming) : List Event :=
  [.clientWrite (c.base + c.filled).toNat segment.payload, message c tagTcpData
      (ofNat i, c.filled + ofNat segment.payload.length, 0, 0)]

variable {segment : Incoming}

theorem gives_takeData
    (h : S → Takes c segment → Covers m (c.base + c.filled).toNat segment.payload.length) :
    Gives S m i (takeData i segment) c (decide (Takes c segment))
      (if Takes c segment then (filledWith c segment, delivery i c segment) else (c, [])) := by
  unfold takeData
  refine .getStack fun s _ hs => ?_
  rw [hs]
  dsimp only
  split
  · rename_i ht
    rw [decide_eq_true ht]
    refine .bind (gives_writeClient fun hS => h hS ht)
      (show Gives S m i _ c true (filledWith c segment, [_]) from ?_)
    refine .bind_quiet (d := filledWith c segment) gives_modifyConnection ?_
    exact (gives_tell _ (by simp)).bind_silent Gives.pure
  · rename_i ht
    rw [decide_eq_false ht]
    exact .pure

/-- What is done with the data of a segment, and whether it was accepted. -/
def dataPart (i : Fin 8) (c : Connection) (segment : Incoming) : Bool × Connection × List Event :=
  if segment.payload ≠ [] ∧ receiving c.state = true then
    (decide (Takes c segment),
      if Takes c segment then (filledWith c segment, delivery i c segment) else (c, []))
  else (decide (segment.payload = []), c, [])

/-- The record once the peer's FIN has been counted. -/
def pastFin (c : Connection) : Connection := { c with nextReceive := c.nextReceive + 1 }

/-- What is done with the FIN of a segment, `before` being the state it arrived in. -/
def finPart (i : Fin 8) (before : ConnState) (accepted : Bool) (c : Connection)
    (segment : Incoming) : Connection × List Event :=
  if (segment.flags &&& fin ≠ 0 ∧ accepted = true ∧
      segment.sequence + UInt32.ofNat segment.payload.length = c.nextReceive) ∧
      receiving before = true then
    let next := pastFin c
    match c.state with
    | .established =>
      (inState next .closeWait, emission next ack ++ [closedMessage i next closedPeerFinished])
    | .finWait1 => (inState next .closing, emission next ack)
    | _ => ({}, emission next ack ++ [closedMessage i next closedFinished])
  else if segment.Full then (c, emission c ack)
  else (c, [])

/-- The end of `tcp`, on the record. -/
def dataTurn (i : Fin 8) (c : Connection) (segment : Incoming) : Connection × List Event :=
  andThen (dataPart i c segment).2 fun c₁ =>
    finPart i c.state (dataPart i c segment).1 c₁ segment

theorem gives_acceptData
    (h : S → Takes c segment → Covers m (c.base + c.filled).toNat segment.payload.length) :
    Gives S m i (acceptData i segment (receiving c.state)) c (dataPart i c segment).1
      (dataPart i c segment).2 := by
  unfold acceptData dataPart
  split
  · exact gives_takeData h
  · exact .pure

theorem gives_takeFin (before : ConnState) (accepted : Bool) (segment : Incoming) :
    Gives S m i (takeFin i segment (receiving before) accepted) c ()
      (finPart i before accepted c segment) := by
  unfold takeFin finPart
  refine .getStack fun s _ hs => ?_
  rw [hs]
  dsimp only
  split
  · refine .bind_quiet (d := pastFin c) gives_modifyConnection ?_
    cases c.state with
    | established =>
      exact gives_sendAck.bind (Gives.bind_quiet (d := inState (pastFin c) .closeWait)
        gives_modifyConnection (gives_tell _ (by simp)))
    | finWait1 => exact gives_sendAck.bind_silent gives_modifyConnection
    | free | synSent | synReceived | finWait2 | closing | closeWait | lastAck =>
      exact gives_sendAck.bind (gives_finish _)
  · split
    · exact gives_sendAck
    · exact .pure

theorem gives_tcpData
    (h : S → Takes c segment → Covers m (c.base + c.filled).toNat segment.payload.length) :
    Gives S m i (tcpData i segment) c () (dataTurn i c segment) := by
  unfold tcpData
  refine .getStack fun s _ hs => ?_
  rw [hs]
  exact .andThen (gives_acceptData h) (gives_takeFin _ _ _)

/-- The record once the peer's SYN has been counted. -/
def greeted (c : Connection) (segment : Incoming) : Connection :=
  { c with nextReceive := segment.sequence + 1, state := .established }

/-- A segment for a connection, on the record. -/
def segmentTurn (i : Fin 8) (c : Connection) (segment : Incoming) : Connection × List Event :=
  if segment.flags &&& rst ≠ 0 then
    if Believed c segment then ({}, [closedMessage i c closedReset]) else (c, [])
  else
    match c.state with
    | .synSent =>
      if segment.flags &&& (syn ||| ack) = syn ||| ack ∧ segment.acknowledgement = c.nextSend then
        andThen (landed i (greeted c segment)) fun c => (c, emission c ack ++ opening i c)
      else (c, [])
    | .synReceived =>
      if segment.flags &&& ack = 0 ∨ segment.acknowledgement ≠ c.nextSend then (c, [])
      else
        andThen (andThen (landed i (inState c .established)) fun c => (c, opening i c))
          fun c => dataTurn i c segment
    | _ =>
      if Acknowledges c segment then andThen (landed i c) fun c => dataTurn i c segment
      else dataTurn i c segment

/-- The record keeps its buffer through `flight_landed`, or is gone. -/
theorem landed_buffer (i : Fin 8) (c : Connection) : (landed i c).1 = {} ∨
    ((landed i c).1.base = c.base ∧ (landed i c).1.size = c.size ∧
      (landed i c).1.filled = c.filled ∧ (landed i c).1.delivered = c.delivered) := by
  unfold landed
  split
  · split
    · exact .inr ⟨rfl, rfl, rfl, rfl⟩
    · exact .inl rfl
    · exact .inl rfl
    · exact .inr ⟨rfl, rfl, rfl, rfl⟩
  · dsimp only
    split
    · exact .inr ⟨rfl, rfl, rfl, rfl⟩
    · exact .inr ⟨rfl, rfl, rfl, rfl⟩

/-- The client's buffer lies in the mappings, unless it is empty, and what is filled of
it lies in the buffer. -/
structure Backed (m : Fin 8 → Mapping) (c : Connection) : Prop where
  fits : c.base.toNat + c.size.toNat ≤ 0x800000000000
  covers : Covers m c.base.toNat c.size.toNat
  filled : c.filled ≤ c.size

theorem Covers.part {s part : Nat} (h : Covers m address length)
    (hpart : s + part ≤ length) : Covers m (address + s) part := by
  rcases h with hzero | ⟨k, _, _⟩
  · exact .inl (by omega)
  · exact .inr ⟨k, by omega, by omega⟩

theorem Backed.covers_start (h : Backed m c) (h16 : 16 ≤ c.size) : Covers m c.base.toNat 16 :=
  h.covers.part (by simpa using le_iff_toNat_le.mp h16 : 0 + 16 ≤ c.size.toNat)

theorem Backed.covers_data (h : Backed m c)
    (hlen : segment.payload.length ≤ maxFrame) (ht : Takes c segment) :
    Covers m (c.base + c.filled).toNat segment.payload.length := by
  have hfits := h.fits
  have hfilled := le_iff_toNat_le.mp h.filled
  have hroom := le_iff_toNat_le.mp ht.2.2
  have hlength : (ofNat segment.payload.length).toNat = segment.payload.length := by
    rw [toNat_ofNat_of_lt']
    simp only [maxFrame] at hlen
    exact lt_of_le_of_lt hlen (by decide)
  simp only [maxFrame] at hlen
  rw [UInt64.toNat_add, hlength] at hroom
  have hsum : (c.base + c.filled).toNat = c.base.toNat + c.filled.toNat := by
    rw [UInt64.toNat_add]
    omega
  rw [hsum]
  exact h.covers.part (by omega)

/-- A record without a buffer is backed by any mappings. -/
theorem backed_empty : Backed m {} := ⟨by decide, .inl rfl, by decide⟩

theorem Backed.same {c' : Connection} (h : Backed m c) (hbase : c'.base = c.base)
    (hsize : c'.size = c.size) (hfilled : c'.filled = c.filled) : Backed m c' := by
  obtain ⟨hfits, hcovers, hle⟩ := h
  rw [← hbase, ← hsize] at hfits hcovers
  exact ⟨hfits, hcovers, by rwa [hfilled, hsize]⟩

theorem Backed.landed (h : Backed m c) : Backed m (landed i c).1 := by
  rcases landed_buffer i c with hgone | ⟨hbase, hsize, hfilled, -⟩
  · rw [hgone]
    exact backed_empty
  · exact h.same hbase hsize hfilled

/-- **A segment for a connection is a turn of it.**  With the client's buffer mapped there
is no fault. -/
theorem gives_tcpConnection (hlen : segment.payload.length ≤ maxFrame) (hS : S → Backed m c) :
    Gives S m i (tcpConnection env i segment) c () (segmentTurn i c segment) := by
  unfold tcpConnection segmentTurn
  refine .getStack fun s _ hs => ?_
  rw [hs]
  dsimp only
  split
  · split
    · exact gives_finish _
    · exact .pure
  have hrest : Gives S m i (if Acknowledges c segment then do
      flightLanded env i
      tcpData i segment
      else tcpData i segment) c () (if Acknowledges c segment then
        Net.andThen (landed i c) fun c => dataTurn i c segment else dataTurn i c segment) := by
    split
    · exact (gives_flightLanded env).andThen
        (gives_tcpData fun h => ((hS h).landed).covers_data hlen)
    · exact gives_tcpData fun h => (hS h).covers_data hlen
  cases hstate : c.state with
  | synSent =>
    dsimp only
    split
    · refine .bind_quiet (d := greeted c segment) gives_modifyConnection ?_
      refine (gives_flightLanded env).andThen (gives_sendAck.bind (gives_announceOpen ?_))
      have hback : S → Backed m (greeted c segment) := fun h => (hS h).same rfl rfl rfl
      exact fun h => (hback h).landed.covers_start
    · exact .pure
  | synReceived =>
    dsimp only
    split
    · exact .pure
    have hback : S → Backed m (inState c .established) := fun h => (hS h).same rfl rfl rfl
    refine .bind_quiet (d := inState c .established) gives_modifyConnection ?_
    rw [andThen_andThen]
    refine (gives_flightLanded env).andThen ((gives_announceOpen ?_).andThen (gives_tcpData ?_))
    · exact fun h => (hback h).landed.covers_start
    · exact fun h => (hback h).landed.covers_data hlen
  | free | established | finWait1 | finWait2 | closing | closeWait | lastAck => exact hrest

end Panda.Net
