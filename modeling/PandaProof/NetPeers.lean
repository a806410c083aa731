import PandaProof.NetRuns

/-!
# Who segments go to

The TCP segments that go out are read from the frames themselves, those put on the wire and
those put into waiting slots; each is traced back to the connection it was sent for.

A segment for a connection may free the connection's slot before it has been handled to
its end: an acknowledgement of the daemon's FIN does so in `Closing` and `LastAck`.  The
rest of `tcp` then works on the empty slot, and answers data or a FIN from there.  Short of
that, every segment sent while one is handled goes to the connection's peer.
-/
namespace Panda.Net

open List

/-- Where the segments of a connection go, and where from. -/
def Connection.peer (c : Connection) : Ip × UInt16 × UInt16 := (c.remote, c.remotePort, c.localPort)

/-- Where a segment goes, and where from. -/
def Outgoing.peer (o : Outgoing) : Ip × UInt16 × UInt16 :=
  (o.destination, o.remotePort, o.localPort)

/-- The TCP segments in the frames that went on the wire or into waiting slots between two
states, oldest first. -/
def sent (w w' : World) : List Outgoing := puts (added w w')

/-- A segment on record is for a connection with `P`. -/
def Event.For (P : Connection → Prop) : Event → Prop
  | .segment c _ => P c
  | .refusal _ => False
  | _ => True

/-- All segments on record are. -/
def OnlyFor (P : Connection → Prop) (es : List Event) : Prop := ∀ e ∈ es, e.For P

variable {w w' : World} {es : List Event} {c c' : Connection} {P : Connection → Prop}
  {flags : UInt8}

@[simp] theorem onlyFor_nil : OnlyFor P [] := by simp [OnlyFor]

@[simp] theorem onlyFor_append {es' : List Event} :
    OnlyFor P (es ++ es') ↔ OnlyFor P es ∧ OnlyFor P es' := forall_mem_append

@[simp] theorem onlyFor_message {tag : UInt64} {words : Words} :
    OnlyFor P [message c tag words] := by
  simp [OnlyFor, Event.For]

@[simp] theorem onlyFor_emission : OnlyFor P (emission c flags) ↔ P c := by
  unfold emission
  split <;> simp [OnlyFor, Event.For]

/-- What happened shows in the view, or is no record of a segment. -/
theorem filter_added {events : List Event} (hlog : w'.log = events ++ w.log)
    (hview : w'.view.log = es ++ w.view.log) : events.filter Event.visible = es := by
  have hfilter : w'.view.log = events.filter Event.visible ++ w.view.log := by
    simp [World.view, hlog]
  exact append_cancel_right (hfilter.symm.trans hview)

theorem visible_of_recorded {e : Event} {o : Outgoing} (h : e.recorded = some o) :
    e.visible = true := by
  cases e <;> first | rfl | simp [Event.recorded] at h

theorem mem_of_added (hwired : Wired w w') (hview : w'.view.log = es ++ w.view.log) {e : Event}
    (he : e ∈ added w w') (hvisible : e.visible = true) : e ∈ es := by
  obtain ⟨events, hlog, -⟩ := hwired
  rw [added_eq hlog] at he
  rw [← filter_added hlog hview]
  exact mem_filter.mpr ⟨he, hvisible⟩

/-- **What goes out is on record**, and if all records are for connections with `P`, so is
what goes out. -/
theorem sent_for (hwired : Wired w w') (hview : w'.view.log = es ++ w.view.log)
    (hes : OnlyFor P es) {o : Outgoing} (ho : o ∈ sent w w') :
    ∃ c flags, .segment c flags ∈ added w w' ∧ o = c.outgoing flags ∧ P c := by
  have hputs : puts (added w w') ⊆ records (added w w') := by
    obtain ⟨events, hlog, hputs⟩ := hwired
    rwa [added_eq hlog]
  obtain ⟨e, he, hrecorded⟩ := mem_filterMap.mp (hputs ho)
  rw [mem_reverse] at he
  have hfor := hes e (mem_of_added hwired hview he (visible_of_recorded hrecorded))
  cases e with
  | segment c flags => exact ⟨c, flags, he, (Option.some.inj hrecorded).symm, hfor⟩
  | refusal => exact hfor.elim
  | _ => simp [Event.recorded] at hrecorded

/-- **What goes out is what is on record**, as far as the network carries it. -/
theorem sent_eq (hcarries : Carries [] w w') (hview : w'.view.log = es.reverse ++ w.view.log) :
    sent w w' = carried w.stack.reach w.stack.room (es.filterMap Event.recorded) := by
  obtain ⟨-, events, hlog, hputs, -⟩ := hcarries
  have hrecords : records events = es.filterMap Event.recorded := by
    rw [records, ← reverse_reverse es, ← filter_added hlog hview, ← filter_reverse,
      filterMap_filter]
    refine filterMap_congr fun e _ => ?_
    cases hrecorded : e.recorded with
    | none => simp
    | some o => simp [visible_of_recorded hrecorded]
  rw [sent, added_eq hlog, hputs, nil_append, hrecords]

/-! ## Turns -/

/-- In use, with this peer. -/
def Connection.Serves (peer : Ip × UInt16 × UInt16) (c : Connection) : Prop :=
  c.state ≠ .free ∧ c.peer = peer

/-- Segments go out for the connection itself, and a slot still in use is still its. -/
structure Faithful (c : Connection) (r : Connection × List Event) : Prop where
  sent : OnlyFor (Connection.Serves c.peer) r.2
  kept : r.1.state ≠ .free → r.1.peer = c.peer

variable {i : Fin 8} {segment : Incoming} {r : Connection × List Event}

theorem faithful_silent (h : c'.state ≠ .free → c'.peer = c.peer) : Faithful c (c', []) :=
  ⟨onlyFor_nil, h⟩

theorem Faithful.andThen {f : Connection → Connection × List Event}
    (hr : Faithful c r) (hlive : r.1.state ≠ .free) (hf : Faithful r.1 (f r.1)) :
    Faithful c (andThen r f) where
  sent := onlyFor_append.mpr ⟨hr.sent, hr.kept hlive ▸ hf.sent⟩
  kept := fun h => (hf.kept h).trans (hr.kept hlive)

theorem Faithful.congr {c₁ : Connection} (h : Faithful c₁ r)
    (hpeer : c₁.peer = c.peer) : Faithful c r :=
  ⟨hpeer ▸ h.sent, fun hlive => hpeer ▸ h.kept hlive⟩

/-- The acknowledgement frees the slot: it is for the daemon's FIN, and the peer has
sent its own. -/
def Frees (c : Connection) : Prop :=
  c.flightFlags &&& fin ≠ 0 ∧ (c.state = .closing ∨ c.state = .lastAck)

instance (c : Connection) : Decidable (Frees c) := inferInstanceAs (Decidable (_ ∧ _))

theorem landed_frees (h : Frees c) : landed i c = ({}, [closedMessage i c closedFinished]) := by
  unfold landed
  rw [if_pos h.1]
  rcases h.2 with hstate | hstate <;> rw [hstate]

theorem finned_live : (finned c).state ≠ .free := by
  show (if _ then ConnState.lastAck else .finWait1) ≠ .free
  split <;> decide

theorem landed_live (hlive : c.state ≠ .free) (h : ¬ Frees c) : (landed i c).1.state ≠ .free := by
  unfold landed
  split
  · rename_i hfin
    split
    · simp [inState]
    · rename_i hstate
      exact absurd ⟨hfin, .inl hstate⟩ h
    · rename_i hstate
      exact absurd ⟨hfin, .inr hstate⟩ h
    · exact hlive
  · dsimp only
    split
    · exact finned_live
    · exact hlive

theorem faithful_landed (i : Fin 8) (c : Connection) : Faithful c (landed i c) := by
  unfold landed
  split
  · split
    · exact faithful_silent fun _ => rfl
    · exact ⟨onlyFor_message, fun h => absurd rfl h⟩
    · exact ⟨onlyFor_message, fun h => absurd rfl h⟩
    · exact faithful_silent fun _ => rfl
  dsimp only
  have hsent : OnlyFor (Connection.Serves c.peer)
      (if 0 < c.flightLength then [sentMessage i c c.flightLength] else []) := by
    split
    · exact onlyFor_message
    · exact onlyFor_nil
  split
  · exact ⟨onlyFor_append.mpr ⟨hsent, onlyFor_emission.mpr ⟨finned_live, rfl⟩⟩, fun _ => rfl⟩
  · exact ⟨hsent, fun _ => rfl⟩

theorem onlyFor_opening : OnlyFor P (opening i c) := by
  unfold opening
  split <;> simp [OnlyFor, Event.For]

/-- What is done with the data keeps the slot in use. -/
theorem dataPart_live (segment : Incoming) (hlive : c.state ≠ .free) :
    Faithful c (dataPart i c segment).2 ∧ (dataPart i c segment).2.1.state ≠ .free := by
  unfold dataPart
  split
  · dsimp only
    split
    · exact ⟨⟨by simp [delivery, OnlyFor, Event.For], fun _ => rfl⟩, hlive⟩
    · exact ⟨faithful_silent fun _ => rfl, hlive⟩
  · exact ⟨faithful_silent fun _ => rfl, hlive⟩

theorem faithful_finPart (before : ConnState) (accepted : Bool) (hlive : c.state ≠ .free) :
    Faithful c (finPart i before accepted c segment) := by
  have hpast : OnlyFor (Connection.Serves c.peer) (emission (pastFin c) ack) :=
    onlyFor_emission.mpr ⟨hlive, rfl⟩
  unfold finPart
  split
  · dsimp only
    split
    · exact ⟨onlyFor_append.mpr ⟨hpast, onlyFor_message⟩, fun _ => rfl⟩
    · exact ⟨hpast, fun _ => rfl⟩
    · exact ⟨onlyFor_append.mpr ⟨hpast, onlyFor_message⟩, fun h => absurd rfl h⟩
  split
  · exact ⟨onlyFor_emission.mpr ⟨hlive, rfl⟩, fun _ => rfl⟩
  · exact faithful_silent fun _ => rfl

theorem faithful_dataTurn (hlive : c.state ≠ .free) : Faithful c (dataTurn i c segment) := by
  obtain ⟨hdata, hlive'⟩ := dataPart_live (i := i) segment hlive
  exact hdata.andThen hlive' (faithful_finPart _ _ hlive')

/-- The acknowledgement in a segment frees the slot, and the segment has more to it. -/
def FreedInUse (c : Connection) (segment : Incoming) : Prop :=
  segment.flags &&& rst = 0 ∧ Acknowledges c segment ∧ Frees c ∧
    segment.Full

instance (c : Connection) (segment : Incoming) : Decidable (FreedInUse c segment) :=
  inferInstanceAs (Decidable (_ ∧ _))

theorem faithful_segmentTurn (hlive : c.state ≠ .free) (h : ¬ FreedInUse c segment) :
    Faithful c (segmentTurn i c segment) := by
  unfold segmentTurn
  split
  · split
    · exact ⟨onlyFor_message, fun h => absurd rfl h⟩
    · exact faithful_silent fun _ => rfl
  rename_i hrst
  have hgreeted : ∀ c₁ : Connection, c₁.state = .established → c₁.peer = c.peer →
      Faithful c (landed i c₁) ∧ (landed i c₁).1.state ≠ .free := by
    intro c₁ hstate hpeer
    have hlive₁ : c₁.state ≠ .free := by simp [hstate]
    exact ⟨(faithful_landed i c₁).congr hpeer,
      landed_live hlive₁ fun hfrees => by simp [Frees, hstate] at hfrees⟩
  split
  · split
    · obtain ⟨hlanded, hlive'⟩ := hgreeted (greeted c segment) rfl rfl
      refine hlanded.andThen hlive' ⟨onlyFor_append.mpr ⟨?_, onlyFor_opening⟩, fun _ => rfl⟩
      exact onlyFor_emission.mpr ⟨hlive', rfl⟩
    · exact faithful_silent fun _ => rfl
  · split
    · exact faithful_silent fun _ => rfl
    obtain ⟨hlanded, hlive'⟩ := hgreeted (inState c .established) rfl rfl
    rw [andThen_andThen]
    refine hlanded.andThen hlive' (Faithful.andThen ?_ hlive' (faithful_dataTurn hlive'))
    exact ⟨onlyFor_opening, fun _ => rfl⟩
  · split
    · rename_i hack
      by_cases hfrees : Frees c
      · have hnothing : ¬ segment.Full := fun hmore =>
          h ⟨not_not.mp hrst, hack, hfrees, hmore⟩
        have hgone : dataTurn i {} segment = ({}, []) := by
          rw [dataTurn_of_not_receiving rfl, if_neg hnothing]
        simp only [Net.andThen, landed_frees hfrees, hgone]
        exact ⟨onlyFor_append.mpr ⟨onlyFor_message, onlyFor_nil⟩, fun h => absurd rfl h⟩
      · have hlive' := landed_live (i := i) hlive hfrees
        exact (faithful_landed i c).andThen hlive' (faithful_dataTurn hlive')
    · exact faithful_dataTurn hlive

theorem FreedInUse.segmentTurn_eq (h : FreedInUse c segment) :
    segmentTurn i c segment = andThen (landed i c) fun c => dataTurn i c segment := by
  obtain ⟨hrst, hack, hfrees, -⟩ := h
  unfold segmentTurn
  rw [if_neg (not_not.mpr hrst)]
  rcases hfrees.2 with hstate | hstate
  · rw [hstate, if_pos hack]
  · rw [hstate, if_pos hack]

/-- The empty slot answers. -/
theorem FreedInUse.events_eq (h : FreedInUse c segment) : (segmentTurn i c segment).2 =
    [closedMessage i c closedFinished, .segment {} ack] := by
  rw [h.segmentTurn_eq]
  simp only [Net.andThen, landed_frees h.2.2.1, dataTurn_of_not_receiving (c := {}) rfl,
    if_pos h.2.2.2]
  rfl

/-! ## `tcp` -/

/-- A received segment that gets past the checks of `tcp`: long enough, the checksum
right, the data offset within it. -/
structure Genuine (source destination : Ip) (segment : Bytes) : Prop where
  received : segment.length ≤ maxFrame
  length : 20 ≤ segment.length
  checksum : transportChecksum protocolTcp source destination segment = 0
  low : 20 ≤ (byteAt segment 12 >>> 4).toNat * 4
  high : (byteAt segment 12 >>> 4).toNat * 4 ≤ segment.length

theorem Genuine.tcp_eq {source destination : Ip} {segment : Bytes}
    (h : Genuine source destination segment) {env : Env} {i : Fin 8}
    (hi : matching w.stack source (wordAt segment 0) (wordAt segment 2) = some i) :
    tcp env source destination segment w = tcpConnection env i (.read segment) w := by
  have hlength := h.length
  unfold tcp
  rw [if_neg (by simp only [not_or, not_lt, not_not]; exact ⟨hlength, h.checksum⟩)]
  simp (disch := omega) only [readU16_eq, readU32_eq, byte_eq, pure_bind_eq]
  rw [if_neg (by simp only [not_or, not_lt]; exact ⟨h.low, h.high⟩), slice_eq h.high le_rfl,
    pure_bind_eq, getStack_bind]
  simp only [hi]
  rfl

theorem length_payload (segment : Bytes) :
    (Incoming.read segment).payload.length ≤ segment.length := by
  show (part segment _ segment.length).length ≤ segment.length
  rw [length_part]
  omega

/-- Whatever the state, a segment for a connection takes the connection some way through
its turn, and to its end unless there is a fault. -/
theorem view_tcpConnection (env : Env) (w : World) (i : Fin 8) {segment : Incoming}
    (hlen : segment.payload.length ≤ maxFrame) :
    (∃ c es, es <+: (segmentTurn i (w.stack.connections i) segment).2 ∧
      (tcpConnection env i segment w).2.view = w.view.turn i (c, es)) ∧
      Carries [] w (tcpConnection env i segment w).2 := by
  have h := gives_tcpConnection (S := False) (i := i) env hlen False.elim w rfl rfl
  unfold Prog.Wp at h
  split at h
  · rename_i hrun
    rw [hrun]
    exact ⟨⟨_, _, prefix_rfl, h.1.2.view⟩, h.2⟩
  · rename_i hrun
    rw [hrun]
    exact h.2

variable {m : Fin 8 → Mapping}

/-- The empty slot has no room for data. -/
theorem covers_of_takes_empty {segment : Incoming} {address : Nat}
    (hlen : segment.payload.length ≤ maxFrame) (h : Takes {} segment) :
    Covers m address segment.payload.length := by
  have hroom := UInt64.le_iff_toNat_le.mp h.2.2
  have hzero : ({} : Connection).size.toNat = 0 := rfl
  rw [UInt64.toNat_add, hzero, UInt64.toNat_ofNat_of_lt' (lt_of_le_of_lt hlen (by decide))] at hroom
  simp only [maxFrame] at hlen
  exact .inl (by omega)

/-- The empty slot's answer really goes out: nothing faults before it. -/
theorem FreedInUse.gives (env : Env) {c : Connection} {segment : Incoming}
    (hlen : segment.payload.length ≤ maxFrame) (h : FreedInUse c segment) :
    Gives True m i (tcpConnection env i segment) c () (segmentTurn i c segment) := by
  rw [h.segmentTurn_eq]
  obtain ⟨hrst, hack, hfrees, -⟩ := h
  have hrest : Gives True m i (do
      flightLanded env i
      tcpData i segment) c () (Net.andThen (landed i c) fun c => dataTurn i c segment) := by
    refine (gives_flightLanded env).andThen (gives_tcpData fun _ => ?_)
    rw [landed_frees hfrees]
    exact covers_of_takes_empty hlen
  unfold tcpConnection
  refine Gives.getStack fun s _ hs => ?_
  rw [hs]
  dsimp only
  rw [if_neg (not_not.mpr hrst)]
  rcases hfrees.2 with hstate | hstate
  · simp only [hstate, if_pos hack]
    exact hrest
  · simp only [hstate, if_pos hack]
    exact hrest

/-- **Segments go to the connection's peer, with one exception.**  In any state of the
daemon, while it handles a segment that belongs to a connection, every segment that goes out is
addressed to that connection's peer and is for a slot in use, exactly when it is not so that the
segment both frees the slot and carries data or a FIN, and the network carries something for the
unspecified address. -/
theorem segments_to_peer_iff (env : Env) (w : World) {source destination : Ip} {segment : Bytes}
    (hgenuine : Genuine source destination segment) {i : Fin 8}
    (hi : matching w.stack source (wordAt segment 0) (wordAt segment 2) = some i) :
    (∀ o ∈ sent w (tcp env source destination segment w).2,
      o.peer = (w.stack.connections i).peer ∧ ∃ c flags,
        .segment c flags ∈ added w (tcp env source destination segment w).2 ∧
          o = c.outgoing flags ∧ c.state ≠ .free) ↔
    ¬ (FreedInUse (w.stack.connections i) (.read segment) ∧
      (w.stack.reach unspecified).Takes w.stack.room) := by
  have hlive := (matching_some (x := .read source segment) hi).1
  have hlen := (length_payload segment).trans hgenuine.received
  rw [hgenuine.tcp_eq hi]
  obtain ⟨⟨c', es, hpart, hview⟩, hcarries⟩ := view_tcpConnection env w i hlen
  have hlog : (tcpConnection env i (.read segment) w).2.view.log = es.reverse ++ w.view.log := by
    rw [hview]
    rfl
  by_cases hfreed : FreedInUse (w.stack.connections i) (.read segment)
  · have hruns : Runs (tcpConnection env i (.read segment)) w fun _ w' =>
        w'.view = w.view.turn i (segmentTurn i (w.stack.connections i) (.read segment)) :=
      ((hfreed.gives (i := i) env hlen).runs rfl rfl).mono fun _ _ h => h.2.view
    obtain ⟨_, w', hrun, hview⟩ := Prog.wp_iff_ok.mp hruns
    rw [hrun] at hcarries ⊢
    have hlog : w'.view.log = [closedMessage i (w.stack.connections i) closedFinished,
        .segment {} ack].reverse ++ w.view.log := by
      rw [hview, View.turn, hfreed.events_eq]
    have hsent : sent w w' = if (w.stack.reach unspecified).Takes w.stack.room then
        [({} : Connection).outgoing ack] else [] :=
      (sent_eq hcarries hlog).trans (append_nil _)
    by_cases htakes : (w.stack.reach unspecified).Takes w.stack.room
    · rw [hsent, if_pos htakes]
      refine iff_of_false (fun hall => ?_) fun h => h ⟨hfreed, htakes⟩
      obtain ⟨-, c, flags, hmem, -, hstate⟩ := hall _ mem_cons_self
      have hshown := mem_of_added hcarries.wired hlog hmem rfl
      simp only [reverse_cons, reverse_nil, nil_append, cons_append, mem_cons, not_mem_nil,
        Event.segment.injEq, or_false] at hshown
      exact hstate (by rcases hshown with ⟨rfl, -⟩ | h; rfl; cases h)
    · rw [hsent, if_neg htakes]
      exact iff_of_true (by simp) fun h => htakes h.2
  · refine iff_of_true (fun o ho => ?_) fun h => hfreed h.1
    have hes : OnlyFor (Connection.Serves (w.stack.connections i).peer) es.reverse := fun e he =>
      (faithful_segmentTurn (i := i) hlive hfreed).sent e (hpart.subset (mem_reverse.mp he))
    obtain ⟨c, flags, hmem, rfl, hstate, hpeer⟩ := sent_for hcarries.wired hlog hes ho
    exact ⟨hpeer, c, flags, hmem, rfl, hstate⟩

/-! ## Closing at both ends -/

/-- The client closes its connection 0. -/
def closeCommand : Message := ⟨tagTcpClose, (0, 0, 0, 0), 9⟩

/-- A client connects and closes, and so does its peer, before it has seen the daemon's
FIN: the connection is in `Closing`. -/
def simultaneousClose : List Input :=
  [.message (connectCommand 2), .frame (peerFrame 100 1 0x12 []), .message closeCommand,
    .frame (peerFrame 101 1 0x11 [])]

/-- A segment of the peer's, handled. -/
def afterSegment (w : World) (segment : Bytes) : Except Fault Unit × World :=
  tcp ownPages (mapped 0x0A000009) (mapped 0x0A000002) segment w

/-- The peer acknowledges the daemon's FIN and sends two bytes more. -/
def lastData : Bytes := peerSegment 101 2 0x18 [104, 105]

/-- Two bytes after the daemon's FIN was acknowledged: they are answered to the
peer. -/
theorem segments_to_peer_iff_data : ∃ w, (daemon ownPages).Reachable w ∧
    ((w.stack.connections 0).state = .finWait1 ∧
      Genuine (mapped 0x0A000009) (mapped 0x0A000002) lastData ∧
      matching w.stack (mapped 0x0A000009) (wordAt lastData 0) (wordAt lastData 2) = some 0) ∧
    sent w (afterSegment w lastData).2 ≠ [] ∧
    ∀ o ∈ sent w (afterSegment w lastData).2, o.peer = (w.stack.connections 0).peer := by
  have hgenuine : Genuine (mapped 0x0A000009) (mapped 0x0A000002) lastData :=
    ⟨by decide +kernel, by decide +kernel, by decide +kernel, by decide +kernel, by decide +kernel⟩
  obtain ⟨w, hreaches, hstate, hmatching, hsent, hfreed⟩ := (daemon ownPages).exists_reachable
    [.message (connectCommand 2), .frame arpAnswer,
      .frame (peerFrame 100 1 0x12 []), .message closeCommand]
    (fun w => (w.stack.connections 0).state = .finWait1 ∧
      matching w.stack (mapped 0x0A000009) (wordAt lastData 0) (wordAt lastData 2) = some 0 ∧
      sent w (afterSegment w lastData).2 ≠ [] ∧
      ¬ FreedInUse (w.stack.connections 0) (.read lastData))
    (init_booted ownPages) (by decide +kernel)
  exact ⟨w, hreaches, ⟨hstate, hgenuine, hmatching⟩, hsent, fun o ho =>
    ((segments_to_peer_iff ownPages w hgenuine hmatching).mpr (fun h => hfreed h.1) o ho).1⟩

/-- A router at fe80::1 advertises the network 2001:db8::/64. -/
def routerFrame : Frame :=
  ⟨[0x33, 0x33, 0, 0, 0, 1, 11, 11, 11, 11, 11, 11, 0x86, 0xDD, 0x60, 0, 0, 0, 0, 56, 58, 255,
    0xFE, 0x80, 0, 0, 0, 0, 0, 0, 0, 0, 0, 0, 0, 0, 0, 1,
    0xFF, 2, 0, 0, 0, 0, 0, 0, 0, 0, 0, 0, 0, 0, 0, 1,
    134, 0, 23, 158, 64, 0, 7, 8, 0, 0, 0, 0, 0, 0, 0, 0, 1, 1, 11, 11, 11, 11, 11, 11,
    3, 4, 64, 0xC0, 0, 1, 0x51, 0x80, 0, 0, 0x38, 0x40, 0, 0, 0, 0,
    0x20, 1, 0x0D, 0xB8, 0, 0, 0, 0, 0, 0, 0, 0, 0, 0, 0, 0], by decide⟩

/-- **A segment for nobody**: in `Closing` the peer sends its FIN again and acknowledges
the daemon's.  The slot is freed, and the answer to the FIN goes out from it: to the
unspecified address, from port 0 to port 0. -/
theorem segment_to_nobody : ∃ w, (daemon ownPages).Reachable w ∧
    (∃ frame ∈ w.log.filterMap Event.frame,
      Outgoing.read frame = some ⟨unspecified, 0, 0, 0, ack⟩) ∧
    .segment {} ack ∈ w.log :=
  (daemon ownPages).exists_reachable
    (.frame routerFrame :: simultaneousClose ++ [.frame (peerFrame 101 2 0x11 [])]) _
    (init_booted ownPages) (by decide +kernel)

end Panda.Net
