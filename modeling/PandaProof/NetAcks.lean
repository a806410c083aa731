import PandaProof.NetPeers

/-!
# Which segments are answered

A peer whose segment or whose acknowledgement was lost sends again, and must be told where
the daemon is.  From `Established` on, `tcp` answers data and a FIN, in window or not,
with an acknowledgement of its current position, and the answer goes out if the network
carries it.  A SYN occupies a place in the sequence too, but nothing looks at it any more: when
the daemon's last acknowledgement of the handshake is lost, the peer's SYN is met with silence.
-/
namespace Panda.Net

open List

/-- The connection has been established. -/
def ConnState.Synchronised (s : ConnState) : Prop := s ≠ .free ∧ s ≠ .synSent ∧ s ≠ .synReceived

instance (s : ConnState) : Decidable s.Synchronised := inferInstanceAs (Decidable (_ ∧ _))

/-- The segment takes up a place in its sender's sequence. -/
def Incoming.Occupies (segment : Incoming) : Prop :=
  segment.payload ≠ [] ∨ segment.flags &&& syn ≠ 0 ∨ segment.flags &&& fin ≠ 0

instance (segment : Incoming) : Decidable segment.Occupies := inferInstanceAs (Decidable (_ ∨ _))

/-- Among the segments that went out is one to the connection's peer that has ACK set and carries
the connection's receive position. -/
def Acknowledged (segments : List Outgoing) (c : Connection) : Prop :=
  ∃ o ∈ segments, o.flags &&& ack ≠ 0 ∧ o.peer = c.peer ∧ o.acknowledgement = c.nextReceive

instance (segments : List Outgoing) (c : Connection) : Decidable (Acknowledged segments c) :=
  inferInstanceAs (Decidable (∃ o ∈ segments, _))

/-- The acknowledgement in the segment lets a FIN follow that the client asked for. -/
def FinFollows (c : Connection) (segment : Incoming) : Prop :=
  Acknowledges c segment ∧ c.flightFlags &&& fin = 0 ∧ c.closeRequested = true ∧
    c.IsOpen

instance (c : Connection) (segment : Incoming) : Decidable (FinFollows c segment) :=
  inferInstanceAs (Decidable (_ ∧ _))

/-- An established connection takes what the segment has: its data is next and fits, or it has
none and its FIN is next. -/
def Advances (c : Connection) (segment : Incoming) : Prop :=
  c.state = .established ∧ if segment.payload ≠ [] then Takes c segment
    else segment.flags &&& fin ≠ 0 ∧ segment.sequence = c.nextReceive

instance (c : Connection) (segment : Incoming) : Decidable (Advances c segment) :=
  inferInstanceAs (Decidable (_ ∧ _))

variable {i : Fin 8} {c : Connection} {segment : Incoming}

/-! ## Turns -/

theorem recorded_emission {flags : UInt8} :
    (emission c flags).filterMap Event.recorded = [c.outgoing flags] := by
  unfold emission
  split <;> rfl

theorem recorded_dataPart : (dataPart i c segment).2.2.filterMap Event.recorded = [] := by
  unfold dataPart
  split
  · dsimp only
    split <;> rfl
  · rfl

/-- Data or a FIN is answered with the position after it. -/
theorem recorded_dataTurn (hlive : (dataTurn i c segment).1.state ≠ .free) :
    (dataTurn i c segment).2.filterMap Event.recorded =
      if segment.Full then [(dataTurn i c segment).1.outgoing ack] else [] := by
  unfold dataTurn Net.andThen at *
  dsimp only at *
  rw [filterMap_append, recorded_dataPart, nil_append]
  generalize (dataPart i c segment).2.1 = c₁ at *
  unfold finPart at *
  split at hlive
  · rename_i hfin
    rw [if_pos hfin, if_pos (.inr hfin.1.1)]
    dsimp only at *
    split at hlive
    · rw [filterMap_append, recorded_emission]
      rfl
    · rw [recorded_emission]
      rfl
    · exact absurd rfl hlive
  · rename_i hfin
    rw [if_neg hfin]
    by_cases hfull : segment.Full
    · rw [if_pos hfull, if_pos hfull, recorded_emission]
    · rw [if_neg hfull, if_neg hfull]
      rfl

theorem landed_of_finFollows (h : FinFollows c segment) :
    (landed i c).1 = finned (withRequest (settled c) false) := by
  obtain ⟨-, hfin, hclose⟩ := h
  unfold landed
  rw [if_neg (not_not.mpr hfin)]
  dsimp only
  rw [if_pos hclose]

/-- What goes out when a flight has landed is the FIN the client has asked for. -/
theorem recorded_landed (hack : Acknowledges c segment) :
    (landed i c).2.filterMap Event.recorded =
      if FinFollows c segment then [c.outgoing (fin ||| ack)] else [] := by
  have hsent : (if 0 < c.flightLength then [sentMessage i c c.flightLength] else []).filterMap
      Event.recorded = [] := by
    split <;> rfl
  unfold landed
  split
  · rename_i hfin
    rw [if_neg fun h => hfin h.2.1]
    split <;> rfl
  rename_i hfin
  dsimp only
  by_cases hclose : c.closeRequested = true ∧ c.IsOpen
  · have hfollows : FinFollows c segment := ⟨hack, not_not.mp hfin, hclose⟩
    rw [if_pos hclose, if_pos hfollows]
    have hflags : flightSent (finned (withRequest (settled c) false)) = fin ||| ack := by
      refine if_pos ?_
      show (if _ then ConnState.lastAck else .finWait1) ≠ _
      split <;> decide
    dsimp only
    rw [filterMap_append, hsent, nil_append, recorded_emission, hflags]
    rfl
  · have hnone : ¬ FinFollows c segment := fun h => hclose h.2.2
    rw [if_neg hclose, if_neg hnone]
    exact hsent

theorem segmentTurn_of_synchronised (hrst : segment.flags &&& rst = 0)
    (hsync : c.state.Synchronised) :
    segmentTurn i c segment =
      if Acknowledges c segment then Net.andThen (landed i c) fun c => dataTurn i c segment
      else dataTurn i c segment := by
  obtain ⟨-, hsent, hreceived⟩ := hsync
  unfold segmentTurn
  rw [if_neg (not_not.mpr hrst)]
  split
  · exact absurd ‹_› hsent
  · exact absurd ‹_› hreceived
  · rfl

/-- **What is sent in answer to a segment**, on the record: the FIN the client has asked for, and
the acknowledgement of what the segment has. -/
theorem recorded_segmentTurn (hrst : segment.flags &&& rst = 0)
    (hsync : c.state.Synchronised) (hlive : (segmentTurn i c segment).1.state ≠ .free) :
    (segmentTurn i c segment).2.filterMap Event.recorded =
      (if FinFollows c segment then [c.outgoing (fin ||| ack)] else []) ++
        if segment.Full then [(segmentTurn i c segment).1.outgoing ack] else [] := by
  rw [segmentTurn_of_synchronised hrst hsync] at hlive ⊢
  split at hlive
  · rename_i hack
    rw [if_pos hack]
    simp only [Net.andThen, filterMap_append]
    rw [recorded_landed hack, recorded_dataTurn hlive]
  · rename_i hack
    rw [if_neg hack, if_neg fun h => hack h.1, recorded_dataTurn hlive]
    rfl

/-- A slot still in use has its peer still. -/
theorem peer_segmentTurn (hlive : c.state ≠ .free)
    (hlive' : (segmentTurn i c segment).1.state ≠ .free) :
    (segmentTurn i c segment).1.peer = c.peer := by
  refine (faithful_segmentTurn hlive fun hfreed => hlive' ?_).kept hlive'
  rw [hfreed.segmentTurn_eq]
  simp only [Net.andThen, landed_frees hfreed.2.2.1, dataTurn_of_not_receiving (c := {}) rfl]

/-- Up to a frame of data and a FIN move a position. -/
theorem moved_ne {x : UInt32} {length : Nat} (hpos : 0 < length) (hlen : length ≤ maxFrame + 1) :
    x + UInt32.ofNat length ≠ x := by
  intro h
  have hnat := congrArg UInt32.toNat h
  have hlength : (UInt32.ofNat length).toNat = length := by
    rw [UInt32.toNat_ofNat_of_lt' (lt_of_le_of_lt hlen (by decide))]
  have hx := x.toNat_lt
  simp only [maxFrame] at hlen
  rw [UInt32.toNat_add, hlength] at hnat
  omega

theorem position_finPart {before : ConnState} {accepted : Bool} (hstate : c.state = .finWait1) :
    (finPart i before accepted c segment).1.nextReceive =
      if (segment.flags &&& fin ≠ 0 ∧ accepted = true ∧
        segment.sequence + UInt32.ofNat segment.payload.length = c.nextReceive) ∧
        receiving before = true then c.nextReceive + 1 else c.nextReceive := by
  unfold finPart
  split
  · rw [hstate]
    rfl
  · split <;> rfl

/-- The position of a connection that is waiting for its FIN to be acknowledged. -/
theorem position_dataTurn (hstate : c.state = .finWait1)
    (hlen : segment.payload.length ≤ maxFrame) :
    (dataTurn i c segment).1.nextReceive = c.nextReceive ↔ ¬ if segment.payload ≠ [] then
      Takes c segment else segment.flags &&& fin ≠ 0 ∧ segment.sequence = c.nextReceive := by
  have hreceiving : receiving c.state = true := by rw [hstate]; rfl
  unfold dataTurn dataPart
  by_cases hpayload : segment.payload ≠ []
  · rw [if_pos ⟨hpayload, hreceiving⟩, if_pos hpayload]
    dsimp only [Net.andThen]
    by_cases htakes : Takes c segment
    · rw [if_pos htakes]
      refine iff_of_false ?_ (not_not.mpr htakes)
      dsimp only
      rw [position_finPart (c := filledWith c segment) hstate]
      have hpos := length_pos_iff.mpr hpayload
      split
      · have hmore := moved_ne (x := c.nextReceive) (Nat.succ_pos segment.payload.length)
          (Nat.succ_le_succ hlen)
        rwa [Nat.succ_eq_add_one, UInt32.ofNat_add, ← UInt32.add_assoc] at hmore
      · exact moved_ne hpos (Nat.le_succ_of_le hlen)
    · rw [if_neg htakes]
      refine iff_of_true ?_ htakes
      rw [position_finPart hstate, if_neg (by simp [htakes])]
  · rw [if_neg fun h => hpayload h.1, if_neg hpayload]
    dsimp only [Net.andThen]
    rw [position_finPart hstate, not_not.mp hpayload, decide_eq_true rfl]
    by_cases hfin : segment.flags &&& fin ≠ 0 ∧ segment.sequence = c.nextReceive
    · rw [if_pos ⟨⟨hfin.1, rfl, (UInt32.add_zero _).trans hfin.2⟩, hreceiving⟩]
      exact iff_of_false (moved_ne Nat.one_pos (Nat.le_add_left 1 _)) (not_not.mpr hfin)
    · rw [if_neg fun h => hfin ⟨h.1.1, (UInt32.add_zero _).symm.trans h.1.2.2⟩]
      exact iff_of_true rfl hfin

/-- The position has moved on exactly when the connection takes what the segment has. -/
theorem position_segmentTurn (hrst : segment.flags &&& rst = 0)
    (hlen : segment.payload.length ≤ maxFrame) (hfollows : FinFollows c segment) :
    (segmentTurn i c segment).1.nextReceive = c.nextReceive ↔ ¬ Advances c segment := by
  have hopen := hfollows.2.2.2
  have hsync : c.state.Synchronised := by
    rcases hopen with hstate | hstate <;> rw [hstate] <;> decide
  rw [segmentTurn_of_synchronised hrst hsync, if_pos hfollows.1]
  simp only [Net.andThen, landed_of_finFollows hfollows]
  have hlast : (finned (withRequest (settled c) false)).state =
      if c.state = .closeWait then .lastAck else .finWait1 := rfl
  rcases hopen with hstate | hstate
  · rw [Advances, and_iff_right hstate]
    exact position_dataTurn (hlast.trans (by rw [hstate]; rfl)) hlen
  · rw [dataTurn_of_not_receiving (by rw [hlast, hstate]; rfl)]
    exact iff_of_true rfl fun h => absurd (h.1.symm.trans hstate) (by decide)

/-! ## `tcp` -/

/-- The answer goes out: the acknowledgement of what the segment has, which comes after the FIN
where one follows; or that FIN, while it carries the position still. -/
def Answers (s : Stack) (c : Connection) (segment : Incoming) : Prop :=
  (segment.Full ∧ (s.reach c.remote).Takes
      (s.room - if FinFollows c segment then (s.reach c.remote).slots else 0)) ∨
    FinFollows c segment ∧ (s.reach c.remote).Takes s.room ∧ ¬ Advances c segment

variable {after : Connection} {reach : Ip → Reach} {room : Nat}

theorem acknowledged_append {first rest : List Outgoing} :
    Acknowledged (first ++ rest) c ↔ Acknowledged first c ∨ Acknowledged rest c := by
  simp only [Acknowledged, mem_append, or_and_right, exists_or]

theorem acknowledged_carried {o : Outgoing} (hack : o.flags &&& ack ≠ 0) (hpeer : o.peer = c.peer) :
    Acknowledged (carried reach room [o]) c ↔
      (reach c.remote).Takes room ∧ o.acknowledgement = c.nextReceive := by
  have hremote : o.destination = c.remote := congrArg Prod.fst hpeer
  rw [carried, carried, append_nil, hremote]
  split
  · rename_i htakes
    simp [Acknowledged, htakes, hack, hpeer]
  · rename_i htakes
    simp [Acknowledged, htakes]

/-- One or two segments to the same peer. -/
theorem acknowledged_answer {s : Stack} (hpeer : after.peer = c.peer)
    (hposition : FinFollows c segment →
      (after.nextReceive = c.nextReceive ↔ ¬ Advances c segment)) :
    Acknowledged (carried s.reach s.room
      ((if FinFollows c segment then [c.outgoing (fin ||| ack)] else []) ++
        if segment.Full then [after.outgoing ack] else [])) after ↔ Answers s c segment := by
  have hremote : after.remote = c.remote := congrArg Prod.fst hpeer
  have hnone : ∀ n, ¬ Acknowledged (carried s.reach n []) after := by
    simp [carried, Acknowledged]
  have hfull : ∀ n, Acknowledged (carried s.reach n
      (if segment.Full then [after.outgoing ack] else [])) after ↔
      segment.Full ∧ (s.reach c.remote).Takes n := by
    intro n
    split
    · rename_i hfull
      rw [acknowledged_carried (by show ack &&& ack ≠ 0; decide) rfl, hremote]
      exact ⟨fun h => ⟨hfull, h.1⟩, fun h => ⟨h.2, rfl⟩⟩
    · rename_i hfull
      exact iff_of_false (hnone n) fun h => hfull h.1
  rw [carried_append, acknowledged_append, hfull, or_comm, Answers]
  by_cases hfollows : FinFollows c segment
  · simp only [if_pos hfollows]
    rw [acknowledged_carried (o := c.outgoing (fin ||| ack))
        (by show (fin ||| ack) &&& ack ≠ 0; decide) hpeer.symm, hremote,
      ← hposition hfollows, eq_comm (a := after.nextReceive), needs, needs, Nat.add_zero]
    exact or_congr Iff.rfl (and_iff_right hfollows).symm
  · simp only [if_neg hfollows]
    exact or_congr Iff.rfl (iff_of_false (hnone _) fun h => hfollows h.1)

/-- **Segments are answered, a SYN apart.**  In any state of the daemon, a segment other
than a reset for a connection from `Established` on, handled without ending the connection,
is answered with an acknowledgement of the current receive position exactly when it has
data or a FIN, or its own acknowledgement lets the FIN go that the client has asked for, and the
network carries that answer. -/
theorem acknowledged_iff (env : Env) {w w' : World} {source destination : Ip} {segment : Bytes}
    (hgenuine : Genuine source destination segment) {i : Fin 8}
    (hi : matching w.stack source (wordAt segment 0) (wordAt segment 2) = some i)
    (hsync : (w.stack.connections i).state.Synchronised)
    (hrst : (Incoming.read segment).flags &&& rst = 0)
    (hok : tcp env source destination segment w = (.ok (), w'))
    (hlive : (w'.stack.connections i).state ≠ .free) :
    Acknowledged (sent w w') (w'.stack.connections i) ↔
      Answers w.stack (w.stack.connections i) (.read segment) := by
  have hlen := (length_payload segment).trans hgenuine.received
  rw [hgenuine.tcp_eq hi] at hok
  have hgives := gives_tcpConnection (S := False) (i := i) env hlen False.elim w rfl rfl
  unfold Prog.Wp at hgives
  rw [hok] at hgives
  obtain ⟨⟨-, hbecomes⟩, hcarries⟩ := hgives
  have hview := hbecomes.view
  have hlog : w'.view.log =
      (segmentTurn i (w.stack.connections i) (.read segment)).2.reverse ++ w.view.log := by
    rw [hview]
    rfl
  have hafter : w'.stack.connections i =
      (segmentTurn i (w.stack.connections i) (.read segment)).1 := by
    show w'.view.connections i = _
    rw [hview, View.turn_connections_self]
  rw [hafter] at hlive ⊢
  rw [sent_eq hcarries hlog, recorded_segmentTurn hrst hsync hlive]
  exact acknowledged_answer (peer_segmentTurn hsync.1 hlive) (position_segmentTurn hrst hlen)

/-- The client has connected, and its peer's SYN and acknowledgement have arrived. -/
def opened : List Input :=
  [.message (connectCommand 2), .frame arpAnswer, .frame (peerFrame 100 1 0x12 [])]

theorem afterSegment_ok {w : World} {segment : Bytes}
    (h : (afterSegment w segment).1.toBool = true) :
    tcp ownPages (mapped 0x0A000009) (mapped 0x0A000002) segment w =
      (.ok (), (afterSegment w segment).2) := by
  change afterSegment w segment = _
  rcases hrun : afterSegment w segment with ⟨e | ⟨⟩, _⟩
  · rw [hrun] at h
    cases h
  · rfl

/-- The segment belongs to connection `i`, which is established, and is handled without ending
it. -/
def Handled (w : World) (i : Fin 8) (segment : Bytes) : Prop :=
  matching w.stack (mapped 0x0A000009) (wordAt segment 0) (wordAt segment 2) = some i ∧
    (w.stack.connections i).state.Synchronised ∧ (afterSegment w segment).1.toBool = true ∧
    ((afterSegment w segment).2.stack.connections i).state ≠ .free

instance (w : World) (i : Fin 8) (segment : Bytes) : Decidable (Handled w i segment) :=
  inferInstanceAs (Decidable (_ ∧ _))

instance (s : Stack) (c : Connection) (segment : Incoming) : Decidable (Answers s c segment) :=
  inferInstanceAs (Decidable (_ ∨ _))

def twoBytes : Bytes := peerSegment 101 1 0x18 [104, 105]

/-- Two bytes of data are acknowledged. -/
theorem acknowledged_iff_data : ∃ w, (daemon ownPages).Reachable w ∧
    Handled w 0 twoBytes ∧ Acknowledged (sent w (afterSegment w twoBytes).2)
      ((afterSegment w twoBytes).2.stack.connections 0) := by
  have hgenuine : Genuine (mapped 0x0A000009) (mapped 0x0A000002) twoBytes :=
    ⟨by decide +kernel, by decide +kernel, by decide +kernel, by decide +kernel, by decide +kernel⟩
  obtain ⟨w, hreaches, ⟨hmatching, hsync, hok, hlive⟩, hanswers⟩ :=
    (daemon ownPages).exists_reachable opened
      (fun w => Handled w 0 twoBytes ∧ Answers w.stack (w.stack.connections 0) (.read twoBytes))
      (init_booted ownPages) (by decide +kernel)
  exact ⟨w, hreaches, ⟨hmatching, hsync, hok, hlive⟩,
    (acknowledged_iff ownPages hgenuine hmatching hsync (by decide +kernel) (afterSegment_ok hok)
      hlive).mpr hanswers⟩

def synAgain : Bytes := peerSegment 100 1 0x12 []

/-- **A SYN is met with silence**: the daemon's acknowledgement of the handshake was lost,
the peer sends its SYN and acknowledgement again, and nothing goes out, though the peer's MAC is
known. -/
theorem retransmitted_syn_unanswered : ∃ w, (daemon ownPages).Reachable w ∧
    Genuine (mapped 0x0A000009) (mapped 0x0A000002) synAgain ∧
    Handled w 0 synAgain ∧ (Incoming.read synAgain).Occupies ∧
    (Incoming.read synAgain).flags &&& rst = 0 ∧
    w.stack.reach (w.stack.connections 0).remote = .direct ∧
    transmitted w (afterSegment w synAgain).2 = [] ∧
    ¬ Acknowledged (sent w (afterSegment w synAgain).2)
      ((afterSegment w synAgain).2.stack.connections 0) := by
  have hgenuine : Genuine (mapped 0x0A000009) (mapped 0x0A000002) synAgain :=
    ⟨by decide +kernel, by decide +kernel, by decide +kernel, by decide +kernel, by decide +kernel⟩
  obtain ⟨w, hreaches, hhandled, hsilent⟩ := (daemon ownPages).exists_reachable
    opened (fun w => Handled w 0 synAgain ∧
      w.stack.reach (w.stack.connections 0).remote = .direct ∧
      transmitted w (afterSegment w synAgain).2 = [] ∧
      ¬ Acknowledged (sent w (afterSegment w synAgain).2)
        ((afterSegment w synAgain).2.stack.connections 0))
    (init_booted ownPages) (by decide +kernel)
  exact ⟨w, hreaches, hgenuine, hhandled, by decide +kernel, by decide +kernel, hsilent⟩

end Panda.Net
