import PandaProof.NetHandlers

/-!
# Whole runs of the network daemon

Start-up leaves sound tables and nothing waiting; every input the daemon survives is a
few acts.  So the tables are sound in every state of every run, and a frame that arrives
in one never breaks the daemon.
-/
namespace Panda.Net

variable {env : Env} {Z : Prop} {w w' : World}

/-- A neighbour advertisement of the unspecified address. -/
def Input.AdvertisesNobody : Input → Prop
  | .frame bytes => Net.AdvertisesNobody bytes.val
  | .message _ => False
  | .tick => False

instance : (a : Input) → Decidable a.AdvertisesNobody
  | .frame bytes => inferInstanceAs (Decidable (Net.AdvertisesNobody bytes.val))
  | .message _ => inferInstanceAs (Decidable False)
  | .tick => inferInstanceAs (Decidable False)

/-- **Every step of the daemon is a few acts.** -/
theorem step_moves {a : Input} (hsound : Sound Z w.view) (h : (daemon env).step w a = some w') :
    Moves a (¬ a.AdvertisesNobody) w w' := by
  have hhandle : handle env a w = (.ok (), w') := by
    simp only [daemon] at h
    split at h
    · rename_i hrun
      rw [hrun, Option.some.inj h]
    · simp at h
  have hmoves : Handles a (¬ a.AdvertisesNobody) (handle env a) w := by
    cases a with
    | frame bytes => exact handles_frame env bytes hsound
    | tick => exact handles_tick env hsound
    | message m =>
      simp only [handle] at hhandle ⊢
      by_cases hsender : m.sender = kernelSender
      · rw [if_pos hsender]
        exact Handles.pure
      · rw [if_neg hsender] at hhandle ⊢
        exact handles_command env (not_wraps_of_ok env hhandle)
  obtain ⟨⟨⟩, w'', hrun, hmoves⟩ := Prog.wp_iff_ok.mp hmoves
  rw [hhandle] at hrun
  obtain rfl : w' = w'' := congrArg Prod.snd hrun
  exact hmoves

/-- What start-up leaves: sound tables, and no frame waiting. -/
theorem init_sound (h : (daemon env).Init w) : Sound Z w.view ∧ Tracked w := by
  obtain ⟨mac, control, address, gateway, netmask, dns, nextPort, transaction, dnsLocalPort, calls,
    hboot⟩ := h
  obtain ⟨⟨⟩, w', hrun, hquiet⟩ := Prog.wp_iff_ok.mp (sends_boot env (w := ⟨Stack.start mac control
    address gateway netmask dns nextPort transaction dnsLocalPort, calls, []⟩))
  obtain rfl : w = w' := congrArg Prod.snd (hboot.symm.trans hrun)
  refine ⟨?_, hquiet.tracked ⟨trivial, fun _ => (if_pos rfl).symm⟩⟩
  rw [hquiet.view]
  exact {
    free := fun _ _ => rfl
    bindings := fun _ h => absurd rfl h
    listeners := fun _ h => absurd rfl h
    spare := fun _ _ => rfl
    connections := fun _ h => absurd rfl h
    resolves := fun _ h => absurd rfl h
    steady := by simp [World.view] }

/-- **The tables are sound in every state reached.** -/
theorem sound_of_reaches {Ok : World → Input → Prop} (hZ : ∀ w a, Ok w a → a.ConnectsZero → Z)
    (h : (daemon env).Reaches Ok w) : Sound Z w.view :=
  h.invariant (I := fun w => Sound Z w.view) (fun _ hinit => (init_sound hinit).1)
    fun hsound hok hstep => hsound.acts (hZ _ _ hok) (step_moves hsound hstep).acts

theorem sound_of_reachable (h : (daemon env).Reachable w) : Sound True w.view :=
  sound_of_reaches (fun _ _ _ _ => trivial) h

/-- No subtraction has wrapped. -/
theorem Sound.no_underflow (h : Sound Z w.view) : .underflow ∉ w.log := fun hmem =>
  h.steady (List.mem_filter.mpr ⟨hmem, rfl⟩)

/-- The daemon of `freshWorld` after its start-up. -/
def booted (env : Env) : World := (boot env freshWorld).2

theorem init_booted (env : Env) : (daemon env).Init (booted env) := by
  obtain ⟨⟨⟩, w, hrun, -⟩ := Prog.wp_iff_ok.mp (sends_boot env (w := freshWorld))
  obtain rfl : booted env = w := congrArg Prod.snd hrun
  exact ⟨_, _, _, _, _, _, _, _, _, _, hrun⟩

/-- A kernel that maps each buffer at a page of its own. -/
def ownPages : Env where
  bufferMap := fun _ handle => if handle = 0 then none else
    some ⟨0x400000 + (handle &&& 15) * 0x1000, 0x1000, by
      have h : (handle &&& 15).toNat ≤ 15 := by
        rw [UInt64.toNat_and]
        exact Nat.and_le_right
      rw [UInt64.toNat_add, UInt64.toNat_mul]
      have h1 : (0x400000 : UInt64).toNat = 0x400000 := rfl
      have h2 : (0x1000 : UInt64).toNat = 0x1000 := rfl
      rw [h1, h2]
      omega⟩
  bufferMap_zero := fun _ => rfl
  bufferInfo := fun _ _ => true
  random := fun _ => 0
  timerSet := fun _ => true
  memory := fun _ _ => 0

/-- A client connects to 10.0.0.9 with a buffer. -/
def connectCommand (buffer : UInt64) : Message := ⟨tagTcpConnect, (0x0A000009, 80, 1, buffer), 9⟩

/-- A segment from port 80 of 10.0.0.9 to port 49153 of the daemon. -/
def peerSegment (sequence acknowledgement : UInt32) (flags : UInt8) (payload : Bytes) : Bytes :=
  let blank := be16 80 ++ be16 49153 ++ be32 sequence ++ be32 acknowledgement ++
    [0x50, flags, 16, 0, 0, 0, 0, 0] ++ payload
  let sum := transportChecksum protocolTcp (mapped 0x0A000009) (mapped 0x0A000002) blank
  blank.take 16 ++ be16 sum ++ blank.drop 18

/-- The same in its frame. -/
def peerFrame (sequence acknowledgement : UInt32) (flags : UInt8) (payload : Bytes) : Frame :=
  let segment := peerSegment sequence acknowledgement flags payload
  let blank : Bytes := [0x45, 0] ++ be16 (UInt16.ofNat (20 + segment.length)) ++
    [0, 0, 0, 0, 64, 6, 0, 0, 10, 0, 0, 9, 10, 0, 0, 2]
  let packet := blank.take 10 ++ be16 (checksum blank) ++ blank.drop 12 ++ segment
  ⟨([2, 2, 2, 2, 2, 2, 10, 10, 10, 10, 10, 10, 8, 0] ++ packet).take maxFrame, by
    rw [List.length_take]
    omega⟩

/-- **No frame breaks the daemon.**  In every state that frames, commands and ticks can
lead to, every frame the kernel can hand over is handled to its end: no index or slice
out of bounds, no failed conversion, no copy outside a client's buffer, and no unsigned
subtraction that wraps. -/
theorem frame_survives (h : (daemon env).Reachable w) {bytes : Bytes}
    (hlen : bytes.length ≤ maxFrame) :
    ∃ w', frame env bytes w = (.ok (), w') ∧ .underflow ∉ w'.log := by
  have hsound := sound_of_reachable h
  obtain ⟨⟨⟩, w', hrun, hmoves⟩ := Prog.wp_iff_ok.mp (handles_frame env ⟨bytes, hlen⟩ hsound)
  exact ⟨w', hrun, (hsound.acts False.elim hmoves.acts).no_underflow⟩

/-- The peer of a client that has just connected answers: the connection is established. -/
theorem frame_survives_answered : ∃ w, (daemon ownPages).Reachable w ∧
    ((w.stack.connections 0).state = .synSent ∧ ((frame ownPages (peerFrame 100 1 0x12 []).val
      w).2.stack.connections 0).state = .established) ∧
    ∃ w', frame ownPages (peerFrame 100 1 0x12 []).val w = (.ok (), w') ∧
      .underflow ∉ w'.log := by
  obtain ⟨w, hreaches, hstates⟩ := (daemon ownPages).exists_reachable
    [.message (connectCommand 2)] (fun w => (w.stack.connections 0).state = .synSent ∧
      ((frame ownPages (peerFrame 100 1 0x12 []).val w).2.stack.connections 0).state =
        .established) (init_booted ownPages) (by decide +kernel)
  exact ⟨w, hreaches, hstates, frame_survives hreaches (peerFrame 100 1 0x12 []).property⟩

/-! ## Waiting frames -/

/-- The answer of 10.0.0.9 to the daemon's ARP request. -/
def arpAnswer : Frame :=
  ⟨[2, 2, 2, 2, 2, 2, 10, 10, 10, 10, 10, 10, 0x08, 0x06, 0, 1, 8, 0, 6, 4, 0, 2,
    10, 10, 10, 10, 10, 10, 10, 0, 0, 9, 2, 2, 2, 2, 2, 2, 10, 0, 0, 2], by decide⟩

/-- Every buffer the daemon may still touch is one of the table: of a binding or a
listener in use, of a live connection, of the data it has in flight, and of a lookup. -/
structure Anchored (s : Stack) : Prop where
  bindings : ∀ k, (s.bindings k).base ≠ 0 → Held s.mappings (s.bindings k).base (s.bindings k).size
  listeners : ∀ k, (s.listeners k).base ≠ 0 →
    Held s.mappings (s.listeners k).base (s.listeners k).size
  connections : ∀ i, (s.connections i).state ≠ .free →
    Held s.mappings (s.connections i).base (s.connections i).size
  flights : ∀ i, (s.connections i).state ≠ .free → 0 < (s.connections i).flightLength →
    HeldFor s.mappings (s.connections i).flightBase (s.connections i).flightLength
  resolves : ∀ k, (s.resolves k).id ≠ 0 →
    HeldFor s.mappings (s.resolves k).base (s.resolves k).length

theorem Phase.held {m : Fin 8 → Mapping} {c : Connection} (h : Phase m c)
    (hsome : 0 < c.flightLength) : HeldFor m c.flightBase c.flightLength := by
  have hnone : c.flightLength ≠ 0 := UInt64.pos_iff_ne_zero.mp hsome
  cases h with
  | idle _ _ _ hlength | greeting _ _ _ _ hlength | parting _ _ _ hlength =>
    exact absurd hlength hnone
  | sending _ _ _ _ _ hheld => exact hheld

/-- **No dangling buffers**, in every run in which no client connects with buffer 0. -/
theorem anchored_of_reaches (h : (daemon env).Reaches (fun _ a => ¬ a.ConnectsZero) w) :
    Anchored w.stack := by
  have hsound : Sound False w.view := sound_of_reaches (fun _ _ hok => hok) h
  exact {
    bindings := hsound.bindings
    listeners := hsound.listeners
    connections := fun i hi => (hsound.connections i hi).buffer.resolve_left fun hz => hz.1
    flights := fun i hi => (hsound.connections i hi).phase.held
    resolves := fun k hk => (hsound.resolves k hk).name }

/-- A client binds a port of its own with a buffer of its own. -/
def bindCommand (n : UInt64) : Message := ⟨tagUdpBind, (n, 1, n, 0), 9⟩

/-- One binding and one connection. -/
theorem anchored_of_reaches_two : ∃ w, (daemon ownPages).Reaches (fun _ a => ¬ a.ConnectsZero) w ∧
      ((w.stack.connections 0).state ≠ .free ∧ (w.stack.bindings 0).base ≠ 0) ∧
      Anchored w.stack := by
  obtain ⟨w, hreaches, hlive⟩ := (daemon ownPages).exists_reaches
    (fun _ a => ¬ a.ConnectsZero) [.message (bindCommand 1), .message (connectCommand 2)]
    (fun w => (w.stack.connections 0).state ≠ .free ∧ (w.stack.bindings 0).base ≠ 0)
    (init_booted ownPages) (by decide +kernel)
  exact ⟨w, hreaches, hlive, anchored_of_reaches hreaches⟩

/-- **Stop and wait**: in every run a connection has at most one segment in flight, the one its
state and sequence numbers say, of at most the MSS, repeated six times at most and backed off. -/
theorem one_flight_of_reachable (h : (daemon env).Reachable w) (i : Fin 8)
    (hi : (w.stack.connections i).state ≠ .free) :
    Phase w.stack.mappings (w.stack.connections i) :=
  ((sound_of_reachable h).connections i hi).phase

theorem one_flight_connecting : ∃ w, (daemon ownPages).Reachable w ∧
    Phase w.stack.mappings (w.stack.connections 0) := by
  obtain ⟨w, hw, hlive⟩ := (daemon ownPages).exists_reachable
    [.message (connectCommand 2)] (fun w => (w.stack.connections 0).state ≠ .free)
    (init_booted ownPages) (by decide +kernel)
  exact ⟨w, hw, one_flight_of_reachable hw 0 hlive⟩

/-- **A connection without a buffer**: connecting with buffer 0 finds a free entry of the
table, as buffer 0 is what marks one; and once eight buffers are mapped, no entry has
the connection's address and size. -/
theorem connection_dangles : ∃ w, (daemon ownPages).Reachable w ∧
    (w.stack.connections 0).state = .synSent ∧ ∀ k,
      ¬ ((w.stack.mappings k).region.base = (w.stack.connections 0).base ∧
        (w.stack.mappings k).region.size = (w.stack.connections 0).size) :=
  (daemon ownPages).exists_reachable
    [.message (connectCommand 0), .message (bindCommand 1), .message (bindCommand 2),
      .message (bindCommand 3), .message (bindCommand 4), .message (bindCommand 5),
      .message (bindCommand 6), .message (bindCommand 7), .message (bindCommand 8)] _
    (init_booted ownPages) (by decide +kernel)

end Panda.Net
