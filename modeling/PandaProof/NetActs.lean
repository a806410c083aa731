import PandaProof.NetDaemon

/-!
# What the daemon does to its tables

Every handler, whatever it was handed, changes the tables that name client buffers in a
few ways only: it enters or gives up a mapping, sets up a binding, a listener or a lookup,
starts a connection, or lets one take a turn.  These are the acts below, each with the
conditions under which the code does it, read off its own checks.  What survives every act
survives every run.
-/
namespace Panda.Net

open Function

/-- Whether anything still in use reads or writes the buffer mapped at `base`. -/
def View.Refers (v : View) (base : UInt64) : Prop :=
  (∃ k, (v.bindings k).base = base) ∨ (∃ k, (v.listeners k).base = base) ∨
    (∃ i, (v.connections i).state ≠ .free ∧
      ((v.connections i).base = base ∨ (v.connections i).flightBase = base)) ∨
    ∃ k, (v.resolves k).id ≠ 0 ∧ (v.resolves k).base = base

theorem refersTo_iff {w : World} {base : UInt64} :
    refersTo w.stack base ↔ w.view.Refers base := Iff.rfl

/-- An entry of the mappings maps `buffer` at `region`. -/
def Maps (m : Fin 8 → Mapping) (buffer : UInt64) (region : Region) : Prop :=
  ∃ k, m k = ⟨buffer, region⟩

/-- A connection that has just been set up, nothing sent yet. -/
structure New (c : Connection) (state : ConnState) : Prop where
  state : c.state = state
  filled : c.filled = 0
  delivered : c.delivered = false
  closeRequested : c.closeRequested = false

/-- A command for connection `i` from its owner. -/
structure Commands (v : View) (m : Message) (tag : UInt64) (i : Fin 8) : Prop where
  tag : m.tag = tag
  index : m.words.1 = UInt64.ofNat i
  live : (v.connections i).state ≠ .free
  owner : (v.connections i).owner = m.sender

/-- `send_tcp` takes the data. -/
structure Sendable (c : Connection) (region : Region) (length : UInt64) : Prop where
  isOpen : c.IsOpen
  idle : c.unacknowledged = c.nextSend
  wanted : c.closeRequested = false
  some : 0 < length
  mss : length.toNat ≤ mss c.remote
  fits : length ≤ region.size

/-- One connection at a tick of the timer, on the record. -/
def tickTurn (i : Fin 8) (c : Connection) : Connection × List Event :=
  if c.state = .free ∨ c.unacknowledged = c.nextSend then (c, [])
  else if c.waited + 1 < c.timeout then ({ c with waited := c.waited + 1 }, [])
  else
    let late := { c with waited := c.waited + 1, retries := c.retries + 1 }
    if maxRetries < c.retries + 1 then
      ({}, emission late rst ++ [closedMessage i late closedTimedOut])
    else
      let again := { late with waited := 0, timeout := min (c.timeout * 2) maxRtoTicks }
      sentOff again

/-- The events are writes to client memory, all within `[address, address + length)`. -/
def WritesIn (events : List Event) (address length : Nat) : Prop :=
  ∀ e ∈ events, ∃ start bytes, e = .clientWrite start bytes ∧ address ≤ start ∧
    start + bytes.length ≤ address + length

/-- What handling `a` can do to the view in one go. -/
inductive Act (a : Input) (v : View) : View → Prop
  | evict {k : Fin 8} (h : ¬ v.Refers (v.mappings k).region.base) :
      Act a v { v with mappings := update v.mappings k ⟨0, .none⟩ }
  | enter {k : Fin 8} {buffer : UInt64} {region : Region} (hfree : (v.mappings k).handle = 0)
      (hbuffer : buffer ≠ 0) : Act a v { v with mappings := update v.mappings k ⟨buffer, region⟩ }
  | bind {k : Fin 8} {b : Binding} {buffer : UInt64} {region : Region}
      (hmaps : Maps v.mappings buffer region) (hbase : b.base = region.base)
      (hsize : b.size = region.size) : Act a v { v with bindings := update v.bindings k b }
  | listen {k : Fin 4} {l : Listener} {buffer : UInt64} {region : Region}
      (hmaps : Maps v.mappings buffer region) (hbase : l.base = region.base)
      (hsize : l.size = region.size) : Act a v { v with listeners := update v.listeners k l }
  | connect {m : Message} {i : Fin 8} {c : Connection} {region : Region} (ha : a = .message m)
      (htag : m.tag = tagTcpConnect) (howner : c.owner = m.sender)
      (hmaps : Maps v.mappings m.words.2.2.2 region)
      (hbase : c.base = region.base) (hsize : c.size = region.size)
      (hfree : (v.connections i).state = .free) (hnew : New c .synSent) :
      Act a v (v.turn i (sentOff (launched c syn 0 0)))
  | noRoom {reply : UInt64} : Act a v
      (v.record [.ipcSend reply ⟨tagTcpClosed, (0xFFFFFFFFFFFFFFFF, closedNoRoom, 0, 0), 0⟩])
  | accept {x : Arrival} {bytes : Frame} {k : Fin 4} {i : Fin 8} {c : Connection}
      (ha : a = .frame bytes) (hx : arrival bytes.val = some x)
      (hlistens : (v.listeners k).base ≠ 0) (hbase : c.base = (v.listeners k).base)
      (hsize : c.size = (v.listeners k).size) (hfree : (v.connections i).state = .free)
      (hnew : New c .synReceived) : Act a v
        ({ v with listeners := update v.listeners k {} }.turn i (sentOff (launched c syn 0 0)))
  | segment {x : Arrival} {bytes : Frame} {i : Fin 8} (ha : a = .frame bytes)
      (hx : arrival bytes.val = some x) (hmatches : x.Matches (v.connections i)) :
      Act a v (v.turn i (segmentTurn i (v.connections i) x.segment))
  | turnAway {bytes : Frame} {answer : Outgoing} (ha : a = .frame bytes) :
      Act a v (v.record [.refusal answer])
  | send {m : Message} {i : Fin 8} {region : Region} (ha : a = .message m)
      (hm : Commands v m tagTcpSend i) (hmaps : Maps v.mappings m.words.2.1 region)
      (hsend : Sendable (v.connections i) region m.words.2.2.1) : Act a v (v.turn i
        (sentOff (launched (v.connections i) psh region.base m.words.2.2.1)))
  | refuse {m : Message} {i : Fin 8} (ha : a = .message m) (hm : Commands v m tagTcpSend i) :
      Act a v (v.turn i (v.connections i, [sentMessage i (v.connections i) 0]))
  | consume {m : Message} {i : Fin 8} (ha : a = .message m) (hm : Commands v m tagTcpConsumed i) :
      Act a v (v.turn i (consumedTurn (v.connections i)))
  | close {m : Message} {i : Fin 8} (ha : a = .message m) (hm : Commands v m tagTcpClose i) :
      Act a v (v.turn i (closeTurn i (v.connections i)))
  | tick {i : Fin 8} (ha : a = .tick) : Act a v (v.turn i (tickTurn i (v.connections i)))
  | ask {k : Fin 4} {r : Resolve} {buffer : UInt64} {region : Region}
      (hmaps : Maps v.mappings buffer region) (hbase : r.base = region.base)
      (hfits : r.length ≤ region.size) (hsome : 0 < r.length) (hlength : r.length ≤ 253)
      (hkind : r.kind = 1 ∨ r.kind = 28 ∧ 16 ≤ region.size) :
      Act a v { v with resolves := update v.resolves k r }
  | wait {k : Fin 4} {r : Resolve} (hid : (v.resolves k).id ≠ 0)
      (hbase : r.base = (v.resolves k).base) (hlength : r.length = (v.resolves k).length)
      (hkind : r.kind = (v.resolves k).kind) : Act a v { v with resolves := update v.resolves k r }
  | answer {bytes : Frame} {k : Fin 4} {events : List Event} (ha : a = .frame bytes)
      (hid : (v.resolves k).id ≠ 0) (hwrites : WritesIn events (v.resolves k).base.toNat 16) :
      Act a v { (v.record events) with resolves := update v.resolves k {} }
  | giveUp {k : Fin 4} : Act a v { v with resolves := update v.resolves k {} }
  | deliver {bytes : Frame} {k : Fin 8} {events : List Event} (ha : a = .frame bytes)
      (hbase : (v.bindings k).base ≠ 0)
      (hwrites : WritesIn events (v.bindings k).base.toNat (v.bindings k).size.toNat) :
      Act a v (v.record events)

/-- Any number of acts. -/
abbrev Acts (a : Input) : View → View → Prop := Relation.ReflTransGen (Act a)

/-! ## Handlers -/

/-- The view changes by acts, the waiting slots stay on record if `T` holds, and no TCP segment
goes out that is not on record. -/
structure Moves (a : Input) (T : Prop) (w w' : World) : Prop where
  acts : Acts a w.view w'.view
  tracked : T → Tracked w → Tracked w'
  wired : Wired w w'

/-- The code runs without a fault, and all it does is acts. -/
abbrev Handles {A : Type} (a : Input) (T : Prop) (p : Daemon A) (w : World) : Prop :=
  Runs p w fun _ w' => Moves a T w w'

section Handles

variable {A B : Type} {a : Input} {T : Prop} {w w' w'' : World} {p : Daemon B} {f : B → Daemon A}

theorem Moves.refl : Moves a T w w := ⟨.refl, fun _ => id, .same rfl⟩

theorem Moves.trans (h : Moves a T w w') (h' : Moves a T w' w'') : Moves a T w w'' :=
  ⟨h.acts.trans h'.acts, fun hT ht => h'.tracked hT (h.tracked hT ht), h.wired.trans h'.wired⟩

theorem Becomes.moves {v : View} (h : Becomes w v w') (hact : Act a w.view v) : Moves a T w w' :=
  ⟨by rw [h.view]; exact .single hact, fun _ => h.tracked, h.wired⟩

theorem Heard.moves (h : Heard T w w') : Moves a T w w' := ⟨by rw [h.1], h.2.1, h.2.2⟩

theorem Quiet.moves (h : Quiet w w') : Moves a T w w' :=
  ⟨by rw [h.view], fun _ => h.tracked, h.wired⟩

/-- One part after the other. -/
theorem Handles.bind (hp : Handles a T p w)
    (hf : ∀ b w', Moves a T w w' → Handles a T (f b) w') : Handles a T (p >>= f) w :=
  Runs.bind hp fun b w' h => (hf b w' h).mono fun _ _ h' => h.trans h'

theorem Sends.handles (h : Sends p w) : Handles a T p w := Runs.mono h fun _ _ h' => Quiet.moves h'

theorem Handles.pure {b : B} : Handles a T (pure b : Daemon B) w := Prog.wp_pure.mpr .refl

/-- A turn of a connection that is an act. -/
theorem Gives.handles {i : Fin 8} {b : B} {r : Connection × List Event}
    (h : Gives True w.stack.mappings i p (w.stack.connections i) b r)
    (hact : Act a w.view (w.view.turn i r)) : Handles a T p w :=
  (h.runs rfl rfl).mono fun _ _ h' => h'.2.moves hact

end Handles

end Panda.Net
