import PandaProof.NetActs

/-!
# The daemon's tables stay sound

The invariant of every run: each table that names a client buffer names one that is
mapped, a connection's data fits its buffer, what is in flight is what the connection's
state says, and no subtraction has wrapped.  It survives every act, so it holds whenever
the daemon is between two inputs, and inside a handler as well.

One thing a client can do keeps this from being as strong as one would like: the mappings
table marks a free entry with the handle 0, so asking for buffer 0 finds a free entry, at
address 0 and of size 0.  A connection may therefore have the empty buffer, which is not
in the table.
-/
namespace Panda.Net

open Function List

/-- Somewhere in the table a buffer is mapped at `base`, of `size` bytes. -/
def Held (m : Fin 8 → Mapping) (base size : UInt64) : Prop :=
  ∃ k, (m k).handle ≠ 0 ∧ (m k).region.base = base ∧ (m k).region.size = size

/-- `length` bytes at `base` are the start of a mapped buffer. -/
def HeldFor (m : Fin 8 → Mapping) (base length : UInt64) : Prop :=
  ∃ size, Held m base size ∧ length ≤ size

/-- The wait before the next time something is sent again, by how often it has been. -/
def rto : Nat → Nat
  | 0 => 5
  | 1 => 10
  | 2 => 20
  | _ => 40

/-- The timer of what is in flight. -/
structure Timed (c : Connection) : Prop where
  retries : c.retries.toNat ≤ 6
  timeout : c.timeout.toNat = rto c.retries.toNat
  waited : c.waited < c.timeout

/-- What a connection has in flight, by its state. -/
inductive Phase (m : Fin 8 → Mapping) (c : Connection) : Prop
  | idle (hstate : c.state = .established ∨ c.state = .closeWait ∨ c.state = .finWait2)
      (hnext : c.unacknowledged = c.nextSend) (hflags : c.flightFlags = 0)
      (hlength : c.flightLength = 0) (hclose : c.closeRequested = false)
  | greeting (hstate : c.state = .synSent ∨ c.state = .synReceived)
      (hdelivered : c.delivered = false) (hnext : c.nextSend = c.unacknowledged + 1)
      (hflags : c.flightFlags = syn) (hlength : c.flightLength = 0)
      (hclose : c.closeRequested = false) (htimed : Timed c)
  | sending (hstate : c.IsOpen)
      (hnext : c.nextSend = c.unacknowledged + c.flightLength.toUInt32)
      (hflags : c.flightFlags = psh) (hsome : 0 < c.flightLength)
      (hlength : c.flightLength.toNat ≤ mss c.remote)
      (hheld : HeldFor m c.flightBase c.flightLength)
      (htimed : Timed c)
  | parting (hstate : c.state = .finWait1 ∨ c.state = .closing ∨ c.state = .lastAck)
      (hnext : c.nextSend = c.unacknowledged + 1) (hflags : c.flightFlags = fin)
      (hlength : c.flightLength = 0) (hclose : c.closeRequested = false) (htimed : Timed c)

/-- A client connects with buffer 0. -/
def Input.ConnectsZero : Input → Prop
  | .message m => m.tag = tagTcpConnect ∧ m.words.2.2.2 = 0
  | .frame _ => False
  | .tick => False

instance : (a : Input) → Decidable a.ConnectsZero
  | .message m => inferInstanceAs (Decidable (m.tag = tagTcpConnect ∧ m.words.2.2.2 = 0))
  | .frame _ => inferInstanceAs (Decidable False)
  | .tick => inferInstanceAs (Decidable False)

/-- A connection in use.  Its buffer may be the empty one only if `Z` holds. -/
structure Alive (Z : Prop) (m : Fin 8 → Mapping) (c : Connection) : Prop where
  buffer : Z ∧ c.base = 0 ∧ c.size = 0 ∨ Held m c.base c.size
  filled : c.filled ≤ c.size
  unread : c.delivered = false → c.filled = 0
  phase : Phase m c

/-- A lookup in use. -/
structure Asked (m : Fin 8 → Mapping) (r : Resolve) : Prop where
  name : HeldFor m r.base r.length
  length : r.length ≤ 253
  kind : r.kind = 1 ∨ r.kind = 28 ∧ HeldFor m r.base 16

/-- **The invariant of the daemon's tables**, `Z` saying that buffer 0 may have been
connected with. -/
structure Sound (Z : Prop) (v : View) : Prop where
  free : ∀ k, (v.mappings k).handle = 0 → (v.mappings k).region = .none
  bindings : ∀ k, (v.bindings k).base ≠ 0 → Held v.mappings (v.bindings k).base (v.bindings k).size
  listeners : ∀ k, (v.listeners k).base ≠ 0 →
    Held v.mappings (v.listeners k).base (v.listeners k).size
  spare : ∀ i, (v.connections i).state = .free → v.connections i = {}
  connections : ∀ i, (v.connections i).state ≠ .free → Alive Z v.mappings (v.connections i)
  resolves : ∀ k, (v.resolves k).id ≠ 0 → Asked v.mappings (v.resolves k)
  steady : Event.underflow ∉ v.log

variable {Z : Prop}

/-! ## Mappings -/

section Mappings

variable {m m' : Fin 8 → Mapping} {c : Connection}

/-- Going from one table to another, the buffers of interest stay. -/
theorem HeldFor.mono {base length : UInt64} (h : HeldFor m base length)
    (hkeep : ∀ size, Held m base size → Held m' base size) : HeldFor m' base length := by
  obtain ⟨size, hheld, hle⟩ := h
  exact ⟨size, hkeep size hheld, hle⟩

theorem Phase.mono (h : Phase m c)
    (hkeep : ∀ size, Held m c.flightBase size → Held m' c.flightBase size) : Phase m' c := by
  cases h with
  | idle h1 h2 h3 h4 h5 => exact .idle h1 h2 h3 h4 h5
  | greeting h1 h2 h3 h4 h5 h6 h7 => exact .greeting h1 h2 h3 h4 h5 h6 h7
  | sending h1 h2 h3 h4 h5 h6 h7 => exact .sending h1 h2 h3 h4 h5 (h6.mono hkeep) h7
  | parting h1 h2 h3 h4 h5 h6 => exact .parting h1 h2 h3 h4 h5 h6

theorem Alive.mono (h : Alive Z m c) (hkeep : ∀ size, Held m c.base size → Held m' c.base size)
    (hflight : ∀ size, Held m c.flightBase size → Held m' c.flightBase size) : Alive Z m' c :=
  ⟨h.buffer.imp_right (hkeep _), h.filled, h.unread, h.phase.mono hflight⟩

theorem Asked.mono {r : Resolve} (h : Asked m r)
    (hkeep : ∀ size, Held m r.base size → Held m' r.base size) : Asked m' r :=
  ⟨h.name.mono hkeep, h.length, h.kind.imp_right fun hk => ⟨hk.1, hk.2.mono hkeep⟩⟩

variable {v : View}

/-- A change of the mappings that keeps every buffer referred to. -/
theorem Sound.remap (h : Sound Z v) (hfree : ∀ k, (m' k).handle = 0 → (m' k).region = .none)
    (hkeep : ∀ base size, v.Refers base → Held v.mappings base size → Held m' base size) :
    Sound Z { v with mappings := m' } where
  free := hfree
  bindings := fun k hk => hkeep _ _ (.inl ⟨k, rfl⟩) (h.bindings k hk)
  listeners := fun k hk => hkeep _ _ (.inr (.inl ⟨k, rfl⟩)) (h.listeners k hk)
  spare := h.spare
  connections := fun i hi => (h.connections i hi).mono
    (fun _ => hkeep _ _ (.inr (.inr (.inl ⟨i, hi, .inl rfl⟩))))
    fun _ => hkeep _ _ (.inr (.inr (.inl ⟨i, hi, .inr rfl⟩)))
  resolves := fun k hk => (h.resolves k hk).mono
    fun _ => hkeep _ _ (.inr (.inr (.inr ⟨k, hk, rfl⟩)))
  steady := h.steady

variable {k : Fin 8}

theorem Sound.evict (h : Sound Z v) (hk : ¬ v.Refers (v.mappings k).region.base) :
    Sound Z { v with mappings := update v.mappings k ⟨0, .none⟩ } := by
  refine h.remap (fun j hj => ?_) ?_
  · by_cases hjk : j = k
    · subst hjk
      simp
    · rw [update_of_ne hjk] at hj ⊢
      exact h.free j hj
  · rintro base size hrefers ⟨j, hhandle, hbase, hsize⟩
    have hjk : j ≠ k := by
      rintro rfl
      exact hk (hbase ▸ hrefers)
    exact ⟨j, by rw [update_of_ne hjk]; exact ⟨hhandle, hbase, hsize⟩⟩

variable {buffer : UInt64} {region : Region}

theorem Sound.enter (h : Sound Z v) (hk : (v.mappings k).handle = 0) (hbuffer : buffer ≠ 0) :
    Sound Z { v with mappings := update v.mappings k ⟨buffer, region⟩ } := by
  refine h.remap (fun j hj => ?_) ?_
  · by_cases hjk : j = k
    · subst hjk
      rw [update_self] at hj
      exact absurd hj hbuffer
    · rw [update_of_ne hjk] at hj ⊢
      exact h.free j hj
  · rintro base size - ⟨j, hhandle, hbase, hsize⟩
    have hjk : j ≠ k := by
      rintro rfl
      exact hhandle hk
    exact ⟨j, by rw [update_of_ne hjk]; exact ⟨hhandle, hbase, hsize⟩⟩

theorem Maps.held (h : Maps m buffer region)
    (hbuffer : buffer ≠ 0) : Held m region.base region.size := by
  obtain ⟨k, hk⟩ := h
  exact ⟨k, by rw [hk]; exact ⟨hbuffer, rfl, rfl⟩⟩

/-- What the table maps is held, unless it is the free entry that buffer 0 finds. -/
theorem Sound.held (h : Sound Z v) (hmaps : Maps v.mappings buffer region) :
    region.base = 0 ∧ region.size = 0 ∨ Held v.mappings region.base region.size := by
  by_cases hbuffer : buffer = 0
  · obtain ⟨k, hk⟩ := hmaps
    have hregion := h.free k (by rw [hk]; exact hbuffer)
    rw [hk] at hregion
    simp only at hregion
    subst hregion
    exact .inl ⟨rfl, rfl⟩
  · exact .inr (hmaps.held hbuffer)

end Mappings

/-! ## Turns -/

variable {m : Fin 8 → Mapping} {i : Fin 8} {c : Connection}

/-- A turn leaves a sound connection, or a free slot, and no subtraction wraps. -/
structure Kept (Z : Prop) (m : Fin 8 → Mapping) (r : Connection × List Event) : Prop where
  spare : r.1.state = .free → r.1 = {}
  alive : r.1.state ≠ .free → Alive Z m r.1
  steady : Event.underflow ∉ r.2

variable {v : View} {r : Connection × List Event}

theorem Sound.turn (h : Sound Z v) (hr : Kept Z v.mappings r) : Sound Z (v.turn i r) where
  free := h.free
  bindings := h.bindings
  listeners := h.listeners
  spare := fun j => by
    by_cases hj : j = i
    · subst hj
      rw [View.turn_connections_self]
      exact hr.spare
    · rw [View.turn_connections_of_ne _ _ hj]
      exact h.spare j
  connections := fun j => by
    by_cases hj : j = i
    · subst hj
      rw [View.turn_connections_self]
      exact hr.alive
    · rw [View.turn_connections_of_ne _ _ hj]
      exact h.connections j
  resolves := h.resolves
  steady := by
    simp only [View.turn, mem_append, mem_reverse, not_or]
    exact ⟨hr.steady, h.steady⟩

variable {es : List Event}

/-- The slot is free. -/
theorem kept_gone (h : Event.underflow ∉ es) : Kept Z m ({}, es) :=
  ⟨fun _ => rfl, fun hne => absurd rfl hne, h⟩

theorem Alive.kept (h : Alive Z m c) (hlive : c.state ≠ .free)
    (hes : Event.underflow ∉ es) : Kept Z m (c, es) :=
  ⟨fun hfree => absurd hfree hlive, fun _ => h, hes⟩

theorem steady_emission (flags : UInt8) (h : c.filled ≤ c.size) :
    Event.underflow ∉ emission c flags := by
  have hlt : ¬ c.size < c.filled := UInt64.not_lt.mpr h
  simp [emission, hlt]

theorem Alive.live (h : Alive Z m c) : c.state ≠ .free := by
  intro hfree
  cases h.phase with
  | idle hstate | greeting hstate | sending hstate | parting hstate => simp [hfree] at hstate

/-- A connection after an act that leaves its buffer alone. -/
theorem Alive.rephase {c' : Connection} (h : Alive Z m c) (hbase : c'.base = c.base)
    (hsize : c'.size = c.size) (hfilled : c'.filled = c.filled)
    (hdelivered : c'.delivered = c.delivered) (hphase : Phase m c') : Alive Z m c' where
  buffer := by rw [hbase, hsize]; exact h.buffer
  filled := by rw [hfilled, hsize]; exact h.filled
  unread := by rw [hdelivered, hfilled]; exact h.unread
  phase := hphase

theorem timed_launched (c : Connection) (flags : UInt8) (base length : UInt64) :
    Timed (launched c flags base length) :=
  ⟨Nat.zero_le 6, rfl, (by decide : (0 : UInt32) < firstRtoTicks)⟩

theorem add_ne_self {a b : UInt32} (hb : b.toNat ≠ 0) : a + b ≠ a := by
  intro h
  have hsum := congrArg UInt32.toNat h
  have ha := a.toNat_lt
  have hb' := b.toNat_lt
  rw [UInt32.toNat_add] at hsum
  omega

variable {length : UInt64}

/-- The length of what is in flight, as a sequence number. -/
theorem toNat_flightLength (h : length.toNat ≤ tcpMss) : length.toUInt32.toNat = length.toNat := by
  simp only [tcpMss] at h
  rw [UInt64.toNat_toUInt32]
  omega

/-- With nothing in flight there is nothing to land. -/
theorem Phase.idle_of_eq (h : Phase m c) (heq : c.unacknowledged = c.nextSend) :
    c.flightFlags = 0 ∧ c.flightLength = 0 ∧ c.closeRequested = false ∧
      (c.state = .established ∨ c.state = .closeWait ∨ c.state = .finWait2) := by
  cases h with
  | idle hstate _ hflags hlength hclose => exact ⟨hflags, hlength, hclose, hstate⟩
  | greeting _ _ hnext | parting _ hnext =>
    exact absurd (hnext.symm.trans heq.symm) (add_ne_self (by decide))
  | sending _ hnext _ hsome hlength =>
    refine absurd (hnext.symm.trans heq.symm) (add_ne_self ?_)
    rw [toNat_flightLength (hlength.trans (mss_le _))]
    exact (UInt64.lt_iff_toNat_lt.mp hsome).ne'

/-! ### Starting -/

variable {state : ConnState}

theorem kept_start (hnew : New c state) (hstate : state = .synSent ∨ state = .synReceived)
    (hbuffer : Z ∧ c.base = 0 ∧ c.size = 0 ∨ Held m c.base c.size) :
    Kept Z m (sentOff (launched c syn 0 0)) := by
  have halive : Alive Z m (launched c syn 0 0) := by
    refine ⟨hbuffer, ?_, fun _ => hnew.filled, ?_⟩
    · show c.filled ≤ c.size
      rw [hnew.filled]
      exact UInt64.zero_le
    · exact .greeting (by rw [← hnew.state] at hstate; exact hstate) hnew.delivered rfl rfl rfl
        hnew.closeRequested (timed_launched ..)
  exact halive.kept halive.live (steady_emission _ halive.filled)

variable {region : Region}

theorem kept_send (h : Alive Z m c)
    (hheld : Held m region.base region.size) (hsend : Sendable c region length) :
    Kept Z m (sentOff (launched c psh region.base length)) := by
  have hphase : Phase m (launched c psh region.base length) := by
    refine .sending hsend.isOpen ?_ rfl hsend.some hsend.mss ⟨_, hheld, hsend.fits⟩
      (timed_launched ..)
    show c.nextSend + (length.toUInt32 + if psh &&& (syn ||| fin) ≠ 0 then 1 else 0) =
      c.nextSend + length.toUInt32
    rw [if_neg (by decide), UInt32.add_zero]
  have halive : Alive Z m (launched c psh region.base length) := h.rephase rfl rfl rfl rfl hphase
  exact halive.kept halive.live (steady_emission _ halive.filled)

/-! ### Closing -/

theorem alive_finned (h : Alive Z m c) (hopen : c.IsOpen)
    (hclose : c.closeRequested = false) : Alive Z m (finned c) := by
  refine h.rephase rfl rfl rfl rfl (.parting ?_ rfl rfl rfl hclose (timed_launched ..))
  show (if c.state = .closeWait then ConnState.lastAck else .finWait1) = .finWait1 ∨ _
  rcases hopen with hstate | hstate
  · simp [hstate]
  · right
    right
    exact if_pos hstate

theorem kept_close (h : Alive Z m c) : Kept Z m (closeTurn i c) := by
  unfold closeTurn
  have hgone : Kept Z m ({}, emission c rst ++ [closedMessage i c closedFinished]) := by
    refine kept_gone ?_
    simp only [mem_append, not_or]
    exact ⟨steady_emission _ h.filled, by simp⟩
  have hopen : c.IsOpen → Kept Z m
      (if c.unacknowledged = c.nextSend then sentOff (finned c) else (withRequest c true, [])) := by
    intro hstate
    split
    · rename_i hidle
      have halive := alive_finned h hstate (h.phase.idle_of_eq hidle).2.2.1
      exact halive.kept halive.live (steady_emission _ halive.filled)
    rename_i hflight
    have hphase : Phase m (withRequest c true) := by
      cases h.phase with
      | idle _ hnext _ _ _ => exact absurd hnext hflight
      | greeting hs | parting hs => exact absurd hs (by rcases hstate with h | h <;> simp [h])
      | sending h1 h2 h3 h4 h5 h6 h7 =>
        exact .sending h1 h2 h3 h4 h5 h6 { h7 with }
    have halive : Alive Z m (withRequest c true) := h.rephase rfl rfl rfl rfl hphase
    exact halive.kept halive.live (by simp)
  split
  · exact hgone
  · exact hgone
  · exact hopen (.inl (by assumption))
  · exact hopen (.inr (by assumption))
  · exact h.kept h.live (by simp)

theorem kept_consumed (h : Alive Z m c) : Kept Z m (consumedTurn c) := by
  have hphase : Phase m (emptied c) := by
    cases h.phase with
    | idle h1 h2 h3 h4 h5 => exact .idle h1 h2 h3 h4 h5
    | greeting h1 h2 h3 h4 h5 h6 h7 =>
      exact .greeting h1 rfl h3 h4 h5 h6 { h7 with }
    | sending h1 h2 h3 h4 h5 h6 h7 =>
      exact .sending h1 h2 h3 h4 h5 h6 { h7 with }
    | parting h1 h2 h3 h4 h5 h6 =>
      exact .parting h1 h2 h3 h4 h5 { h6 with }
  have halive : Alive Z m (emptied c) :=
    ⟨h.buffer, (UInt64.zero_le : 0 ≤ c.size), fun _ => rfl, hphase⟩
  exact halive.kept halive.live (steady_emission _ halive.filled)

/-! ### Segments -/

theorem landed_of_plain (hflags : c.flightFlags &&& fin = 0) (hclose : c.closeRequested = false) :
    landed i c = (settled c,
      if 0 < c.flightLength then [sentMessage i c c.flightLength] else []) := by
  simp [landed, hflags, hclose]

/-- The SYN is acknowledged. -/
theorem kept_landed_greeting {d : Connection} (h : Alive Z m c) (hbase : d.base = c.base)
    (hsize : d.size = c.size) (hfilled : d.filled = c.filled)
    (hdelivered : d.delivered = c.delivered) (hstate : d.state = .established)
    (hflags : d.flightFlags = syn) (hlength : d.flightLength = 0)
    (hclose : d.closeRequested = false) : landed i d = (settled d, []) ∧ Alive Z m (settled d) := by
  constructor
  · rw [landed_of_plain (by rw [hflags]; decide) hclose, hlength]
    rfl
  · exact h.rephase hbase hsize hfilled hdelivered (.idle (.inl hstate) rfl rfl rfl hclose)

/-- What is in flight is acknowledged, other than a SYN. -/
theorem kept_landed (h : Alive Z m c) (hflight : c.unacknowledged ≠ c.nextSend)
    (hsent : c.state ≠ .synSent) (hreceived : c.state ≠ .synReceived) : Kept Z m (landed i c) := by
  cases h.phase with
  | idle _ hnext _ _ _ => exact absurd hnext hflight
  | greeting hstate => exact absurd hstate (by simp [hsent, hreceived])
  | sending hstate hnext hflags hsome hlength hheld htimed =>
    have hfin : ¬ c.flightFlags &&& fin ≠ 0 := by rw [hflags]; decide
    unfold landed
    simp only [if_neg hfin, if_pos hsome]
    split
    · have halive : Alive Z m (withRequest (settled c) false) := h.rephase rfl rfl rfl rfl
          (.idle (hstate.imp_right .inl) rfl rfl rfl rfl)
      have hlast := alive_finned halive hstate rfl
      refine hlast.kept hlast.live ?_
      simp only [mem_append, not_or]
      exact ⟨by simp, steady_emission _ hlast.filled⟩
    · rename_i hclose
      have halive : Alive Z m (settled c) := by
        refine h.rephase rfl rfl rfl rfl (.idle (hstate.imp_right .inl) rfl rfl rfl ?_)
        exact Bool.eq_false_iff.mpr fun hreq => hclose ⟨hreq, hstate⟩
      exact halive.kept halive.live (by simp)
  | parting hstate hnext hflags hlength hclose htimed =>
    have hfin : c.flightFlags &&& fin ≠ 0 := by rw [hflags]; decide
    unfold landed
    rw [if_pos hfin]
    split
    · have halive : Alive Z m (inState (settled c) .finWait2) :=
        h.rephase rfl rfl rfl rfl (.idle (.inr (.inr rfl)) rfl rfl rfl hclose)
      exact halive.kept halive.live (by simp)
    · exact kept_gone (by simp)
    · exact kept_gone (by simp)
    · rename_i h1 h2 h3
      exact (hstate.elim h1 fun hs => hs.elim h2 h3).elim

theorem receiving_iff : receiving state = true ↔
    state = .established ∨ state = .finWait1 ∨ state = .finWait2 := by
  simp [receiving]

/-- Data goes into the buffer of a connection that receives. -/
theorem alive_filledWith (h : Alive Z m c) {segment : Incoming} (ht : Takes c segment)
    (hstate : receiving c.state = true) : Alive Z m (filledWith c segment) := by
  refine ⟨h.buffer, ht.2.2, fun hd => absurd hd (by simp [filledWith]), ?_⟩
  cases h.phase with
  | idle h1 h2 h3 h4 h5 => exact .idle h1 h2 h3 h4 h5
  | greeting h1 =>
    rw [receiving_iff] at hstate
    rcases h1 with h1 | h1 <;> simp [h1] at hstate
  | sending h1 h2 h3 h4 h5 h6 h7 =>
    exact .sending h1 h2 h3 h4 h5 h6 { h7 with }
  | parting h1 h2 h3 h4 h5 h6 =>
    exact .parting h1 h2 h3 h4 h5 { h6 with }

theorem kept_dataPart (h : Alive Z m c) (segment : Incoming) :
    Alive Z m (dataPart i c segment).2.1 ∧ (dataPart i c segment).2.1.state = c.state ∧
      Event.underflow ∉ (dataPart i c segment).2.2 := by
  unfold dataPart
  split
  · rename_i hreceive
    dsimp only
    split
    · rename_i ht
      exact ⟨alive_filledWith h ht hreceive.2, rfl, by simp [delivery]⟩
    · exact ⟨h, rfl, by simp⟩
  · exact ⟨h, rfl, by simp⟩

/-- The peer's FIN. -/
theorem kept_finPart (h : Alive Z m c) (accepted : Bool) (segment : Incoming) :
    Kept Z m (finPart i c.state accepted c segment) := by
  have hsteady : Event.underflow ∉ emission (pastFin c) ack :=
    steady_emission (c := pastFin c) ack h.filled
  unfold finPart
  split
  · rename_i hfin
    have hreceive := receiving_iff.mp hfin.2
    dsimp only
    split
    · rename_i hstate
      have hphase : Phase m (inState (pastFin c) .closeWait) := by
        cases h.phase with
        | idle _ h2 h3 h4 h5 => exact .idle (.inr (.inl rfl)) h2 h3 h4 h5
        | greeting h1 | parting h1 => simp [hstate] at h1
        | sending _ h2 h3 h4 h5 h6 h7 =>
          exact .sending (.inr rfl) h2 h3 h4 h5 h6 { h7 with }
      have halive : Alive Z m (inState (pastFin c) .closeWait) := h.rephase rfl rfl rfl rfl hphase
      refine halive.kept halive.live ?_
      simp only [mem_append, not_or]
      exact ⟨hsteady, by simp⟩
    · rename_i hstate
      have hphase : Phase m (inState (pastFin c) .closing) := by
        cases h.phase with
        | idle h1 | greeting h1 | sending h1 => simp [hstate] at h1
        | parting _ h2 h3 h4 h5 h6 =>
          exact .parting (.inr (.inl rfl)) h2 h3 h4 h5 { h6 with }
      have halive : Alive Z m (inState (pastFin c) .closing) := h.rephase rfl rfl rfl rfl hphase
      exact halive.kept halive.live hsteady
    · refine kept_gone ?_
      simp only [mem_append, not_or]
      exact ⟨hsteady, by simp⟩
  · split
    · exact h.kept h.live (steady_emission _ h.filled)
    · exact h.kept h.live (by simp)

/-- The data and the FIN of a segment. -/
theorem kept_dataTurn (h : Alive Z m c) (segment : Incoming) : Kept Z m (dataTurn i c segment) := by
  obtain ⟨halive, hstate, hsteady⟩ := kept_dataPart (i := i) h segment
  have hfin := kept_finPart (i := i) halive (dataPart i c segment).1 segment
  rw [hstate] at hfin
  refine ⟨hfin.spare, hfin.alive, ?_⟩
  simp only [dataTurn, andThen, mem_append, not_or]
  exact ⟨hsteady, hfin.steady⟩

/-- A connection that takes no data only says where it is. -/
theorem dataTurn_of_not_receiving (h : receiving c.state = false) (segment : Incoming) :
    dataTurn i c segment =
      (c, if segment.Full then emission c ack else []) := by
  have hdata : dataPart i c segment = (decide (segment.payload = []), c, []) := by
    simp [dataPart, h]
  have hfin : finPart i c.state (decide (segment.payload = [])) c segment =
      (c, if segment.Full then emission c ack else []) := by
    unfold finPart
    rw [if_neg (by simp [h])]
    split <;> rfl
  simp [dataTurn, andThen, hdata, hfin]

/-- The rest of a segment whose acknowledgement has freed the slot. -/
theorem kept_dataTurn_gone (segment : Incoming) : Kept Z m (dataTurn i {} segment) := by
  rw [dataTurn_of_not_receiving rfl]
  refine kept_gone ?_
  split <;> simp [emission]

theorem kept_andThen {f : Connection → Connection × List Event}
    (hr : Kept Z m r) (hf : Kept Z m (f r.1)) : Kept Z m (andThen r f) := by
  refine ⟨hf.spare, hf.alive, ?_⟩
  simp only [andThen, mem_append, not_or]
  exact ⟨hr.steady, hf.steady⟩

theorem steady_opening : Event.underflow ∉ opening i c := by
  unfold opening
  split <;> simp

/-- **A segment leaves its connection sound**, or its slot free. -/
theorem kept_segmentTurn (h : Alive Z m c) (segment : Incoming) :
    Kept Z m (segmentTurn i c segment) := by
  unfold segmentTurn
  split
  · split
    · exact kept_gone (by simp)
    · exact h.kept h.live (by simp)
  have hrest : c.state ≠ .synSent → c.state ≠ .synReceived → Kept Z m
      (if Acknowledges c segment then andThen (landed i c) fun c => dataTurn i c segment
        else dataTurn i c segment) := by
    intro hsent hreceived
    split
    · rename_i hack
      have hlanded := kept_landed (i := i) h hack.2.1 hsent hreceived
      refine kept_andThen hlanded ?_
      by_cases hfree : (landed i c).1.state = .free
      · rw [hlanded.spare hfree]
        exact kept_dataTurn_gone segment
      · exact kept_dataTurn (hlanded.alive hfree) segment
    · exact kept_dataTurn h segment
  split
  · rename_i hstate
    split
    · cases h.phase with
      | greeting _ _ _ hflags hlength hclose =>
        obtain ⟨hlanded, halive⟩ := kept_landed_greeting (i := i) (d := greeted c segment) h rfl rfl
          rfl rfl rfl hflags hlength hclose
        rw [hlanded]
        refine halive.kept halive.live ?_
        simp only [nil_append, mem_append, not_or]
        exact ⟨steady_emission _ halive.filled, steady_opening⟩
      | idle h1 | sending h1 | parting h1 => simp [hstate] at h1
    · exact h.kept h.live (by simp)
  · rename_i hstate
    split
    · exact h.kept h.live (by simp)
    cases h.phase with
    | greeting _ _ _ hflags hlength hclose =>
      obtain ⟨hlanded, halive⟩ := kept_landed_greeting (i := i) (d := inState c .established) h
        rfl rfl rfl rfl rfl hflags hlength hclose
      rw [hlanded]
      exact kept_andThen (halive.kept halive.live steady_opening) (kept_dataTurn halive segment)
    | idle h1 | sending h1 | parting h1 => simp [hstate] at h1
  · exact hrest (by assumption) (by assumption)

/-! ### The timer -/

theorem rto_succ (n : Nat) : rto (n + 1) = min (rto n * 2) 40 := by
  match n with
  | 0 => rfl
  | 1 => rfl
  | 2 => rfl
  | n + 3 => rfl

theorem rto_le (n : Nat) : rto n ≤ 40 := by
  unfold rto
  split <;> omega

/-- The same phase with another timer. -/
theorem Phase.retime (h : Phase m c) {waited timeout retries : UInt32}
    (htimed : Timed { c with waited := waited, timeout := timeout, retries := retries }) :
    Phase m { c with waited := waited, timeout := timeout, retries := retries } := by
  cases h with
  | idle h1 h2 h3 h4 h5 => exact .idle h1 h2 h3 h4 h5
  | greeting h1 h2 h3 h4 h5 h6 => exact .greeting h1 h2 h3 h4 h5 h6 htimed
  | sending h1 h2 h3 h4 h5 h6 => exact .sending h1 h2 h3 h4 h5 h6 htimed
  | parting h1 h2 h3 h4 h5 => exact .parting h1 h2 h3 h4 h5 htimed

theorem Phase.timed (h : Phase m c) (hflight : c.unacknowledged ≠ c.nextSend) : Timed c := by
  cases h with
  | idle _ hnext _ _ _ => exact absurd hnext hflight
  | greeting _ _ _ _ _ _ htimed | sending _ _ _ _ _ _ htimed | parting _ _ _ _ _ htimed =>
    exact htimed

theorem Timed.retry (h : Timed c) : (c.retries + 1).toNat = c.retries.toNat + 1 := by
  have hle := h.retries
  have h1 : (1 : UInt32).toNat = 1 := rfl
  rw [UInt32.toNat_add, h1]
  omega

theorem toNat_min (a b : UInt32) : (min a b).toNat = min a.toNat b.toNat := by
  have hmin : min a b = if a ≤ b then a else b := rfl
  rw [hmin]
  split
  · rename_i h
    exact (min_eq_left (UInt32.le_iff_toNat_le.mp h)).symm
  · rename_i h
    exact (min_eq_right (UInt32.le_iff_toNat_le.mp (UInt32.le_of_lt (UInt32.not_le.mp h)))).symm

/-- The next wait is twice as long, up to 40 ticks. -/
theorem Timed.backoff (h : Timed c) :
    (min (c.timeout * 2) maxRtoTicks).toNat = rto (c.retries.toNat + 1) := by
  have hle := rto_le c.retries.toNat
  have hdouble : (c.timeout * 2).toNat = rto c.retries.toNat * 2 := by
    have h2 : (2 : UInt32).toNat = 2 := rfl
    rw [UInt32.toNat_mul, h.timeout, h2]
    omega
  rw [rto_succ, ← hdouble, toNat_min]
  rfl

theorem kept_tickTurn (h : Alive Z m c) : Kept Z m (tickTurn i c) := by
  unfold tickTurn
  split
  · exact h.kept h.live (by simp)
  rename_i hflight
  have htimed := h.phase.timed fun heq => hflight (.inr heq)
  split
  · rename_i hearly
    have halive : Alive Z m { c with waited := c.waited + 1 } :=
      h.rephase rfl rfl rfl rfl (h.phase.retime ⟨htimed.retries, htimed.timeout, hearly⟩)
    exact halive.kept halive.live (by simp)
  dsimp only
  split
  · refine kept_gone ?_
    simp only [mem_append, not_or]
    exact ⟨steady_emission _
      (c := { c with waited := c.waited + 1, retries := c.retries + 1 }) h.filled, by simp⟩
  rename_i hretry
  have hretries : (c.retries + 1).toNat ≤ 6 := by
    have := UInt32.not_lt.mp hretry
    exact UInt32.le_iff_toNat_le.mp this
  have hback := htimed.backoff
  rw [← htimed.retry] at hback
  have halive : Alive Z m { c with
      waited := 0, timeout := min (c.timeout * 2) maxRtoTicks, retries := c.retries + 1 } := by
    refine h.rephase rfl rfl rfl rfl (h.phase.retime ⟨hretries, hback, ?_⟩)
    rw [UInt32.lt_iff_toNat_lt]
    show 0 < (min (c.timeout * 2) maxRtoTicks).toNat
    rw [hback]
    unfold rto
    split <;> omega
  exact halive.kept halive.live (steady_emission _ halive.filled)

/-! ## Acts -/

variable {events : List Event}

/-- Events that are only recorded. -/
theorem Sound.record (h : Sound Z v)
    (hevents : Event.underflow ∉ events) : Sound Z (v.record events) :=
  ⟨h.free, h.bindings, h.listeners, h.spare, h.connections, h.resolves, by
    simp only [View.record, mem_append, mem_reverse, not_or]
    exact ⟨hevents, h.steady⟩⟩

theorem WritesIn.steady {address length : Nat}
    (h : WritesIn events address length) : Event.underflow ∉ events := by
  intro hmem
  obtain ⟨_, _, he, -⟩ := h _ hmem
  cases he

variable {k : Fin 4}

/-- A change of one lookup. -/
theorem Sound.setResolve (h : Sound Z v) {r : Resolve} (hr : r.id ≠ 0 → Asked v.mappings r) :
    Sound Z { v with resolves := update v.resolves k r } := { h with
    resolves := (forall_update_iff v.resolves fun _ r => r.id ≠ 0 → Asked v.mappings r).mpr
      ⟨hr, fun j _ => h.resolves j⟩ }

/-- A change of one binding. -/
theorem Sound.setBinding (h : Sound Z v) {k : Fin 8} {b : Binding}
    (hb : b.base ≠ 0 → Held v.mappings b.base b.size) :
    Sound Z { v with bindings := update v.bindings k b } := { h with
    bindings := (forall_update_iff v.bindings fun _ b =>
      b.base ≠ 0 → Held v.mappings b.base b.size).mpr ⟨hb, fun j _ => h.bindings j⟩ }

/-- A change of one listener. -/
theorem Sound.setListener (h : Sound Z v) {l : Listener}
    (hl : l.base ≠ 0 → Held v.mappings l.base l.size) :
    Sound Z { v with listeners := update v.listeners k l } := { h with
    listeners := (forall_update_iff v.listeners fun _ l =>
      l.base ≠ 0 → Held v.mappings l.base l.size).mpr ⟨hl, fun j _ => h.listeners j⟩ }

/-- A buffer with something in it is mapped. -/
theorem Sound.held_of_some (h : Sound Z v) {buffer : UInt64}
    (hmaps : Maps v.mappings buffer region) (hsome : 0 < length)
    (hfits : length ≤ region.size) : Held v.mappings region.base region.size := by
  refine (h.held hmaps).resolve_left fun hz => ?_
  rw [hz.2] at hfits
  rw [UInt64.le_iff_toNat_le] at hfits
  rw [UInt64.lt_iff_toNat_lt] at hsome
  omega

variable {a : Input} {v' : View}

/-- **Every act keeps the tables sound.** -/
theorem Sound.act (h : Sound Z v) (hZ : a.ConnectsZero → Z) (hact : Act a v v') : Sound Z v' := by
  cases hact with
  | evict hk => exact h.evict hk
  | enter hfree hbuffer => exact h.enter hfree hbuffer
  | bind hmaps hbase hsize =>
    refine h.setBinding ?_
    rw [hbase, hsize]
    exact fun hne => (h.held hmaps).resolve_left fun hz => hne hz.1
  | listen hmaps hbase hsize =>
    refine h.setListener ?_
    rw [hbase, hsize]
    exact fun hne => (h.held hmaps).resolve_left fun hz => hne hz.1
  | @connect m _ _ _ ha htag _ hmaps hbase hsize _ hnew =>
    refine h.turn (kept_start hnew (.inl rfl) ?_)
    rw [hbase, hsize]
    by_cases hbuffer : m.words.2.2.2 = 0
    · exact (h.held hmaps).imp_left fun hz => ⟨hZ (by rw [ha]; exact ⟨htag, hbuffer⟩), hz⟩
    · exact .inr (hmaps.held hbuffer)
  | noRoom | turnAway => exact h.record (by simp)
  | accept _ _ hlistens hbase hsize _ hnew =>
    refine (h.setListener fun hne => absurd rfl hne).turn (kept_start hnew (.inr rfl) (.inr ?_))
    rw [hbase, hsize]
    exact h.listeners _ hlistens
  | segment _ _ hmatches => exact h.turn (kept_segmentTurn (h.connections _ hmatches.1) _)
  | send _ hm hmaps hsend =>
    exact h.turn (kept_send (h.connections _ hm.live)
      (h.held_of_some hmaps hsend.some hsend.fits) hsend)
  | refuse _ hm =>
    have halive := h.connections _ hm.live
    exact h.turn (halive.kept halive.live (by simp))
  | consume _ hm => exact h.turn (kept_consumed (h.connections _ hm.live))
  | close _ hm => exact h.turn (kept_close (h.connections _ hm.live))
  | @tick i =>
    by_cases hfree : (v.connections i).state = .free
    · have hsame : tickTurn i (v.connections i) = (v.connections i, []) := by
        simp [tickTurn, hfree]
      rw [hsame, View.turn_same]
      exact h
    · exact h.turn (kept_tickTurn (h.connections i hfree))
  | ask hmaps hbase hfits hsome hlength hkind =>
    refine h.setResolve fun _ => ?_
    have hheld := h.held_of_some hmaps hsome hfits
    rw [← hbase] at hheld
    exact ⟨⟨_, hheld, hfits⟩, hlength, hkind.imp_right fun hk => ⟨hk.1, _, hheld, hk.2⟩⟩
  | @wait k r hid hbase hlength hkind =>
    refine h.setResolve fun _ => ?_
    have hasked := h.resolves k hid
    exact ⟨by rw [hbase, hlength]; exact hasked.name, by rw [hlength]; exact hasked.length,
      by rw [hkind, hbase]; exact hasked.kind⟩
  | answer _ _ hwrites =>
    exact (h.record hwrites.steady).setResolve fun hid => absurd rfl hid
  | giveUp => exact h.setResolve fun hid => absurd rfl hid
  | deliver _ _ hwrites => exact h.record hwrites.steady

theorem Sound.acts (h : Sound Z v) (hZ : a.ConnectsZero → Z)
    (hacts : Acts a v v') : Sound Z v' := by
  induction hacts with
  | refl => exact h
  | tail _ hact ih => exact ih.act hZ hact

end Panda.Net
