import PandaProof.RingRuns

/-!
# The sleep and wake handshake of a ring

A side that finds nothing to do sets its flag, looks again, and asks the kernel to park
it; the kernel looks a third time and records it as sleeping.  The other side publishes
its counter first and reads the flag afterwards.  Wherever the two are interleaved, a side
that is parked next to work has its wake on the way (`handshake_loses_no_wake`).

Nothing here depends on what the counters count: a parked side found nothing to do when
it was recorded, and only the other side's `publish` can change that.
-/
namespace Panda.Channel

open Function Option Parking
open Ipc (ThreadId)
open Panda.Ring (Side)

variable {c : Config} {s s' : State} {side : Side}

/-- From setting its flag to clearing it. -/
@[simp] def Pc.asleep : Pc → Bool
  | .lookTail | .lookHead _ | .enter | .park | .recheck | .lower _ => true
  | .idle | .start | .loadTail _ | .loadHead _ _ | .copy _ _ | .publish _ | .loadFlag | .wake
  | .unblock _ | .raise => false

/-- On the way from publishing to the wake. -/
@[simp] def Pc.settling : Pc → Bool
  | .loadFlag | .wake | .unblock _ => true
  | .idle | .start | .loadTail _ | .loadHead _ _ | .copy _ _ | .publish _ | .raise | .lookTail
  | .lookHead _ | .enter | .park | .recheck | .lower _ => false

/-- The ring is in the table, with both sides mapped. -/
structure Mapped (c : Config) (s : State) (ring : Ring) : Prop where
  found : s.rings c.endpoint = some ring
  slots : ring.slots = c.slots
  holder : ∀ side, ring.holder side = some (c.thread side)

variable {ring : Ring}

theorem Mapped.sideOf (h : Mapped c s ring) (side : Side) :
    ring.sideOf (c.thread side) = .ok side := by
  unfold Ring.sideOf
  rw [h.holder, h.holder]
  cases side with
  | sender => simp
  | receiver => simp [c.distinct]

/-- Recording who sleeps leaves the ring mapped. -/
theorem Mapped.sleeping {sleeping : Side → Option ThreadId} (h : Mapped c s ring)
    (hs' : s'.rings = update s.rings c.endpoint (some { ring with sleeping := sleeping })) :
    Mapped c s' { ring with sleeping := sleeping } where
  found := by rw [hs', update_self]
  slots := h.slots
  holder := h.holder

theorem Mapped.same (h : Mapped c s ring) (hs' : s'.rings = s.rings) : Mapped c s' ring :=
  ⟨hs' ▸ h.found, h.slots, h.holder⟩

theorem thread_injective {x y : Side} (h : c.thread x = c.thread y) : x = y := by
  cases x with
  | sender =>
    cases y with
    | sender => rfl
    | receiver => exact absurd h c.distinct
  | receiver =>
    cases y with
    | sender => exact absurd h.symm c.distinct
    | receiver => rfl

/-- The words that both threads look at are the same, and the other thread is where it
was. -/
structure Apart (s s' : State) (side : Side) : Prop where
  counter : s'.counter = s.counter
  flag : s'.flag = s.flag
  rings : s'.rings = s.rings
  parking : s'.parking = s.parking
  pc : s'.pc side.other = s.pc side.other

/-- What the next step of a side that is not parked does to the handshake. -/
inductive Move (c : Config) (s : State) (side : Side) (ring : Ring) (s' : State) : Prop
  /-- It moves on inside the library. -/
  | inside (h : Apart s s' side) (hold : (s.pc side).settling = false)
      (hnew : (s'.pc side).settling = false) (hpark : s'.pc side ≠ .park)
      (hasleep : (s'.pc side).asleep = true → (s.pc side).asleep = true)
  | publish {mine : BitVec 32} (hpc : s.pc side = .publish mine)
      (hcounter : s'.counter = update s.counter side (mine + 1))
      (hflag : s'.flag = s.flag) (hrings : s'.rings = s.rings)
      (hparking : s'.parking = s.parking) (hpc' : s'.pc = update s.pc side .loadFlag)
  | loadFlag (hpc : s.pc side = .loadFlag)
      (hs' : s' = s.setPc side (if s.flag side.other ≠ 0 then .wake else .idle))
  | wake (hpc : s.pc side = .wake) (hs' : s' = { s with
      rings := update s.rings c.endpoint (some { ring with
        sleeping := update ring.sleeping side.other none }) }.setPc side
          (.unblock (ring.sleeping side.other)))
  | unblock {sleeper : Option ThreadId} (hpc : s.pc side = .unblock sleeper)
      (hs' : s' = { s with parking := sleeper.elim s.parking s.parking.unblock }.setPc side .idle)
  | raise (hpc : s.pc side = .raise)
      (hs' : s' = { s with flag := update s.flag side 1 }.setPc side .lookTail)
  /-- `wait` records it as sleeping. -/
  | record (hpc : s.pc side = .enter)
      (hnot : ring.readyFor (s.counter .sender) (s.counter .receiver) side = false)
      (hs' : s' = { s with
        rings := update s.rings c.endpoint (some { ring with
          sleeping := update ring.sleeping side (some (c.thread side)) }) }.setPc side .park)
  | park (hpc : s.pc side = .park)
      (hs' : s' = { s with parking := (s.parking.blockCurrent (c.thread side)).1 }.setPc side
        (if (s.parking.blockCurrent (c.thread side)).2 then .enter else .recheck))
  | lower {goOn : Bool} (hpc : s.pc side = .lower goOn)
      (hflag : s'.flag = update s.flag side 0) (hcounter : s'.counter = s.counter)
      (hrings : s'.rings = s.rings) (hparking : s'.parking = s.parking)
      (hpc' : s'.pc = update s.pc side (if goOn then .start else .idle))

theorem apart_setPc (s : State) (side : Side) (pc : Pc) : Apart s (s.setPc side pc) side :=
  ⟨rfl, rfl, rfl, rfl, update_of_ne side.other_ne _ _⟩

/-- A failed attempt stays inside the library. -/
theorem move_failed (hpc : (s.pc side).settling = false)
    (hs' : s' = s.failed side) : Move c s side ring s' := by
  subst hs'
  unfold State.failed
  split
  · exact .inside (apart_setPc ..) hpc (by simp) (by simp) (by simp)
  split
  · refine .inside ⟨rfl, rfl, rfl, rfl, ?_⟩ hpc ?_ ?_ ?_
    · exact update_of_ne side.other_ne _ _
    · simp
    · simp
    · simp
  · exact .inside (apart_setPc ..) hpc (by simp) (by simp) (by simp)

theorem move_of_go (h : Mapped c s ring) (hs : go c s side = some s') :
    s.parking.blocked (c.thread side) = false ∧ Move c s side ring s' := by
  unfold go at hs
  dsimp only at hs
  split at hs
  · cases hs
  rename_i hrunning
  refine ⟨by simpa using hrunning, ?_⟩
  have hsideOf := h.sideOf side
  -- A step that only moves the program counter, and not into or out of the handshake.
  have hinside : ∀ {pc : Pc}, (s.pc side).settling = false → pc.settling = false → pc ≠ .park →
      (pc.asleep = true → (s.pc side).asleep = true) → some (s.setPc side pc) = some s' →
      Move c s side ring s' := by
    intro pc hold hnew hpark hasleep heq
    cases heq
    exact .inside (apart_setPc ..) hold (by simpa using hnew) (by simpa using hpark)
      (by simpa using hasleep)
  split at hs
  · cases hs
  · rename_i hpc
    exact hinside (by rw [hpc]; rfl) rfl (by simp) (by simp) hs
  · rename_i hpc
    exact hinside (by rw [hpc]; rfl) rfl (by simp) (by simp) hs
  · rename_i hpc
    split at hs
    · exact hinside (by rw [hpc]; rfl) rfl (by simp) (by simp) hs
    · exact move_failed (by rw [hpc]; rfl) (some.inj hs).symm
  · rename_i mine i hpc
    cases hs
    refine .inside ?_ (by rw [hpc]; rfl) ?_ ?_ ?_
    · cases side <;> exact ⟨rfl, rfl, rfl, rfl, by simp [State.setPc, copyByte, Side.other]⟩
    · rw [setPc_self, Pc.afterByte]
      split <;> rfl
    · rw [setPc_self, Pc.afterByte]
      split <;> simp
    · rw [setPc_self, Pc.afterByte]
      split <;> simp
  · rename_i mine hpc
    cases hs
    cases side <;> exact .publish hpc rfl rfl rfl rfl rfl
  · rename_i hpc
    exact .loadFlag hpc (some.inj hs).symm
  · rename_i hpc
    have hwake : Ring.wake s.rings (c.thread side) c.endpoint =
        .ok (ring.sleeping side.other, update s.rings c.endpoint (some { ring with
          sleeping := update ring.sleeping side.other none })) := by
      simp [Ring.wake, h.found, hsideOf]
    rw [hwake] at hs
    exact .wake hpc (some.inj hs).symm
  · rename_i sleeper hpc
    cases sleeper with
    | none | some => exact .unblock hpc (some.inj hs).symm
  · rename_i hpc
    exact .raise hpc (some.inj hs).symm
  · rename_i hpc
    exact hinside (by rw [hpc]; rfl) rfl (by simp) (by simp [hpc]) hs
  · rename_i hpc
    split at hs
    · exact hinside (by rw [hpc]; rfl) rfl (by simp) (by simp [hpc]) hs
    · refine hinside (by rw [hpc]; rfl) ?_ ?_ (by simp [hpc]) hs
      · split <;> rfl
      · split <;> simp
  · rename_i hpc
    cases hready : ring.readyFor (s.counter .sender) (s.counter .receiver) side with
    | true =>
      have hround : Ring.waitRound s.rings (c.thread side) c.endpoint (s.counter .sender)
          (s.counter .receiver) = .ok (false, s.rings) := by
        simp [Ring.waitRound, h.found, hsideOf, hready]
      rw [hround] at hs
      exact hinside (by rw [hpc]; rfl) rfl (by simp) (by simp [hpc]) hs
    | false =>
      have hround : Ring.waitRound s.rings (c.thread side) c.endpoint (s.counter .sender)
          (s.counter .receiver) = .ok (true, update s.rings c.endpoint (some { ring with
            sleeping := update ring.sleeping side (some (c.thread side)) })) := by
        simp [Ring.waitRound, h.found, hsideOf, hready]
      rw [hround] at hs
      exact .record hpc hready (some.inj hs).symm
  · rename_i hpc
    exact .park hpc (some.inj hs).symm
  · rename_i hpc
    split at hs
    · refine hinside (by rw [hpc]; rfl) ?_ ?_ (by simp [hpc]) hs
      · split <;> rfl
      · split <;> simp
    · exact hinside (by rw [hpc]; rfl) rfl (by simp) (by simp [hpc]) hs
  · rename_i goOn hpc
    cases hs
    cases goOn <;> exact .lower hpc rfl rfl rfl rfl rfl

/-! ## The invariant -/

/-- Recorded as sleeping and about to park, or parked in `wait`. -/
def Waiting (c : Config) (s : State) (side : Side) : Prop :=
  s.pc side = .park ∨ s.pc side = .enter ∧ s.parking.blocked (c.thread side) = true

/-- A wake is recorded for the side, which is about to park. -/
def Noted (c : Config) (s : State) (side : Side) : Prop :=
  s.pc side = .park ∧ s.parking.wakePending (c.thread side) = true

/-- The other side is on its way to wake this one: it has published and will find the
flag set and the record, or it has taken the record already. -/
def Coming (c : Config) (s : State) (ring : Ring) (side : Side) : Prop :=
  (s.pc side.other = .loadFlag ∨ s.pc side.other = .wake) ∧
      ring.sleeping side = some (c.thread side) ∨ s.pc side.other = .unblock (some (c.thread side))

/-- There is something for the side to do: a message, or room for one. -/
def Work (c : Config) (s : State) (side : Side) : Prop :=
  ready c side (s.counter .sender - s.counter .receiver) = true

/-- One side of the handshake. -/
structure Handshake (c : Config) (s : State) (ring : Ring) (side : Side) : Prop where
  flag : (s.pc side).asleep = true → s.flag side = 1
  blocked : s.parking.blocked (c.thread side) = true → s.pc side = .idle ∨ s.pc side = .enter
  recorded : Waiting c s side → ring.sleeping side = some (c.thread side) ∨
    s.pc side.other = .unblock (some (c.thread side)) ∨ Noted c s side
  coming : Waiting c s side → Work c s side → Coming c s ring side ∨ Noted c s side

/-- What the kernel does not find ready has nothing to do. -/
theorem not_ready {tail head : BitVec 32} (hslots : ring.slots = c.slots)
    (h : ring.readyFor tail head side = false) : ready c side (tail - head) = false := by
  unfold Ring.readyFor Ring.queued at h
  rw [hslots] at h
  split at h
  · cases h
  · rename_i heq
    split at heq
    · cases heq
      exact h
    · cases heq
  rename_i heq
  split at heq
  · cases heq
    exact h
  · cases heq

/-- A side that is neither recorded nor parked owes nothing. -/
theorem Handshake.of_not_waiting (h : ¬ Waiting c s side)
    (hflag : (s.pc side).asleep = true → s.flag side = 1)
    (hblocked : s.parking.blocked (c.thread side) = true → s.pc side = .idle ∨ s.pc side = .enter) :
    Handshake c s ring side := ⟨hflag, hblocked, fun hw => absurd hw h, fun hw => absurd hw h⟩

theorem not_waiting_of_running {pc : Pc} (hpc : s.pc side = pc) (hpark : pc ≠ .park)
    (hrun : s.parking.blocked (c.thread side) = false) : ¬ Waiting c s side := by
  rintro (hp | ⟨-, hb⟩)
  · exact hpark (hpc.symm.trans hp)
  · rw [hrun] at hb
    cases hb

/-- **A side's own step.** -/
theorem handshake_own (hm : Mapped c s ring) (h : Handshake c s ring side)
    (hrun : s.parking.blocked (c.thread side) = false) (hmove : Move c s side ring s') :
    ∃ ring', Mapped c s' ring' ∧ Handshake c s' ring' side := by
  -- Every step but `record` and `park` leaves the side running and unrecorded.
  have hplain : ∀ {ring' : Ring}, s'.pc side ≠ .park → s'.parking.blocked (c.thread side) = false →
      ((s'.pc side).asleep = true → s'.flag side = 1) → Handshake c s' ring' side := by
    intro ring' hpark hb hflag
    exact .of_not_waiting (not_waiting_of_running rfl hpark hb) hflag
      fun hb' => by rw [hb] at hb'; cases hb'
  cases hmove with
  | inside ha hold hnew hpark hasleep =>
    refine ⟨ring, hm.same ha.rings, hplain hpark ?_ ?_⟩
    · rw [ha.parking]
      exact hrun
    · intro hasl
      rw [ha.flag]
      exact h.flag (hasleep hasl)
  | publish hpc hcounter hflag hrings hparking hpc' =>
    refine ⟨ring, hm.same hrings, hplain ?_ ?_ ?_⟩
    · simp [hpc']
    · rw [hparking]
      exact hrun
    · simp [hpc']
  | loadFlag hpc hs' =>
    subst hs'
    refine ⟨ring, hm.same rfl, hplain ?_ hrun ?_⟩
    · rw [setPc_self]
      split <;> simp
    · rw [setPc_self]
      split <;> simp
  | wake hpc hs' =>
    subst hs'
    refine ⟨_, hm.sleeping rfl, hplain ?_ hrun ?_⟩
    · simp
    · simp
  | unblock hpc hs' =>
    subst hs'
    refine ⟨ring, hm.same rfl, hplain (by simp) ?_ (by simp)⟩
    cases ‹Option ThreadId› with
    | none => exact hrun
    | some => exact unblock_blocked_of_false hrun
  | raise hpc hs' =>
    subst hs'
    refine ⟨ring, hm.same rfl, hplain (by simp) hrun fun _ => ?_⟩
    simp [State.setPc]
  | record hpc hnot hs' =>
    subst hs'
    refine ⟨_, hm.sleeping rfl, ?_, ?_, ?_, ?_⟩
    · intro _
      exact h.flag (by rw [hpc]; rfl)
    · intro hb
      have hb' : s.parking.blocked (c.thread side) = true := hb
      simp [hrun] at hb'
    · exact fun _ => .inl (by simp)
    · intro _ hwork
      have hwork' : Work c s side := hwork
      simp [Work, not_ready hm.slots hnot] at hwork'
  | park hpc hs' =>
    have hflag : s.flag side = 1 := h.flag (by rw [hpc]; rfl)
    have hw : Waiting c s side := .inl hpc
    cases hwake : s.parking.wakePending (c.thread side) with
    | true =>
      have hblock := blockCurrent_of_wake hwake
      rw [hblock] at hs'
      subst hs'
      exact ⟨ring, hm.same rfl, hplain (by simp) hrun fun _ => hflag⟩
    | false =>
      have hblock := blockCurrent_of_no_wake hwake
      have hnot : ¬ Noted c s side := fun hn => by
        rw [hn.2] at hwake
        cases hwake
      rw [hblock] at hs'
      subst hs'
      have hother := setPc_of_ne (x := side.other) { s with parking := { s.parking with
          blocked := update s.parking.blocked (c.thread side) true } }
        (if true then Pc.enter else .recheck) side.other_ne
      refine ⟨ring, hm.same rfl, fun _ => hflag, fun _ => ?_, ?_, ?_⟩
      · exact .inr (by simp)
      · intro _
        rw [hother]
        exact (h.recorded hw).imp_right fun hr => .inl (hr.resolve_right hnot)
      intro _ hwork
      left
      unfold Coming
      rw [hother]
      exact (h.coming hw hwork).resolve_right hnot
  | lower hpc hflag hcounter hrings hparking hpc' =>
    refine ⟨ring, hm.same hrings, hplain ?_ ?_ ?_⟩
    · rw [hpc', update_self]
      split <;> simp
    · rw [hparking]
      exact hrun
    · rw [hpc', update_self]
      split <;> simp

/-- The other side does something that does not concern this one. -/
theorem handshake_keep {ring' : Ring} (h : Handshake c s ring side)
    (hpc : s'.pc side = s.pc side) (hold : (s.pc side.other).settling = false)
    (hflag : s'.flag side = s.flag side)
    (hblocked : s'.parking.blocked (c.thread side) = s.parking.blocked (c.thread side))
    (hwake : s'.parking.wakePending (c.thread side) = s.parking.wakePending (c.thread side))
    (hcounter : s'.counter = s.counter) (hsleeping : ring'.sleeping side = ring.sleeping side) :
    Handshake c s' ring' side := by
  have hunblock : ∀ {sleeper : Option ThreadId}, s.pc side.other ≠ .unblock sleeper := by
    intro sleeper heq
    simp [heq] at hold
  have hcoming : ¬ Coming c s ring side := by
    rintro (⟨hp | hp, -⟩ | hp)
    · simp [hp] at hold
    · simp [hp] at hold
    · exact hunblock hp
  have hwaiting : Waiting c s' side → Waiting c s side := by
    unfold Waiting
    rw [hpc, hblocked]
    exact id
  have hnoted : Noted c s side → Noted c s' side := by
    unfold Noted
    rw [hpc, hwake]
    exact id
  refine ⟨by rw [hpc, hflag]; exact h.flag, by rw [hblocked, hpc]; exact h.blocked, ?_, ?_⟩
  · intro hw
    rw [hsleeping]
    rcases h.recorded (hwaiting hw) with hr | hr | hr
    · exact .inl hr
    · exact absurd hr hunblock
    · exact .inr (.inr (hnoted hr))
  · intro hw hwork
    have hwork' : Work c s side := by
      unfold Work at hwork ⊢
      rwa [hcounter] at hwork
    exact .inr (hnoted ((h.coming (hwaiting hw) hwork').resolve_left hcoming))

/-- The other side goes one stage further on its way to the wake. -/
theorem handshake_advance {ring' : Ring} (h : Handshake c s ring side)
    (hpc : s'.pc side = s.pc side) (hflag : s'.flag side = s.flag side)
    (hparking : s'.parking = s.parking) (hnot : ∀ t, s.pc side.other ≠ .unblock (some t))
    (hcoming : Waiting c s side → ring.sleeping side = some (c.thread side) →
      Coming c s' ring' side) : Handshake c s' ring' side := by
  have hwaiting : Waiting c s' side → Waiting c s side := by
    unfold Waiting
    rw [hpc, hparking]
    exact id
  have hon : Waiting c s' side → Coming c s' ring' side ∨ Noted c s' side := by
    intro hw
    rcases h.recorded (hwaiting hw) with hr | hr | hr
    · exact .inl (hcoming (hwaiting hw) hr)
    · exact absurd hr (hnot _)
    · exact .inr ⟨hpc.trans hr.1, by rw [hparking]; exact hr.2⟩
  refine ⟨by rw [hpc, hflag]; exact h.flag, by rw [hparking, hpc]; exact h.blocked, fun hw => ?_,
    fun hw _ => hon hw⟩
  rcases hon hw with (⟨-, hr⟩ | hr) | hr
  · exact .inl hr
  · exact .inr (.inl hr)
  · exact .inr (.inr hr)

theorem asleep_of_waiting (h : Waiting c s side) : (s.pc side).asleep = true := by
  rcases h with hp | ⟨hp, -⟩ <;> rw [hp] <;> rfl

/-- **The other side's step.**  Written for the side that does not move. -/
theorem handshake_other (hm : Mapped c s ring) (h : Handshake c s ring side)
    (hmove : Move c s side.other ring s') :
    ∃ ring', Mapped c s' ring' ∧ Handshake c s' ring' side := by
  have hne : side ≠ side.other := side.other_ne.symm
  have hthread : c.thread side ≠ c.thread side.other := fun heq => hne (thread_injective heq)
  have hself : ∀ (s : State) (pc : Pc), (s.setPc side.other pc).pc side = s.pc side :=
    fun s pc => setPc_of_ne s pc hne
  cases hmove with
  | inside ha hold =>
    have hpc := ha.pc
    rw [Side.other_other] at hpc
    exact ⟨ring, hm.same ha.rings,
      handshake_keep h hpc hold (by rw [ha.flag]) (by rw [ha.parking]) (by rw [ha.parking])
        ha.counter rfl⟩
  | publish hpc hcounter hflag hrings hparking hpc' =>
    -- Nobody has taken the record yet, so this step starts a wake that finds it.
    exact ⟨ring, hm.same hrings, handshake_advance h (by rw [hpc', update_of_ne hne])
      (by rw [hflag]) hparking (by simp [hpc]) fun _ hr => .inl ⟨.inl (by simp [hpc']), hr⟩⟩
  | loadFlag hpc hs' =>
    refine ⟨ring, hm.same (by rw [hs']; rfl), handshake_advance h (by rw [hs', hself])
      (by rw [hs']; rfl) (by rw [hs']; rfl) (by simp [hpc]) fun hw hr => .inl ⟨.inr ?_, hr⟩⟩
    have hset : s.flag side ≠ 0 := by simp [h.flag (asleep_of_waiting hw)]
    rw [hs', setPc_self, Side.other_other, if_pos hset]
  | wake hpc hs' =>
    refine ⟨_, hm.sleeping (by rw [hs']; rfl), handshake_advance h (by rw [hs', hself])
      (by rw [hs']; rfl) (by rw [hs']; rfl) (by simp [hpc]) fun _ hr => .inr ?_⟩
    rw [hs', setPc_self, Side.other_other, hr]
  | @unblock sleeper hpc hs' =>
    have hown : s'.pc side = s.pc side := by rw [hs', hself]
    have hblocked : s'.parking.blocked (c.thread side) = true →
        s.parking.blocked (c.thread side) = true ∧ sleeper ≠ some (c.thread side) := by
      intro hb
      rw [hs'] at hb
      cases sleeper with
      | none => exact ⟨hb, by simp⟩
      | some t =>
        have hb' : (s.parking.unblock t).blocked (c.thread side) = true := hb
        refine ⟨?_, fun heq => ?_⟩
        · by_contra hf
          simp [unblock_blocked_of_false (by simpa using hf)] at hb'
        · cases heq
          simp at hb'
    have hwaiting : Waiting c s' side → Waiting c s side := by
      rintro (hp | ⟨hp, hb⟩)
      · exact .inl (hown.symm.trans hp)
      · exact .inr ⟨hown.symm.trans hp, (hblocked hb).1⟩
    -- What is still parked was not the one unblocked, and had nobody coming for it.
    have hnoted : Waiting c s' side → s.pc side.other = .unblock (some (c.thread side)) ∨
        Noted c s side → Noted c s' side := by
      rintro (hpark | ⟨hp, hb⟩) hwhy
      · have hpark' := hown.symm.trans hpark
        have hrun : s.parking.blocked (c.thread side) = false := by
          by_contra hb
          rcases h.blocked (by simpa using hb) with hp | hp <;> simp [hpark'] at hp
        refine ⟨hpark, ?_⟩
        rw [hs']
        rcases hwhy with hr | hn
        · obtain rfl : sleeper = some (c.thread side) := by simpa [hpc] using hr
          exact unblock_wakePending_self hrun
        · cases sleeper with
          | none => exact hn.2
          | some => exact unblock_wakePending_of_true hn.2
      · rcases hwhy with hr | hn
        · exact absurd (by simpa [hpc] using hr) (hblocked hb).2
        · exact absurd (hp.symm.trans (hown.trans hn.1)) (by simp)
    refine ⟨ring, hm.same (by rw [hs']; rfl), ?_, ?_, ?_, ?_⟩
    · rw [hown, hs']
      exact h.flag
    · intro hb
      rw [hown]
      exact h.blocked (hblocked hb).1
    · exact fun hw => (h.recorded (hwaiting hw)).imp_right fun hr => .inr (hnoted hw hr)
    intro hw hwork
    have hwork' : Work c s side := by
      rw [hs'] at hwork
      exact hwork
    right
    rcases h.coming (hwaiting hw) hwork' with (⟨hr | hr, -⟩ | hr) | hr
    · simp [hpc] at hr
    · simp [hpc] at hr
    · exact hnoted hw (.inl hr)
    · exact hnoted hw (.inr hr)
  | raise hpc hs' =>
    subst hs'
    exact ⟨ring, hm.same rfl,
      handshake_keep h (hself _ _) (by rw [hpc]; rfl) (update_of_ne hne _ _) rfl rfl rfl rfl⟩
  | record hpc hnot hs' =>
    subst hs'
    exact ⟨_, hm.sleeping rfl, handshake_keep h (hself _ _) (by rw [hpc]; rfl) rfl rfl rfl rfl
      (update_of_ne hne _ _)⟩
  | park hpc hs' =>
    subst hs'
    exact ⟨ring, hm.same rfl, handshake_keep h (hself _ _) (by rw [hpc]; rfl) rfl
      (blockCurrent_blocked_of_ne hthread) (blockCurrent_wakePending_of_ne hthread) rfl rfl⟩
  | lower hpc hflag hcounter hrings hparking hpc' =>
    exact ⟨ring, hm.same hrings,
      handshake_keep h (by rw [hpc', update_of_ne hne]) (by rw [hpc]; rfl)
        (by rw [hflag, update_of_ne hne]) (by rw [hparking]) (by rw [hparking]) hcounter rfl⟩

/-- Something that has nothing to do with the ring unblocks a thread. -/
theorem handshake_stray (h : Handshake c s ring side) (t : ThreadId) :
    Handshake c (s.unblock t) ring side := by
  have hblocked : (s.parking.unblock t).blocked (c.thread side) = true →
      s.parking.blocked (c.thread side) = true := by
    intro hb
    by_contra hf
    simp [unblock_blocked_of_false (by simpa using hf)] at hb
  have hwaiting : Waiting c (s.unblock t) side → Waiting c s side :=
    Or.imp_right (And.imp_right hblocked)
  have hnoted : Noted c s side → Noted c (s.unblock t) side :=
    And.imp_right unblock_wakePending_of_true
  exact ⟨h.flag, fun hb => h.blocked (hblocked hb),
    fun hw => (h.recorded (hwaiting hw)).imp_right (Or.imp_right hnoted),
    fun hw hwork => (h.coming (hwaiting hw) hwork).imp_right hnoted⟩

/-- A step of a side that is outside the library, and stays there or starts a call. -/
theorem handshake_outside {x : Side} (h : Handshake c s ring side)
    (hidle : s.pc x = .idle) (hrun : s.parking.blocked (c.thread x) = false)
    (hpc : ∃ pc, (pc = .idle ∨ pc = .start) ∧ s'.pc = update s.pc x pc)
    (hflag : s'.flag = s.flag) (hcounter : s'.counter = s.counter)
    (hparking : s'.parking = s.parking ∨
      s'.parking = (s.parking.blockCurrent (c.thread x)).1 ∧ s'.pc = s.pc) :
    Handshake c s' ring side := by
  obtain ⟨pc, hpc, hpc'⟩ := hpc
  by_cases hx : side = x
  · subst hx
    have hnow : s'.pc side = pc := by rw [hpc', update_self]
    refine .of_not_waiting ?_ ?_ ?_
    · unfold Waiting
      rw [hnow]
      rcases hpc with rfl | rfl <;> simp
    · rw [hnow]
      rcases hpc with rfl | rfl <;> simp
    intro hb
    rcases hparking with hp | ⟨-, hp⟩
    · rw [hp, hrun] at hb
      cases hb
    · exact .inl (by rw [hp, hidle])
  · have hother : side.other = x := by rw [Side.eq_other_of_ne hx, Side.other_other]
    have hthread : c.thread side ≠ c.thread x := fun heq => hx (thread_injective heq)
    refine handshake_keep h ?_ ?_ (by rw [hflag]) ?_ ?_ hcounter rfl
    · rw [hpc', update_of_ne hx]
    · rw [hother, hidle]
      rfl
    · rcases hparking with hp | ⟨hp, -⟩
      · rw [hp]
      · rw [hp, blockCurrent_blocked_of_ne hthread]
    · rcases hparking with hp | ⟨hp, -⟩
      · rw [hp]
      · rw [hp, blockCurrent_wakePending_of_ne hthread]

/-- Both sides of the handshake, on the ring in the table. -/
def Handshakes (c : Config) (s : State) : Prop :=
  ∃ ring, Mapped c s ring ∧ ∀ side, Handshake c s ring side

theorem handshakes_step {l : Label} (h : Handshakes c s) (hs : step c s l = some s') :
    Handshakes c s' := by
  obtain ⟨ring, hm, h⟩ := h
  cases l with
  | call =>
    obtain ⟨hc, rfl⟩ := Machine.of_guard hs
    exact ⟨ring, hm.same rfl, fun side =>
      handshake_outside (h side) hc.1 hc.2 ⟨.start, .inr rfl, rfl⟩ rfl rfl (.inl rfl)⟩
  | go x =>
    obtain ⟨hrun, hmove⟩ := move_of_go hm hs
    obtain ⟨ring', hm', hown⟩ := handshake_own hm (h x) hrun hmove
    have hmove' : Move c s x.other.other ring s' := by rwa [Side.other_other]
    obtain ⟨ring'', hm'', hother⟩ := handshake_other hm (h x.other) hmove'
    cases hm'.found.symm.trans hm''.found
    refine ⟨ring', hm', fun side => ?_⟩
    by_cases hx : side = x
    · exact hx ▸ hown
    · exact Side.eq_other_of_ne hx ▸ hother
  | elsewhere =>
    obtain ⟨hc, rfl⟩ := Machine.of_guard hs
    exact ⟨ring, hm.same rfl, fun side =>
      handshake_outside (h side) hc.1 hc.2 ⟨.idle, .inl rfl, by simp [← hc.1]⟩ rfl rfl
        (.inr ⟨rfl, rfl⟩)⟩
  | stray t =>
    cases hs
    exact ⟨ring, hm.same rfl, fun side => handshake_stray (h side) t⟩

theorem handshakes_reachable (h : (machine c).Reachable s) : Handshakes c s := by
  refine h.invariant (I := Handshakes c) (fun s hinit => ?_)
    fun hs _ hstep => handshakes_step hs hstep
  obtain ⟨ring, hfound, hslots, hholder, -⟩ := hinit.ring
  refine ⟨ring, ⟨hfound, hslots, hholder⟩, fun side => .of_not_waiting ?_ ?_ ?_⟩
  · exact not_waiting_of_running (hinit.pc side) (by simp) (hinit.running side)
  · simp [hinit.pc side]
  · intro hb
    rw [hinit.running side] at hb
    cases hb

/-! ## The wake is issued -/

theorem go_unblock {t : ThreadId} (hrun : s.parking.blocked (c.thread side) = false)
    (hpc : s.pc side = .unblock (some t)) :
    go c s side = some ((s.unblock t).setPc side .idle) := by
  simp [go, hrun, hpc]

theorem go_wake (hm : Mapped c s ring)
    (hrun : s.parking.blocked (c.thread side) = false) (hpc : s.pc side = .wake) :
    go c s side = some ({ s with
      rings := update s.rings c.endpoint (some { ring with
        sleeping := update ring.sleeping side.other none }) }.setPc side
          (.unblock (ring.sleeping side.other))) := by
  simp [go, hrun, hpc, Ring.wake, hm.found, hm.sideOf side]

theorem go_loadFlag (hrun : s.parking.blocked (c.thread side) = false)
    (hpc : s.pc side = .loadFlag) (hflag : s.flag side.other = 1) :
    go c s side = some (s.setPc side .wake) := by
  simp [go, hrun, hpc, hflag]

/-- Left to run, a side that is on its way unparks the one that waits. -/
theorem Coming.unparks (hm : Mapped c s ring) (h : Coming c s ring side)
    (hrun : s.parking.blocked (c.thread side.other) = false) (hflag : s.flag side = 1) :
    ∃ s', Goes c side.other s s' ∧ s'.parking.blocked (c.thread side) = false := by
  have hunblock : ∀ {s₁ : State}, Goes c side.other s s₁ →
      s₁.parking.blocked (c.thread side.other) = false →
      s₁.pc side.other = .unblock (some (c.thread side)) →
      ∃ s', Goes c side.other s s' ∧ s'.parking.blocked (c.thread side) = false := by
    intro s₁ hleads hrun hpc
    exact ⟨_, hleads.trans (leads_go (go_unblock hrun hpc)), unblock_blocked_self _ _⟩
  have hwake : ∀ {s₁ : State}, Goes c side.other s s₁ →
      Mapped c s₁ ring → s₁.parking.blocked (c.thread side.other) = false →
      s₁.pc side.other = .wake → ring.sleeping side = some (c.thread side) →
      ∃ s', Goes c side.other s s' ∧ s'.parking.blocked (c.thread side) = false := by
    intro s₁ hleads hm hrun hpc hsleeping
    have hgo := go_wake hm hrun hpc
    rw [Side.other_other, hsleeping] at hgo
    exact hunblock (hleads.trans (leads_go hgo)) hrun (setPc_self _ _ _)
  rcases h with ⟨hpc | hpc, hsleeping⟩ | hpc
  · have hgo := go_loadFlag hrun hpc (by rwa [Side.other_other])
    exact hwake (leads_go hgo) (hm.same rfl) hrun (setPc_self _ _ _) hsleeping
  · exact hwake .refl hm hrun hpc hsleeping
  · exact hunblock .refl hrun hpc

/-- **No wake is lost.**  Whenever a side is parked in `wait` and there is something for it
to do, the other side is on its way: its flag is up, its record stands or has been taken
for it, and the other side alone unparks it by going on with its call. -/
theorem handshake_loses_no_wake (h : (machine c).Reachable s) (side : Side)
    (hpc : s.pc side = .enter) (hparked : s.parking.blocked (c.thread side) = true)
    (hwork : Work c s side) :
    ∃ ring, s.rings c.endpoint = some ring ∧ Coming c s ring side ∧ s.flag side = 1 ∧
      ∃ s', (machine c).Leads (fun _ l => l = .go side.other) s s' ∧
        s'.parking.blocked (c.thread side) = false := by
  obtain ⟨ring, hm, hshake⟩ := handshakes_reachable h
  have hflag : s.flag side = 1 := (hshake side).flag (by rw [hpc]; rfl)
  have hcoming : Coming c s ring side := by
    refine ((hshake side).coming (.inr ⟨hpc, hparked⟩) hwork).resolve_right fun hn => ?_
    have hpark := hn.1
    simp [hpc] at hpark
  have hrun : s.parking.blocked (c.thread side.other) = false := by
    by_contra hb
    -- A side that is on its way is neither outside the library nor in `wait`.
    rcases (hshake side.other).blocked (by simpa using hb) with hp | hp <;>
      simp [Coming, hp] at hcoming
  exact ⟨ring, hm.found, hcoming, hflag, hcoming.unparks hm hrun hflag⟩

/-- A ring of two slots between threads 1 and 2. -/
def twoSlots : Config := .between 2 (by decide)

/-- The receiver waits on an empty ring until it parks; then the sender publishes. -/
theorem handshake_loses_no_wake_receiver_parked : ∃ s, (machine twoSlots).Reachable s ∧
    (s.pc .receiver = .enter ∧ s.parking.blocked 2 = true ∧ Work twoSlots s .receiver) ∧
    ∃ ring, s.rings 0 = some ring ∧ Coming twoSlots s ring .receiver ∧ s.flag .receiver = 1 ∧
      ∃ s', (machine twoSlots).Leads (fun _ l => l = .go .sender) s s' ∧
        s'.parking.blocked 2 = false := by
  have hstart : (machine twoSlots).Reachable ({ fresh twoSlots with
      attempts := update (fresh twoSlots).attempts .receiver (some 0)
      message := update (fresh twoSlots).message .receiver fun _ => 0 }.setPc .receiver .start) :=
    .step (a := Label.call .receiver true fun _ => 0) (.init (fresh_fresh _)) trivial rfl
  have hraise := (leads_raise (k := 0) rfl (setPc_self _ Side.receiver _) rfl (by decide)
    rfl).reachable hstart
  obtain ⟨s, hs, hpc, hparked, hwork⟩ := hraise.exists_of_exec
    (List.replicate 5 (Label.go .receiver) ++
      Label.call .sender false (fun _ => 1) :: List.replicate 68 (Label.go .sender))
    (fun s => s.pc .receiver = .enter ∧ s.parking.blocked 2 = true ∧
      ready twoSlots .receiver (s.counter .sender - s.counter .receiver) = true) (by decide +kernel)
  exact ⟨s, hs, ⟨hpc, hparked, hwork⟩, handshake_loses_no_wake hs .receiver hpc hparked hwork⟩

end Panda.Channel
