import PandaProof.Ipc

/-!
# Rings

The ring table of `ring.rs`: who owns a ring, which thread mapped which of its two
sides and where, and which side is parked in `wait`.  Every function is one critical
section under the table's lock.  A ring is an endpoint with pages attached and has the
endpoint's id.

The pages themselves are memory both processes write.  What the kernel reads there are
the two counters, the sender's tail and the receiver's head, and they are passed in by
the caller.  Frames are numbers, and the address a side is mapped at is whatever
`reserve_address` found, `none` when it found no room.
-/
namespace Panda

open Function
open Ipc (ThreadId Rights)

namespace Ring

inductive Error
  | invalidArgument | noCapability | noSuchEndpoint | alreadyExists | outOfMemory
  deriving DecidableEq

inductive Side
  | sender
  | receiver
  deriving DecidableEq

namespace Side

/-- `Side::right`: what mapping a side takes. -/
def right : Side → Rights
  | .sender => .send
  | .receiver => .receive

def other : Side → Side
  | .sender => .receiver
  | .receiver => .sender

@[simp] theorem other_other (side : Side) : side.other.other = side := by
  cases side <;> rfl

theorem other_ne (side : Side) : side.other ≠ side := by
  cases side <;> simp [other]

theorem eq_other_of_ne {side x : Side} (h : x ≠ side) : x = side.other := by
  cases side <;> cases x <;> simp_all [other]

end Side

def slotBytes : Nat := 64
def maxSlots : Nat := 4096
def pageSize : Nat := 4096
def firstSlotPage : Nat := 3

/-- How many pages a ring of `slots` messages takes. -/
def pages (slots : Nat) : Nat := firstSlotPage + (slots * slotBytes + pageSize - 1) / pageSize

end Ring

structure Ring where
  owner : ThreadId
  /-- The owner has exited; the ring lives on while either side maps it. -/
  ownerGone : Bool
  frames : List Nat
  slots : BitVec 32
  /-- Who mapped each side, and where. -/
  sides : Ring.Side → Option (ThreadId × Nat)
  /-- A side parked in `wait`. -/
  sleeping : Ring.Side → Option ThreadId

namespace Ring

/-- Messages waiting, or `none` if the counters are inconsistent. -/
def queued (ring : Ring) (tail head : BitVec 32) : Option (BitVec 32) :=
  if tail - head ≤ ring.slots then some (tail - head) else none

/-- Whether a side waiting now would have something to do. -/
def readyFor (ring : Ring) (tail head : BitVec 32) (side : Side) : Bool :=
  match side, ring.queued tail head with
  | _, none => true
  | .receiver, some queued => 0 < queued
  | .sender, some queued => queued < ring.slots

/-- The thread that mapped a side. -/
def holder (ring : Ring) (side : Side) : Option ThreadId := (ring.sides side).map Prod.fst

def sideOf (ring : Ring) (thread : ThreadId) : Except Error Side :=
  if ring.holder .sender = some thread then .ok .sender
  else if ring.holder .receiver = some thread then .ok .receiver
  else .error .noCapability

/-- `RINGS`, by endpoint id. -/
abbrev Table := Nat → Option Ring

/-- The ring `create` enters into the table. -/
def fresh (owner : ThreadId) (frames : List Nat) (slots : BitVec 32) : Ring :=
  ⟨owner, false, frames, slots, fun _ => none, fun _ => none⟩

/-- The critical section of `map`: the frames to map and where; no frames when the side
is mapped already. -/
def claim (rings : Table) (thread : ThreadId) (endpoint : Nat) (side : Side)
    (address : Option Nat) : Except Error ((List Nat × Nat) × Table) := match rings endpoint with
  | none => .error .noSuchEndpoint
  | some ring =>
    match ring.sides side with
    | some (holder, mapped) =>
      if holder = thread then .ok (([], mapped), rings) else .error .alreadyExists
    | none =>
      match address with
      | none => .error .outOfMemory
      | some address =>
        .ok ((ring.frames, address), update rings endpoint (some { ring with
          sides := update ring.sides side (some (thread, address)) }))

/-- The first critical section of a round of `wait`: should the thread park?  If so, it
is in the ring's record as sleeping. -/
def waitRound (rings : Table) (thread : ThreadId) (endpoint : Nat) (tail head : BitVec 32) :
    Except Error (Bool × Table) := match rings endpoint with
  | none => .error .noSuchEndpoint
  | some ring =>
    match ring.sideOf thread with
    | .error error => .error error
    | .ok side =>
      if ring.readyFor tail head side then .ok (false, rings)
      else .ok (true, update rings endpoint (some { ring with
        sleeping := update ring.sleeping side (some thread) }))

/-- The second look, by a thread that did not park: is there something to do? -/
def recheck (rings : Table) (thread : ThreadId) (endpoint : Nat) (tail head : BitVec 32) :
    Except Error Bool := match rings endpoint with
  | none => .error .noSuchEndpoint
  | some ring =>
    match ring.sideOf thread with
    | .error error => .error error
    | .ok side => .ok (ring.readyFor tail head side)

/-- The critical section of `wake`: take the other side out of the record, to be unblocked
once the lock is released. -/
def wake (rings : Table) (thread : ThreadId) (endpoint : Nat) :
    Except Error (Option ThreadId × Table) := match rings endpoint with
  | none => .error .noSuchEndpoint
  | some ring =>
    match ring.sideOf thread with
    | .error error => .error error
    | .ok side =>
      .ok (ring.sleeping side.other, update rings endpoint (some { ring with
        sleeping := update ring.sleeping side.other none }))

/-- A thread withdraws from one ring. -/
def withdraw (ring : Ring) (thread : ThreadId) : Ring :=
  { ring with
    ownerGone := ring.ownerGone || ring.owner = thread
    sides := fun side => (ring.sides side).filter fun x => x.1 ≠ thread
    sleeping := fun side => (ring.sleeping side).filter (· ≠ thread) }

/-- Nobody is left who could use the ring. -/
def dead (ring : Ring) : Bool :=
  ring.ownerGone && (ring.sides .sender).isNone && (ring.sides .receiver).isNone

/-- `release_thread`: a thread that exits withdraws from every ring, and the rings that
leaves to nobody are freed. -/
def releaseThread (rings : Table) (thread : ThreadId) : Table := fun id =>
  ((rings id).map fun ring => ring.withdraw thread).filter fun ring => !ring.dead

/-! ## What each operation does -/

variable {ring : Ring} {t : ThreadId} {side : Side}

theorem holder_of_sideOf (h : ring.sideOf t = .ok side) : ring.holder side = some t := by
  unfold sideOf at h
  split at h
  · rename_i hs
    cases h
    exact hs
  split at h
  · rename_i hr
    cases h
    exact hr
  · cases h

/-- A side stays a thread's as long as the thread is the same at both sides of it. -/
theorem sideOf_congr {ring' : Ring}
    (h : ∀ side, ring'.holder side = some t ↔ ring.holder side = some t) :
    ring'.sideOf t = ring.sideOf t := by
  simp [sideOf, h]

variable {rings rings' : Table} {e : Nat}

/-- `map` claims a side nobody has, or changes nothing. -/
theorem claim_ok {address : Option Nat} {res : List Nat × Nat}
    (h : claim rings t e side address = .ok (res, rings')) :
    rings' = rings ∨ ∃ ring a, rings e = some ring ∧ ring.sides side = none ∧
      rings' = update rings e (some { ring with
        sides := update ring.sides side (some (t, a)) }) := by
  unfold claim at h
  split at h
  · cases h
  rename_i ring hring
  split at h
  · split at h
    · cases h
      exact .inl rfl
    · cases h
  · rename_i hside
    split at h
    · cases h
    · rename_i a
      cases h
      exact .inr ⟨ring, a, hring, hside, rfl⟩

/-- A round of `wait` finds something to do, or records its caller as sleeping. -/
theorem waitRound_ok {tail head : BitVec 32}
    {park : Bool} (h : waitRound rings t e tail head = .ok (park, rings')) :
    ∃ ring side, rings e = some ring ∧ ring.sideOf t = .ok side ∧
      park = !ring.readyFor tail head side ∧ (park = false ∧ rings' = rings ∨ park = true ∧
        rings' = update rings e (some { ring with
          sleeping := update ring.sleeping side (some t) })) := by
  unfold waitRound at h
  split at h
  · cases h
  rename_i ring hring
  split at h
  · cases h
  rename_i side hside
  split at h
  · rename_i hready
    cases h
    exact ⟨ring, side, hring, hside, by simp [hready], .inl ⟨rfl, rfl⟩⟩
  · rename_i hready
    cases h
    exact ⟨ring, side, hring, hside, by simp [hready], .inr ⟨rfl, rfl⟩⟩

theorem wake_ok {sleeper : Option ThreadId} (h : wake rings t e = .ok (sleeper, rings')) :
    ∃ ring sleeping, rings e = some ring ∧
      rings' = update rings e (some { ring with sleeping := sleeping }) := by
  unfold wake at h
  split at h
  · cases h
  rename_i ring hring
  split at h
  · cases h
  · cases h
    exact ⟨ring, _, hring, rfl⟩

variable {u : ThreadId}

/-- A thread that is not the one withdrawing keeps its side. -/
theorem holder_withdraw (h : u ≠ t) (side : Side) :
    (ring.withdraw t).holder side = some u ↔ ring.holder side = some u := by
  simp only [withdraw, holder]
  cases hs : ring.sides side with
  | none => simp
  | some x =>
    by_cases hx : x.1 = t
    · simp [Option.filter, hx, Ne.symm h]
    · simp [Option.filter, hx]

/-- The ring of a thread that stays survives the exit of another. -/
theorem releaseThread_of_holder (h : u ≠ t)
    (hring : rings e = some ring) (hside : ring.holder side = some u) :
    releaseThread rings t e = some (ring.withdraw t) := by
  have hsome : ((ring.withdraw t).sides side).isNone = false := by
    have hkeep := (holder_withdraw h side).mpr hside
    cases hs : (ring.withdraw t).sides side with
    | none => simp [holder, hs] at hkeep
    | some => rfl
  have hdead : (ring.withdraw t).dead = false := by
    cases side <;> simp [dead, hsome]
  simp [releaseThread, hring, hdead, Option.filter]

end Ring
end Panda
