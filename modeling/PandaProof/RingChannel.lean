import PandaProof.Parking
import PandaProof.Ring

/-!
# Rings in use

The library's side of a ring (`ring::Ring` of the userland library) against the kernel's
`wait` and `wake`: one thread holds the sender's side, another the receiver's, and each
calls `try_send` and `send`, or `try_receive` and `receive`, as often as it likes.  Every
access to shared memory is one step, down to the single bytes of a slot, every critical
section on the ring table is one step, and so are parking and unblocking.

The two sides run the same code on different words, so it is written once, for a `Side`.
A side's counter is the tail for the sender and the head for the receiver; only the copy
goes the other way.
-/
namespace Panda.Channel

open Function
open Ipc (ThreadId)
open Panda.Ring (Side)

/-- One message. -/
abbrev Slot := Fin 64 → UInt8

/-- `SPINS`: attempts before a side goes to sleep. -/
def spins : Nat := 2000

/-- A ring that `create` accepted, mapped by two threads. -/
structure Config where
  endpoint : Nat
  thread : Side → ThreadId
  distinct : thread .sender ≠ thread .receiver
  slots : BitVec 32
  accepted : 2 ≤ slots.toNat ∧ slots.toNat ≤ Ring.maxSlots

/-- A ring between threads 1 and 2. -/
def Config.between (slots : BitVec 32)
    (accepted : 2 ≤ slots.toNat ∧ slots.toNat ≤ Ring.maxSlots) : Config where
  endpoint := 0
  thread := fun side => match side with
    | .sender => 1
    | .receiver => 2
  distinct := by decide
  slots := slots
  accepted := accepted

/-- What a thread is in the middle of. -/
inductive Pc
  /-- Outside the library. -/
  | idle
  /-- `try_send` or `try_receive`: about to load its own counter. -/
  | start
  /-- In `queued`: about to load the tail. -/
  | loadTail (mine : BitVec 32)
  /-- In `queued`: about to load the head. -/
  | loadHead (mine tail : BitVec 32)
  /-- About to copy byte `i` of the message. -/
  | copy (mine : BitVec 32) (i : Fin 64)
  /-- About to store its counter, one further. -/
  | publish (mine : BitVec 32)
  /-- About to load the other side's flag. -/
  | loadFlag
  /-- About to enter the system call `wake`. -/
  | wake
  /-- In `wake`, the lock released: about to unblock whom it found. -/
  | unblock (sleeper : Option ThreadId)
  /-- `sleep_until`: about to set its flag. -/
  | raise
  /-- In `queued` again, with the flag set. -/
  | lookTail
  | lookHead (tail : BitVec 32)
  /-- In `wait`: about to look under the lock; parked here if it is `Blocked`. -/
  | enter
  /-- In `wait`, recorded as sleeping: about to call `block_current`. -/
  | park
  /-- In `wait`, not parked: about to look again. -/
  | recheck
  /-- About to clear its flag, and to go on or give up. -/
  | lower (goOn : Bool)
  deriving DecidableEq

structure State where
  /-- The tail is the sender's counter, the head the receiver's. -/
  counter : Side → BitVec 32
  /-- A side's sleeping flag. -/
  flag : Side → BitVec 32
  /-- The slots, by their index. -/
  data : Nat → Slot
  rings : Ring.Table
  parking : Parking ThreadId
  pc : Side → Pc
  /-- How many attempts a waiting call has made since it last slept; `none` for a call
  that does not wait. -/
  attempts : Side → Option Nat
  /-- The message being sent, or the one being received. -/
  message : Side → Slot
  /-- The messages published, and those taken, oldest first. -/
  sent : List Slot
  received : List Slot

variable (c : Config)

/-- `slot(index)`. -/
def slotOf (index : BitVec 32) : Nat := (index % c.slots).toNat

/-- `queued`, from the two counters as they were read. -/
def queued (tail head : BitVec 32) : Option (BitVec 32) :=
  if tail - head ≤ c.slots then some (tail - head) else none

/-- Whether a side has something to do with so many messages in the ring. -/
def ready : Side → BitVec 32 → Bool
  | .sender, queued => queued < c.slots
  | .receiver, queued => 0 < queued

namespace State

abbrev unblock (s : State) (t : ThreadId) : State := { s with parking := s.parking.unblock t }

def setPc (s : State) (side : Side) (pc : Pc) : State :=
  { s with pc := update s.pc side pc }

/-- An attempt failed: try again, go to sleep, or return `false`. -/
def failed (s : State) (side : Side) : State :=
  match s.attempts side with
  | none => s.setPc side .idle
  | some k =>
    if k + 1 < spins then
      { s with attempts := update s.attempts side (some (k + 1)) }.setPc side .start
    else s.setPc side .raise

end State

/-- One byte of the message into the slot, or out of it. -/
def copyByte (s : State) (side : Side) (mine : BitVec 32) (i : Fin 64) : State :=
  let slot := slotOf c mine
  match side with
  | .sender => { s with
      data := update s.data slot
        (update (s.data slot) i (s.message .sender i)) }
  | .receiver => { s with
      message := update s.message .receiver
        (update (s.message .receiver) i (s.data slot i)) }

/-- A side advances its counter.  This is where a message counts as sent or received. -/
def advance (s : State) (side : Side) (mine : BitVec 32) : State :=
  let s := { s with counter := update s.counter side (mine + 1) }
  match side with
  | .sender => { s with sent := s.sent ++ [s.message .sender] }
  | .receiver => { s with received := s.received ++ [s.message .receiver] }

/-- Where a side is once byte `i` is copied. -/
def Pc.afterByte (mine : BitVec 32) (i : Fin 64) : Pc :=
  if h : i.val + 1 < 64 then .copy mine ⟨i.val + 1, h⟩ else .publish mine

/-- The next step of a side that is inside the library. -/
def go (s : State) (side : Side) : Option State :=
  let me := c.thread side
  if s.parking.blocked me then none
  else match s.pc side with
  | .idle => none
  | .start => some (s.setPc side (.loadTail (s.counter side)))
  | .loadTail mine => some (s.setPc side (.loadHead mine (s.counter .sender)))
  | .loadHead mine tail =>
    if (queued c tail (s.counter .receiver)).any (ready c side) then
      some (s.setPc side (.copy mine 0))
    else some (s.failed side)
  | .copy mine i =>
    some ((copyByte c s side mine i).setPc side (.afterByte mine i))
  | .publish mine => some ((advance s side mine).setPc side .loadFlag)
  | .loadFlag => some (s.setPc side (if s.flag side.other ≠ 0 then .wake else .idle))
  | .wake =>
    match Ring.wake s.rings me c.endpoint with
    | .ok (sleeper, rings) => some ({ s with rings := rings }.setPc side (.unblock sleeper))
    | .error _ => some (s.setPc side .idle)
  | .unblock sleeper =>
    match sleeper with
    | some t => some ((s.unblock t).setPc side .idle)
    | none => some (s.setPc side .idle)
  | .raise => some ({ s with flag := update s.flag side 1 }.setPc side .lookTail)
  | .lookTail => some (s.setPc side (.lookHead (s.counter .sender)))
  | .lookHead tail =>
    match queued c tail (s.counter .receiver) with
    | none => some (s.setPc side (.lower false))
    | some queued => some (s.setPc side (if ready c side queued then .lower true else .enter))
  | .enter =>
    match Ring.waitRound s.rings me c.endpoint (s.counter .sender) (s.counter .receiver) with
    | .ok (park, rings) =>
      some ({ s with rings := rings }.setPc side (if park then .park else .recheck))
    | .error _ => some (s.setPc side (.lower true))
  | .park =>
    -- A thread that parks goes on, once it is unblocked, with another round.
    let r := s.parking.blockCurrent me
    some ({ s with parking := r.1 }.setPc side (if r.2 then .enter else .recheck))
  | .recheck =>
    match Ring.recheck s.rings me c.endpoint (s.counter .sender) (s.counter .receiver) with
    | .ok ready => some (s.setPc side (if ready then .lower true else .enter))
    | .error _ => some (s.setPc side (.lower true))
  | .lower goOn =>
    let s := { s with flag := update s.flag side 0 }
    some (if goOn then
      { s with attempts := update s.attempts side (some 0) }.setPc side .start
    else s.setPc side .idle)

inductive Label
  /-- A side calls `try_send` or `try_receive`, or `send` or `receive` if it `waits`; the
  message is what it sends, or what its receive buffer holds. -/
  | call (side : Side) (waits : Bool) (message : Slot)
  /-- A side goes on with its call. -/
  | go (side : Side)
  /-- Outside the library, a side's thread calls `block_current` elsewhere. -/
  | elsewhere (side : Side)
  /-- Something that has nothing to do with the ring unblocks a thread. -/
  | stray (t : ThreadId)

/-- One atomic step. -/
def step (s : State) : Label → Option State
  | .call side waits message =>
    if s.pc side = .idle ∧ s.parking.blocked (c.thread side) = false then
      some ({ s with
        attempts := update s.attempts side (if waits then some 0 else none)
        message := update s.message side message }.setPc side .start)
    else none
  | .go side => go c s side
  | .elsewhere side =>
    if s.pc side = .idle ∧ s.parking.blocked (c.thread side) = false then
      some { s with parking := (s.parking.blockCurrent (c.thread side)).1 }
    else none
  | .stray t => some (s.unblock t)

/-- The ring as `create` and the two `map`s leave it. -/
structure Fresh (s : State) : Prop where
  counter : ∀ side, s.counter side = 0
  flag : ∀ side, s.flag side = 0
  pc : ∀ side, s.pc side = .idle
  sent : s.sent = []
  received : s.received = []
  running : ∀ side, s.parking.blocked (c.thread side) = false
  ring : ∃ ring, s.rings c.endpoint = some ring ∧ ring.slots = c.slots ∧
    (∀ side, ring.holder side = some (c.thread side)) ∧ ∀ side, ring.sleeping side = none

/-- A ring just created and mapped. -/
def fresh : State where
  counter := fun _ => 0
  flag := fun _ => 0
  data := fun _ _ => 0
  rings := fun e => if e = c.endpoint then some { Ring.fresh (c.thread .sender) [] c.slots with
    sides := fun side => some (c.thread side, 0) } else none
  parking := ⟨fun _ => false, fun _ => false⟩
  pc := fun _ => .idle
  attempts := fun _ => none
  message := fun _ _ => 0
  sent := []
  received := []

theorem fresh_fresh : Fresh c (fresh c) :=
  ⟨fun _ => rfl, fun _ => rfl, fun _ => rfl, rfl, rfl, fun _ => rfl,
    _, if_pos rfl, rfl, fun _ => rfl, fun _ => rfl⟩

/-- Both threads, in any order. -/
def machine : Machine State Label where
  Init := Fresh c
  step := step c

end Panda.Channel
