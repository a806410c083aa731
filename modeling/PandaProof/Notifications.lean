import PandaProof.Ipc

/-!
# What the kernel announces

Two parts of the kernel post messages of their own into an endpoint's queue: the one-shot
timers of `timer.rs`, when one comes due, and the network card's driver in `net.rs`, when
frames have arrived.  Both go through `ipc::notify`, and both ignore its answer, so a full
queue loses the message.

`on_tick` runs on every CPU.  It looks at `NEXT` without the lock, takes what is due off
the list under it, and only then posts, one entry after the other; `Ticking` says how far
one CPU has come.

The card is its ring of used buffers: frames with the number of bytes the device says it
wrote, the header in front included.  `announced` is not in the source; it marks the frames
that were there when an interrupt was handled with an endpoint bound.
-/
namespace Panda
namespace Timing
open Ipc (ThreadId)

/-- Tag of a timer's message. -/
def tagTimer : UInt64 := 0x30000

/-- Pending timers one thread may have. -/
def perThread : Nat := 8

structure Timer where
  deadline : Nat
  owner : ThreadId
  endpoint : Nat
  cookie : UInt64

/-- `TIMERS` and `NEXT`. -/
structure Timers where
  list : List Timer
  next : Nat

/-- `u64::MAX`, the end of time. -/
def never : Nat := 0xFFFFFFFFFFFFFFFF

/-- The tick `ms` milliseconds from `ticks`, at least one later. -/
def deadline (ticks hz ms : Nat) : Nat :=
  min never (ticks + max ((min never (ms * max hz 1) + 999) / 1000) 1)

/-- `sys_set` by `owner` at the time `ticks`.  The timer the caller had on the endpoint is
gone even when the new one is refused. -/
def set (r : Ipc.Registry) (ticks hz : Nat) (owner : ThreadId) (endpoint ms : Nat)
    (cookie : UInt64) (t : Timers) : Except Ipc.Error Unit × Timers :=
  if !(r.rightsOf owner endpoint).contains .receive then (.error .noCapability, t)
  else
    let kept := t.list.filter fun timer => timer.owner ≠ owner ∨ timer.endpoint ≠ endpoint
    if perThread ≤ (kept.filter fun timer => timer.owner = owner).length then
      (.error .quotaExceeded, { t with list := kept })
    else
      let deadline := deadline ticks hz ms
      (.ok (), ⟨kept ++ [⟨deadline, owner, endpoint, cookie⟩], min t.next deadline⟩)

/-- The critical section of `on_tick`: what is due, and what is left. -/
def fire (now : Nat) (t : Timers) : List (Nat × UInt64) × Timers :=
  let later := t.list.filter fun timer => now < timer.deadline
  ((t.list.filter fun timer => timer.deadline ≤ now).map fun timer =>
      (timer.endpoint, timer.cookie),
    ⟨later, later.foldl (fun earliest timer => min earliest timer.deadline) never⟩)

/-- How far a CPU is in `on_tick`. -/
inductive Ticking
  | idle
  /-- `NEXT` has been reached. -/
  | entered (now : Nat)
  | notifying (due : List (Nat × UInt64))

/-- What this CPU has taken off the list and not posted yet. -/
def Ticking.due : Ticking → List (Nat × UInt64)
  | .idle | .entered _ => []
  | .notifying due => due

/-- The message of a timer set with `cookie`. -/
def message (cookie : UInt64) : Ipc.Message := ⟨tagTimer, #v[cookie, 0, 0, 0], 0, 0⟩

section
variable {r : Ipc.Registry} {ticks hz ms : Nat} {owner : ThreadId} {endpoint : Nat}
  {cookie : UInt64} {t : Timers} {timer : Timer}

/-- Setting a timer forgets only one: the caller's own on that endpoint. -/
theorem mem_set_of_mem (h : timer ∈ t.list)
    (hother : timer.owner ≠ owner ∨ timer.endpoint ≠ endpoint) :
    timer ∈ (set r ticks hz owner endpoint ms cookie t).2.list := by
  have hkept : timer ∈ t.list.filter fun timer =>
      timer.owner ≠ owner ∨ timer.endpoint ≠ endpoint := by simp [h, hother]
  unfold set
  split
  · exact h
  dsimp only
  split
  · exact hkept
  · exact List.mem_append_left _ hkept

/-- A timer that was set is pending. -/
theorem mem_set_of_ok (h : (set r ticks hz owner endpoint ms cookie t).1.toBool = true) :
    ∃ timer ∈ (set r ticks hz owner endpoint ms cookie t).2.list,
      timer.owner = owner ∧ timer.endpoint = endpoint := by
  unfold set at h ⊢
  split
  · rename_i hright
    rw [if_pos hright] at h
    cases h
  rename_i hright
  rw [if_neg hright] at h
  dsimp only at h ⊢
  split
  · rename_i hfull
    rw [if_pos hfull] at h
    cases h
  · exact ⟨_, List.mem_append_right _ (List.mem_singleton_self _), rfl, rfl⟩

/-- **Firing loses no timer**: what was pending is due now or still pending. -/
theorem mem_fire (now : Nat) (h : timer ∈ t.list) :
    (timer.endpoint, timer.cookie) ∈ (fire now t).1 ∨ timer ∈ (fire now t).2.list := by
  by_cases hdue : timer.deadline ≤ now
  · exact .inl (List.mem_map.mpr ⟨timer, by simp [h, hdue], rfl⟩)
  · exact .inr (List.mem_filter.mpr ⟨h, by simpa using hdue⟩)

end
end Timing

namespace Nic
open Ipc (ThreadId)

/-- Tag of the notification sent when frames have arrived. -/
def tagReceived : UInt64 := 0x20000

/-- Every frame is preceded by a header of this many bytes. -/
def headerBytes : Nat := 10

def maxFrame : Nat := 1514

/-- Receive buffers kept on offer. -/
def receiveBuffers : Nat := 32

/-- A buffer the device has filled. -/
structure Frame where
  written : Nat
  announced : Bool

/-- What `receive` hands out of a frame. -/
def Frame.length (frame : Frame) : Nat := min (frame.written - headerBytes) maxFrame

/-- The card, `BOUND` and `STACK`.  The device can fill only what is on offer. -/
structure Card where
  /-- Filled and not taken back, oldest first. -/
  used : List Frame
  /-- The buffers there are. -/
  buffers : Nat
  fits : used.length ≤ buffers
  few : buffers ≤ receiveBuffers
  /-- An interrupt is waiting to be handled. -/
  raised : Bool
  bound : Nat
  stack : Nat

/-- A frame arrives, if a buffer is on offer. -/
def Card.arrive (written : Nat) (c : Card) : Option Card :=
  if h : c.used.length < c.buffers then
    some { c with
      used := c.used ++ [⟨written, false⟩]
      fits := by rw [List.length_append]; exact h
      raised := true }
  else none

/-- `sys_bind`, which takes the right to send there. -/
def Card.bind (r : Ipc.Registry) (caller : ThreadId) (endpoint : Nat) (c : Card) :
    Except Ipc.Error Card := if c.stack ≠ caller + 1 then .error .noCapability
  else if !(r.rightsOf caller endpoint).contains .send then .error .noCapability
  else .ok { c with bound := endpoint }

/-- The interrupt has been handled, with an endpoint bound if `told`. -/
def Card.handled (told : Bool) (c : Card) : Card :=
  { c with
    used := c.used.map fun frame => { frame with announced := frame.announced || told }
    fits := by simpa using c.fits
    raised := false }

/-- The notification of `on_receive`. -/
def notification : Ipc.Message := ⟨tagReceived, #v[0, 0, 0, 0], 0, 0⟩

/-- `sys_receive` into a buffer of `MAX_FRAME` bytes: the length of the oldest frame, or
zero if nothing was waiting.  The buffer goes straight back on offer. -/
def Card.receive (caller : ThreadId) (c : Card) : Except Ipc.Error (Nat × Card) :=
  if c.stack ≠ caller + 1 then .error .noCapability
  else match h : c.used with
    | [] => .ok (0, c)
    | frame :: rest => .ok (frame.length, { c with
        used := rest
        fits := Nat.le_of_succ_le (by simpa [h] using c.fits) })

theorem Card.bind_ok {r : Ipc.Registry} {caller : ThreadId} {endpoint : Nat} {c c' : Card}
    (h : c.bind r caller endpoint = .ok c') : c' = { c with bound := endpoint } := by
  unfold Card.bind at h
  split at h
  · cases h
  · split at h
    · cases h
    · exact (Except.ok.inj h).symm

/-- With nobody told, nothing is announced. -/
theorem Card.handled_false (c : Card) : (c.handled false).used = c.used := by
  simp [Card.handled]

/-- Taking a frame takes the oldest; a card without frames stays as it is. -/
theorem Card.receive_of_stack {c : Card} {caller : ThreadId} (hstack : c.stack = caller + 1) :
    (c.used = [] ∧ c.receive caller = .ok (0, c)) ∨
      ∃ frame rest c', c.used = frame :: rest ∧ c.receive caller = .ok (frame.length, c') ∧
        c'.used = rest ∧ c'.bound = c.bound ∧ c'.stack = c.stack := by
  unfold Card.receive
  rw [if_neg (not_not.mpr hstack)]
  split
  · rename_i hused
    exact .inl ⟨hused, rfl⟩
  · rename_i frame rest hused
    exact .inr ⟨frame, rest, _, hused, rfl, rfl, rfl, rfl⟩

/-- A frame longer than its header is not taken for the end. -/
theorem Frame.length_pos {frame : Frame} (h : headerBytes < frame.written) : 0 < frame.length :=
  lt_min (Nat.sub_pos_of_lt h) (by decide)

end Nic
end Panda
