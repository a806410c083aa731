import Mathlib.Data.List.Nodup
import PandaProof.Parking
import PandaProof.Ipc

/-!
# Sleeping receivers and their wakes

The loop of `receive` and the wake at the end of `deliver`, over the registry of
`Ipc`.  Any number of threads create endpoints, grant rights, send, receive and
exit, and the kernel notifies, in any order; each critical section under the
registry lock is one step, and so is each `unblock` and each `block_current`.

`deliver` takes one waiter off the list per message.  An entry is removed only
that way: a receiver that was woken by something else and found a message leaves
`receive` with its entry still on the list.  The next sender pops that entry, so
its wake goes to a thread that is not receiving while another receiver stays
parked over a queued message (`lost_reachable`).  As long as no receiver takes a
message while its own entry is on the list, no wake is lost (`no_lost_wakeup`).
-/
namespace Panda.Ipc

open Quotas (Quota)
open Function List Option Registry Parking Machine

/-- Where a thread is with respect to `receive`. -/
inductive Pc
  /-- Not in `receive`. -/
  | outside
  /-- At the top of the loop, about to take the registry lock. -/
  | looking (e : Nat)
  /-- Found the queue empty, about to call `block_current`. -/
  | registered (e : Nat)
  /-- `block_current` marked it `Blocked`; it goes on once it is unblocked. -/
  | parked (e : Nat)
  /-- Has exited. -/
  | exited
  deriving DecidableEq

/-- The endpoint a thread is receiving on. -/
@[simp] def Pc.endpoint : Pc → Option Nat
  | .looking e | .registered e | .parked e => some e
  | _ => none

structure State where
  registry : Registry
  parking : Parking ThreadId
  /-- Threads taken off a waiting list by a sender that has not unblocked them
  yet. -/
  owed : List ThreadId
  pc : ThreadId → Pc

def initial : State := ⟨.new, .initial, [], fun _ => .outside⟩

/-- Thread `t` goes on at `pc`. -/
@[simp] def State.goto (s : State) (t : ThreadId) (pc : Pc) : State :=
  { s with pc := update s.pc t pc }

abbrev State.block (s : State) (t : ThreadId) : State :=
  { s with parking := (s.parking.blockCurrent t).1 }

/-- Endpoint `e` becomes `q`. -/
def State.setEndpoint (s : State) (e : Nat) (q : Endpoint) : State :=
  { s with registry := s.registry.setEndpoint e q }

/-- A sender took `woken` off a waiting list. -/
def State.owe (s : State) (woken : Option ThreadId) : State :=
  { s with owed := woken.toList ++ s.owed }

inductive Label
  | create (t : ThreadId) (quota : Quota) (capacity : Nat)
  | grant (t target : ThreadId) (allowance e : Nat) (rights : Rights)
  | send (t : ThreadId) (user e : Nat) (message : Message)
  /-- A message from the kernel itself, in whatever context. -/
  | notify (e : Nat) (message : Message)
  /-- A sender unblocks the waiter it took off the list. -/
  | wake (x : ThreadId)
  | tryReceive (t : ThreadId) (e : Nat)
  /-- Calls `receive`. -/
  | receive (t : ThreadId) (e : Nat)
  /-- The critical section of a round of `receive`. -/
  | look (t : ThreadId)
  /-- `block_current` in `receive`. -/
  | block (t : ThreadId)
  /-- Runs again after having been unblocked. -/
  | resume (t : ThreadId)
  /-- Calls `block_current` for a reason of its own. -/
  | elsewhere (t : ThreadId)
  /-- Something unrelated unblocks `t`. -/
  | stray (t : ThreadId)
  | exit (t : ThreadId)

/-- The thread that acts in a step. -/
def Label.actor : Label → Option ThreadId
  | .create t _ _ | .grant t _ _ _ _ | .send t _ _ _ | .tryReceive t _ | .receive t _ | .look t
  | .block t | .resume t | .elsewhere t | .exit t => some t
  | .notify _ _ | .wake _ | .stray _ => none

/-- `deliver`: an error leaves everything as it is, success leaves the sender
owing a wake to the waiter it took off the list. -/
def deliverStep (s : State) (user : Nat) (sender : Option ThreadId) (e : Nat)
    (message : Message) : State := match s.registry.deliver user sender e message with
  | .error _ => s
  | .ok (woken, r) => { s with registry := r }.owe woken

/-- A round of `receive`: out of the loop with a message or an error, or on to
`block_current`. -/
def lookStep (s : State) (t : ThreadId) (e : Nat) : State :=
  match s.registry.receiveRound t e with
  | .error _ => s.goto t .outside
  | .ok (some _, r) => { s with registry := r }.goto t .outside
  | .ok (none, r) => { s with registry := r }.goto t (.registered e)

/-- A thread that is not in `receive` and runs. -/
def State.free (s : State) (t : ThreadId) : Bool :=
  !s.parking.blocked t && s.pc t = .outside

/-- One atomic step. -/
def step (s : State) : Label → Option State
  | .create t quota capacity =>
    if s.free t then some { s with registry := (s.registry.create quota t capacity).2 } else none
  | .grant t target allowance e rights =>
    if s.free t then
      match s.registry.grant allowance t target e rights with
      | .error _ => some s
      | .ok r => some { s with registry := r }
    else none
  | .send t user e message =>
    if s.free t then some (deliverStep s user (some t) e message) else none
  | .notify e message => some (deliverStep s 0 none e message)
  | .wake x =>
    if x ∈ s.owed then
      some { s with owed := s.owed.erase x, parking := s.parking.unblock x }
    else none
  | .tryReceive t e =>
    if s.free t then
      match s.registry.tryReceive t e with
      | .error _ => some s
      | .ok (_, r) => some { s with registry := r }
    else none
  | .receive t e => if s.free t then some (s.goto t (.looking e)) else none
  | .look t =>
    match s.pc t with
    | .looking e => some (lookStep s t e)
    | _ => none
  | .block t =>
    match s.pc t with
    | .registered e =>
      let r := s.parking.blockCurrent t
      some ({ s with parking := r.1 }.goto t (if r.2 then .parked e else .looking e))
    | _ => none
  | .resume t =>
    match s.pc t with
    | .parked e => if s.parking.blocked t then none else some (s.goto t (.looking e))
    | _ => none
  | .elsewhere t =>
    if s.free t then some (s.block t) else none
  | .stray t => some { s with parking := s.parking.unblock t }
  | .exit t =>
    if s.free t then some ({ s with registry := s.registry.releaseThread t }.goto t .exited)
    else none

/-- The registry and all the threads of the system. -/
def machine : Machine State Label where
  Init s := s = initial
  step := step

/-- `t` is in `receive` on `e`, with the right to be. -/
def receiver (s : State) (e : Nat) (t : ThreadId) : Bool :=
  (s.pc t).endpoint = some e && (s.registry.rightsOf t e).contains .receive

/-- Receiver `u` is going to look at the queue of `e` again: it is about to, or
it has been woken from the sleep it is in or about to enter, or a sender owes it
that wake. -/
def willLook (s : State) (e : Nat) (u : ThreadId) : Bool :=
  receiver s e u && match s.pc u with
    | .looking _ => true
    | .registered _ => s.parking.wakePending u || u ∈ s.owed
    | .parked _ => !s.parking.blocked u || u ∈ s.owed
    | _ => false

/-- A message is queued on `e`, a receiver is parked on it, and nobody is going to
look at the queue. -/
def Lost (s : State) (e : Nat) : Prop :=
  (∃ q, s.registry.endpoints e = some q ∧ q.queue ≠ []) ∧
    (∃ t, s.pc t = .parked e ∧ s.parking.blocked t = true) ∧ ∀ u, willLook s e u = false

variable {t u : ThreadId}

open State

theorem goto_pc_of_ne (s : State) (h : u ≠ t) (pc : Pc) : (s.goto t pc).pc u = s.pc u := by
  simp [h]

/-! ## What a step can do -/

/-- The steps, one constructor for each thing that can happen to the registry, to
a thread's position or to its parking. -/
inductive Step (s : State) : Label → State → Prop
  /-- An operation was refused. -/
  | refused {l : Label} : Step s l s
  | create {t : ThreadId} {quota : Quota} {capacity : Nat} {r : Registry}
      (hid : r.nextId = s.registry.nextId + 1) (hend : r.endpoints =
        update s.registry.endpoints s.registry.nextId (some ⟨[], capacity, [], t⟩))
      (hwid : s.registry.Widens r) : Step s (.create t quota capacity) { s with registry := r }
  | grant {t target : ThreadId} {allowance e : Nat} {rights : Rights} {r : Registry}
      (hid : r.nextId = s.registry.nextId) (hend : r.endpoints = s.registry.endpoints)
      (hwid : s.registry.Widens r) :
      Step s (.grant t target allowance e rights) { s with registry := r }
  | deliver {l : Label} {e : Nat} {q : Endpoint} {m : Message}
      (hq : s.registry.endpoints e = some q) : Step s l ((s.setEndpoint e
        { q with queue := q.queue ++ [m], waiting := q.waiting.tail }).owe q.waiting.head?)
  | wake {x : ThreadId} (hx : x ∈ s.owed) :
      Step s (.wake x) { s with owed := s.owed.erase x, parking := s.parking.unblock x }
  | tryTake {t : ThreadId} {e : Nat} {q : Endpoint} {m : Message} {rest : List Message}
      (hq : s.registry.endpoints e = some q) (hm : q.queue = m :: rest) :
      Step s (.tryReceive t e) (s.setEndpoint e { q with queue := rest })
  | receive {t : ThreadId} {e : Nat} (hf : s.free t = true) :
      Step s (.receive t e) (s.goto t (.looking e))
  | lookError {t : ThreadId} {e : Nat} (hpc : s.pc t = .looking e)
      (he : (s.registry.rightsOf t e).contains .receive = false ∨
        s.registry.endpoints e = none) : Step s (.look t) (s.goto t .outside)
  | lookTake {t : ThreadId} {e : Nat} {q : Endpoint} {m : Message} {rest : List Message}
      (hpc : s.pc t = .looking e) (hr : (s.registry.rightsOf t e).contains .receive = true)
      (hq : s.registry.endpoints e = some q) (hm : q.queue = m :: rest) :
      Step s (.look t) ((s.setEndpoint e { q with queue := rest }).goto t .outside)
  | lookAgain {t : ThreadId} {e : Nat} {q : Endpoint} (hpc : s.pc t = .looking e)
      (hr : (s.registry.rightsOf t e).contains .receive = true)
      (hq : s.registry.endpoints e = some q) (hin : t ∈ q.waiting) :
      Step s (.look t) (s.goto t (.registered e))
  | lookRegister {t : ThreadId} {e : Nat} {q : Endpoint} (hpc : s.pc t = .looking e)
      (hr : (s.registry.rightsOf t e).contains .receive = true)
      (hq : s.registry.endpoints e = some q) (hm : q.queue = []) (hin : t ∉ q.waiting) :
      Step s (.look t)
        ((s.setEndpoint e { q with waiting := q.waiting ++ [t] }).goto t (.registered e))
  | blockWoken {t : ThreadId} {e : Nat} (hpc : s.pc t = .registered e)
      (hw : s.parking.wakePending t = true) : Step s (.block t)
        ((s.block t).goto t (.looking e))
  | blockPark {t : ThreadId} {e : Nat} (hpc : s.pc t = .registered e)
      (hw : s.parking.wakePending t = false) : Step s (.block t)
        ((s.block t).goto t (.parked e))
  | resume {t : ThreadId} {e : Nat} (hpc : s.pc t = .parked e)
      (hb : s.parking.blocked t = false) : Step s (.resume t) (s.goto t (.looking e))
  | elsewhere {t : ThreadId} (hf : s.free t = true) :
      Step s (.elsewhere t) (s.block t)
  | stray (t : ThreadId) : Step s (.stray t) { s with parking := s.parking.unblock t }
  | exit {t : ThreadId} (hf : s.free t = true) : Step s (.exit t)
      ({ s with registry := s.registry.releaseThread t }.goto t .exited)

theorem deliverStep_cases (s : State) (l : Label) (user : Nat) (sender : Option ThreadId)
    (e : Nat) (m : Message) : Step s l (deliverStep s user sender e m) := by
  unfold deliverStep
  split
  · exact .refused
  · rename_i woken r hr
    obtain ⟨q, hq, -, rfl, rfl⟩ := deliver_ok hr
    exact .deliver hq

variable {s : State} {e : Nat}

theorem lookStep_cases (hpc : s.pc t = .looking e) : Step s (.look t) (lookStep s t e) := by
  unfold lookStep
  split
  · rename_i err herr
    exact .lookError hpc (receiveRound_error herr)
  · rename_i m r hr
    obtain ⟨hright, q, hq, ⟨msg, rest, hm, -, rfl⟩ | ⟨-, hm, -⟩ | ⟨-, hm, -⟩⟩ := receiveRound_ok hr
    · exact .lookTake hpc hright hq hm
    · cases hm
    · cases hm
  · rename_i r hr
    obtain ⟨hright, q, hq, ⟨msg, rest, -, hm, -⟩ | ⟨-, -, hin, rfl⟩ | ⟨hm, -, hin, rfl⟩⟩ :=
      receiveRound_ok hr
    · cases hm
    · exact .lookAgain hpc hright hq hin
    · exact .lookRegister hpc hright hq hm hin

variable {s' : State} {l : Label}

theorem step_cases (h : step s l = some s') : Step s l s' := by
  cases l with
  | create t quota capacity =>
    obtain ⟨-, rfl⟩ := of_guard h
    rcases s.registry.create_cases quota t capacity with hc | ⟨hid, hend, hwid⟩
    · rw [hc]
      exact .refused
    · exact .create hid hend hwid
  | grant t target allowance e rights =>
    obtain ⟨-, h⟩ := ite_none_right_eq_some.mp h
    split at h
    · exact some.inj h ▸ .refused
    rename_i r hr
    cases h
    obtain ⟨hend, hid, hwid⟩ := grant_ok hr
    exact .grant hid hend hwid
  | send =>
    obtain ⟨-, rfl⟩ := of_guard h
    exact deliverStep_cases ..
  | notify => exact some.inj h ▸ deliverStep_cases ..
  | wake =>
    obtain ⟨hx, rfl⟩ := of_guard h
    exact .wake hx
  | tryReceive t e =>
    obtain ⟨-, h⟩ := ite_none_right_eq_some.mp h
    split at h
    · exact some.inj h ▸ .refused
    rename_i m r hr
    cases h
    rcases tryReceive_ok hr with ⟨-, rfl⟩ | ⟨q, _, _, hq, hm, -, rfl⟩
    · exact .refused
    · exact .tryTake hq hm
  | receive =>
    obtain ⟨hf, rfl⟩ := of_guard h
    exact .receive hf
  | look t =>
    simp only [step] at h
    split at h
    · rename_i e hpc
      exact some.inj h ▸ lookStep_cases hpc
    · cases h
  | block t =>
    simp only [step] at h
    split at h
    · rename_i e hpc
      cases h
      cases hw : s.parking.wakePending t with
      | true =>
        rw [blockCurrent_snd, hw]
        exact .blockWoken hpc hw
      | false =>
        rw [blockCurrent_snd, hw]
        exact .blockPark hpc hw
    · cases h
  | resume t =>
    simp only [step] at h
    split at h
    · rename_i e hpc
      split at h
      · cases h
      · rename_i hb
        exact some.inj h ▸ .resume hpc (by simpa using hb)
    · cases h
  | elsewhere =>
    obtain ⟨hf, rfl⟩ := of_guard h
    exact .elsewhere hf
  | stray t => exact some.inj h ▸ .stray t
  | exit =>
    obtain ⟨hf, rfl⟩ := of_guard h
    exact .exit hf

/-! ## A schedule that loses a wakeup -/

/-- The thread that enters `receive` or exits in a step. -/
def Label.enterer : Label → Option ThreadId
  | .receive t _ | .exit t => some t
  | _ => none

/-- Threads from `n` on do nothing but send. -/
def Below (n : Nat) (_ : State) (l : Label) : Prop := ∀ t ∈ l.enterer, t < n

instance (n : Nat) (s : State) (l : Label) : Decidable (Below n s l) :=
  inferInstanceAs (Decidable (∀ t ∈ l.enterer, t < n))

theorem outside_of_below {n : Nat} (h : machine.Reaches (Below n) s) :
    ∀ u : Nat, n ≤ u → s.pc u = .outside := by
  refine h.invariant_from (I := fun s => ∀ u : Nat, n ≤ u → s.pc u = .outside) ?_ ?_
  · exact fun _ _ => rfl
  intro r l r' hi hok hs u hu
  have hgoto : ∀ {t : ThreadId} {pc : Pc}, u ≠ t → update r.pc t pc u = .outside := fun hut => by
    rw [update_of_ne hut]
    exact hi u hu
  have hne : ∀ {t : ThreadId}, r.pc t ≠ .outside → u ≠ t := by
    rintro t ht rfl
    exact ht (hi u hu)
  cases step_cases hs with
  | @receive t | @exit t => exact hgoto (Nat.ne_of_gt ((hok t rfl).trans_le hu))
  | lookError hpc | lookTake hpc | lookAgain hpc | lookRegister hpc | blockWoken hpc
  | blockPark hpc | resume hpc => exact hgoto (hne (by simp [hpc]))
  | _ => exact hi u hu

/-- Some message. -/
def sample : Message := ⟨1, Vector.replicate 4 0, 0, 0⟩

/-- Thread 0 owns endpoint 1 and lets threads 1 and 2 receive on it.  Thread 2
parks, thread 1 parks behind it and is woken by something unrelated.  A message
arrives and thread 2 is taken off the list for it, but thread 1 is faster: it takes
the message and leaves with its entry still on the list.  Thread 2 is woken for
nothing, registers again behind that entry and parks.  The next message wakes
thread 1. -/
def losingSchedule : List Label :=
  [.create 0 ⟨1, 1, 0, 0⟩ 4, .grant 0 1 1 1 .receive, .grant 0 2 1 1 .receive,
   .receive 2 1, .look 2, .block 2, .receive 1 1, .look 1, .block 1, .stray 1, .send 0 0 1 sample,
   .resume 1, .look 1, .wake 2, .resume 2, .look 2, .block 2, .send 0 0 1 sample, .wake 1]

/-- **A wakeup can be lost**: a message is queued, a receiver is parked on it, no
sender owes a wake to anybody, and nobody is going to look. -/
theorem lost_reachable : ∃ s, machine.Reachable s ∧ Lost s 1 ∧ s.owed = [] := by
  obtain ⟨s, hs, hq, hpc, hb, howed, hlook⟩ := machine.exists_reaches (Below 3)
    losingSchedule (fun s => ((s.registry.endpoints 1).any fun q => !q.queue.isEmpty) = true ∧
      s.pc 2 = .parked 1 ∧ s.parking.blocked 2 = true ∧ s.owed = [] ∧
      ∀ u ∈ range 3, willLook s 1 u = false) rfl (by decide)
  refine ⟨s, hs.mono fun _ _ _ => trivial, ⟨?_, ⟨2, hpc, hb⟩, fun u => ?_⟩, howed⟩
  · obtain ⟨q, hq, hne⟩ := (any_eq_true _ _).mp hq
    exact ⟨q, hq, by simpa using hne⟩
  by_cases hu : u < 3
  · exact hlook u (mem_range.mpr hu)
  · have hout := outside_of_below hs u (Nat.le_of_not_lt hu)
    simp [willLook, hout]

/-! ## Receivers and who will look -/

theorem receiver_iff : receiver s e t = true ↔
    (s.pc t).endpoint = some e ∧ (s.registry.rightsOf t e).contains .receive = true := by
  simp only [receiver, Bool.and_eq_true, decide_eq_true_eq]

theorem willLook_of_looking (hr : receiver s e u = true)
    (hpc : s.pc u = .looking e) : willLook s e u = true := by
  simp [willLook, hr, hpc]

theorem willLook_of_registered (hr : receiver s e u = true)
    (hpc : s.pc u = .registered e) (h : s.parking.wakePending u = true ∨ u ∈ s.owed) :
    willLook s e u = true := by
  simpa [willLook, hr, hpc] using h

theorem willLook_of_parked (hr : receiver s e u = true)
    (hpc : s.pc u = .parked e) (h : s.parking.blocked u = false ∨ u ∈ s.owed) :
    willLook s e u = true := by
  simpa [willLook, hr, hpc] using h

theorem willLook_receiver (h : willLook s e u = true) : receiver s e u = true := by
  simp only [willLook, Bool.and_eq_true] at h
  exact h.1

/-- A receiver is at one of three places. -/
theorem receiver_cases (h : receiver s e t = true) :
    s.pc t = .looking e ∨ s.pc t = .registered e ∨ s.pc t = .parked e := by
  have hpc := (receiver_iff.mp h).1
  revert hpc
  cases s.pc t <;> simp

/-- A thread that stays where it is and keeps its wakes still is going to look. -/
theorem willLook_mono (hpc : s'.pc u = s.pc u)
    (hrec : receiver s e u = true → receiver s' e u = true)
    (hreg : s.pc u = .registered e → s.parking.wakePending u = true ∨ u ∈ s.owed →
      s'.parking.wakePending u = true ∨ u ∈ s'.owed)
    (hpark : s.pc u = .parked e → s.parking.blocked u = false ∨ u ∈ s.owed →
      s'.parking.blocked u = false ∨ u ∈ s'.owed)
    (h : willLook s e u = true) : willLook s' e u = true := by
  have hr := willLook_receiver h
  rcases receiver_cases hr with hl | hl | hl
  · exact willLook_of_looking (hrec hr) (hpc.trans hl)
  · refine willLook_of_registered (hrec hr) (hpc.trans hl) (hreg hl ?_)
    simpa [willLook, hr, hl] using h
  · refine willLook_of_parked (hrec hr) (hpc.trans hl) (hpark hl ?_)
    simpa [willLook, hr, hl] using h

/-! ## Receivers that leave no entry behind -/

/-- The thread that makes a round of `receive` in a step. -/
def Label.looker : Label → Option ThreadId
  | .look t => some t
  | _ => none

/-- The endpoint a thread is about to look at. -/
def Pc.lookingAt : Pc → Option Nat
  | .looking e => some e
  | _ => none

/-- A receiver that finds a message has no entry of its own on the waiting
list. -/
def LeavesClean (s : State) (l : Label) : Prop :=
  ∀ t ∈ l.looker, ∀ e ∈ (s.pc t).lookingAt, ∀ q ∈ s.registry.endpoints e,
    q.queue ≠ [] → t ∉ q.waiting

instance (s : State) (l : Label) : Decidable (LeavesClean s l) :=
  inferInstanceAs (Decidable (∀ t ∈ l.looker, ∀ e ∈ (s.pc t).lookingAt,
    ∀ q ∈ s.registry.endpoints e, q.queue ≠ [] → t ∉ q.waiting))

/-- How the receivers of endpoint `e`, which is `q`, stand. -/
structure Served (s : State) (e : Nat) (q : Endpoint) : Prop where
  nodup : q.waiting.Nodup
  /-- Waiting threads are in `receive`. -/
  waits : ∀ t ∈ q.waiting, receiver s e t = true
  /-- A receiver that is not waiting is going to look. -/
  accounted : ∀ t, receiver s e t = true → t ∉ q.waiting → willLook s e t = true
  /-- While anybody waits, each queued message has a receiver coming for it. -/
  covered : q.waiting ≠ [] → ∃ l : List ThreadId, l.Nodup ∧ q.queue.length ≤ l.length ∧
    ∀ t ∈ l, receiver s e t = true ∧ t ∉ q.waiting

/-- The part of the invariant that holds in every run. -/
structure Settled (s : State) : Prop where
  fresh : ∀ e, s.registry.nextId ≤ e → s.registry.endpoints e = none
  /-- A thread sleeps on endpoints that were created, and may receive on them. -/
  known : ∀ t e, s.pc t = .registered e ∨ s.pc t = .parked e →
    e < s.registry.nextId ∧ (s.registry.rightsOf t e).contains .receive = true
  /-- Threads park in `receive`, or on business of their own. -/
  parks : ∀ t, s.parking.blocked t = true → s.pc t = .outside ∨ ∃ e, s.pc t = .parked e

/-- What every state of a run in which receivers leave no entry behind
satisfies. -/
structure Inv (s : State) : Prop extends Settled s where
  served : ∀ e q, s.registry.endpoints e = some q → Served s e q

theorem initial_inv : Inv initial := by
  refine ⟨?_, ?_⟩
  · constructor <;> simp [initial, new, initial]
  · simp [initial, new, initial]

/-- A sleeper that has not parked yet is not blocked. -/
theorem Settled.not_blocked (hi : Settled s) (ho : s.pc t ≠ .outside)
    (hp : ∀ e, s.pc t ≠ .parked e) : s.parking.blocked t = false := by
  by_contra hb
  rcases hi.parks t (by simpa using hb) with h | ⟨e, h⟩
  · exact ho h
  · exact hp e h

variable {q : Endpoint}

/-- An endpoint that a step does not touch stays served when its receivers stay
and each of them that was going to look still is. -/
theorem Served.mono (h : Served s e q) (hrec : ∀ t, receiver s e t = true → receiver s' e t = true)
    (hlook : ∀ t, t ∉ q.waiting → receiver s' e t = true → willLook s' e t = true ∨
      receiver s e t = true ∧ (willLook s e t = true → willLook s' e t = true)) :
    Served s' e q := by
  refine ⟨h.nodup, fun t ht => hrec t (h.waits t ht), fun t ht hnot => ?_, fun hne => ?_⟩
  · rcases hlook t hnot ht with hl | ⟨hr, hl⟩
    · exact hl
    · exact hl (h.accounted t hr hnot)
  · obtain ⟨l, hnd, hlen, hl⟩ := h.covered hne
    exact ⟨l, hnd, hlen, fun t ht => ⟨hrec t (hl t ht).1, (hl t ht).2⟩⟩

theorem receiver_of_pc (hpc : s'.pc u = s.pc u)
    (hcap : s'.registry.rightsOf u e = s.registry.rightsOf u e) :
    receiver s' e u = receiver s e u := by
  rw [receiver, receiver, hpc, hcap]

/-- Handing out rights makes new receivers only of threads about to look. -/
theorem Served.widens (hi : Inv s) {r : Registry} (hwid : s.registry.Widens r) (h : Served s e q) :
    Served { s with registry := r } e q := by
  have hrec : ∀ t, receiver s e t = true → receiver { s with registry := r } e t = true := by
    intro t ht
    obtain ⟨hpc, hr⟩ := receiver_iff.mp ht
    exact receiver_iff.mpr ⟨hpc, hwid t e _ hr⟩
  refine h.mono hrec fun t _ ht => ?_
  rcases receiver_cases ht with hl | hl
  · exact .inl (willLook_of_looking ht hl)
  · have hr : receiver s e t = true :=
      receiver_iff.mpr ⟨(receiver_iff.mp ht).1, (hi.known t e hl).2⟩
    exact .inr ⟨hr, willLook_mono rfl (hrec t) (fun _ => id) (fun _ => id)⟩

/-- Nobody moves: receivers stay served when no wake is forgotten. -/
theorem Served.wakes (h : Served s e q)
    (hpc : s'.pc = s.pc) (hcap : s'.registry.capabilities = s.registry.capabilities)
    (hreg : ∀ u, s.pc u = .registered e → s.parking.wakePending u = true ∨ u ∈ s.owed →
      s'.parking.wakePending u = true ∨ u ∈ s'.owed)
    (hpark : ∀ u, s.pc u = .parked e → s.parking.blocked u = false ∨ u ∈ s.owed →
      s'.parking.blocked u = false ∨ u ∈ s'.owed) : Served s' e q := by
  have hrec : ∀ t, receiver s' e t = receiver s e t := fun t =>
    receiver_of_pc (by rw [hpc]) (by simp [rightsOf, hcap])
  refine h.mono (fun t ht => (hrec t).trans ht) fun t _ ht => .inr ⟨hrec t ▸ ht, ?_⟩
  exact willLook_mono (by rw [hpc]) (fun hr => (hrec t).trans hr) (hreg t) (hpark t)

/-- Only thread `t` moves; nothing is different for the others. -/
structure Alone (s s' : State) (t : ThreadId) : Prop where
  pc : ∀ u, u ≠ t → s'.pc u = s.pc u
  rights : ∀ u e, u ≠ t → s'.registry.rightsOf u e = s.registry.rightsOf u e
  owed : s'.owed = s.owed
  wakes : ∀ u, u ≠ t → s'.parking.wakePending u = s.parking.wakePending u
  blocked : ∀ u, u ≠ t → s'.parking.blocked u = s.parking.blocked u

theorem Alone.goto (r : Registry) (hcap : r.capabilities = s.registry.capabilities) (pc : Pc) :
    Alone s ({ s with registry := r }.goto t pc) t :=
  ⟨fun _ hu => goto_pc_of_ne _ hu _, fun _ _ _ => by simp [State.goto, rightsOf, hcap], rfl,
    fun _ _ => rfl, fun _ _ => rfl⟩

theorem Alone.block (pc : Pc) :
    Alone s ((s.block t).goto t pc) t :=
  ⟨fun _ hu => goto_pc_of_ne _ hu _, fun _ _ _ => rfl, rfl,
    fun _ hu => blockCurrent_wakePending_of_ne hu, fun _ hu => blockCurrent_blocked_of_ne hu⟩

/-- One thread moves; what matters is whether it stays a receiver of `e`, and
whether it is going to look or waits. -/
theorem Served.moves (h : Served s e q) (ha : Alone s s' t)
    (hstay : receiver s e t = true → receiver s' e t = true)
    (ht : t ∉ q.waiting → receiver s' e t = true → willLook s' e t = true) : Served s' e q := by
  have hrec : ∀ u, u ≠ t → receiver s' e u = receiver s e u := fun u hu =>
    receiver_of_pc (ha.pc u hu) (ha.rights u e hu)
  refine h.mono (fun u hu => ?_) (fun u hw hu => ?_)
  · by_cases hut : u = t
    · subst hut
      exact hstay hu
    · rw [hrec u hut]
      exact hu
  by_cases hut : u = t
  · subst hut
    exact .inl (ht hw hu)
  refine .inr ⟨hrec u hut ▸ hu, willLook_mono (ha.pc u hut) (fun hr => (hrec u hut).trans hr)
    (fun _ => ?_) (fun _ => ?_)⟩
  · rw [ha.wakes u hut, ha.owed]
    exact id
  · rw [ha.blocked u hut, ha.owed]
    exact id

variable {q' : Endpoint} {m : Message}

/-- The one message more is for the waiter that is taken off the list. -/
theorem Served.deliver (h : Served s e q)
    (hqueue : q'.queue = q.queue ++ [m]) (hwaiting : q'.waiting = q.waiting.tail) :
    Served ((s.setEndpoint e q').owe q.waiting.head?) e q' := by
  have hkeep : ∀ u, willLook s e u = true →
      willLook ((s.setEndpoint e q').owe q.waiting.head?) e u = true := by
    intro u hu
    refine willLook_mono (s := s) rfl id (fun _ hr => ?_) (fun _ hr => ?_) hu
    · exact hr.imp_right (mem_append_right _)
    · exact hr.imp_right (mem_append_right _)
  cases hw : q.waiting with
  | nil =>
    have hnone : q'.waiting = [] := by rw [hwaiting, hw]; rfl
    refine ⟨by simp [hnone], by simp [hnone], fun t ht _ => ?_, fun hne => absurd hnone hne⟩
    exact hw ▸ hkeep t (h.accounted t ht (by simp [hw]))
  | cons w ws =>
    have hws : q'.waiting = ws := by rw [hwaiting, hw]; rfl
    have hwait : receiver s e w = true := h.waits w (by simp [hw])
    have hnd : w ∉ ws ∧ ws.Nodup := nodup_cons.mp (hw ▸ h.nodup)
    rw [hw] at hkeep
    refine ⟨hws ▸ hnd.2, fun t ht => ?_, fun t ht hnot => ?_, fun hne => ?_⟩
    · exact h.waits t (hw ▸ mem_cons_of_mem _ (hws ▸ ht))
    · by_cases htw : t = w
      · -- The waiter that was taken off the list is owed a wake.
        subst htw
        have howed : t ∈ ((s.setEndpoint e q').owe (t :: ws).head?).owed := by simp [owe]
        rcases receiver_cases ht with hl | hl | hl
        · exact willLook_of_looking ht hl
        · exact willLook_of_registered ht hl (.inr howed)
        · exact willLook_of_parked ht hl (.inr howed)
      · refine hkeep t (h.accounted t ht ?_)
        simpa [hw, htw, hws] using hnot
    obtain ⟨l, hl, hlen, hmem⟩ := h.covered (by simp [hw])
    refine ⟨w :: l, nodup_cons.mpr ⟨fun hwl => (hmem w hwl).2 (by simp [hw]), hl⟩, ?_, ?_⟩
    · simpa [hqueue] using hlen
    intro t ht
    rw [hws]
    rcases mem_cons.mp ht with rfl | ht
    · exact ⟨hwait, hnd.1⟩
    · refine ⟨(hmem t ht).1, fun hts => (hmem t ht).2 ?_⟩
      rw [hw]
      exact mem_cons_of_mem _ hts

/-- The receiver that takes a message was not waiting, and is one of those coming
for one. -/
theorem Served.take
    (h : Served s e q) (hqueue : q.queue = m :: q'.queue) (hwaiting : q'.waiting = q.waiting)
    (hnot : t ∉ q.waiting) : Served ((s.setEndpoint e q').goto t .outside) e q' := by
  have hout : ∀ u, receiver ((s.setEndpoint e q').goto t .outside) e u = true → u ≠ t := by
    rintro u hu rfl
    simpa using (receiver_iff.mp hu).1
  have hsame : ∀ u, u ≠ t → receiver ((s.setEndpoint e q').goto t .outside) e u =
      receiver s e u := fun u hu => receiver_of_pc (goto_pc_of_ne _ hu _) rfl
  refine ⟨hwaiting ▸ h.nodup, fun u hu => ?_, fun u hu hw => ?_, fun hne => ?_⟩
  · rw [hwaiting] at hu
    have hut : u ≠ t := fun hut => hnot (hut ▸ hu)
    rw [hsame u hut]
    exact h.waits u hu
  · have hut := hout u hu
    refine willLook_mono (s := s) (goto_pc_of_ne _ hut _) (fun hr => (hsame u hut).trans hr)
      (fun _ => id) (fun _ => id) (h.accounted u (hsame u hut ▸ hu) (hwaiting ▸ hw))
  obtain ⟨l, hnd, hlen, hl⟩ := h.covered (hwaiting ▸ hne)
  refine ⟨l.erase t, hnd.erase t, ?_, fun u hu => ?_⟩
  · have hle : l.length ≤ (l.erase t).length + 1 := by
      rw [length_erase]
      split <;> omega
    rw [hqueue, length_cons] at hlen
    omega
  · have hut : u ≠ t := fun hut => (List.Nodup.not_mem_erase hnd) (hut ▸ hu)
    rw [hsame u hut, hwaiting]
    exact hl u (mem_of_mem_erase hu)

/-- A receiver that registers found the queue empty. -/
theorem Served.register (h : Served s e q)
    (hpc : s.pc t = .looking e) (hr : (s.registry.rightsOf t e).contains .receive = true)
    (hqueue : q'.queue = []) (hwaiting : q'.waiting = q.waiting ++ [t]) (hnot : t ∉ q.waiting) :
    Served ((s.setEndpoint e q').goto t (.registered e)) e q' := by
  have hsame : ∀ u, receiver ((s.setEndpoint e q').goto t (.registered e)) e u =
      receiver s e u := by
    intro u
    by_cases hut : u = t
    · subst hut
      simp [receiver, State.setEndpoint, hpc]
    · exact receiver_of_pc (goto_pc_of_ne _ hut _) rfl
  refine ⟨?_, fun u hu => ?_, fun u hu hw => ?_,
    fun _ => ⟨[], nodup_nil, by simp [hqueue], by simp⟩⟩
  · rw [hwaiting]
    refine nodup_append.mpr ⟨h.nodup, nodup_singleton t, ?_⟩
    rintro u hu v hv rfl
    exact hnot (mem_singleton.mp hv ▸ hu)
  · rw [hsame u]
    rw [hwaiting] at hu
    rcases mem_append.mp hu with hu | hu
    · exact h.waits u hu
    · rw [mem_singleton.mp hu]
      exact receiver_iff.mpr ⟨by rw [hpc]; rfl, hr⟩
  · obtain ⟨hwu, hut⟩ : u ∉ q.waiting ∧ u ≠ t := by simpa [hwaiting] using hw
    exact willLook_mono (s := s) (goto_pc_of_ne _ hut _) (fun hr => (hsame u).trans hr)
      (fun _ => id) (fun _ => id) (h.accounted u (hsame u ▸ hu) hwu)

/-- A thread in `receive`, or entering it, that goes on at the top of the loop. -/
theorem Served.looks {e₀ : Nat} (h : Served s e q)
    (hfrom : ∀ e', (s.pc t).endpoint = some e' → e' = e₀) (ha : Alone s s' t)
    (hself : s'.pc t = .looking e₀) (hreg : s'.registry = s.registry) : Served s' e q := by
  refine h.moves ha (fun hr => ?_) (fun _ hr => ?_)
  · obtain ⟨hend, hright⟩ := receiver_iff.mp hr
    exact receiver_iff.mpr ⟨by rw [hself, hfrom e hend]; rfl, hreg ▸ hright⟩
  · have he : e₀ = e := by simpa [hself] using (receiver_iff.mp hr).1
    exact willLook_of_looking hr (he ▸ hself)

theorem State.free_iff : s.free t = true ↔ s.parking.blocked t = false ∧ s.pc t = .outside := by
  simp [free]

/-- A thread that moves from one place of `receive` on `e₀` to another, or into
it: nothing changes for the receivers of another endpoint. -/
theorem Served.elsewhere {e₀ : Nat}
    (h : Served s e q) (hne : e ≠ e₀) (ha : Alone s s' t)
    (hfrom : ∀ e', (s.pc t).endpoint = some e' → e' = e₀)
    (hto : ∀ e', (s'.pc t).endpoint = some e' → e' = e₀) : Served s' e q := by
  refine h.moves ha (fun hr => ?_) (fun _ hr => ?_)
  · exact absurd (hfrom e (receiver_iff.mp hr).1) hne
  · exact absurd (hto e (receiver_iff.mp hr).1) hne

theorem served_step (hi : Inv s) (hok : LeavesClean s l)
    (h : Step s l s') : ∀ e q, s'.registry.endpoints e = some q → Served s' e q := by
  intro e q hq
  have hset : ∀ {e₀ : Nat} {q₀ : Endpoint}, (s.registry.setEndpoint e₀ q₀).endpoints e = some q →
      e = e₀ ∧ q = q₀ ∨ e ≠ e₀ ∧ s.registry.endpoints e = some q := by
    intro e₀ q₀ hq
    by_cases he : e = e₀
    · subst he
      exact .inl ⟨rfl, some.inj (hq.symm.trans (setEndpoint_self ..))⟩
    · exact .inr ⟨he, (setEndpoint_of_ne _ he _).symm.trans hq⟩
  cases h with
  | refused => exact hi.served e q hq
  | @create t quota capacity r hid hend hwid =>
    simp only [hend] at hq
    by_cases he : e = s.registry.nextId
    · subst he
      simp only [update_self, some.injEq] at hq
      subst hq
      refine ⟨nodup_nil, by simp, fun t ht _ => ?_, by simp⟩
      rcases receiver_cases ht with hl | hl
      · exact willLook_of_looking ht hl
      · exact absurd (hi.known t _ hl).1 (lt_irrefl _)
    · exact (hi.served e q (by simpa [he] using hq)).widens hi hwid
  | grant hid hend hwid => exact (hi.served e q (by simpa [hend] using hq)).widens hi hwid
  | @deliver l e₀ q₀ m hq₀ =>
    obtain ⟨rfl, rfl⟩ | ⟨he, hq⟩ := hset hq
    · exact (hi.served e q₀ hq₀).deliver rfl rfl
    · exact (hi.served e q hq).wakes rfl rfl (fun u _ hr => hr.imp_right (mem_append_right _))
        (fun u _ hr => hr.imp_right (mem_append_right _))
  | @wake x =>
    refine (hi.served e q hq).wakes rfl rfl (fun u hpc hr => ?_) (fun u hpc hr => ?_)
    · by_cases hux : u = x
      · subst hux
        exact .inl (unblock_wakePending_self
          (hi.toSettled.not_blocked (by simp [hpc]) (by simp [hpc])))
      · exact hr.imp unblock_wakePending_of_true (mem_erase_of_ne hux).mpr
    · by_cases hux : u = x
      · subst hux
        exact .inl (unblock_blocked_self _ _)
      · exact hr.imp unblock_blocked_of_false (mem_erase_of_ne hux).mpr
  | @tryTake t e₀ q₀ m rest hq₀ hm =>
    obtain ⟨rfl, rfl⟩ | ⟨he, hq⟩ := hset hq
    · have h := hi.served e q₀ hq₀
      refine ⟨h.nodup, h.waits, h.accounted, fun hne => ?_⟩
      obtain ⟨l, hnd, hlen, hl⟩ := h.covered hne
      rw [hm, length_cons] at hlen
      exact ⟨l, hnd, Nat.le_of_succ_le hlen, hl⟩
    · exact (hi.served e q hq).wakes rfl rfl (fun _ _ => id) (fun _ _ => id)
  | @receive t e₀ hf =>
    exact (hi.served e q hq).looks (by simp [(free_iff.mp hf).2]) (.goto _ rfl _)
      (update_self ..) rfl
  | @lookError t e₀ hpc he =>
    refine (hi.served e q hq).moves (.goto _ rfl _) (fun hr => ?_) (fun _ hr => ?_)
    · -- It was refused, so it was no receiver of an endpoint that exists.
      obtain ⟨hend, hright⟩ := receiver_iff.mp hr
      obtain rfl : e₀ = e := by simpa [hpc] using hend
      rcases he with he | he
      · exact absurd hright (by simp [he])
      · cases he.symm.trans hq
    · exact absurd (receiver_iff.mp hr).1 (by simp)
  | @lookTake t e₀ q₀ m rest hpc hr hq₀ hm =>
    have hnot : t ∉ q₀.waiting := hok t rfl e₀ (by rw [hpc]; rfl) q₀ hq₀ (by simp [hm])
    obtain ⟨rfl, rfl⟩ | ⟨he, hq⟩ := hset hq
    · exact (hi.served e q₀ hq₀).take hm rfl hnot
    · exact (hi.served e q hq).elsewhere (t := t) he (.goto (s.registry.setEndpoint e₀ _) rfl _)
        (by simp [hpc, eq_comm]) (by simp)
  | @lookAgain t e₀ q₀ hpc hr hq₀ hin =>
    by_cases he : e = e₀
    · subst he
      obtain rfl : q₀ = q := some.inj (hq₀.symm.trans hq)
      refine (hi.served e q₀ hq₀).moves (.goto _ rfl _) (fun _ => ?_) fun hnot => absurd hin hnot
      exact receiver_iff.mpr ⟨by simp, hr⟩
    · exact (hi.served e q hq).elsewhere he (.goto _ rfl _) (by simp [hpc, eq_comm])
        (by simp [eq_comm])
  | @lookRegister t e₀ q₀ hpc hr hq₀ hm hin =>
    obtain ⟨rfl, rfl⟩ | ⟨he, hq⟩ := hset hq
    · exact (hi.served e q₀ hq₀).register hpc hr hm rfl hin
    · exact (hi.served e q hq).elsewhere (t := t) he (.goto (s.registry.setEndpoint e₀ _) rfl _)
        (by simp [hpc, eq_comm]) (by simp [eq_comm])
  | @blockWoken t e₀ hpc =>
    exact (hi.served e q hq).looks (by simp [hpc, eq_comm]) (.block _) (update_self ..) rfl
  | @blockPark t e₀ hpc hw =>
    have hback : receiver ((s.block t).goto t (.parked e₀)) e t = receiver s e t := by
      simp [receiver, hpc]
    refine (hi.served e q hq).moves (.block _) (fun hr => hback.trans hr) (fun hnot hr => ?_)
    -- No wake is recorded, so a sender that took it off the list still owes it one.
    have he : e₀ = e := by simpa using (receiver_iff.mp hr).1
    have hlook := (hi.served e q hq).accounted t (hback ▸ hr) hnot
    have howed : t ∈ s.owed := by simpa [willLook, hpc, hw, hback ▸ hr] using hlook
    exact willLook_of_parked hr (by simp [he]) (.inr howed)
  | @resume t e₀ hpc =>
    exact (hi.served e q hq).looks (by simp [hpc, eq_comm]) (.goto _ rfl _) (update_self ..) rfl
  | @elsewhere t hf =>
    have hout := (free_iff.mp hf).2
    refine (hi.served e q hq).moves (t := t) ⟨fun _ _ => rfl, fun _ _ _ => rfl, rfl,
      fun _ hu => blockCurrent_wakePending_of_ne hu, fun _ hu => blockCurrent_blocked_of_ne hu⟩ id
      (fun _ hr => ?_)
    exact absurd (receiver_iff.mp hr).1 (by simp [hout])
  | stray =>
    exact (hi.served e q hq).wakes rfl rfl (fun u _ hr => hr.imp_left unblock_wakePending_of_true)
      (fun u _ hr => hr.imp_left unblock_blocked_of_false)
  | @exit t hf =>
    have hout := (free_iff.mp hf).2
    obtain ⟨p, hp, -, rfl⟩ := releaseThread_endpoint hq
    -- It is outside `receive`, so there is no entry to remove.
    have hnot : t ∉ p.waiting := fun ht =>
      absurd (receiver_iff.mp ((hi.served e p hp).waits t ht)).1 (by simp [hout])
    have hfilter : p.waiting.filter (· ≠ t) = p.waiting := by
      refine filter_eq_self.mpr fun u hu => ?_
      exact decide_eq_true fun hut => hnot (hut ▸ hu)
    rw [hfilter]
    refine (hi.served e p hp).moves (t := t) ⟨fun u hu => goto_pc_of_ne _ hu _,
      fun u e hu => releaseThread_rightsOf hu e, rfl, fun _ _ => rfl, fun _ _ => rfl⟩
      (fun hr => ?_) (fun _ hr => ?_)
    · exact absurd (receiver_iff.mp hr).1 (by simp [hout])
    · exact absurd (receiver_iff.mp hr).1 (by simp)

/-- Ids are handed out once. -/
theorem nextId_step (h : step s l = some s') : s.registry.nextId ≤ s'.registry.nextId := by
  cases step_cases h with
  | create hid =>
    simp only [hid]
    omega
  | grant hid => simp only [hid, Nat.le_refl]
  | _ => exact le_rfl

theorem fresh_step (hi : Settled s) (h : Step s l s') :
    ∀ e, s'.registry.nextId ≤ e → s'.registry.endpoints e = none := by
  intro e he
  -- Only endpoints that exist are replaced.
  have hset : ∀ {e₀ : Nat} {q₀ q : Endpoint}, s.registry.endpoints e₀ = some q₀ →
      s.registry.nextId ≤ e → (s.registry.setEndpoint e₀ q).endpoints e = none := by
    intro e₀ q₀ q hq₀ he
    have hne : e ≠ e₀ := by
      rintro rfl
      exact absurd (hq₀.symm.trans (hi.fresh e he)) (by simp)
    rw [setEndpoint_of_ne _ hne]
    exact hi.fresh e he
  cases h with
  | create hid hend =>
    simp only [hid] at he
    simp only [hend, update_of_ne (show e ≠ s.registry.nextId by omega)]
    exact hi.fresh e (by omega)
  | grant hid hend =>
    simp only [hend]
    exact hi.fresh e (hid ▸ he)
  | deliver hq₀ | tryTake hq₀ | lookTake hpc hr hq₀ | lookRegister hpc hr hq₀ => exact hset hq₀ he
  | exit =>
    show (s.registry.endpoints e).bind _ = none
    rw [hi.fresh e he]
    rfl
  | _ => exact hi.fresh e he

theorem known_step (hi : Settled s) (h : Step s l s') :
    ∀ t e, s'.pc t = .registered e ∨ s'.pc t = .parked e →
      e < s'.registry.nextId ∧ (s'.registry.rightsOf t e).contains .receive = true := by
  intro u e hu
  -- A thread that moves to `pc`, where it sleeps only on endpoints it may receive on.
  have hgoto : ∀ {t : ThreadId} {pc : Pc}, (pc = .registered e ∨ pc = .parked e →
      e < s.registry.nextId ∧ (s.registry.rightsOf t e).contains .receive = true) →
      update s.pc t pc u = .registered e ∨ update s.pc t pc u = .parked e →
      e < s.registry.nextId ∧ (s.registry.rightsOf u e).contains .receive = true := by
    intro t pc ht hu
    by_cases hut : u = t
    · subst hut
      exact ht (by simpa using hu)
    · exact hi.known u e (by simpa [hut] using hu)
  have hlt : ∀ {e₀ : Nat} {q₀ : Endpoint}, s.registry.endpoints e₀ = some q₀ →
      e₀ < s.registry.nextId := by
    intro e₀ q₀ hq₀
    by_contra hge
    exact absurd (hq₀.symm.trans (hi.fresh e₀ (Nat.le_of_not_lt hge))) (by simp)
  cases h with
  | create hid hend hwid =>
    obtain ⟨hlt, hr⟩ := hi.known u e hu
    exact ⟨by simp only [hid]; omega, hwid u e _ hr⟩
  | grant hid hend hwid =>
    obtain ⟨hlt, hr⟩ := hi.known u e hu
    exact ⟨by simpa only [hid] using hlt, hwid u e _ hr⟩
  | receive | lookError | lookTake | blockWoken | resume => exact hgoto (by simp) hu
  | @lookAgain t e₀ q₀ hpc hr hq₀ | @lookRegister t e₀ q₀ hpc hr hq₀ =>
    refine hgoto (fun h => ?_) hu
    obtain rfl : e₀ = e := by simpa using h
    exact ⟨hlt hq₀, hr⟩
  | @blockPark t e₀ hpc =>
    refine hgoto (fun h => ?_) hu
    obtain rfl : e₀ = e := by simpa using h
    exact hi.known t e₀ (.inl hpc)
  | @exit t =>
    have hut : u ≠ t := by
      rintro rfl
      simp at hu
    rw [goto_pc_of_ne _ hut] at hu
    refine ⟨(hi.known u e hu).1, ?_⟩
    show ((s.registry.releaseThread t).rightsOf u e).contains _ = true
    rw [releaseThread_rightsOf hut]
    exact (hi.known u e hu).2
  | _ => exact hi.known u e hu

theorem parks_step (hi : Settled s) (h : Step s l s') :
    s'.parking.Rests s'.pc fun pc => pc = .outside ∨ ∃ e, pc = .parked e := by
  have hrests : s.parking.Rests s.pc fun pc => pc = .outside ∨ ∃ e, pc = .parked e := hi.parks
  cases h with
  | wake | stray => exact hrests.unblock
  | receive hf | exit hf => exact hrests.goto (.inl (free_iff.mp hf).1)
  | lookError hpc | lookTake hpc | lookAgain hpc | lookRegister hpc =>
    exact hrests.goto (.inl (hi.not_blocked (by simp [hpc]) (by simp [hpc])))
  | blockWoken hpc hw =>
    exact hrests.block_goto (.inl ⟨hi.not_blocked (by simp [hpc]) (by simp [hpc]), hw⟩)
  | blockPark => exact hrests.block_goto (.inr (.inr ⟨_, rfl⟩))
  | resume hpc hb => exact hrests.goto (.inl hb)
  | elsewhere hf => exact hrests.block (.inl (free_iff.mp hf).2)
  | _ => exact hrests

theorem settled_step (hi : Settled s) (h : step s l = some s') : Settled s' :=
  have hs := step_cases h
  ⟨fresh_step hi hs, known_step hi hs, parks_step hi hs⟩

theorem settled_of_reachable (h : machine.Reachable s) : Settled s :=
  h.invariant_from initial_inv.toSettled fun hi _ hs => settled_step hi hs

theorem inv_step (hi : Inv s) (hok : LeavesClean s l) (h : step s l = some s') : Inv s' :=
  ⟨settled_step hi.toSettled h, served_step hi hok (step_cases h)⟩

/-- **No wakeup is lost** in a run where no receiver takes a message while an
entry of its own is on the waiting list: over a non-empty queue, a parked receiver
implies one that is going to look. -/
theorem no_lost_wakeup {s : State} (h : machine.Reaches LeavesClean s) (e : Nat) : ¬ Lost s e := by
  have hi : Inv s := h.invariant_from initial_inv inv_step
  rintro ⟨⟨q, hq, hqueue⟩, ⟨t, hpc, -⟩, hnone⟩
  have hserved := hi.served e q hq
  have hrec : receiver s e t = true :=
    receiver_iff.mpr ⟨by rw [hpc]; rfl, (hi.known t e (.inr hpc)).2⟩
  have hacc : ∀ u, receiver s e u = true → u ∈ q.waiting := by
    intro u hu
    by_contra hnot
    exact absurd (hserved.accounted u hu hnot) (by simp [hnone u])
  obtain ⟨l, -, _, hl⟩ := hserved.covered (ne_nil_of_mem (hacc t hrec))
  -- The queue is not empty, so somebody is coming who does not wait.
  obtain ⟨u, hu⟩ : ∃ u, u ∈ l := by
    refine exists_mem_of_length_pos ?_
    have := length_pos_of_ne_nil hqueue
    omega
  exact (hl u hu).2 (hacc u (hl u hu).1)

/-- A message is queued and its receiver parked: the sender still owes the wake. -/
theorem no_lost_wakeup_owed : ∃ s, machine.Reaches LeavesClean s ∧
    (s.pc 1 = .parked 1 ∧ s.owed = [1]) ∧ ¬ Lost s 1 := by
  obtain ⟨s, hs, hp⟩ := machine.exists_reaches LeavesClean
    [.create 0 ⟨1, 1, 0, 0⟩ 4, .grant 0 1 1 1 .receive, .receive 1 1, .look 1, .block 1,
      .send 0 0 1 sample] (fun s => s.pc 1 = .parked 1 ∧ s.owed = [1]) rfl (by decide)
  exact ⟨s, hs, hp, no_lost_wakeup hs 1⟩

end Panda.Ipc
