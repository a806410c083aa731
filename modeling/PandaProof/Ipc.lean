import Mathlib.Logic.Function.Basic
import Mathlib.Data.Nat.Bitwise
import PandaProof.Quotas

/-!
# Endpoints and capabilities

The registry of `ipc.rs`: endpoints with their bounded message queues and the
threads waiting on them, and the capability lists saying which thread may do
what with which endpoint.  Every function here is one critical section under the
registry lock; waking and parking happen outside it and are modelled with the
protocol in `IpcWakeup`.

The two `BTreeMap`s are functions from keys.  Endpoint ids count up from 1 and
are never reused, so iterating over the endpoints is iterating over the ids below
`nextId`.  A thread without a capability list and one with an empty list cannot
be told apart by anything in the module, so `capabilities` is total.  A thread's quota is
passed in by the caller, since it may change between two calls.
-/
namespace Panda.Ipc

open Quotas (Quota)
open Function

/-- `ThreadId`. -/
abbrev ThreadId := Nat

/-- The sender of a message the kernel sent on its own account. -/
def kernelSender : Nat := 2 ^ 64 - 1

/-- Upper bound on an endpoint's queue. -/
def maxCapacity : Nat := 256

structure Message where
  tag : UInt64
  words : Vector UInt64 4
  sender : Nat
  senderUser : Nat
  deriving DecidableEq

inductive Error
  | invalidArgument | noSuchEndpoint | noCapability | queueFull | quotaExceeded
  deriving DecidableEq

/-- `Rights`, a set of bits. -/
structure Rights where
  bits : Nat
  deriving DecidableEq

namespace Rights

def none : Rights := ⟨0⟩
def send : Rights := ⟨1⟩
def receive : Rights := ⟨2⟩
def grant : Rights := ⟨4⟩

def union (a b : Rights) : Rights := ⟨a.bits ||| b.bits⟩
def intersection (a b : Rights) : Rights := ⟨a.bits &&& b.bits⟩
def contains (a b : Rights) : Bool := a.bits &&& b.bits = b.bits
def isEmpty (a : Rights) : Bool := a.bits = 0

/-- Widening a set of rights loses none of them. -/
theorem contains_union_left {a c : Rights} (b : Rights) (h : a.contains c = true) :
    (a.union b).contains c = true := by
  have hand : a.bits &&& c.bits = c.bits := of_decide_eq_true h
  refine decide_eq_true (Nat.eq_of_testBit_eq fun i => ?_)
  have hi := congrArg (Nat.testBit · i) hand
  simp only [Nat.testBit_and] at hi
  simp only [union, Nat.testBit_and, Nat.testBit_or]
  revert hi
  cases a.bits.testBit i <;> cases b.bits.testBit i <;> simp

end Rights

structure Endpoint where
  queue : List Message
  capacity : Nat
  /-- Threads blocked in `receive` on this endpoint, oldest first. -/
  waiting : List ThreadId
  owner : ThreadId

structure Registry where
  endpoints : Nat → Option Endpoint
  nextId : Nat
  capabilities : ThreadId → List (Nat × Rights)

namespace Registry

/-- `Registry::new`. -/
def new : Registry := ⟨fun _ => Option.none, 1, fun _ => []⟩

def rightsOf (r : Registry) (thread : ThreadId) (endpoint : Nat) : Rights :=
  (((r.capabilities thread).find? fun c => c.1 = endpoint).map Prod.snd).getD Rights.none

/-- Widen the first capability for `endpoint` in a list. -/
def widen (endpoint : Nat) (rights : Rights) : List (Nat × Rights) → List (Nat × Rights)
  | [] => []
  | (id, held) :: list =>
    if id = endpoint then (id, held.union rights) :: list
    else (id, held) :: widen endpoint rights list

/-- `add_rights`; `allowance` is the number of capabilities `thread` may hold. -/
def addRights (allowance : Nat) (r : Registry) (thread : ThreadId) (endpoint : Nat)
    (rights : Rights) : Except Error Registry := let list := r.capabilities thread
  if list.any fun c => c.1 = endpoint then
    .ok { r with capabilities :=
      Function.update r.capabilities thread (widen endpoint rights list) }
  else if allowance ≤ list.length then .error .quotaExceeded
  else
    .ok { r with capabilities :=
      Function.update r.capabilities thread (list ++ [(endpoint, rights)]) }

def endpointsOwnedBy (r : Registry) (thread : ThreadId) : Nat :=
  ((List.range r.nextId).filter fun id =>
    (r.endpoints id).any fun endpoint => endpoint.owner = thread).length

/-- Replace the endpoint under `id`. -/
def setEndpoint (r : Registry) (id : Nat) (endpoint : Endpoint) : Registry :=
  { r with endpoints := update r.endpoints id (some endpoint) }

/-- `create`.  The endpoint is inserted before the rights are added, and stays
when adding them is refused. -/
def create (quota : Quota) (r : Registry) (owner : ThreadId) (capacity : Nat) :
    Except Error Nat × Registry :=
  if capacity = 0 ∨ maxCapacity < capacity then (.error .invalidArgument, r)
  else if quota.endpoints ≤ r.endpointsOwnedBy owner then (.error .quotaExceeded, r)
  else
    let id := r.nextId
    let r := { r with nextId := r.nextId + 1 }.setEndpoint id ⟨[], capacity, [], owner⟩
    match r.addRights quota.capabilities owner id ((Rights.send.union .receive).union .grant) with
    | .error e => (.error e, r)
    | .ok r => (.ok id, r)

/-- `grant`: authority narrows as it travels. -/
def grant (allowance : Nat) (r : Registry) (granter target : ThreadId) (endpoint : Nat)
    (rights : Rights) : Except Error Registry :=
  if (r.endpoints endpoint).isNone then .error .noSuchEndpoint
  else
    let held := r.rightsOf granter endpoint
    if !held.contains .grant then .error .noCapability
    else
      let effective := rights.intersection held
      if effective.isEmpty then .error .noCapability
      else r.addRights allowance target endpoint effective

/-- A message as it is queued: the sender cannot choose the last two fields.
`user` is what `users::of` says about a sending thread. -/
def stamp (sender : Option ThreadId) (user : Nat) (message : Message) : Message :=
  { message with
    sender := sender.getD kernelSender
    senderUser := if sender.isSome then user else kernelSender }

/-- The critical section of `deliver`: the message is stamped and queued, and the
oldest waiter is taken off the list, to be woken once the lock is released. -/
def deliver (user : Nat) (r : Registry) (sender : Option ThreadId) (endpoint : Nat)
    (message : Message) : Except Error (Option ThreadId × Registry) :=
  if sender.any fun sender => !(r.rightsOf sender endpoint).contains .send then
    .error .noCapability
  else match r.endpoints endpoint with
    | none => .error .noSuchEndpoint
    | some queue =>
      if queue.capacity ≤ queue.queue.length then .error .queueFull
      else .ok (queue.waiting.head?, r.setEndpoint endpoint { queue with
        queue := queue.queue ++ [stamp sender user message], waiting := queue.waiting.tail })

/-- The critical section of one round of `receive`: the oldest message, or none
and the receiver is on the waiting list. -/
def receiveRound (r : Registry) (receiver : ThreadId) (endpoint : Nat) :
    Except Error (Option Message × Registry) :=
  if !(r.rightsOf receiver endpoint).contains .receive then .error .noCapability
  else match r.endpoints endpoint with
    | none => .error .noSuchEndpoint
    | some queue =>
      match queue.queue with
      | message :: rest => .ok (some message, r.setEndpoint endpoint { queue with queue := rest })
      | [] =>
        if queue.waiting.contains receiver then .ok (none, r)
        else .ok (none, r.setEndpoint endpoint
          { queue with waiting := queue.waiting ++ [receiver] })

def tryReceive (r : Registry) (receiver : ThreadId) (endpoint : Nat) :
    Except Error (Option Message × Registry) :=
  if !(r.rightsOf receiver endpoint).contains .receive then .error .noCapability
  else match r.endpoints endpoint with
    | none => .error .noSuchEndpoint
    | some queue =>
      match queue.queue with
      | message :: rest => .ok (some message, r.setEndpoint endpoint { queue with queue := rest })
      | [] => .ok (none, r)

/-- `release_thread`: forget a thread that exits, with the endpoints it owns and
its place on every other waiting list. -/
def releaseThread (r : Registry) (thread : ThreadId) : Registry :=
  { r with
    capabilities := update r.capabilities thread []
    endpoints := fun id => (r.endpoints id).bind fun endpoint =>
      if endpoint.owner = thread then none
      else some { endpoint with waiting := endpoint.waiting.filter (· ≠ thread) } }

/-! ## What each operation does -/

@[simp] theorem setEndpoint_self (r : Registry) (id : Nat) (endpoint : Endpoint) :
    (r.setEndpoint id endpoint).endpoints id = some endpoint := by
  simp [setEndpoint]

variable {e : Nat}

theorem setEndpoint_of_ne (r : Registry) {id : Nat} (h : e ≠ id) (endpoint : Endpoint) :
    (r.setEndpoint id endpoint).endpoints e = r.endpoints e := by
  simp [setEndpoint, h]

@[simp] theorem setEndpoint_rightsOf (r : Registry) (id : Nat) (endpoint : Endpoint)
    (t : ThreadId) (e : Nat) : (r.setEndpoint id endpoint).rightsOf t e = r.rightsOf t e := rfl

variable {r r' : Registry}

theorem deliver_ok {user : Nat} {sender woken : Option ThreadId}
    {m : Message} (h : r.deliver user sender e m = .ok (woken, r')) :
    ∃ q, r.endpoints e = some q ∧ q.queue.length < q.capacity ∧ woken = q.waiting.head? ∧
      r' = r.setEndpoint e { q with
        queue := q.queue ++ [stamp sender user m], waiting := q.waiting.tail } := by
  unfold deliver at h
  split at h
  · cases h
  split at h
  · cases h
  rename_i q hq
  split at h
  · cases h
  · rename_i hcap
    cases h
    exact ⟨q, hq, Nat.lt_of_not_le hcap, rfl, rfl⟩

variable {t : ThreadId} {m : Option Message}

/-- One round of `receive` takes the oldest message, or finds none and leaves the
receiver on the waiting list, once. -/
theorem receiveRound_ok (h : r.receiveRound t e = .ok (m, r')) :
    (r.rightsOf t e).contains .receive = true ∧ ∃ q, r.endpoints e = some q ∧
      ((∃ msg rest, q.queue = msg :: rest ∧ m = some msg ∧
          r' = r.setEndpoint e { q with queue := rest }) ∨
        (q.queue = [] ∧ m = none ∧ t ∈ q.waiting ∧ r' = r) ∨
        (q.queue = [] ∧ m = none ∧ t ∉ q.waiting ∧
          r' = r.setEndpoint e { q with waiting := q.waiting ++ [t] })) := by
  unfold receiveRound at h
  split at h
  · cases h
  rename_i hright
  refine ⟨by simpa using hright, ?_⟩
  split at h
  · cases h
  rename_i q hq
  refine ⟨q, hq, ?_⟩
  split at h
  · rename_i msg rest hqueue
    cases h
    exact .inl ⟨msg, rest, hqueue, rfl, rfl⟩
  rename_i hqueue
  split at h
  · rename_i hin
    cases h
    exact .inr (.inl ⟨hqueue, rfl, by simpa using hin, rfl⟩)
  · rename_i hin
    cases h
    exact .inr (.inr ⟨hqueue, rfl, by simpa using hin, rfl⟩)

/-- A round of `receive` fails for want of the right, or of the endpoint. -/
theorem receiveRound_error {err : Error} (h : r.receiveRound t e = .error err) :
    (r.rightsOf t e).contains .receive = false ∨ r.endpoints e = none := by
  unfold receiveRound at h
  split at h
  · rename_i hright
    exact .inl (by simpa using hright)
  split at h
  · rename_i hq
    exact .inr hq
  · split at h
    · cases h
    · split at h <;> cases h

theorem tryReceive_ok (h : r.tryReceive t e = .ok (m, r')) :
    m = none ∧ r' = r ∨ ∃ q msg rest, r.endpoints e = some q ∧ q.queue = msg :: rest ∧
      m = some msg ∧
      r' = r.setEndpoint e { q with queue := rest } := by
  unfold tryReceive at h
  split at h
  · cases h
  split at h
  · cases h
  rename_i q hq
  split at h
  · rename_i msg rest hqueue
    cases h
    exact .inr ⟨q, msg, rest, hq, hqueue, rfl, rfl⟩
  · cases h
    exact .inl ⟨rfl, rfl⟩

/-- Every right held in `r` is held in `r'`. -/
def Widens (r r' : Registry) : Prop :=
  ∀ t e c, (r.rightsOf t e).contains c = true → (r'.rightsOf t e).contains c = true

variable {rights : Rights} {list : List (Nat × Rights)}

theorem find_widen_self : (widen e rights list).find? (fun c => c.1 = e) =
      (list.find? fun c => c.1 = e).map fun c => (c.1, c.2.union rights) := by
  induction list with
  | nil => rfl
  | cons c list ih =>
    unfold widen
    by_cases h : c.1 = e
    · simp [h]
    · simp [h, ih]

theorem find_widen_of_ne {x : Nat} (hx : x ≠ e) :
    (widen e rights list).find? (fun c => c.1 = x) = list.find? fun c => c.1 = x := by
  induction list with
  | nil => rfl
  | cons c list ih =>
    unfold widen
    by_cases h : c.1 = e
    · simp [h, Ne.symm hx]
    · rw [if_neg h, List.find?_cons, List.find?_cons, ih]

variable {allowance endpoint : Nat}

/-- Adding rights touches no endpoint and takes no right away. -/
theorem addRights_ok {thread : ThreadId}
    (h : r.addRights allowance thread endpoint rights = .ok r') :
    r'.endpoints = r.endpoints ∧ r'.nextId = r.nextId ∧ Widens r r' := by
  unfold addRights at h
  simp only at h
  split at h
  · cases h
    refine ⟨rfl, rfl, fun t e c hc => ?_⟩
    by_cases ht : t = thread
    · subst ht
      simp only [rightsOf, update_self] at hc ⊢
      by_cases he : e = endpoint
      · subst he
        rw [find_widen_self]
        cases hf : (r.capabilities t).find? fun c => c.1 = e with
        | none => simpa [hf] using hc
        | some =>
          simp only [hf, Option.map_some, Option.getD_some] at hc ⊢
          exact Rights.contains_union_left _ hc
      · rwa [find_widen_of_ne he]
    · simpa [rightsOf, ht] using hc
  · split at h
    · cases h
    rename_i hnew _
    cases h
    refine ⟨rfl, rfl, fun t e c hc => ?_⟩
    by_cases ht : t = thread
    · subst ht
      simp only [rightsOf, update_self, List.find?_append] at hc ⊢
      cases hf : (r.capabilities t).find? fun c => c.1 = e with
      | some => simpa [hf] using hc
      | none =>
        -- The thread held nothing over `e`, and nothing is contained in any set.
        have hzero : c.bits = 0 := by
          simpa [hf, Rights.contains, Rights.none] using (of_decide_eq_true hc).symm
        simp [Rights.contains, hzero]
    · simpa [rightsOf, ht] using hc

/-- A successful `grant` is one of rights the granter holds, on an endpoint that
exists. -/
theorem grant_iff {granter target : ThreadId} :
    r.grant allowance granter target endpoint rights = .ok r' ↔
      (r.endpoints endpoint).isSome = true ∧ (r.rightsOf granter endpoint).contains .grant = true ∧
      (rights.intersection (r.rightsOf granter endpoint)).isEmpty = false ∧
      r.addRights allowance target endpoint (rights.intersection (r.rightsOf granter endpoint)) =
        .ok r' := by
  unfold grant
  cases he : r.endpoints endpoint with
  | none => simp
  | some =>
    simp only [Option.isNone_some, Bool.false_eq_true, if_false, Option.isSome_some, true_and]
    cases (r.rightsOf granter endpoint).contains .grant with
    | false => simp
    | true =>
      cases (rights.intersection (r.rightsOf granter endpoint)).isEmpty with
      | true | false => simp

theorem grant_ok {granter target : ThreadId}
    (h : r.grant allowance granter target endpoint rights = .ok r') :
    r'.endpoints = r.endpoints ∧ r'.nextId = r.nextId ∧ Widens r r' :=
  addRights_ok (grant_iff.mp h).2.2.2

/-- `create` leaves the registry alone or adds one empty endpoint under a fresh
id; it does the latter even when it reports that the rights were refused. -/
theorem create_cases (quota : Quota) (r : Registry) (owner : ThreadId) (capacity : Nat) :
    (r.create quota owner capacity).2 = r ∨
      ((r.create quota owner capacity).2.nextId = r.nextId + 1 ∧
        (r.create quota owner capacity).2.endpoints =
          update r.endpoints r.nextId (some ⟨[], capacity, [], owner⟩) ∧
        Widens r (r.create quota owner capacity).2) := by
  unfold create
  split
  · exact .inl rfl
  split
  · exact .inl rfl
  right
  simp only
  split
  · exact ⟨rfl, rfl, fun _ _ _ hc => hc⟩
  · rename_i hadd
    obtain ⟨hend, hid, hwid⟩ := addRights_ok hadd
    exact ⟨hid, hend, fun t e c hc => hwid t e c hc⟩

theorem releaseThread_endpoint {q : Endpoint} (h : (r.releaseThread t).endpoints e = some q) :
    ∃ p, r.endpoints e = some p ∧ p.owner ≠ t ∧
      q = { p with waiting := p.waiting.filter (· ≠ t) } := by
  obtain ⟨p, hp, hq⟩ := Option.bind_eq_some_iff.mp h
  split at hq
  · cases hq
  · rename_i howner
    exact ⟨p, hp, howner, (Option.some.inj hq).symm⟩

theorem releaseThread_rightsOf {u : ThreadId} (h : u ≠ t) (e : Nat) :
    (r.releaseThread t).rightsOf u e = r.rightsOf u e := by
  simp [rightsOf, releaseThread, h]

end Registry
end Panda.Ipc
