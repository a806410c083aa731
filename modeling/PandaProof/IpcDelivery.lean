import PandaProof.IpcWakeup

/-!
# What is received is what was sent

Endpoints as channels, over whole histories.  A history is a path of the system: the
registry of `Ipc` with the loop of `receive`, the threads that exist, and the users
they run as (`users.rs`), which `deliver` asks about when it stamps a message.

Two sequences are read off a history for each endpoint: what `send` and `notify`
accepted, and what `receive` and `try_receive` returned, both in the order in which the
calls took effect under the registry lock.  `traffic_of_step` says what one step adds to
either, and what it does to the queue; by induction the second sequence followed by the
queue is the first (`fifo_delivery`).
-/
namespace Panda

open Function List Option

/-! ## Users -/

namespace Users

abbrev ThreadId := Nat
abbrev UserId := BitVec 32

/-- The system's own user. -/
def system : UserId := 0

/-- `USERS`: the users of threads that are not the system's. -/
abbrev Table := ThreadId → Option UserId

/-- The user a thread runs as. -/
def of (users : Table) (thread : ThreadId) : UserId := (users thread).getD system

def assign (users : Table) (thread : ThreadId) (user : UserId) : Table :=
  if user = system then update users thread none
  else update users thread (some user)

/-- A new thread takes its spawner's user. -/
def inherit (users : Table) (parent : Option ThreadId) (child : ThreadId) : Table :=
  match parent with
  | some parent => assign users child (of users parent)
  | none => users

/-- `release_thread`. -/
def releaseThread (users : Table) (thread : ThreadId) : Table :=
  update users thread none

end Users

namespace Ipc

/-! ## The system -/

/-- The registry with its callers, the threads and their users. -/
structure World where
  ipc : State
  users : Users.Table
  /-- The length of `THREADS`; a thread's id is its index there. -/
  threads : Nat

/-- The most entries of eight bytes a `Vec` can hold: pushing one more panics. -/
def maxThreads : Nat := (2 ^ 63 - 1) / 8

inductive Event
  /-- A step of the registry or of one of its callers. -/
  | call (l : Label)
  /-- A new thread, as `user` or as its spawner's user. -/
  | spawn (parent : Option ThreadId) (user : Option Users.UserId)
  /-- Logging in, or the kernel starting a program as somebody. -/
  | assign (t : ThreadId) (user : Users.UserId)
  /-- The user of a thread that has exited is forgotten. -/
  | forget (t : ThreadId)

namespace World

def initial : World := ⟨Ipc.initial, fun _ => none, 2⟩

/-- `deliver` asks `users::of` about the sender. -/
def resolve (w : World) : Label → Label
  | .send t _ e m => .send t (Users.of w.users t).toNat e m
  | l => l

def step (w : World) : Event → Option World
  | .call l =>
    if l.actor.all (· < w.threads) then
      (Ipc.step w.ipc (w.resolve l)).map fun s => { w with ipc := s }
    else none
  | .spawn parent user =>
    if w.threads < maxThreads ∧ parent.all (· < w.threads) then
      some { w with
        threads := w.threads + 1
        users := match user with
          | some user => Users.assign w.users w.threads user
          | none => Users.inherit w.users parent w.threads }
    else none
  | .assign t user =>
    if t < w.threads then some { w with users := Users.assign w.users t user } else none
  | .forget t =>
    if w.ipc.pc t = .exited then some { w with users := Users.releaseThread w.users t } else none

end World

/-- The registry, the threads and their users. -/
def worlds : Machine World Event where
  Init w := w = .initial
  step := World.step

/-! ## Histories -/

/-- A message as it was handed to `send` or `notify`, by whom, and the user the sender
ran as. -/
structure Sent where
  sender : Option ThreadId
  user : Nat
  message : Message

/-- The message as it is queued. -/
def Sent.stamped (x : Sent) : Message := Registry.stamp x.sender x.user x.message

/-- The message a step makes `send` or `notify` accept on `e`. -/
def acceptedBy (e : Nat) (s : State) : Label → Option Sent
  | .send t user e' m =>
    if e' = e ∧ (s.registry.deliver user (some t) e m).toOption.isSome then some ⟨some t, user, m⟩
    else none
  | .notify e' m =>
    if e' = e ∧ (s.registry.deliver 0 none e m).toOption.isSome then some ⟨none, 0, m⟩ else none
  | _ => none

/-- The message a step makes `receive` or `try_receive` return from `e`. -/
def takenBy (e : Nat) (s : State) : Label → Option Message
  | .look t =>
    if s.pc t = .looking e then (s.registry.receiveRound t e).toOption.bind Prod.fst else none
  | .tryReceive t e' =>
    if e' = e then (s.registry.tryReceive t e).toOption.bind Prod.fst else none
  | _ => none

/-- What was accepted on `e` in a history (newest step first), oldest first. -/
def accepted (e : Nat) : List (World × Event) → List Sent
  | [] => []
  | (w, .call l) :: p => accepted e p ++ (acceptedBy e w.ipc (w.resolve l)).toList
  | _ :: p => accepted e p

/-- What was received from `e` in a history (newest step first), oldest first. -/
def received (e : Nat) : List (World × Event) → List Message
  | [] => []
  | (w, .call l) :: p => received e p ++ (takenBy e w.ipc (w.resolve l)).toList
  | _ :: p => received e p

/-! ## What a step does to a channel -/

/-- What a step does to endpoint `e` and the two sequences. -/
inductive Traffic (e : Nat) (s : State) (l : Label) (s' : State) : Prop
  /-- There is no such endpoint afterwards. -/
  | gone (h' : s'.registry.endpoints e = none) (ha : acceptedBy e s l = none)
      (ht : takenBy e s l = none)
  | created {q' : Endpoint} (he : e = s.registry.nextId) (h' : s'.registry.endpoints e = some q')
      (hq : q'.queue = []) (ha : acceptedBy e s l = none) (ht : takenBy e s l = none)
  /-- What is accepted goes in at the end of the queue, if there is room, and what is
  taken comes out at its front. -/
  | moved {q q' : Endpoint} (h : s.registry.endpoints e = some q)
      (h' : s'.registry.endpoints e = some q')
      (hq : q.queue ++ (acceptedBy e s l).toList.map Sent.stamped =
        (takenBy e s l).toList ++ q'.queue)
      (hroom : q.queue.length ≤ q.capacity → q'.queue.length ≤ q'.capacity)

variable {e : Nat} {s s' : State} {l : Label} {q q' : Endpoint}

/-- The queue of an endpoint stays, in a step that says nothing about it. -/
theorem Traffic.kept (h : s.registry.endpoints e = some q) (h' : s'.registry.endpoints e = some q')
    (hcap : q'.capacity = q.capacity) (hq : q'.queue = q.queue) (ha : acceptedBy e s l = none)
    (ht : takenBy e s l = none) : Traffic e s l s' :=
  .moved h h' (by simp [ha, ht, hq]) (by rw [hcap, hq]; exact id)

theorem Traffic.untouched
    (h : s'.registry.endpoints e = s.registry.endpoints e) (ha : acceptedBy e s l = none)
    (ht : takenBy e s l = none) : Traffic e s l s' := by
  cases hq : s.registry.endpoints e with
  | none => exact .gone (h.trans hq) ha ht
  | some => exact .kept hq (h.trans hq) rfl rfl ha ht

variable {m : Message}

theorem Traffic.taken (h : s.registry.endpoints e = some q) (h' : s'.registry.endpoints e = some q')
    (hcap : q'.capacity = q.capacity) (hq : q.queue = m :: q'.queue)
    (ha : acceptedBy e s l = none) (ht : takenBy e s l = some m) : Traffic e s l s' := by
  refine .moved h h' (by simp [ha, ht, hq]) fun hle => ?_
  rw [hq, length_cons] at hle
  omega

variable {e₀ : Nat}

/-- `deliver`, by a thread or by the kernel. -/
theorem traffic_of_deliver {user : Nat} {sender : Option ThreadId}
    (ha : acceptedBy e s l = if e₀ = e ∧ (s.registry.deliver user sender e m).toOption.isSome then
      some ⟨sender, user, m⟩ else none) (ht : takenBy e s l = none) :
    Traffic e s l (deliverStep s user sender e₀ m) := by
  unfold deliverStep
  by_cases he : e₀ = e
  · subst he
    cases hd : s.registry.deliver user sender e₀ m with
    | error =>
      refine .untouched rfl ?_ ht
      simpa [hd, Except.toOption] using ha
    | ok res =>
      obtain ⟨woken, r⟩ := res
      obtain ⟨q, hq, hroom, -, rfl⟩ := Registry.deliver_ok hd
      have ha' : acceptedBy e₀ s l = some ⟨sender, user, m⟩ := by
        simpa [hd, Except.toOption] using ha
      refine .moved hq (Registry.setEndpoint_self ..) (by simp [ha', ht, Sent.stamped]) fun _ => ?_
      rw [length_append, length_singleton]
      exact hroom
  · have hnone : acceptedBy e s l = none := by simpa [he] using ha
    split
    · exact .untouched rfl hnone ht
    · rename_i woken r hd
      obtain ⟨q, hq, -, -, rfl⟩ := Registry.deliver_ok hd
      exact .untouched (Registry.setEndpoint_of_ne _ (Ne.symm he) _) hnone ht

/-- One round of `receive`. -/
theorem traffic_of_look {t : ThreadId} (hpc : s.pc t = .looking e₀) :
    Traffic e s (.look t) (lookStep s t e₀) := by
  have hset : ∀ {q : Endpoint}, e₀ ≠ e →
      (s.registry.setEndpoint e₀ q).endpoints e = s.registry.endpoints e :=
    fun he => Registry.setEndpoint_of_ne _ (Ne.symm he) _
  unfold lookStep
  by_cases he : e₀ = e
  · subst he
    have ht : takenBy e₀ s (.look t) = (s.registry.receiveRound t e₀).toOption.bind Prod.fst := by
      simp [takenBy, hpc]
    cases hr : s.registry.receiveRound t e₀ with
    | error =>
      refine .untouched rfl rfl ?_
      simpa [hr, Except.toOption] using ht
    | ok res =>
      obtain ⟨m, r⟩ := res
      rw [hr] at ht
      obtain ⟨-, q, hq, ⟨msg, rest, hm, rfl, rfl⟩ | ⟨-, rfl, -, rfl⟩ | ⟨-, rfl, -, rfl⟩⟩ :=
        Registry.receiveRound_ok hr
      · exact .taken hq (Registry.setEndpoint_self ..) rfl hm rfl ht
      · exact .untouched rfl rfl ht
      · exact .kept hq (Registry.setEndpoint_self ..) rfl rfl rfl ht
  · have ht : takenBy e s (.look t) = none := by simp [takenBy, hpc, he]
    have hother : ∀ {m r}, s.registry.receiveRound t e₀ = .ok (m, r) →
        r.endpoints e = s.registry.endpoints e := by
      intro m r hr
      obtain ⟨-, q, hq, ⟨msg, rest, -, -, rfl⟩ | ⟨-, -, -, rfl⟩ | ⟨-, -, -, rfl⟩⟩ :=
        Registry.receiveRound_ok hr
      · exact hset he
      · rfl
      · exact hset he
    split
    · exact .untouched rfl rfl ht
    · exact .untouched (hother ‹_›) rfl ht
    · exact .untouched (hother ‹_›) rfl ht

theorem traffic_of_step (h : step s l = some s') (e : Nat) : Traffic e s l s' := by
  cases l with
  | create t quota capacity =>
    obtain ⟨-, rfl⟩ := Machine.of_guard h
    rcases s.registry.create_cases quota t capacity with hsame | ⟨-, hend, -⟩
    · rw [hsame]
      exact .untouched rfl rfl rfl
    · by_cases he : e = s.registry.nextId
      · exact .created he (by rw [hend, he, update_self]) rfl rfl rfl
      · exact .untouched (by rw [hend, update_of_ne he]) rfl rfl
  | grant g t allowance e' rights =>
    obtain ⟨-, h⟩ := ite_none_right_eq_some.mp h
    split at h
    · cases h
      exact .untouched rfl rfl rfl
    · rename_i r hr
      cases h
      exact .untouched (congrFun (Registry.grant_ok hr).1 e) rfl rfl
  | send =>
    obtain ⟨-, rfl⟩ := Machine.of_guard h
    exact traffic_of_deliver rfl rfl
  | notify =>
    cases h
    exact traffic_of_deliver rfl rfl
  | look t =>
    simp only [step] at h
    split at h
    case h_2 => cases h
    rename_i e₀ hpc
    cases h
    exact traffic_of_look hpc
  | tryReceive t e₀ =>
    obtain ⟨-, h⟩ := ite_none_right_eq_some.mp h
    by_cases he : e₀ = e
    · subst he
      have ht : takenBy e₀ s (.tryReceive t e₀) =
          (s.registry.tryReceive t e₀).toOption.bind Prod.fst := if_pos rfl
      split at h
      · rename_i err hr
        cases h
        exact .untouched rfl rfl (by simpa [hr, Except.toOption] using ht)
      rename_i m r hr
      cases h
      rw [hr] at ht
      rcases Registry.tryReceive_ok hr with ⟨rfl, rfl⟩ | ⟨q, msg, rest, hq, hm, rfl, rfl⟩
      · exact .untouched rfl rfl ht
      · exact .taken hq (Registry.setEndpoint_self ..) rfl hm rfl ht
    · have ht : takenBy e s (.tryReceive t e₀) = none := if_neg he
      split at h
      · cases h
        exact .untouched rfl rfl ht
      rename_i m r hr
      cases h
      rcases Registry.tryReceive_ok hr with ⟨-, rfl⟩ | ⟨q, msg, rest, hq, hm, -, rfl⟩
      · exact .untouched rfl rfl ht
      · exact .untouched (Registry.setEndpoint_of_ne _ (Ne.symm he) _) rfl ht
  | exit t =>
    obtain ⟨-, rfl⟩ := Machine.of_guard h
    cases hq' : (s.registry.releaseThread t).endpoints e with
    | none => exact .gone hq' rfl rfl
    | some =>
      obtain ⟨q, hq, -, rfl⟩ := Registry.releaseThread_endpoint hq'
      exact .kept hq hq' rfl rfl rfl rfl
  | wake x | receive t e' | block t | elsewhere t =>
    refine .untouched ?_ rfl rfl
    simp only [step] at h
    split at h
    · cases h
      rfl
    · cases h
  | resume =>
    refine .untouched ?_ rfl rfl
    simp only [step] at h
    split at h
    · split at h <;> cases h
      rfl
    · cases h
  | stray =>
    cases h
    exact .untouched rfl rfl rfl

/-! ## Whole histories -/

/-- What holds of endpoint `e` after a history. -/
structure Channel (e : Nat) (w : World) (p : List (World × Event)) : Prop where
  settled : Settled w.ipc
  threads : w.threads ≤ maxThreads
  /-- Nothing has happened on an endpoint that has not been created. -/
  silent : w.ipc.registry.nextId ≤ e → accepted e p = [] ∧ received e p = []
  fifo : received e p <+: (accepted e p).map Sent.stamped
  queue : ∀ q, w.ipc.registry.endpoints e = some q →
    received e p ++ q.queue = (accepted e p).map Sent.stamped ∧ q.queue.length ≤ q.capacity

variable {w : World} {p : List (World × Event)}

/-- What has been received with what is still queued makes up for what was accepted,
also after a step that moves messages. -/
theorem Channel.balance (h : Channel e w p) (hq : w.ipc.registry.endpoints e = some q)
    (hbalance : q.queue ++ (acceptedBy e w.ipc (w.resolve l)).toList.map Sent.stamped =
      (takenBy e w.ipc (w.resolve l)).toList ++ q'.queue) :
    received e ((w, .call l) :: p) ++ q'.queue =
      (accepted e ((w, .call l) :: p)).map Sent.stamped := by
  rw [received, accepted, map_append, append_assoc, ← hbalance, ← append_assoc, (h.queue q hq).1]

/-- A step of the registry keeps the channel. -/
theorem Channel.call (h : Channel e w p) (hs : step w.ipc (w.resolve l) = some s) :
    Channel e { w with ipc := s } ((w, .call l) :: p) := by
  have hsettled := settled_step h.settled hs
  have hid := nextId_step hs
  have ht := traffic_of_step hs e
  -- A step that says nothing about `e`.
  have hquiet : acceptedBy e w.ipc (w.resolve l) = none → takenBy e w.ipc (w.resolve l) = none →
      accepted e ((w, .call l) :: p) = accepted e p ∧
        received e ((w, .call l) :: p) = received e p := fun ha ht => by
    simp [accepted, received, ha, ht]
  refine ⟨hsettled, h.threads, fun hle => ?_, ?_, fun q' hq' => ?_⟩
  · cases ht with
    | gone _ ha ht =>
      rw [(hquiet ha ht).1, (hquiet ha ht).2]
      exact h.silent (hid.trans hle)
    | created _ h' | moved _ h' => exact absurd (h'.symm.trans (hsettled.fresh e hle)) (by simp)
  · cases ht with
    | gone _ ha ht | created _ _ _ ha ht =>
      rw [(hquiet ha ht).1, (hquiet ha ht).2]
      exact h.fifo
    | moved hq hq' hbalance =>
      exact ⟨_, h.balance hq hbalance⟩
  cases ht with
  | gone h' => cases h'.symm.trans hq'
  | created he h' hq ha ht =>
    cases h'.symm.trans hq'
    have hsilent := h.silent (Nat.le_of_eq he.symm)
    rw [(hquiet ha ht).1, (hquiet ha ht).2, hsilent.1, hsilent.2, hq]
    simp
  | moved hq h' hbalance hroom =>
    cases h'.symm.trans hq'
    exact ⟨h.balance hq hbalance, hroom (h.queue _ hq).2⟩

theorem channel_of_path (h : worlds.Path p w) (e : Nat) : Channel e w p := by
  induction h with
  | @init w h =>
    obtain rfl : w = .initial := h
    exact ⟨initial_inv.toSettled, by decide, fun _ => ⟨rfl, rfl⟩, prefix_rfl,
      fun q hq => by simp [World.initial, initial, Registry.new] at hq⟩
  | @step w w' a p _ hs ih =>
    cases a with
    | call =>
      simp only [worlds, World.step] at hs
      split at hs
      case isFalse => cases hs
      obtain ⟨s, hstep, rfl⟩ := map_eq_some_iff.mp hs
      exact ih.call hstep
    | spawn =>
      obtain ⟨hlt, rfl⟩ := Machine.of_guard hs
      exact ⟨ih.settled, hlt.1, ih.silent, ih.fifo, ih.queue⟩
    | assign t user | forget t =>
      obtain ⟨-, rfl⟩ := Machine.of_guard hs
      exact { ih with }

/-- A message accepted in a history says who sent it: the thread that called `send`, with
the user it ran as at that moment, or the kernel; nothing a thread sends looks like the
kernel's. -/
def Genuine (e : Nat) (p : List (World × Event)) (x : Sent) : Prop :=
  (∃ w t user, (w, .call (.send t user e x.message)) ∈ p ∧ x.stamped.sender = t ∧
    x.stamped.senderUser = (Users.of w.users t).toNat ∧
    x.stamped.sender ≠ kernelSender ∧ x.stamped.senderUser ≠ kernelSender) ∨
  (∃ w, (w, .call (.notify e x.message)) ∈ p ∧ x.stamped.sender = kernelSender ∧
    x.stamped.senderUser = kernelSender)

theorem Genuine.later {x : Sent} (h : Genuine e p x)
    (y : World × Event) : Genuine e (y :: p) x := by
  rcases h with ⟨w, t, user, hmem, h⟩ | ⟨w, hmem, h⟩
  · exact .inl ⟨w, t, user, mem_cons_of_mem _ hmem, h⟩
  · exact .inr ⟨w, mem_cons_of_mem _ hmem, h⟩

/-- What one step accepts is genuine: thread ids and users are too small to be mistaken
for the kernel's mark. -/
theorem genuine_of_acceptedBy {x : Sent}
    (hthreads : w.threads ≤ maxThreads) (hactor : l.actor.all (· < w.threads) = true)
    (hx : acceptedBy e w.ipc (w.resolve l) = some x) (p : List (World × Event)) :
    Genuine e ((w, .call l) :: p) x := by
  cases l with
  | send t user =>
    obtain ⟨⟨rfl, -⟩, rfl⟩ := Machine.of_guard hx
    have ht : t < w.threads := by simpa [Label.actor] using hactor
    refine .inl ⟨w, t, user, mem_cons_self, rfl, rfl, ?_, ?_⟩
    · exact Nat.ne_of_lt (ht.trans_le (hthreads.trans (by decide)))
    · exact Nat.ne_of_lt (Nat.lt_trans (Users.of w.users t).isLt (by decide))
  | notify =>
    obtain ⟨⟨rfl, -⟩, rfl⟩ := Machine.of_guard hx
    exact .inr ⟨w, mem_cons_self, rfl, rfl⟩
  | _ => cases hx

theorem genuine_of_path (h : worlds.Path p w) (e : Nat) : ∀ x ∈ accepted e p, Genuine e p x := by
  induction h with
  | init => simp [accepted]
  | @step w w' a p hpath hs ih =>
    intro x hx
    cases a with
    | call l =>
      simp only [worlds, World.step] at hs
      split at hs
      case isFalse => cases hs
      rename_i hactor
      rw [accepted] at hx
      rcases mem_append.mp hx with hx | hx
      · exact (ih x hx).later _
      · exact genuine_of_acceptedBy (channel_of_path hpath e).threads hactor (mem_toList.mp hx) p
    | spawn | assign | forget => exact (ih x hx).later _

/-- **Exactly-once delivery in order, from senders that cannot be forged.**  After any
history with any number of senders, receivers and notifications, on every endpoint: what
was received is a prefix of what was accepted; as long as the endpoint exists, what was
received followed by what is queued is all that was accepted, so nothing is lost,
duplicated or out of order, and the queue is within its capacity; and each accepted
message carries the thread that sent it and the user it ran as, the kernel's mark being
on the messages of `notify` only. -/
theorem fifo_delivery {p : List (World × Event)} {w : World} (h : worlds.Path p w) (e : Nat) :
    received e p <+: (accepted e p).map Sent.stamped ∧ (∀ q, w.ipc.registry.endpoints e = some q →
      received e p ++ q.queue = (accepted e p).map Sent.stamped ∧ q.queue.length ≤ q.capacity) ∧
    ∀ x ∈ accepted e p, Genuine e p x := by
  have hchannel := channel_of_path h e
  exact ⟨hchannel.fifo, hchannel.queue, genuine_of_path h e⟩

/-- Thread 2, running as user 7, sends to an endpoint of thread 0 with room for two; the
kernel notifies it, a third message finds no room, and thread 0 receives one. -/
def sampleRun : List Event :=
  [.spawn (some 0) (some 7), .call (.create 0 ⟨1, 1, 0, 0⟩ 2), .call (.grant 0 2 1 1 .send),
    .call (.send 2 0 1 sample), .call (.notify 1 sample), .call (.send 2 0 1 sample),
    .call (.tryReceive 0 1)]

/-- The run ends with the notification queued behind the message that was received. -/
theorem fifo_delivery_sample : ∃ p w, worlds.Path p w ∧ (∃ q, w.ipc.registry.endpoints 1 = some q ∧
    q.queue.length = 1 ∧ received 1 p ++ q.queue = (accepted 1 p).map Sent.stamped) := by
  obtain ⟨w, hw⟩ := isSome_iff_exists.mp
    (show (worlds.exec (fun _ _ => True) .initial sampleRun).isSome = true by decide)
  have hq : (worlds.exec (fun _ _ => True) .initial sampleRun).any
      (fun w => (w.ipc.registry.endpoints 1).any fun q => q.queue.length = 1) = true := by decide
  obtain ⟨q, hq, hlen⟩ := (any_eq_true _ _).mp (by simpa [hw] using hq :
    ((w.ipc.registry.endpoints 1).any fun q => q.queue.length = 1) = true)
  obtain ⟨p, hpath, -⟩ := (Machine.Path.init (M := worlds) rfl).append_exec hw
  exact ⟨_, w, hpath, q, hq, of_decide_eq_true hlen, ((fifo_delivery hpath 1).2.1 q hq).1⟩

end Ipc
end Panda
