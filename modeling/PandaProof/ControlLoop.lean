import PandaProof.Notifications

/-!
# The network daemon's control queue

The main loop of the network daemon together with what the kernel posts to it: clients'
commands, the timer's ticks and the card's announcements all go through the one bounded
queue of its control endpoint.

The machine interleaves everybody's atomic steps.  Clients send, other threads set timers
of their own, every CPU takes ticks, the card receives and interrupts, and the daemon goes
through `main`, `drain`, `tick` and `arm_timer`.  What a handler does besides is left open:
while one runs it may come by `arm_timer` any number of times, with whatever `waiting` says.

Two properties are about what the daemon relies on: that a timer it believes armed will
still be heard of, and that no announced frame is forgotten.  Each holds along every
schedule on which the queue has room when it matters, and fails on others: a full queue
holds clients' messages, not notifications.
-/
namespace Panda.ControlLoop
open Function List Option Machine
open Ipc (ThreadId)

/-- How often the timer ticks, in milliseconds. -/
def tickMs : Nat := 200

/-- The rounds of `drain`. -/
def drainRounds : Nat := 64

/-- A CPU, of at most `MAX_CPUS`. -/
abbrev Cpu := Fin 16

/-- Where the daemon is. -/
inductive Task
  /-- Before `net_bind`. -/
  | starting
  /-- After it, up to the first `drain`. -/
  | booting
  /-- In `ipc_receive`, running. -/
  | receiving
  /-- In `ipc_receive`, blocked. -/
  | parked
  /-- At the head of the loop in `drain`, with so many rounds to go. -/
  | draining (left : Nat)
  /-- In `frame`, called from `drain`. -/
  | taken (left : Nat)
  | commanding
  | ticking
  deriving DecidableEq

/-- Between two messages. -/
def Task.waits : Task → Bool
  | .receiving | .parked => true
  | .starting | .booting | .draining _ | .taken _ | .commanding | .ticking => false

/-- In code that calls `arm_timer`. -/
def Task.arms : Task → Bool
  | .booting | .taken _ | .commanding | .ticking => true
  | .starting | .receiving | .parked | .draining _ => false

/-- The frames a `drain` under way will still ask for. -/
def Task.rounds : Task → Nat
  | .draining left | .taken left => left
  | .starting | .booting | .receiving | .parked | .commanding | .ticking => 0

structure System where
  registry : Ipc.Registry
  timers : Timing.Timers
  cpus : Cpu → Timing.Ticking
  card : Nic.Card
  task : Task
  /-- `timer_set` has succeeded, and `timer_armed` is about to be stored. -/
  setting : Bool
  timerArmed : Bool

inductive Label
  | send (sender : ThreadId) (user endpoint : Nat) (message : Ipc.Message)
  /-- Another thread sets a timer. -/
  | set (owner : ThreadId) (ticks hz endpoint ms : Nat) (cookie : UInt64)
  /-- A CPU enters `on_tick` and looks at `NEXT`. -/
  | tick (cpu : Cpu) (now : Nat)
  /-- It takes what is due off the list. -/
  | fire (cpu : Cpu)
  /-- It posts the next message. -/
  | notify (cpu : Cpu)
  | arrive (written : Nat)
  | interrupt
  | bind
  | booted
  | receive
  /-- A round of `drain`. -/
  | take
  /-- `timer_set`, called from `arm_timer`. -/
  | arm (ticks hz : Nat)
  /-- The store that follows. -/
  | armed
  /-- A handler returns. -/
  | done

variable (net : ThreadId) (control : Nat)

namespace System

/-- `deliver`; the daemon runs again if it is the waiter to be woken. -/
def post (s : System) (user : Nat) (sender : Option ThreadId) (endpoint : Nat)
    (message : Ipc.Message) : System := match s.registry.deliver user sender endpoint message with
  | .error _ => s
  | .ok (woken, registry) =>
    { s with
      registry := registry
      task := if woken = some net ∧ s.task = .parked then .receiving else s.task }

/-- What `main` does with a message. -/
def dispatch (s : System) (message : Ipc.Message) : System :=
  if message.sender = Ipc.kernelSender then
    if message.tag = Nic.tagReceived then { s with task := .draining drainRounds }
    else if message.tag = Timing.tagTimer then { s with task := .ticking, timerArmed := false }
    else s
  else { s with task := .commanding }

/-- The control queue. -/
def queue (s : System) : List Ipc.Message :=
  ((s.registry.endpoints control).map Ipc.Endpoint.queue).getD []

/-- The control endpoint takes another message. -/
def Room (s : System) : Prop :=
  ∃ endpoint ∈ s.registry.endpoints control, endpoint.queue.length < endpoint.capacity

/-- A message of the kernel's waits in the control queue. -/
def Queued (s : System) (tag : UInt64) : Prop :=
  ∃ message ∈ s.queue control, message.tag = tag ∧ message.sender = Ipc.kernelSender

/-- A timer for the control endpoint is pending in the kernel, or has come due and its
message is being posted. -/
def Pending (s : System) : Prop :=
  (∃ timer ∈ s.timers.list, timer.endpoint = control) ∨
    ∃ cpu, ∃ entry ∈ (s.cpus cpu).due, entry.1 = control

/-- The daemon is in a `drain` that will get to the frame at `position`: an empty frame in
front of it would end the loop. -/
def WillTake (s : System) (position : Nat) : Prop :=
  position < s.task.rounds ∧ ∀ frame ∈ s.card.used.take position, 0 < frame.length

/-- Every frame that was announced will be asked for. -/
def Awaited (s : System) : Prop :=
  ∀ position frame, s.card.used[position]? = some frame → frame.announced = true →
    s.Queued control Nic.tagReceived ∨ s.WillTake position

instance (s : System) : Decidable (s.Room control) :=
  inferInstanceAs (Decidable (∃ endpoint ∈ s.registry.endpoints control, _))

instance (s : System) (tag : UInt64) : Decidable (s.Queued control tag) :=
  inferInstanceAs (Decidable (∃ message ∈ s.queue control, _))

end System

/-- One atomic step.  A daemon that exits takes no more steps. -/
def step (s : System) : Label → Option System
  | .send sender user endpoint message => some (s.post net user (some sender) endpoint message)
  | .set owner ticks hz endpoint ms cookie =>
    if owner = net then none
    else some { s with
      timers := (Timing.set s.registry ticks hz owner endpoint ms cookie s.timers).2 }
  | .tick cpu now =>
    match s.cpus cpu with
    | .idle =>
      if now < s.timers.next then some s
      else some { s with cpus := update s.cpus cpu (.entered now) }
    | .entered _ | .notifying _ => none
  | .fire cpu =>
    match s.cpus cpu with
    | .entered now =>
      let fired := Timing.fire now s.timers
      some { s with
        timers := fired.2
        cpus := update s.cpus cpu (.notifying fired.1) }
    | .idle | .notifying _ => none
  | .notify cpu =>
    match s.cpus cpu with
    | .notifying [] => some { s with cpus := update s.cpus cpu .idle }
    | .notifying ((endpoint, cookie) :: due) =>
      -- a full queue loses the tick
      some ({ s with cpus := update s.cpus cpu (.notifying due) }.post net 0 none
        endpoint (Timing.message cookie))
    | .idle | .entered _ => none
  | .arrive written => (s.card.arrive written).map fun card => { s with card := card }
  | .interrupt =>
    if s.card.raised then
      if s.card.bound = 0 then some { s with card := s.card.handled false }
      else some ({ s with card := s.card.handled true }.post net 0 none s.card.bound
        Nic.notification)
    else none
  | .bind =>
    if s.task = .starting then
      match s.card.bind s.registry net control with
      | .error _ => none
      | .ok card => some { s with card := card, task := .booting }
    else none
  | .booted =>
    if s.task = .booting ∧ s.setting = false then some { s with task := .draining drainRounds }
    else none
  | .receive =>
    if s.task = .receiving then
      match s.registry.receiveRound net control with
      | .error _ => none
      | .ok (none, registry) => some { s with registry := registry, task := .parked }
      | .ok (some message, registry) => some ({ s with registry := registry }.dispatch message)
    else none
  | .take =>
    match s.task with
    | .draining 0 => some { s with task := .receiving }
    | .draining (left + 1) =>
      match s.card.receive net with
      | .error _ => some { s with task := .receiving }
      | .ok (0, card) => some { s with card := card, task := .receiving }
      | .ok (_ + 1, card) => some { s with card := card, task := .taken left }
    | .starting | .booting | .receiving | .parked | .taken _ | .commanding | .ticking => none
  | .arm ticks hz =>
    if s.task.arms ∧ s.timerArmed = false ∧ s.setting = false then
      let answer := Timing.set s.registry ticks hz net control tickMs 0 s.timers
      some { s with timers := answer.2, setting := answer.1.toBool }
    else none
  | .armed => if s.setting then some { s with setting := false, timerArmed := true } else none
  | .done =>
    if s.setting then none
    else match s.task with
      | .taken left => some { s with task := .draining left }
      | .commanding | .ticking => some { s with task := .receiving }
      | .starting | .booting | .receiving | .parked | .draining _ => none

/-- The daemon is about to start: the control endpoint exists, the card is the daemon's to
use and has received nothing yet. -/
structure Starts (s : System) : Prop where
  named : control ≠ 0
  endpoint : (s.registry.endpoints control).isSome = true
  stack : s.card.stack = net + 1
  bound : s.card.bound = 0
  used : s.card.used = []
  task : s.task = .starting
  setting : s.setting = false
  timerArmed : s.timerArmed = false

/-- The daemon, its clients, the timers and the card. -/
def system : Machine System Label where
  Init := Starts net control
  step := step net control

/-! ## Posting -/

/-- What posting a message does: nothing to the timers, the card and the daemon's variables,
and at most one message more in the control queue, which gets there if it is for that
queue, from the kernel, and there is room. -/
structure Posted (s t : System) (sender : Option ThreadId) (endpoint : Nat)
    (message : Ipc.Message) : Prop where
  timers : t.timers = s.timers
  cpus : t.cpus = s.cpus
  card : t.card = s.card
  setting : t.setting = s.setting
  timerArmed : t.timerArmed = s.timerArmed
  task : t.task = s.task ∨ s.task = .parked ∧ t.task = .receiving
  alive : (s.registry.endpoints control).isSome = true →
    (t.registry.endpoints control).isSome = true
  kept : s.queue control ⊆ t.queue control
  heard : sender = none → endpoint = control → s.Room control → t.Queued control message.tag

section
variable {net control} {s : System}

theorem mem_queue {endpoint : Ipc.Endpoint} (h : s.registry.endpoints control = some endpoint) :
    s.queue control = endpoint.queue := by
  simp [System.queue, h]

variable (net control s) in
theorem post_posted (user : Nat) (sender : Option ThreadId) (endpoint : Nat)
    (message : Ipc.Message) :
    Posted control s (s.post net user sender endpoint message) sender endpoint message := by
  unfold System.post
  split
  · rename_i error hdeliver
    refine ⟨rfl, rfl, rfl, rfl, rfl, .inl rfl, id, Subset.refl _, ?_⟩
    rintro rfl rfl ⟨q, hq, hroom⟩
    unfold Ipc.Registry.deliver at hdeliver
    rw [if_neg (by simp), mem_def.mp hq] at hdeliver
    dsimp only at hdeliver
    rw [if_neg (not_le.mpr hroom)] at hdeliver
    cases hdeliver
  · rename_i woken registry hdeliver
    obtain ⟨q, hq, -, -, rfl⟩ := Ipc.Registry.deliver_ok hdeliver
    refine ⟨rfl, rfl, rfl, rfl, rfl, ?_, ?_, ?_, ?_⟩
    · dsimp only
      split
      · rename_i hparked
        exact .inr ⟨hparked.2, rfl⟩
      · exact .inl rfl
    · intro halive
      by_cases he : control = endpoint
      · simp [he]
      · rwa [Ipc.Registry.setEndpoint_of_ne _ he]
    · by_cases he : control = endpoint
      · subst he
        rw [mem_queue hq, mem_queue (Ipc.Registry.setEndpoint_self ..)]
        exact subset_append_left _ _
      · unfold System.queue
        rw [Ipc.Registry.setEndpoint_of_ne _ he]
        exact Subset.refl _
    · rintro rfl rfl -
      refine ⟨Ipc.Registry.stamp none user message, ?_, rfl, rfl⟩
      rw [mem_queue (Ipc.Registry.setEndpoint_self ..)]
      exact mem_append_right _ (mem_singleton_self _)

theorem Queued.mono {t : System} {tag : UInt64} (h : s.Queued control tag)
    (hkept : s.queue control ⊆ t.queue control) : t.Queued control tag := by
  obtain ⟨message, hmem, hmessage⟩ := h
  exact ⟨message, hkept hmem, hmessage⟩

/-- What a round of `receive` does to the control queue. -/
theorem received {r : Ipc.Registry} {answer : Option Ipc.Message}
    (h : s.registry.receiveRound net control = .ok (answer, r)) :
    (r.endpoints control).isSome = true ∧
      s.queue control = answer.toList ++
        ((r.endpoints control).map Ipc.Endpoint.queue).getD [] := by
  obtain ⟨-, q, hq, h⟩ := Ipc.Registry.receiveRound_ok h
  rw [mem_queue hq]
  rcases h with ⟨_, _, hqueue, rfl, rfl⟩ | ⟨hqueue, rfl, -, rfl⟩ | ⟨hqueue, rfl, -, rfl⟩
  · simp [hqueue]
  · simp [hq, hqueue]
  · simp [hqueue]

end

/-! ## The timer -/

/-- When a timer's message for the control endpoint is posted, the queue takes it, or
already holds one, or the daemon does not believe the timer armed. -/
def Heard (s : System) : Label → Prop
  | .notify cpu => (s.cpus cpu).due.head?.map Prod.fst = some control →
    s.Room control ∨ s.Queued control Timing.tagTimer ∨ s.timerArmed = false ∧ s.setting = false
  | .send .. | .set .. | .tick .. | .fire _ | .arrive _ | .interrupt | .bind | .booted | .receive
  | .take | .arm .. | .armed | .done => True

/-- The daemon's own timer is on its way: on the list, due, or in the queue. -/
def Outstanding (s : System) : Prop :=
  (∃ timer ∈ s.timers.list, timer.owner = net ∧ timer.endpoint = control) ∨
    (∃ cpu, ∃ entry ∈ (s.cpus cpu).due, entry.1 = control) ∨ s.Queued control Timing.tagTimer

/-- What the daemon believes about the timer is so. -/
structure Believed (s : System) : Prop where
  alive : (s.registry.endpoints control).isSome = true
  setting : s.setting = true → s.task.arms = true
  outstanding : s.timerArmed = true ∨ s.setting = true → Outstanding net control s

section
variable {net control} {s t : System}

variable {sender : Option ThreadId} {endpoint : Nat} {message : Ipc.Message}

theorem Posted.believed (hp : Posted control s t sender endpoint message)
    (halive : (s.registry.endpoints control).isSome = true)
    (hsetting : s.setting = true → s.task.arms = true)
    (hout : s.timerArmed = true ∨ s.setting = true → Outstanding net control t) :
    Believed net control t := by
  refine ⟨hp.alive halive, fun h => ?_, fun h => hout (hp.timerArmed ▸ hp.setting ▸ h)⟩
  have harms := hsetting (hp.setting ▸ h)
  rcases hp.task with htask | ⟨htask, -⟩
  · rwa [htask]
  · rw [htask] at harms
    cases harms

theorem Believed.of_posted (h : Believed net control s)
    (hp : Posted control s t sender endpoint message) : Believed net control t := by
  refine hp.believed h.alive h.setting fun hbelieved => ?_
  unfold Outstanding
  rw [hp.timers, hp.cpus]
  exact (h.outstanding hbelieved).imp_right (.imp_right (Queued.mono · hp.kept))

variable {cpu : Cpu}

/-- A timer's message is posted.  What the daemon waits for was elsewhere, or was this and
is in the queue now. -/
theorem Believed.notify (h : Believed net control s) {cookie : UInt64} {due : List (Nat × UInt64)}
    (hcpu : s.cpus cpu = .notifying ((endpoint, cookie) :: due))
    (hok : Heard control s (.notify cpu)) :
    Believed net control ({ s with cpus := update s.cpus cpu (.notifying due) }.post
      net 0 none endpoint (Timing.message cookie)) := by
  have hp := post_posted net control
    { s with cpus := update s.cpus cpu (.notifying due) } 0 none endpoint (Timing.message cookie)
  refine hp.believed h.alive h.setting fun hbelieved => ?_
  rcases h.outstanding hbelieved with hlisted | ⟨cpu', entry, hentry, hcontrol⟩ | hqueued
  · exact .inl (by rw [hp.timers]; exact hlisted)
  · by_cases hother : cpu' = cpu
    · subst hother
      rw [hcpu] at hentry
      rcases mem_cons.mp hentry with rfl | hlater
      · have hhead : (s.cpus cpu').due.head?.map Prod.fst = some control := by
          rw [hcpu]
          exact congrArg some hcontrol
        rcases hok hhead with hroom | hqueued | ⟨harmed, hsetting⟩
        · exact .inr (.inr (hp.heard rfl hcontrol hroom))
        · exact .inr (.inr (Queued.mono hqueued hp.kept))
        · exact absurd hbelieved (by simp [harmed, hsetting])
      · exact .inr (.inl ⟨cpu', entry, by
          rw [hp.cpus]
          dsimp only
          rwa [update_self], hcontrol⟩)
    · exact .inr (.inl ⟨cpu', entry, by rw [hp.cpus]; simpa [hother] using hentry, hcontrol⟩)
  · exact .inr (.inr (Queued.mono hqueued hp.kept))

/-- Nothing that is due is lost when a CPU without any goes on. -/
theorem Believed.of_idle (h : Believed net control s)
    (hcpu : (s.cpus cpu).due = []) {timers : Timing.Timers} {state : Timing.Ticking}
    (htimers : ∀ timer ∈ s.timers.list,
      timer ∈ timers.list ∨ (timer.endpoint, timer.cookie) ∈ state.due) : Believed net control
      { s with timers := timers, cpus := update s.cpus cpu state } := by
  refine ⟨h.alive, h.setting, fun hbelieved => ?_⟩
  rcases h.outstanding hbelieved with ⟨timer, hmem, hmine, hcontrol⟩ |
    ⟨cpu', entry, hentry, hcontrol⟩ | hqueued
  · rcases htimers timer hmem with hleft | hdue
    · exact .inl ⟨timer, hleft, hmine, hcontrol⟩
    · exact .inr (.inl ⟨cpu, _, by simpa using hdue, hcontrol⟩)
  · have hother : cpu' ≠ cpu := by
      rintro rfl
      rw [hcpu] at hentry
      cases hentry
    exact .inr (.inl ⟨cpu', entry, by simpa [hother] using hentry, hcontrol⟩)
  · exact .inr (.inr hqueued)

variable {r : Ipc.Registry}

/-- A message that is taken from the queue while the flag is set, and is not a timer's,
leaves what is outstanding. -/
theorem Outstanding.of_received (h : Outstanding net control s)
    {answer : Option Ipc.Message} (hround : s.registry.receiveRound net control = .ok (answer, r))
    (hother : ∀ m ∈ answer, ¬ (m.tag = Timing.tagTimer ∧ m.sender = Ipc.kernelSender)) :
    Outstanding net control { s with registry := r } := by
  refine h.imp_right (.imp_right ?_)
  rintro ⟨m, hmem, hm⟩
  rw [(received hround).2] at hmem
  rcases mem_append.mp hmem with hfirst | hrest
  · exact absurd hm (hother m (by simpa using hfirst))
  · exact ⟨m, hrest, hm⟩

/-- A message is taken and dispatched. -/
theorem Believed.dispatch (h : Believed net control s) (htask : s.task = .receiving)
    {m : Ipc.Message} (hround : s.registry.receiveRound net control = .ok (some m, r)) :
    Believed net control ({ s with registry := r }.dispatch m) := by
  have hidle : s.setting = false := by
    have harms := h.setting
    rw [htask] at harms
    exact Bool.eq_false_iff.mpr fun hsetting => nomatch harms hsetting
  have hsetting : ∀ p, s.setting = true → p := fun p hs => by simp [hidle] at hs
  unfold System.dispatch
  have hout : ¬ (m.tag = Timing.tagTimer ∧ m.sender = Ipc.kernelSender) →
      s.timerArmed = true ∨ s.setting = true → Outstanding net control { s with registry := r } :=
    fun hother hbelieved => (h.outstanding hbelieved).of_received hround (by simpa using hother)
  split
  · split
    · rename_i htag
      exact ⟨(received hround).1, hsetting _,
        hout fun hm => absurd (htag.symm.trans hm.1) (by decide)⟩
    split
    · exact ⟨(received hround).1, hsetting _, fun hb => hb.elim nofun (hsetting _)⟩
    · rename_i htag
      exact ⟨(received hround).1, hsetting _, hout fun hm => htag hm.1⟩
  · rename_i hsender
    exact ⟨(received hround).1, hsetting _, hout fun hm => hsender hm.2⟩

/-- **The timer's step lemma.** -/
theorem Believed.step (h : Believed net control s) {a : Label} (hok : Heard control s a)
    (hs : step net control s a = some t) : Believed net control t := by
  cases a with
  | send =>
    cases hs
    exact h.of_posted (post_posted ..)
  | set =>
    obtain ⟨hother, hs⟩ := ite_none_left_eq_some.mp hs
    cases hs
    refine ⟨h.alive, h.setting, fun hbelieved => (h.outstanding hbelieved).imp_left ?_⟩
    rintro ⟨timer, hmem, hmine, hcontrol⟩
    exact ⟨timer, Timing.mem_set_of_mem hmem (.inl fun howner => hother (howner ▸ hmine)), hmine,
      hcontrol⟩
  | tick cpu now =>
    rw [step.eq_def] at hs
    dsimp only at hs
    split at hs
    · rename_i hcpu
      split at hs
      · cases hs
        exact h
      · cases hs
        exact h.of_idle (by rw [hcpu]; rfl) fun _ hmem => .inl hmem
    · cases hs
    · cases hs
  | fire cpu =>
    rw [step.eq_def] at hs
    dsimp only at hs
    split at hs
    · rename_i now hcpu
      cases hs
      exact h.of_idle (by rw [hcpu]; rfl) fun _ hmem => (Timing.mem_fire now hmem).symm
    · cases hs
    · cases hs
  | notify cpu =>
    rw [step.eq_def] at hs
    dsimp only at hs
    split at hs
    · rename_i hcpu
      cases hs
      exact h.of_idle (by rw [hcpu]; rfl) fun _ hmem => .inl hmem
    · rename_i endpoint cookie due hcpu
      cases hs
      exact h.notify hcpu hok
    · cases hs
    · cases hs
  | arrive =>
    obtain ⟨card, -, rfl⟩ := map_eq_some_iff.mp hs
    exact { h with }
  | interrupt =>
    obtain ⟨-, hs⟩ := ite_none_right_eq_some.mp hs
    split at hs
    · cases hs
      exact { h with }
    · cases hs
      exact Believed.of_posted (s := { s with card := s.card.handled true })
        { h with } (post_posted ..)
  | bind =>
    obtain ⟨htask, hs⟩ := ite_none_right_eq_some.mp hs
    split at hs
    · cases hs
    · cases hs
      exact ⟨h.alive, fun _ => rfl, h.outstanding⟩
  | booted =>
    obtain ⟨⟨-, hidle⟩, rfl⟩ := of_guard hs
    exact ⟨h.alive, fun hsetting => absurd hsetting (by simp [hidle]), h.outstanding⟩
  | receive =>
    obtain ⟨htask, hs⟩ := ite_none_right_eq_some.mp hs
    split at hs
    · cases hs
    · rename_i registry hround
      cases hs
      have hno := h.setting
      rw [htask] at hno
      exact ⟨(received hround).1, hno, fun hbelieved =>
        (h.outstanding hbelieved).of_received hround nofun⟩
    · rename_i message registry hround
      cases hs
      exact h.dispatch htask hround
  | take =>
    have hidle : ∀ left, s.task = .draining left → s.setting = true → False := by
      intro left htask hsetting
      have harms := h.setting hsetting
      rw [htask] at harms
      cases harms
    rw [step.eq_def] at hs
    dsimp only at hs
    split at hs
    · rename_i htask
      cases hs
      exact ⟨h.alive, fun hsetting => (hidle _ htask hsetting).elim, h.outstanding⟩
    · rename_i left htask
      split at hs
      all_goals
        cases hs
        exact ⟨h.alive, fun hsetting => (hidle _ htask hsetting).elim, h.outstanding⟩
    all_goals cases hs
  | arm =>
    obtain ⟨⟨harms, hunarmed, -⟩, rfl⟩ := of_guard hs
    refine ⟨h.alive, fun _ => harms, ?_⟩
    rintro (harmed | hset)
    · exact absurd harmed (by simp [hunarmed])
    · exact .inl (Timing.mem_set_of_ok hset)
  | armed =>
    obtain ⟨hsetting, rfl⟩ := of_guard hs
    exact ⟨h.alive, nofun, fun _ => h.outstanding (.inr hsetting)⟩
  | done =>
    obtain ⟨hidle, hs⟩ := ite_none_left_eq_some.mp hs
    split at hs
    case h_1 | h_2 | h_3 =>
      cases hs
      exact ⟨h.alive, fun hsetting => absurd hsetting hidle, h.outstanding⟩
    all_goals cases hs

theorem Starts.believed (h : Starts net control s) : Believed net control s :=
  ⟨h.endpoint, by simp [h.setting], by simp [h.setting, h.timerArmed]⟩

/-- **The timer is armed when it is believed to be.**  Along every schedule on which the
timer's messages are heard, a daemon with `timer_armed` set, between messages or inside one, has
a timer pending for its control endpoint, or a message of one in its queue. -/
theorem timer_outstanding (h : (system net control).Reaches (Heard control) s)
    (harmed : s.timerArmed = true) : s.Pending control ∨ s.Queued control Timing.tagTimer := by
  have hinv : Believed net control s :=
    h.invariant (I := Believed net control) (fun _ => Starts.believed)
      fun hs hok hstep => hs.step hok hstep
  rcases hinv.outstanding (.inl harmed) with ⟨timer, hmem, -, hcontrol⟩ | hdue | hqueued
  · exact .inl (.inl ⟨timer, hmem, hcontrol⟩)
  · exact .inl (.inr hdue)
  · exact .inr hqueued

end

/-- Thread 1 has created endpoint 1 for the daemon, which is thread 2. -/
def started : System where
  registry := ⟨update (fun _ => none) 1 (some ⟨[], 32, [], 1⟩), 2, update (update (fun _ => []) 1
        [(1, (Ipc.Rights.send.union .receive).union .grant)]) 2
        [(1, Ipc.Rights.send.union .receive)]⟩
  timers := ⟨[], Timing.never⟩
  cpus := fun _ => .idle
  card := ⟨[], 32, by decide, by decide, false, 0, 3⟩
  task := .starting
  setting := false
  timerArmed := false

theorem started_starts : Starts 2 1 started :=
  ⟨by decide, by decide, rfl, rfl, rfl, rfl, rfl, rfl⟩

/-- The daemon binds the card, arms its timer and finds no frame. -/
def starting : List Label := [.bind, .arm 0 100, .armed, .booted, .take]

/-- A client fills the queue. -/
def flooded : List Label := replicate 32 (.send 1 0 1 ⟨7, Vector.replicate 4 0, 0, 0⟩)

instance (s : System) (a : Label) : Decidable (Heard 1 s a) := by
  cases a <;> unfold Heard <;> infer_instance

instance (s : System) : Decidable (s.Pending 1) :=
  inferInstanceAs (Decidable ((∃ timer ∈ s.timers.list, _) ∨ ∃ cpu, ∃ entry ∈ (s.cpus cpu).due, _))

/-- The timer is armed, and the queue has room. -/
theorem timer_outstanding_starting : ∃ s, (system 2 1).Reaches (Heard 1) s ∧
    s.timerArmed = true ∧ s.task.waits = true ∧ (s.Pending 1 ∨ s.Queued 1 Timing.tagTimer) := by
  obtain ⟨s, hreaches, harmed, hwaits⟩ := (system 2 1).exists_reaches (Heard 1) starting
    (fun s => s.timerArmed = true ∧ s.task.waits = true) started_starts (by decide +kernel)
  exact ⟨s, hreaches, harmed, hwaits, timer_outstanding hreaches harmed⟩

/-- **A lost tick**: the timer comes due while the queue is full of a client's messages.
The daemon goes on believing it armed, and will not arm it again. -/
theorem tick_lost : ∃ s, (system 2 1).Reachable s ∧ s.timerArmed = true ∧
    s.task.waits = true ∧ ¬ (s.Pending 1 ∨ s.Queued 1 Timing.tagTimer) :=
  (system 2 1).exists_reachable
    (starting ++ flooded ++ [.tick 0 20, .fire 0, .notify 0]) _ started_starts (by decide +kernel)

/-! ## Arrivals -/

/-- No frame that arrives is empty, and when an interrupt is handled the queue takes the
notification, or already holds one, or a `drain` under way will get to every frame. -/
def Noticed (s : System) : Label → Prop
  | .arrive written => Nic.headerBytes < written
  | .interrupt => s.card.bound = 0 ∨ s.Room control ∨ s.Queued control Nic.tagReceived ∨
    s.card.used.length ≤ s.task.rounds
  | .send .. | .set .. | .tick .. | .fire _ | .notify _ | .bind | .booted | .receive | .take
  | .arm .. | .armed | .done => True

/-- What the daemon can rely on about the card. -/
structure Watched (s : System) : Prop where
  alive : (s.registry.endpoints control).isSome = true
  stack : s.card.stack = net + 1
  bound : s.card.bound = 0 ∨ s.card.bound = control
  whole : ∀ frame ∈ s.card.used, Nic.headerBytes < frame.written
  awaited : ∀ position frame, s.card.used[position]? = some frame → frame.announced = true →
    s.Queued control Nic.tagReceived ∨ position < s.task.rounds

section
variable {net control} {s t : System}

/-- The card may rely on as much when it has no other frames, no message has left the
queue and a `drain` under way goes on. -/
theorem Watched.mono (h : Watched net control s)
    (halive : (t.registry.endpoints control).isSome = true) (hstack : t.card.stack = s.card.stack)
    (hbound : t.card.bound = 0 ∨ t.card.bound = control)
    (hused : t.card.used = s.card.used) (hkept : s.queue control ⊆ t.queue control)
    (hrounds : s.task.rounds ≤ t.task.rounds) : Watched net control t := by
  refine ⟨halive, hstack.trans h.stack, hbound, hused ▸ h.whole, ?_⟩
  intro position frame hframe hannounced
  rw [hused] at hframe
  exact (h.awaited position frame hframe hannounced).imp (Queued.mono · hkept)
    (lt_of_lt_of_le · hrounds)

/-- Steps that leave the queue and the card alone. -/
theorem Watched.of_same (h : Watched net control s) (hregistry : t.registry = s.registry)
    (hcard : t.card = s.card) (hrounds : s.task.rounds ≤ t.task.rounds) :
    Watched net control t := by
  refine h.mono (hregistry ▸ h.alive) (hcard ▸ rfl) (hcard ▸ h.bound) (hcard ▸ rfl) ?_ hrounds
  unfold System.queue
  rw [hregistry]
  exact Subset.refl _

variable {sender : Option ThreadId} {endpoint : Nat} {message : Ipc.Message}

theorem Posted.rounds
    (hp : Posted control s t sender endpoint message) : t.task.rounds = s.task.rounds := by
  rcases hp.task with htask | ⟨hparked, htask⟩
  · rw [htask]
  · rw [htask, hparked]
    rfl

section

variable (h : Watched net control s)
include h

theorem Watched.of_posted
    (hp : Posted control s t sender endpoint message) : Watched net control t :=
  h.mono (hp.alive h.alive) (by rw [hp.card]) (hp.card ▸ h.bound) (by rw [hp.card]) hp.kept
    hp.rounds.ge

variable {card : Nic.Card}

theorem Watched.arrive {written : Nat}
    (hwhole : Nic.headerBytes < written) (harrive : s.card.arrive written = some card) :
    Watched net control { s with card := card } := by
  unfold Nic.Card.arrive at harrive
  split at harrive
  · cases harrive
    refine ⟨h.alive, h.stack, h.bound, ?_, ?_⟩
    · intro frame hframe
      rcases mem_append.mp hframe with hold | hnew
      · exact h.whole frame hold
      · rw [mem_singleton.mp hnew]
        exact hwhole
    intro position frame hframe hannounced
    dsimp only at hframe
    rw [getElem?_append] at hframe
    split at hframe
    · exact h.awaited position frame hframe hannounced
    · -- the new frame has not been announced
      obtain rfl := mem_singleton.mp (mem_of_getElem? hframe)
      cases hannounced
  · cases harrive

/-- The interrupt is handled, and every frame is announced. -/
theorem Watched.interrupt (hbound : s.card.bound ≠ 0) (hok : Noticed control s .interrupt) :
    Watched net control ({ s with card := s.card.handled true }.post net 0 none s.card.bound
      Nic.notification) := by
  have hp := post_posted net control { s with card := s.card.handled true } 0 none s.card.bound
    Nic.notification
  have hcontrol := h.bound.resolve_left hbound
  refine ⟨hp.alive h.alive, ?_, ?_, ?_, ?_⟩
  · rw [hp.card]
    exact h.stack
  · rw [hp.card]
    exact h.bound
  · rw [hp.card]
    intro frame hframe
    obtain ⟨old, hold, rfl⟩ := mem_map.mp hframe
    exact h.whole old hold
  intro position frame hframe _
  rw [hp.card] at hframe
  rw [hp.rounds]
  rcases hok.resolve_left hbound with hroom | hqueued | hrounds
  · exact .inl (hp.heard rfl hcontrol hroom)
  · exact .inl (Queued.mono hqueued hp.kept)
  · have hlt := (List.getElem?_eq_some_iff.mp hframe).1
    rw [Nic.Card.handled, length_map] at hlt
    exact .inr (lt_of_lt_of_le hlt hrounds)

/-- A message is taken and dispatched: a notification of the card's starts a `drain`, long
enough for all the card can hold. -/
theorem Watched.dispatch (htask : s.task = .receiving) {r : Ipc.Registry} {m : Ipc.Message}
    (hround : s.registry.receiveRound net control = .ok (some m, r)) :
    Watched net control ({ s with registry := r }.dispatch m) := by
  obtain ⟨halive, hqueue⟩ := received hround
  have hother : ¬ (m.tag = Nic.tagReceived ∧ m.sender = Ipc.kernelSender) →
      ∀ task armed, Watched net control
        { s with registry := r, task := task, timerArmed := armed } := by
    intro hother task armed
    refine ⟨halive, h.stack, h.bound, h.whole, fun position frame hframe hannounced => .inl ?_⟩
    rcases h.awaited position frame hframe hannounced with ⟨first, hmem, hfirst⟩ | hrounds
    · rw [hqueue] at hmem
      rcases mem_cons.mp hmem with rfl | hrest
      · exact absurd hfirst hother
      · exact ⟨first, hrest, hfirst⟩
    · rw [htask] at hrounds
      cases hrounds
  unfold System.dispatch
  split
  · split
    · refine ⟨halive, h.stack, h.bound, h.whole, fun position frame hframe _ => .inr ?_⟩
      have hlt : position < Nic.receiveBuffers :=
        lt_of_lt_of_le (List.getElem?_eq_some_iff.mp hframe).1 (s.card.fits.trans s.card.few)
      exact hlt.trans (show Nic.receiveBuffers < drainRounds by decide)
    · rename_i htag
      split
      · exact hother (fun hm => htag hm.1) _ _
      · exact hother (fun hm => htag hm.1) _ _
  · rename_i hsender
    exact hother (fun hm => hsender hm.2) _ _

/-- A round of `drain` takes the oldest frame. -/
theorem Watched.take {left : Nat} (htask : s.task = .draining (left + 1))
    {frame : Nic.Frame} {rest : List Nic.Frame} (hused : s.card.used = frame :: rest)
    (hrest : card.used = rest) (hstack : card.stack = s.card.stack)
    (hbound : card.bound = s.card.bound) :
    Watched net control { s with card := card, task := .taken left } := by
  refine ⟨h.alive, hstack.trans h.stack, by rw [hbound]; exact h.bound, ?_, ?_⟩
  · intro frame hframe
    refine h.whole frame ?_
    rw [hused, ← hrest]
    exact mem_cons_of_mem _ hframe
  · intro position frame hframe hannounced
    have hold : s.card.used[position + 1]? = some frame := by
      rw [hused, getElem?_cons_succ, ← hrest]
      exact hframe
    refine (h.awaited (position + 1) frame hold hannounced).imp_right fun hlt => ?_
    rw [htask] at hlt
    exact Nat.lt_of_succ_lt_succ hlt

/-- **The card's step lemma.** -/
theorem Watched.step {a : Label} (hok : Noticed control s a)
    (hs : step net control s a = some t) : Watched net control t := by
  cases a with
  | send =>
    cases hs
    exact h.of_posted (post_posted ..)
  | set =>
    obtain ⟨-, hs⟩ := ite_none_left_eq_some.mp hs
    cases hs
    exact h.of_same rfl rfl le_rfl
  | tick | fire =>
    rw [step.eq_def] at hs
    dsimp only at hs
    repeat' split at hs
    all_goals cases hs
    all_goals exact h.of_same rfl rfl le_rfl
  | notify cpu =>
    rw [step.eq_def] at hs
    dsimp only at hs
    split at hs
    · cases hs
      exact h.of_same rfl rfl le_rfl
    · rename_i endpoint cookie due hcpu
      cases hs
      exact Watched.of_posted (s := { s with cpus := update s.cpus cpu (.notifying due) })
        (h.of_same rfl rfl le_rfl) (post_posted ..)
    · cases hs
    · cases hs
  | arrive =>
    obtain ⟨card, harrive, rfl⟩ := map_eq_some_iff.mp hs
    exact h.arrive hok harrive
  | interrupt =>
    obtain ⟨-, hs⟩ := ite_none_right_eq_some.mp hs
    split at hs
    · cases hs
      exact h.mono h.alive rfl h.bound s.card.handled_false (Subset.refl _) le_rfl
    · rename_i hbound
      cases hs
      exact h.interrupt hbound hok
  | bind =>
    obtain ⟨htask, hs⟩ := ite_none_right_eq_some.mp hs
    split at hs
    · cases hs
    rename_i card hbind
    cases hs
    obtain rfl := Nic.Card.bind_ok hbind
    exact h.mono h.alive rfl (.inr rfl) rfl (Subset.refl _) (by rw [htask]; exact le_rfl)
  | booted =>
    obtain ⟨⟨htask, -⟩, rfl⟩ := of_guard hs
    exact h.of_same rfl rfl (by rw [htask]; exact Nat.zero_le _)
  | receive =>
    obtain ⟨htask, hs⟩ := ite_none_right_eq_some.mp hs
    split at hs
    · cases hs
    · rename_i registry hround
      cases hs
      obtain ⟨halive, hqueue⟩ := received hround
      refine h.mono halive rfl h.bound rfl ?_ (by rw [htask]; exact le_rfl)
      rw [hqueue]
      exact Subset.refl _
    · rename_i message registry hround
      cases hs
      exact h.dispatch htask hround
  | take =>
    rw [step.eq_def] at hs
    dsimp only at hs
    split at hs
    · rename_i htask
      cases hs
      exact h.of_same rfl rfl (by rw [htask]; exact le_rfl)
    · rename_i left htask
      rcases Nic.Card.receive_of_stack h.stack with
        ⟨hused, hreceive⟩ | ⟨frame, rest, card, hused, hreceive, hrest, hbound, hstack⟩
      · rw [hreceive] at hs
        cases hs
        refine ⟨h.alive, h.stack, h.bound, h.whole, fun position frame hframe => ?_⟩
        dsimp only at hframe
        rw [hused] at hframe
        cases hframe
      · have hlength := Nic.Frame.length_pos (h.whole frame (hused ▸ mem_cons_self))
        obtain ⟨_, hsucc⟩ := Nat.exists_eq_succ_of_ne_zero hlength.ne'
        rw [hreceive, hsucc] at hs
        cases hs
        exact h.take htask hused hrest hstack hbound
    all_goals cases hs
  | arm | armed =>
    obtain ⟨-, rfl⟩ := of_guard hs
    exact h.of_same rfl rfl le_rfl
  | done =>
    obtain ⟨-, hs⟩ := ite_none_left_eq_some.mp hs
    split at hs
    case h_1 left htask | h_2 htask | h_3 htask =>
      cases hs
      exact h.of_same rfl rfl (by rw [htask]; exact le_rfl)
    all_goals cases hs

end

theorem Starts.watched (h : Starts net control s) : Watched net control s :=
  ⟨h.endpoint, h.stack, .inl h.bound, by simp [h.used], by simp [h.used]⟩

/-- **Announced frames are taken.**  Along every schedule on which the card's notifications
are noticed, an announced frame on the card has a notification in the control queue or a
`drain` under way that will get to it, and so the daemon is never parked on an empty queue
with such a frame waiting. -/
theorem frames_awaited (h : (system net control).Reaches (Noticed control) s) :
    s.Awaited control ∧ ∀ frame ∈ s.card.used, frame.announced = true →
      ¬ (s.task = .parked ∧ s.queue control = []) := by
  have hinv : Watched net control s :=
    h.invariant (I := Watched net control) (fun _ => Starts.watched)
      fun hs hok hstep => hs.step hok hstep
  refine ⟨fun position frame hframe hannounced => ?_, ?_⟩
  · refine (hinv.awaited position frame hframe hannounced).imp_right fun hlt => ⟨hlt, ?_⟩
    exact fun front hfront => Nic.Frame.length_pos (hinv.whole front (mem_of_mem_take hfront))
  rintro frame hframe hannounced ⟨hparked, hempty⟩
  obtain ⟨position, hposition⟩ := mem_iff_getElem?.mp hframe
  rcases hinv.awaited position frame hposition hannounced with ⟨m, hm, -⟩ | hlt
  · rw [hempty] at hm
    cases hm
  · rw [hparked] at hlt
    cases hlt

end

instance (s : System) (a : Label) : Decidable (Noticed 1 s a) := by
  cases a <;> unfold Noticed <;> infer_instance

/-- A frame arrives and is announced to a daemon that has room. -/
theorem frames_awaited_arrival : ∃ s, (system 2 1).Reaches (Noticed 1) s ∧
    (∃ frame ∈ s.card.used, frame.announced = true) ∧ s.Awaited 1 := by
  obtain ⟨s, hreaches, hframe⟩ := (system 2 1).exists_reaches (Noticed 1)
    (starting ++ [.receive, .arrive 70, .interrupt])
    (fun s => ∃ frame ∈ s.card.used, frame.announced = true) started_starts (by decide +kernel)
  exact ⟨s, hreaches, hframe, (frames_awaited hreaches).1⟩

/-- What the daemon does with a client's 32 messages, and then waits again. -/
def served : List Label := (replicate 32 [.receive, .done]).flatten ++ [.receive]

/-- **A stranded frame**: the card's interrupt is handled while the queue is full of a
client's messages.  The daemon serves them all and parks, with the frame on the card. -/
theorem frame_stranded : ∃ s, (system 2 1).Reachable s ∧
    (∃ frame ∈ s.card.used, frame.announced = true ∧ 0 < frame.length) ∧ s.task = .parked ∧
    s.queue 1 = [] := (system 2 1).exists_reachable
    (starting ++ flooded ++ [.arrive 70, .interrupt] ++ served) _ started_starts (by decide +kernel)

/-- **An empty frame ends the loop**: the device reports a buffer with nothing after its
header, and the frame behind it stays on the card. -/
theorem frame_stranded_behind_empty : ∃ s, (system 2 1).Reachable s ∧
    (∃ frame ∈ s.card.used, frame.announced = true ∧ 0 < frame.length) ∧ s.task = .parked ∧
    s.queue 1 = [] := (system 2 1).exists_reachable
    (starting ++ [.arrive 10, .arrive 70, .interrupt, .receive, .take, .receive]) _
    started_starts (by decide +kernel)

end Panda.ControlLoop
