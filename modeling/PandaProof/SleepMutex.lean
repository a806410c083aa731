import Mathlib.Data.Fintype.Basic
import PandaProof.Machine
import PandaProof.Parking

/-!
# The sleeping mutex

`SleepMutex` of `sync.rs`, for any number of threads.  A thread that finds the
mutex held queues itself under the waiters' lock, where it tries once more, and
parks; the holder lets go, takes one waiter off the queue and wakes it.  Each
`compare_exchange`, each store and each critical section on the waiter queue is
one atomic step.  Letting go of the waiters' lock is merged with the last access
inside the section: until it is released nobody else can look at the queue.

A waiter's entry is removed only by an unlocker.  A thread that returned early
from `block_current`, because some unrelated wake was recorded for it, leaves
its entry behind, and an unlocker that pops such an entry wakes a thread that is
not waiting.  When that is the only wake the release was going to issue, every
other waiter is stranded (`stranded_reachable`).  The protocol is sound as long
as no thread takes the mutex while an entry of its own is still queued
(`no_stranded_waiter`).
-/
namespace Panda.SleepMutex

open Option Parking
variable {T : Type} [DecidableEq T]

/-- Where a thread is in `lock`, or in the guard's `drop`. -/
inductive Pc (T : Type)
  /-- Neither in `lock` nor holding the guard. -/
  | outside
  /-- At the first `take` of the loop. -/
  | taking
  /-- `take` failed and the caller may sleep: about to lock the waiter queue. -/
  | queueing
  /-- Holds the waiters' lock, about to `take` again. -/
  | retaking
  /-- The second `take` failed: about to `push_back`. -/
  | pushing
  /-- Queued, about to call `block_current`. -/
  | blocking
  /-- `block_current` marked it `Blocked`; it goes on once it is unblocked. -/
  | parked
  /-- `lock` returned its guard. -/
  | holding
  /-- `held` is cleared, about to `pop_front`. -/
  | popping
  /-- Popped `next`, about to `unblock` it. -/
  | waking (next : T)
  deriving DecidableEq

/-- The thread is inside the loop of `lock`. -/
def Pc.locking : Pc T → Bool
  | .taking | .queueing | .retaking | .pushing | .blocking | .parked => true
  | _ => false

/-- The thread is past its last `take` of this round and will sleep unless it is
woken. -/
def Pc.sleepy : Pc T → Bool
  | .pushing | .blocking | .parked => true
  | _ => false

/-- The mutex, the lock of its waiter queue, and every thread's position. -/
structure State (T : Type) where
  held : Bool
  waiters : List T
  /-- The thread inside the critical section of `waiters`. -/
  queueLock : Option T
  parking : Parking T
  pc : T → Pc T

/-- `SleepMutex::new`, with no thread near it. -/
def initial : State T := ⟨false, [], none, .initial, fun _ => .outside⟩

/-- Thread `t` goes on at `pc`. -/
@[simp] def State.goto (s : State T) (t : T) (pc : Pc T) : State T :=
  { s with pc := Function.update s.pc t pc }

open State

@[simp] theorem goto_parking (s : State T) (t : T) (pc : Pc T) :
    (s.goto t pc).parking = s.parking := rfl

variable {t u : T}

theorem goto_pc_of_ne (s : State T) (h : u ≠ t) (pc : Pc T) : (s.goto t pc).pc u = s.pc u := by
  simp [h]

/-- What a running thread does next. -/
inductive Act
  /-- Calls `lock`. -/
  | lock
  /-- The first `take`; `canSleep` is what `can_sleep()` says should it fail. -/
  | take (canSleep : Bool)
  /-- Locks the waiter queue. -/
  | enter
  /-- The second `take`. -/
  | retake
  /-- `push_back(me)`, and out of the critical section. -/
  | push
  /-- `block_current`. -/
  | block
  /-- Runs again after having been unblocked. -/
  | resume
  /-- The guard is dropped: `held.store(false)`. -/
  | unlock
  /-- `pop_front` under the waiters' lock. -/
  | pop
  /-- `unblock(next)`. -/
  | wake
  /-- Calls `block_current` for a reason of its own. -/
  | elsewhere

/-- A step of the system: a thread runs, or something unrelated unblocks it. -/
inductive Label (T : Type)
  | run (t : T) (a : Act)
  | stray (t : T)

/-- One atomic step.  A parked thread takes none. -/
def step (s : State T) : Label T → Option (State T)
  | .stray t => some { s with parking := s.parking.unblock t }
  | .run t a =>
    if s.parking.blocked t then none
    else match a, s.pc t with
      | .lock, .outside => some (s.goto t .taking)
      | .take canSleep, .taking =>
        if s.held then some (s.goto t (if canSleep then .queueing else .taking))
        else some ({ s with held := true }.goto t .holding)
      | .enter, .queueing =>
        if s.queueLock = none then some ({ s with queueLock := some t }.goto t .retaking)
        else none
      | .retake, .retaking =>
        if s.held then some (s.goto t .pushing)
        else some ({ s with held := true, queueLock := none }.goto t .holding)
      | .push, .pushing =>
        some ({ s with waiters := s.waiters ++ [t], queueLock := none }.goto t .blocking)
      | .block, .blocking =>
        let r := s.parking.blockCurrent t
        some ({ s with parking := r.1 }.goto t (if r.2 then .parked else .taking))
      | .resume, .parked => some (s.goto t .taking)
      | .unlock, .holding => some ({ s with held := false }.goto t .popping)
      | .pop, .popping =>
        if s.queueLock = none then
          match s.waiters with
          | [] => some (s.goto t .outside)
          | next :: rest => some ({ s with waiters := rest }.goto t (.waking next))
        else none
      | .wake, .waking next =>
        some ({ s with parking := s.parking.unblock next }.goto t .outside)
      | .elsewhere, .outside | .elsewhere, .holding =>
        some { s with parking := (s.parking.blockCurrent t).1 }
      | _, _ => none

/-- One mutex and all the threads of the system. -/
def machine (T : Type) [DecidableEq T] : Machine (State T) (Label T) where
  Init s := s = initial
  step := step

/-- `u` is going to look at the mutex again, or to wake a thread that will:
it is on its way to a `take` or to a `pop_front`, a wake is recorded for the
sleep it is about to enter, or it is about to unblock a thread that sleeps. -/
def rescues (s : State T) (u : T) : Bool :=
  !s.parking.blocked u && match s.pc u with
    | .taking | .queueing | .retaking | .parked | .popping => true
    | .pushing | .blocking => s.parking.wakePending u
    | .waking next => (s.pc next).sleepy
    | _ => false

/-- The mutex is free, a thread is parked in its queue, and nobody is left to
take the lock or to wake a waiter. -/
def Stranded (s : State T) : Prop :=
  s.held = false ∧ (∃ t, s.pc t = .parked ∧ s.parking.blocked t = true ∧ t ∈ s.waiters) ∧
    ∀ u, rescues s u = false

instance [Fintype T] (s : State T) : Decidable (Stranded s) :=
  inferInstanceAs (Decidable (_ ∧ _ ∧ _))

/-! ## A schedule that strands a waiter -/

/-- A thread's steps, one after the other. -/
def turn (t : T) (acts : List Act) : List (Label T) := acts.map (.run t)

/-- **A waiter can be stranded**: three threads and one unrelated wake are
enough, and in the end everybody else is done with the mutex. -/
theorem stranded_reachable : ∃ s, (machine (Fin 3)).Reachable s ∧ Stranded s ∧
    s.pc 0 = .outside ∧ s.pc 1 = .outside ∧ s.pc 2 = .parked := by
  -- Thread 0 holds the mutex.  Thread 1 queues, is woken by something unrelated
  -- before it parks, finds the mutex still held, queues a second time and parks.
  -- Thread 2 queues behind it and parks.  Thread 0 releases and wakes thread 1,
  -- which takes the mutex and releases it: its `pop_front` returns its own second
  -- entry, and the wake goes to itself.
  exact (machine (Fin 3)).exists_reachable
    (turn 0 [.lock, .take true] ++ turn 1 [.lock, .take true, .enter, .retake, .push] ++
      .stray 1 :: turn 1 [.block, .take true, .enter, .retake, .push, .block] ++
      turn 2 [.lock, .take true, .enter, .retake, .push, .block] ++ turn 0 [.unlock, .pop, .wake] ++
      turn 1 [.resume, .take true, .unlock, .pop, .wake])
    _ rfl (by decide)

/-! ## What a step can do -/

/-- What a running thread does, one constructor for each way it can go on. -/
inductive Runs (s : State T) (t : T) : Act → State T → Prop
  | lock (hpc : s.pc t = .outside) : Runs s t .lock (s.goto t .taking)
  | takeBusy {c : Bool} (hpc : s.pc t = .taking) (hheld : s.held = true) :
      Runs s t (.take c) (s.goto t (if c then .queueing else .taking))
  | takeFree {c : Bool} (hpc : s.pc t = .taking) (hheld : s.held = false) :
      Runs s t (.take c) ({ s with held := true }.goto t .holding)
  | enter (hpc : s.pc t = .queueing) (hq : s.queueLock = none) :
      Runs s t .enter ({ s with queueLock := some t }.goto t .retaking)
  | retakeBusy (hpc : s.pc t = .retaking) (hheld : s.held = true) :
      Runs s t .retake (s.goto t .pushing)
  | retakeFree (hpc : s.pc t = .retaking) (hheld : s.held = false) :
      Runs s t .retake ({ s with held := true, queueLock := none }.goto t .holding)
  | push (hpc : s.pc t = .pushing) : Runs s t .push
        ({ s with waiters := s.waiters ++ [t], queueLock := none }.goto t .blocking)
  | blockWoken (hpc : s.pc t = .blocking) (hw : s.parking.wakePending t = true) :
      Runs s t .block ({ s with parking := (s.parking.blockCurrent t).1 }.goto t .taking)
  | blockPark (hpc : s.pc t = .blocking) (hw : s.parking.wakePending t = false) :
      Runs s t .block ({ s with parking := (s.parking.blockCurrent t).1 }.goto t .parked)
  | resume (hpc : s.pc t = .parked) : Runs s t .resume (s.goto t .taking)
  | unlock (hpc : s.pc t = .holding) : Runs s t .unlock ({ s with held := false }.goto t .popping)
  | popNone (hpc : s.pc t = .popping) (hq : s.queueLock = none) (hw : s.waiters = []) :
      Runs s t .pop (s.goto t .outside)
  | popSome {next : T} {rest : List T} (hpc : s.pc t = .popping) (hq : s.queueLock = none)
      (hw : s.waiters = next :: rest) :
      Runs s t .pop ({ s with waiters := rest }.goto t (.waking next))
  | wake {next : T} (hpc : s.pc t = .waking next) :
      Runs s t .wake ({ s with parking := s.parking.unblock next }.goto t .outside)
  | elsewhere (hpc : s.pc t = .outside ∨ s.pc t = .holding) :
      Runs s t .elsewhere { s with parking := (s.parking.blockCurrent t).1 }

variable {s s' : State T} {l : Label T} {a : Act}

theorem runs_of_step (h : step s (.run t a) = some s') :
    s.parking.blocked t = false ∧ Runs s t a s' := by
  cases hb : s.parking.blocked t with
  | true => simp [step, hb] at h
  | false =>
    refine ⟨rfl, ?_⟩
    cases a <;> cases hpc : s.pc t <;> simp only [step, hb, hpc, reduceCtorEq, if_false,
      Bool.false_eq_true, some.injEq] at h
    · exact h ▸ .lock hpc
    · cases hheld : s.held <;> simp only [hheld, if_true, if_false, Bool.false_eq_true,
        some.injEq] at h
      · exact h ▸ .takeFree hpc hheld
      · exact h ▸ .takeBusy hpc hheld
    · split at h
      · exact some.inj h ▸ .enter hpc ‹_›
      · cases h
    · cases hheld : s.held <;> simp only [hheld, if_true, if_false, Bool.false_eq_true,
        some.injEq] at h
      · exact h ▸ .retakeFree hpc hheld
      · exact h ▸ .retakeBusy hpc hheld
    · exact h ▸ .push hpc
    · cases hw : s.parking.wakePending t with
      | true =>
        simp only [blockCurrent_snd, hw, Bool.not_true, if_false, Bool.false_eq_true] at h
        exact h ▸ .blockWoken hpc hw
      | false =>
        simp only [blockCurrent_snd, hw, Bool.not_false, if_true] at h
        exact h ▸ .blockPark hpc hw
    · exact h ▸ .resume hpc
    · exact h ▸ .unlock hpc
    · split at h
      · split at h
        · exact some.inj h ▸ .popNone hpc ‹_› ‹_›
        · exact some.inj h ▸ .popSome hpc ‹_› ‹_›
      · cases h
    · exact h ▸ .wake hpc
    · exact h ▸ .elsewhere (.inl hpc)
    · exact h ▸ .elsewhere (.inr hpc)

/-! ## Mutual exclusion -/

/-- `o` is who has the guard, and the mutex is held just if somebody has. -/
def State.HeldBy (s : State T) (o : Option T) : Prop :=
  s.held = o.isSome ∧ ∀ t, s.pc t = .holding ↔ o = some t

open Function in
theorem heldBy_step {o : Option T} (ho : s.HeldBy o) (h : Runs s t a s') : ∃ o', s'.HeldBy o' := by
  obtain ⟨hheld, hpc⟩ := ho
  cases h with
  | takeFree | retakeFree => exact ⟨some t, rfl, by simp only [goto, update_apply]; grind⟩
  | unlock => exact ⟨none, rfl, by simp only [goto, update_apply]; grind⟩
  | elsewhere => exact ⟨o, hheld, hpc⟩
  | _ => exact ⟨o, hheld, by simp only [goto, update_apply]; grind⟩

/-- **The mutex excludes**, stale entries and unrelated wakes or not: in every run one thread at
most has the guard, and the mutex is held exactly while one does. -/
theorem held_by_one (h : (machine T).Reachable s) : ∃ o, s.HeldBy o := by
  have hinit : (initial : State T).HeldBy none := by simp [initial, State.HeldBy]
  refine h.invariant_from (I := fun s => ∃ o, s.HeldBy o) ⟨none, hinit⟩ ?_
  rintro s l s' ⟨o, ho⟩ - hs
  cases l with
  | stray => cases hs; exact ⟨o, ho⟩
  | run => exact heldBy_step ho (runs_of_step hs).2

/-- Thread 1 takes the free mutex. -/
theorem held_by_one_taken : ∃ s, (machine (Fin 2)).Reachable s ∧ s.HeldBy (some 1) := by
  obtain ⟨s, hs, hpc⟩ := (machine (Fin 2)).exists_reachable
    (turn 1 [.lock, .take true]) (fun s => s.pc 1 = .holding) rfl (by decide)
  obtain ⟨o, ho⟩ := held_by_one hs
  exact ⟨s, hs, (ho.2 1).mp hpc ▸ ho⟩

/-! ## The protocol without stale entries -/

/-- The thread that tries to take the mutex in a step. -/
def Label.taker : Label T → Option T
  | .run t (.take _) | .run t .retake => some t
  | _ => none

/-- A thread that takes the free mutex has no entry of its own left in the
queue. -/
def EntersClean (s : State T) (l : Label T) : Prop :=
  s.held = false → ∀ t ∈ l.taker, t ∉ s.waiters

instance (s : State T) (l : Label T) : Decidable (EntersClean s l) :=
  inferInstanceAs (Decidable (_ → _))

/-- What holds of a thread at a place: a queued thread is still inside `lock`, the section
between the second `take` and `push_back` is exclusive, and threads park in `lock`, or on
business of their own. -/
def State.Placed (s : State T) (t : T) (pc : Pc T) : Prop :=
  (t ∈ s.waiters → pc.locking = true) ∧
    (pc = .retaking ∨ pc = .pushing → s.queueLock = some t) ∧
    (s.parking.blocked t = true → pc = .outside ∨ pc = .parked ∨ pc = .holding)

/-- What every state of a run without stale entries satisfies. -/
structure Inv (s : State T) : Prop where
  placed : ∀ t, s.Placed t (s.pc t)
  /-- While the mutex is free, waiters have somebody to count on. -/
  rescued : s.held = false → (s.waiters ≠ [] ∨ ∃ t, s.pc t = .pushing) → ∃ u, rescues s u = true

omit [DecidableEq T] in
theorem initial_inv : Inv (initial : State T) := by
  constructor <;> simp [initial, initial, State.Placed]

variable {pc : Pc T}

omit [DecidableEq T] in
/-- A thread outside `lock` has no entry. -/
theorem Inv.not_queued (hi : Inv s) (h : (s.pc t).locking = false) : t ∉ s.waiters := by
  intro ht
  simp [(hi.placed t).1 ht] at h

omit [DecidableEq T] in
/-- A thread in `lock` that is not parked there runs. -/
theorem Inv.runs (hi : Inv s) (h : (s.pc t).locking = true)
    (hp : s.pc t ≠ .parked) : s.parking.blocked t = false := by
  by_contra hb
  rcases (hi.placed t).2.2 (by simpa using hb) with ho | ho | ho
  · simp [ho, Pc.locking] at h
  · exact hp ho
  · simp [ho, Pc.locking] at h

theorem placed_step (hi : Inv s) (hok : EntersClean s (.run t a))
    (hb : s.parking.blocked t = false) (h : Runs s t a s') : ∀ u, s'.Placed u (s'.pc u) := by
  have hold := hi.placed
  have hruns : ∀ {P : Prop}, s.parking.blocked t = true → P := fun h => by simp [hb] at h
  have hgoto : ∀ {r : State T} {pc : Pc T}, r.pc = s.pc → r.Placed t pc →
      (∀ u, u ≠ t → r.Placed u (s.pc u)) → ∀ u, (r.goto t pc).Placed u ((r.goto t pc).pc u) := by
    intro r pc hpc ht hothers
    exact (Function.forall_update_iff r.pc r.Placed).mpr ⟨ht, hpc ▸ hothers⟩
  -- Whoever is inside the section excludes everybody else from it.
  have halone : s.pc t = .retaking ∨ s.pc t = .pushing →
      ∀ u, u ≠ t → ¬(s.pc u = .retaking ∨ s.pc u = .pushing) := by
    intro ht u hut hu
    exact hut (some.inj (((hold u).2.1 hu).symm.trans ((hold t).2.1 ht)))
  cases h with
  | elsewhere hpc =>
    refine fun u => ⟨(hold u).1, (hold u).2.1, fun hu => ?_⟩
    by_cases hut : u = t
    · subst hut
      exact hpc.imp_right .inr
    · exact (hold u).2.2 (blockCurrent_blocked_of_ne hut ▸ hu)
  | lock | resume => exact hgoto rfl ⟨fun _ => rfl, by simp, hruns⟩ fun u _ => hold u
  | @takeBusy c =>
    exact hgoto rfl ⟨fun _ => by cases c <;> rfl, by cases c <;> simp, hruns⟩ fun u _ => hold u
  | takeFree hpc hheld =>
    exact hgoto rfl ⟨fun hu => absurd hu (hok hheld t rfl), by simp, hruns⟩ fun u _ => hold u
  | enter hpc hq =>
    refine hgoto rfl ⟨fun _ => rfl, fun _ => rfl, hruns⟩ fun u _ => ⟨(hold u).1, fun hu => ?_,
      (hold u).2.2⟩
    exact absurd ((hold u).2.1 hu) (by simp [hq])
  | retakeBusy hpc =>
    exact hgoto rfl ⟨fun _ => rfl, fun _ => (hold t).2.1 (.inl hpc), hruns⟩ fun u _ => hold u
  | retakeFree hpc hheld =>
    exact hgoto rfl ⟨fun hu => absurd hu (hok hheld t rfl), by simp, hruns⟩ fun u hut =>
      ⟨(hold u).1, fun hu => absurd hu (halone (.inl hpc) u hut), (hold u).2.2⟩
  | push hpc =>
    refine hgoto rfl ⟨fun _ => rfl, by simp, hruns⟩ fun u hut => ⟨fun hu => ?_,
      fun hu => absurd hu (halone (.inr hpc) u hut), (hold u).2.2⟩
    exact (hold u).1 ((List.mem_append.mp hu).resolve_right (by simpa using hut))
  | blockWoken hpc hw =>
    rw [blockCurrent_of_wake hw]
    exact hgoto rfl ⟨fun _ => rfl, by simp, hruns⟩ fun u _ => hold u
  | blockPark hpc hw =>
    rw [blockCurrent_of_no_wake hw]
    exact hgoto rfl ⟨fun _ => rfl, by simp, fun _ => .inr (.inl rfl)⟩ fun u hut =>
      ⟨(hold u).1, (hold u).2.1, fun hu => (hold u).2.2 (by simpa [hut] using hu)⟩
  | unlock hpc | popNone hpc =>
    have hnot : t ∉ s.waiters := hi.not_queued (by rw [hpc]; rfl)
    exact hgoto rfl ⟨fun hu => absurd hu hnot, by simp, hruns⟩ fun u _ => hold u
  | @popSome next rest hpc hq hw =>
    have hnot : t ∉ next :: rest := hw ▸ hi.not_queued (by rw [hpc]; rfl)
    exact hgoto rfl ⟨fun hu => absurd (List.mem_cons_of_mem _ hu) hnot, by simp, hruns⟩ fun u _ =>
      ⟨fun hu => (hold u).1 (hw ▸ List.mem_cons_of_mem _ hu), (hold u).2⟩
  | wake hpc =>
    have hnot : t ∉ s.waiters := hi.not_queued (by rw [hpc]; rfl)
    exact hgoto rfl ⟨fun hu => absurd hu hnot, by simp, fun hu => hruns (blocked_of_unblock hu)⟩
      fun u _ => ⟨(hold u).1, (hold u).2.1, fun hu => (hold u).2.2 (blocked_of_unblock hu)⟩

omit [DecidableEq T] in
/-- A thread that stays where it is can be counted on as long as sleepers stay asleep. -/
theorem rescues_mono (hpc : s'.pc u = s.pc u)
    (hsleepy : ∀ v, (s.pc v).sleepy = true → (s'.pc v).sleepy = true)
    (hb : s.parking.blocked u = false → s'.parking.blocked u = false)
    (hw : s.parking.wakePending u = true → s'.parking.wakePending u = true)
    (h : rescues s u = true) : rescues s' u = true := by
  simp only [rescues, Bool.and_eq_true, Bool.not_eq_true'] at h ⊢
  refine ⟨hb h.1, ?_⟩
  rw [hpc]
  revert h
  cases s.pc u <;> simp only [and_imp, Bool.false_eq_true, imp_self, implies_true]
  · exact fun _ => hw
  · exact fun _ => hw
  · exact fun _ => hsleepy _

/-- Whoever is queued or about to be was so before a step that takes its thread
nowhere near the queue. -/
theorem waiting_of_goto (hpc : pc ≠ .pushing)
    (h : (s.goto t pc).waiters ≠ [] ∨ ∃ u, (s.goto t pc).pc u = .pushing) :
    s.waiters ≠ [] ∨ ∃ u, s.pc u = .pushing := by
  rcases h with h | ⟨u, hu⟩
  · exact .inl h
  have hut : u ≠ t := by
    rintro rfl
    exact hpc (by simpa using hu)
  exact .inr ⟨u, by rwa [goto_pc_of_ne _ hut] at hu⟩

omit [DecidableEq T] in
/-- A thread on its way to a `take` can be counted on. -/
theorem rescues_of_taking (hb : s.parking.blocked t = false)
    (hpc : s.pc t = .taking) : rescues s t = true := by
  simp [rescues, hb, hpc]

/-- **Waiters keep somebody to count on**, step by step.  The mutex is free only
after an unlocker cleared it; that unlocker passes the duty on to the thread it
pops, which is still in `lock` because no entry is stale. -/
theorem rescued_step (hi : Inv s) (hb : s.parking.blocked t = false) (h : Runs s t a s') :
    s'.held = false → (s'.waiters ≠ [] ∨ ∃ u, s'.pc u = .pushing) → ∃ u, rescues s' u = true := by
  -- Somebody could be counted on before: transport them over the step.
  have hcarry : (∀ v, v ≠ t → s'.pc v = s.pc v) →
      ((s.pc t).sleepy = true → (s'.pc t).sleepy = true) →
      (∀ u, s.parking.blocked u = false → u ≠ t → s'.parking.blocked u = false) →
      (∀ u, s.parking.wakePending u = true → u ≠ t → s'.parking.wakePending u = true) →
      (rescues s t = true → ∃ u, rescues s' u = true) →
      s.held = false → (s.waiters ≠ [] ∨ ∃ t, s.pc t = .pushing) → ∃ u, rescues s' u = true := by
    intro hpc hsleepy hb hw hself hheld hwait
    obtain ⟨u, hu⟩ := hi.rescued hheld hwait
    by_cases hut : u = t
    · subst hut; exact hself hu
    refine ⟨u, rescues_mono (hpc u hut) (fun v hv => ?_) (hb u · hut) (hw u · hut) hu⟩
    by_cases hvt : v = t
    · subst hvt; exact hsleepy hv
    · rwa [hpc v hvt]
  cases h with
  | lock | resume => exact fun _ _ => ⟨_, rescues_of_taking hb (by simp)⟩
  | takeBusy hpc hheld | retakeBusy hpc hheld =>
    exact fun hfree => absurd (hheld.symm.trans hfree) (by simp)
  | takeFree | retakeFree => exact fun hfree => absurd hfree (by simp)
  | enter | unlock => exact fun _ _ => ⟨t, by simpa [rescues] using hb⟩
  | push hpc =>
    intro hheld _
    refine hcarry (fun v hv => goto_pc_of_ne _ hv _) (fun _ => by simp [Pc.sleepy])
      (fun u h _ => h) (fun u h _ => h) (fun ht => ⟨t, ?_⟩) hheld (.inr ⟨t, hpc⟩)
    simp only [rescues, hpc, Bool.and_eq_true, Bool.not_eq_true'] at ht
    simpa [rescues] using ht
  | blockWoken hpc hw =>
    refine fun _ _ => ⟨t, rescues_of_taking ?_ (by simp)⟩
    simpa [blockCurrent_of_wake hw] using hb
  | blockPark hpc hw =>
    intro hheld hwait
    refine hcarry (fun v hv => goto_pc_of_ne _ hv _) (fun _ => by simp [Pc.sleepy])
      (fun u h hut => ?_) (fun u h hut => ?_) (fun ht => ?_) hheld ?_
    · simpa [blockCurrent_blocked_of_ne hut] using h
    · simpa [blockCurrent_wakePending_of_ne hut] using h
    · exact absurd ht (by simp [rescues, hpc, hw])
    · exact waiting_of_goto (by simp) hwait
  | popNone hpc hq hw =>
    -- Nobody is queued, and the section is empty, so nobody is about to be.
    intro _ hwait
    rcases waiting_of_goto (by simp) hwait with hwait | ⟨u, hu⟩
    · exact absurd hw hwait
    · exact absurd ((hi.placed u).2.1 (.inr hu)) (by simp [hq])
  | @popSome next rest hpc hq hw =>
    intro _ _
    have hlock : (s.pc next).locking = true := (hi.placed next).1 (by simp [hw])
    have hne : next ≠ t := by
      rintro rfl
      simp [hpc, Pc.locking] at hlock
    by_cases hsl : (s.pc next).sleepy = true
    · exact ⟨t, by simpa [rescues, hne, hsl] using hb⟩
    refine ⟨next, ?_⟩
    have hnb : s.parking.blocked next = false := hi.runs hlock fun hp => hsl (by rw [hp]; rfl)
    simp only [rescues, goto_pc_of_ne _ hne]
    revert hlock hsl
    cases s.pc next <;> simp [Pc.sleepy, Pc.locking, hnb]
  | @wake next hpc =>
    intro hheld hwait
    refine hcarry (fun v hv => goto_pc_of_ne _ hv _) (fun h => ?_)
      (fun u h _ => unblock_blocked_of_false h)
      (fun u h _ => unblock_wakePending_of_true h) (fun ht => ⟨next, ?_⟩) hheld ?_
    · simp [hpc, Pc.sleepy] at h
    · -- The thread it unblocks sleeps, so it is runnable now or has a wake recorded.
      have hsl : (s.pc next).sleepy = true := by simpa [rescues, hpc, hb] using ht
      have hne : next ≠ t := by
        rintro rfl
        simp [hpc, Pc.sleepy] at hsl
      simp only [rescues, goto_pc_of_ne _ hne, goto_parking, unblock_blocked_self]
      cases hp : s.pc next <;> simp only [hp, Pc.sleepy, Bool.false_eq_true] at hsl
      · exact unblock_wakePending_self (hi.runs (by rw [hp]; rfl) (by simp [hp]))
      · exact unblock_wakePending_self (hi.runs (by rw [hp]; rfl) (by simp [hp]))
      · rfl
    · exact waiting_of_goto (by simp) hwait
  | elsewhere hpc =>
    intro hheld hwait
    refine hcarry (fun _ _ => rfl) id (fun u h hut => ?_) (fun u h hut => ?_)
      (fun ht => ?_) hheld hwait
    · simpa [blockCurrent_blocked_of_ne hut] using h
    · simpa [blockCurrent_wakePending_of_ne hut] using h
    · exact absurd ht (by rcases hpc with hpc | hpc <;> simp [rescues, hpc])

theorem inv_step (hi : Inv s) (hok : EntersClean s l) (h : step s l = some s') : Inv s' := by
  cases l with
  | stray t =>
    cases h
    refine ⟨fun u => ⟨(hi.placed u).1, (hi.placed u).2.1,
      fun hu => (hi.placed u).2.2 (blocked_of_unblock hu)⟩, fun hheld hwait => ?_⟩
    obtain ⟨u, hu⟩ := hi.rescued hheld hwait
    exact ⟨u, rescues_mono (s := s) rfl (fun _ => id) unblock_blocked_of_false
      unblock_wakePending_of_true hu⟩
  | run t a =>
    obtain ⟨hb, hr⟩ := runs_of_step h
    exact ⟨placed_step hi hok hb hr, rescued_step hi hb hr⟩

/-- **No waiter is stranded** in a run where no thread takes the mutex while an
entry of its own is still queued, whatever the interleaving and however many
unrelated wakes arrive. -/
theorem no_stranded_waiter {s : State T} (h : (machine T).Reaches EntersClean s) :
    ¬ Stranded s := by
  have hi : Inv s := h.invariant_from initial_inv inv_step
  rintro ⟨hheld, ⟨t, -, -, hmem⟩, hnone⟩
  obtain ⟨u, hu⟩ := hi.rescued hheld (.inl (List.ne_nil_of_mem hmem))
  simp [hnone u] at hu

/-- Thread 0 has let go of the mutex with thread 1 parked in the queue: not
stranded, since thread 0 is about to wake it. -/
theorem no_stranded_waiter_handover : ∃ s, (machine (Fin 2)).Reaches EntersClean s ∧
    (s.held = false ∧ s.pc 1 = .parked ∧ s.waiters = [1]) ∧ ¬ Stranded s := by
  obtain ⟨s, hs, hp⟩ := (machine (Fin 2)).exists_reaches EntersClean
    (turn 0 [.lock, .take true] ++ turn 1 [.lock, .take true, .enter, .retake, .push, .block] ++
      turn 0 [.unlock])
    (fun s => s.held = false ∧ s.pc 1 = .parked ∧ s.waiters = [1]) rfl (by decide)
  exact ⟨s, hs, hp, no_stranded_waiter hs⟩

end Panda.SleepMutex
