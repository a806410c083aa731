import Mathlib.Data.List.FinRange
import Mathlib.Data.List.Nodup
import PandaProof.Machine
import PandaProof.Parking

/-!
# The scheduler

The per-processor ready queues, the threads and the switch path of `sched/mod.rs`,
for any number of processors.  Every critical section under the processors' locks
is one step, and so is every lock-free access that matters between two of them; the
context switch is a step of its own, later than the section that decided on it.
What a processor is in the middle of is its `Phase`.  Interrupts are masked in every
phase but `run`.

A thread's stack is named by the thread that owns it, and `standing` says on whose
stack a processor is physically executing: that changes only in the context switch,
not when the scheduler's tables say so.  Thread control blocks are never reused, so
they are a function of the id; what is not scheduling state (names, entry points, page
tables, saved registers) is left out.
-/
namespace Panda.Sched

open Function

abbrev ThreadId := Nat

/-- Processors `0` to `n`; processor `0` boots. -/
abbrev CpuId (n : Nat) := Fin (n + 1)

inductive Priority
  | low
  | normal
  | high
  deriving DecidableEq

/-- `Priority::index`. -/
def Priority.index : Priority → Fin 3
  | .low => 0
  | .normal => 1
  | .high => 2

inductive ThreadState
  | ready
  | running
  | blocked
  | finished
  deriving DecidableEq

structure Thread where
  state : ThreadState
  priority : Priority
  /-- Threads parked in `join` on this one. -/
  joiners : List ThreadId
  wakePending : Bool
  /-- Some processor is executing on this thread's stack. -/
  onCpu : Bool
  /-- It owns a kernel stack that has not been handed over yet. -/
  stack : Bool
  /-- The processor whose lock guards this thread. -/
  owner : Nat
  /-- It has marked itself `Blocked` and not yet called `schedule`. -/
  leaving : Bool
  deriving DecidableEq

namespace Thread

/-- `Thread::new`. -/
def new (priority : Priority) (owner : Nat) : Thread :=
  ⟨.ready, priority, [], false, false, true, owner, false⟩

/-- `Thread::adopt_running`: the context that is already executing. -/
def adoptRunning (owner : Nat) : Thread :=
  ⟨.running, .normal, [], false, true, false, owner, false⟩

end Thread

/-- One processor's share of the scheduler. -/
structure Cpu where
  /-- Runnable threads this processor owns, oldest first, one queue per priority. -/
  ready : Fin 3 → List ThreadId
  current : Option ThreadId
  /-- The fallback when nothing else is runnable. -/
  idle : Option ThreadId
  /-- The thread this processor most recently switched away from. -/
  pending : Option ThreadId
  priorityStreak : Nat
  boostLevel : Nat
  /-- Stacks of finished threads, by their owners. -/
  graveyard : List ThreadId
  reaped : List ThreadId

namespace Cpu

/-- `Cpu::new`. -/
def new : Cpu := ⟨fun _ => [], none, none, none, 0, 0, [], []⟩

end Cpu

/-- What a processor is in the middle of. -/
inductive Phase
  /-- Running its current thread, or a handler on top of it. -/
  | run
  /-- In `schedule`, having found its own queues empty: about to `steal`. -/
  | stealing
  /-- In `schedule`, about to take its own lock. -/
  | locking
  /-- In `schedule`, its lock released: about to `bury` these stacks and ids, and
  then to switch, if `switch`. -/
  | burying (switch : Bool) (graves reaped : List ThreadId)
  /-- About to execute `context_switch`. -/
  | switching
  /-- Just switched: about to flush what it switched away from. -/
  | arrived
  /-- In `spawn`, the thread being in the table and not yet on a queue. -/
  | spawned (t : ThreadId)
  /-- In `exit_current`, with joiners still to wake. -/
  | exiting (joiners : List ThreadId)
  /-- In the timer handler, having read the clock. -/
  | ticking (sleeperDue : Bool) (now : Nat) (expired : Bool)
  /-- In the timer handler, with sleepers still to wake. -/
  | waking (due : List ThreadId) (expired : Bool)
  /-- In `adopt_secondary_cpu`, its thread being in the table. -/
  | adopting (t : ThreadId)
  deriving DecidableEq

structure State (n : Nat) where
  thread : ThreadId → Thread
  /-- The length of `THREADS`. -/
  count : Nat
  /-- The entries of `THREADS` that have not been reaped. -/
  present : ThreadId → Bool
  cpu : CpuId n → Cpu
  /-- `QUEUED`. -/
  queued : CpuId n → Nat
  /-- `SLICE`. -/
  slice : CpuId n → Nat
  sleepers : List (ThreadId × Nat)
  /-- `NEXT_WAKE`. -/
  nextWake : Nat
  ticks : Nat
  phase : CpuId n → Phase
  /-- The thread on whose stack a processor is executing. -/
  standing : CpuId n → Option ThreadId

def timeSliceTicks : Nat := 1
def starvationGuard : Nat := 8

/-- No deadline: `u64::MAX`. -/
def never : Nat := 0xffffffffffffffff

variable {n : Nat}

namespace State

@[simp] def setThread (s : State n) (t : ThreadId) (x : Thread) : State n :=
  { s with thread := update s.thread t x }

@[simp] def setCpu (s : State n) (c : CpuId n) (x : Cpu) : State n :=
  { s with cpu := update s.cpu c x }

/-- The processor runs the context it adopted, which is its idle thread too. -/
@[simp] def setIdle (s : State n) (c : CpuId n) (t : ThreadId) : State n :=
  s.setCpu c { s.cpu c with current := some t, idle := some t }

/-- A thread is to be woken when `target` ends. -/
@[simp] def addJoiner (s : State n) (target t : ThreadId) : State n :=
  s.setThread target { s.thread target with joiners := (s.thread target).joiners ++ [t] }

@[simp] def setPhase (s : State n) (c : CpuId n) (p : Phase) : State n :=
  { s with phase := update s.phase c p }

@[simp] def setReady (s : State n) (c : CpuId n) (level : Fin 3) (queue : List ThreadId) :
    State n :=
  s.setCpu c { s.cpu c with ready := update (s.cpu c).ready level queue }

@[simp] def setQueued (s : State n) (c : CpuId n) (k : Nat) : State n :=
  { s with queued := update s.queued c k }

end State

/-- `init`: the boot thread is running on processor 0, whose idle thread is thread 1. -/
def initial : State n where
  thread := fun t => if t = 0 then .adoptRunning 0 else .new .low 0
  count := 2
  present := fun t => t < 2
  cpu := update (fun _ => .new) 0 { Cpu.new with current := some 0, idle := some 1 }
  queued := fun _ => 0
  slice := fun _ => timeSliceTicks
  sleepers := []
  nextWake := never
  ticks := 0
  phase := fun _ => .run
  standing := update (fun _ => none) 0 (some 0)

/-! ## Queues -/

@[simp] def renewSlice (s : State n) (c : CpuId n) : State n :=
  { s with slice := update s.slice c timeSliceTicks }

/-- `enqueue`: put a thread `c` owns on its queue for its priority. -/
def enqueue (s : State n) (c : CpuId n) (t : ThreadId) : State n :=
  let level := (s.thread t).priority.index
  (s.setReady c level ((s.cpu c).ready level ++ [t])).setQueued c (s.queued c + 1)

def runnable (s : State n) (t : ThreadId) : Bool :=
  (s.thread t).state = .ready && !(s.thread t).onCpu

/-- The inner loop of `pop_from`: threads that are not runnable are discarded. -/
def popQueue (s : State n) : List ThreadId → Option ThreadId × List ThreadId
  | [] => (none, [])
  | t :: rest => if runnable s t then (some t, rest) else popQueue s rest

/-- `pop_from`, trying the levels in `order`. -/
def popFrom (s : State n) (c : CpuId n) : List (Fin 3) → Option ThreadId × State n
  | [] => (none, s)
  | level :: order =>
    let queue := (s.cpu c).ready level
    let r := popQueue s queue
    let s' := (s.setReady c level r.2).setQueued c (s.queued c - (queue.length - r.2.length))
    match r.1 with
    | some t => (some t, s')
    | none => popFrom s' c order

/-- `pop_runnable`, honouring the starvation guard. -/
def popRunnable (s : State n) (c : CpuId n) : Option ThreadId × State n :=
  let me := s.cpu c
  let boosting := starvationGuard ≤ me.priorityStreak
  let order := if !boosting then [2, 1, 0] else if me.boostLevel = 0 then [0, 1, 2] else [1, 0, 2]
  match popFrom s c order with
  | (none, s) => (none, s)
  | (some t, s) =>
    let me := s.cpu c
    (some t, s.setCpu c (
      if boosting then { me with priorityStreak := 0, boostLevel := me.boostLevel ^^^ 1 }
      else { me with priorityStreak := min (me.priorityStreak + 1) 0xffffffff }))

/-- `max_by_key` keeps the last of several greatest elements. -/
def maxByKey (key : CpuId n → Nat) : List (CpuId n) → Option (CpuId n)
  | [] => none
  | c :: rest =>
    match maxByKey key rest with
    | none => some c
    | some best => if key best < key c then some c else some best

/-- The processor `steal` picks.  The counters are read without any lock, one after
the other, so what is seen (`hint`, and `again` for the second look at the pick) is
whatever they held at some moment. -/
def victim (c : CpuId n) (hint : CpuId n → Nat) (again : Nat) : Option (CpuId n) :=
  (maxByKey hint ((List.finRange (n + 1)).filter (· ≠ c))).filter fun _ => 0 < again

/-- The critical section of `steal` under both processors' locks. -/
def stealFrom (s : State n) (c v : CpuId n) : State n :=
  if 0 < s.queued c then s
  else match popFrom s v [2, 1, 0] with
    | (none, s) => s
    | (some t, s) => enqueue (s.setThread t { s.thread t with owner := c }) c t

/-! ## The switch path -/

/-- `flush_pending`. -/
def flushPending (s : State n) (c : CpuId n) : State n :=
  match (s.cpu c).pending with
  | none => s
  | some t =>
    let s := s.setCpu c { s.cpu c with pending := none }
    let s := s.setThread t { s.thread t with onCpu := false }
    match (s.thread t).state with
    | .ready => if (s.cpu c).idle = some t then s else enqueue s c t
    | .finished =>
      let me := s.cpu c
      if (s.thread t).stack then
        (s.setThread t { s.thread t with stack := false }).setCpu c
          { me with graveyard := me.graveyard ++ [t], reaped := me.reaped ++ [t] }
      else s.setCpu c { me with reaped := me.reaped ++ [t] }
    | _ => s

/-- The part of `prepare_switch` that commits to the next thread. -/
def commitSwitch (s : State n) (c : CpuId n) (outgoing next : ThreadId) : State n :=
  let o := s.thread outgoing
  let s := s.setThread outgoing (if o.state = .running then { o with state := .ready } else o)
  let s := s.setThread next { s.thread next with state := .running, onCpu := true }
  renewSlice (s.setCpu c { s.cpu c with pending := some outgoing, current := some next }) c

/-- `prepare_switch`, and whether there is a switch to make. -/
def prepareSwitch (s : State n) (c : CpuId n) : Bool × State n :=
  match (s.cpu c).current, (s.cpu c).idle with
  | some outgoing, some idle =>
    match popRunnable s c with
    | (some next, s) =>
      if next = outgoing then (false, renewSlice s c) else (true, commitSwitch s c outgoing next)
    | (none, s) =>
      if outgoing ≠ idle ∧ (s.thread outgoing).state = .running then (false, renewSlice s c)
      else if idle = outgoing then (false, renewSlice s c)
      else (true, commitSwitch s c outgoing idle)
  | _, _ => (false, s)

/-- `schedule` up to its first lock. -/
def enterSchedule (s : State n) (c : CpuId n) : State n :=
  s.setPhase c (if s.queued c = 0 then .stealing else .locking)

/-- The critical section of `schedule`. -/
def lockSection (s : State n) (c : CpuId n) : State n :=
  let s := flushPending s c
  let r := prepareSwitch s c
  let me := r.2.cpu c
  (r.2.setCpu c { me with graveyard := [], reaped := [] }).setPhase c
    (.burying r.1 me.graveyard me.reaped)

/-- `bury`: the stacks are gone, the ids leave the table. -/
def bury (s : State n) (reaped : List ThreadId) : State n :=
  { s with present := fun t => s.present t && !reaped.contains t }

/-! ## Threads -/

/-- `unblock`, called on processor `waker`.  The look-up in the table is an earlier
section of its own; a thread reaped between the two is `Finished`, and both find
nothing to do. -/
def unblock (s : State n) (waker : CpuId n) (t : ThreadId) : State n :=
  if s.present t then
    let x := s.thread t
    match x.state with
    | .finished => s
    | .blocked =>
      let s := s.setThread t { x with state := .ready }
      if x.onCpu then s
      else enqueue (s.setThread t { s.thread t with owner := waker }) waker t
    | _ => s.setThread t { x with wakePending := true }
  else s

/-- The critical section of `block_current`; the thread that parks is leaving. -/
def blockCurrent (s : State n) (t : ThreadId) : State n :=
  let x := s.thread t
  if x.wakePending then s.setThread t { x with wakePending := false }
  else s.setThread t { x with state := .blocked, leaving := true }

/-- The critical section of `sleep_ticks`. -/
@[simp] def sleepTicks (s : State n) (t : ThreadId) (ticks : Nat) : State n :=
  let deadline := min (s.ticks + ticks) never
  { s.setThread t { s.thread t with wakePending := false, state := .blocked, leaving := true } with
    sleepers := s.sleepers ++ [(t, deadline)]
    nextWake := min s.nextWake deadline }

/-- The critical section of `join`. -/
def joinThread (s : State n) (t target : ThreadId) : State n :=
  if s.present target ∧ t ≠ target ∧ (s.thread target).state ≠ .finished then
    let s := s.addJoiner target t
    s.setThread t { s.thread t with wakePending := false, state := .blocked, leaving := true }
  else s

/-- The critical section of `exit_current`. -/
def exitCurrent (s : State n) (c : CpuId n) (t : ThreadId) : State n :=
  (s.setThread t { s.thread t with state := .finished, joiners := [] }).setPhase c
    (.exiting (s.thread t).joiners)

/-- The critical section of `wake_due_sleepers`: who is due, and who stays. -/
def collectDue (s : State n) (c : CpuId n) (now : Nat) (expired : Bool) : State n :=
  let stay := s.sleepers.filter fun x => decide (now < x.2)
  State.setPhase
    { s with sleepers := stay, nextWake := (stay.map Prod.snd).foldl min never } c
    (.waking ((s.sleepers.filter fun x => decide (x.2 ≤ now)).map Prod.fst) expired)

/-! ## Steps -/

inductive Label (n : Nat)
  /-- The clock advances. -/
  | tick
  /-- The timer interrupt on a processor: reads the clock and charges the slice. -/
  | timer (c : CpuId n)
  /-- The timer handler collects the sleepers that are due. -/
  | collect (c : CpuId n)
  /-- A processor wakes the next of its list, or is done with it. -/
  | wakeNext (c : CpuId n)
  /-- The current thread calls `schedule`: `yield_now`, or the end of a blocking call. -/
  | yield (c : CpuId n)
  /-- A handler calls `schedule`. -/
  | preempt (c : CpuId n)
  | steal (c : CpuId n) (hint : CpuId n → Nat) (again : Nat)
  | lock (c : CpuId n)
  | bury (c : CpuId n)
  /-- `context_switch`. -/
  | switch (c : CpuId n)
  /-- `flush_pending` by the incoming context. -/
  | arrive (c : CpuId n)
  | spawn (c : CpuId n) (priority : Priority)
  /-- `spawn` queues the new thread. -/
  | enqueue (c : CpuId n)
  | block (c : CpuId n)
  | sleep (c : CpuId n) (ticks : Nat)
  | join (c : CpuId n) (target : ThreadId)
  | exit (c : CpuId n)
  | unblock (c : CpuId n) (t : ThreadId)
  | setPriority (c : CpuId n) (t : ThreadId) (priority : Priority)
  /-- A processor comes up: its thread enters the table. -/
  | adopt (c : CpuId n)
  /-- The processor is running that thread. -/
  | adopted (c : CpuId n)

/-- The thread a processor may let block or exit: its current one, running its own
code, and not its idle thread, which does nothing but halt. -/
def actor (s : State n) (c : CpuId n) : Option ThreadId :=
  match s.phase c, (s.cpu c).current with
  | .run, some t => if (s.cpu c).idle = some t ∨ (s.thread t).leaving then none else some t
  | _, _ => none

/-- Threads and interrupt handlers wake other threads; so does the timer handler, whose
expired timers notify their endpoints. -/
def mayWake : Phase → Bool
  | .run => true
  | .waking [] _ => true
  | _ => false

/-- One atomic step. -/
def step (s : State n) : Label n → Option (State n)
  | .tick => some { s with ticks := s.ticks + 1 }
  | .timer c =>
    if s.phase c = .run then
      some ({ s with slice := update s.slice c (s.slice c - 1) }.setPhase c
        (.ticking (s.nextWake ≤ s.ticks) s.ticks (s.slice c ≤ 1)))
    else none
  | .collect c =>
    match s.phase c with
    | .ticking true now expired => some (collectDue s c now expired)
    | .ticking false _ expired => some (s.setPhase c (.waking [] expired))
    | _ => none
  | .wakeNext c =>
    match s.phase c with
    | .waking (t :: due) expired => some ((unblock s c t).setPhase c (.waking due expired))
    | .waking [] expired => some (if expired then enterSchedule s c else s.setPhase c .run)
    | .exiting (t :: joiners) => some ((unblock s c t).setPhase c (.exiting joiners))
    | .exiting [] => some (enterSchedule s c)
    | _ => none
  | .yield c =>
    match s.phase c, (s.cpu c).current with
    | .run, some t =>
      some (enterSchedule (s.setThread t { s.thread t with leaving := false }) c)
    | _, _ => none
  | .preempt c => if s.phase c = .run then some (enterSchedule s c) else none
  | .steal c hint again =>
    if s.phase c = .stealing then
      match victim c hint again with
      | none => some (s.setPhase c .locking)
      | some v => some ((stealFrom s c v).setPhase c .locking)
    else none
  | .lock c => if s.phase c = .locking then some (lockSection s c) else none
  | .bury c =>
    match s.phase c with
    | .burying switch _ reaped =>
      some ((bury s reaped).setPhase c (if switch then .switching else .run))
    | _ => none
  | .switch c =>
    if s.phase c = .switching then
      some ({ s with standing := update s.standing c (s.cpu c).current }.setPhase c .arrived)
    else none
  | .arrive c =>
    if s.phase c = .arrived then some ((flushPending s c).setPhase c .run) else none
  | .spawn c priority =>
    if s.phase c = .run then
      some ({ s.setThread s.count (.new priority c) with
        count := s.count + 1
        present := update s.present s.count true }.setPhase c (.spawned s.count))
    else none
  | .enqueue c =>
    match s.phase c with
    | .spawned t => some (enqueue (s.setPhase c .run) c t)
    | _ => none
  | .block c => (actor s c).map fun t => blockCurrent s t
  | .sleep c ticks => (actor s c).bind fun t =>
    if ticks = 0 then none else some (sleepTicks s t ticks)
  | .join c target => (actor s c).map fun t => joinThread s t target
  | .exit c => (actor s c).map fun t => exitCurrent s c t
  | .unblock c t => if mayWake (s.phase c) then some (unblock s c t) else none
  | .setPriority c t priority =>
    if s.phase c = .run then
      some (if s.present t then s.setThread t { s.thread t with priority := priority } else s)
    else none
  | .adopt c =>
    if s.phase c = .run ∧ (s.cpu c).idle = none then
      some ({ s.setThread s.count (.adoptRunning c) with
        count := s.count + 1
        present := update s.present s.count true }.setPhase c (.adopting s.count))
    else none
  | .adopted c =>
    match s.phase c with
    | .adopting t =>
      some ({ renewSlice (s.setIdle c t) c with
        standing := update s.standing c (some t) }.setPhase c .run)
    | _ => none

/-- All the processors, from the boot processor's `init` on. -/
def machine (n : Nat) : Machine (State n) (Label n) where
  Init s := s = initial
  step := step

end Panda.Sched
