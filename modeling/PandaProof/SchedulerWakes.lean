import PandaProof.SchedulerFate

/-!
# No wake is lost

A thread that is about to sleep registers with its waker, without any scheduler lock,
and then calls `block_current`; the waker calls `unblock` at any moment after the
registration, from any processor.  The two meet in different places: the thread may still
be running, preempted or moved to another processor; it may have marked itself `Blocked`
and still be on its processor, before or after the decision to switch away from it; or it
may be off every processor.

For every interleaving, a wake that comes first makes `block_current` return `false`, and
a wake that comes second leaves the thread `Ready` and either queued, or held by a
processor that is leaving it and whose next `flush_pending` queues it
(`wake_never_lost`).
-/
namespace Panda.Sched

open Option State

variable {n : Nat}

/-! ## Only running threads make calls -/

/-- The thread is running, unless it is on its way to `schedule`. -/
abbrev EngagedAt (s : State n) (c : CpuId n) (t : ThreadId) : Prop :=
  (s.thread t).state = .running ∨ (s.cpu c).idle ≠ some t ∧ (s.phase c).switched = false ∧
    ((s.thread t).leaving = true ∨ (s.phase c).busy = true)

/-- Every processor's current thread is. -/
def Engaged (s : State n) : Prop := ∀ c t, (s.cpu c).current = some t → EngagedAt s c t

variable {s : State n} {c : CpuId n} {t : ThreadId}

theorem actor_current (h : actor s c = some t) :
    (s.cpu c).current = some t ∧ (s.cpu c).idle ≠ some t ∧ (s.thread t).leaving = false := by
  unfold actor at h
  split at h
  case h_2 => cases h
  rename_i u _ hcur
  split at h
  · cases h
  rename_i hnot
  cases h
  exact ⟨hcur, fun hidle => hnot (.inl hidle), by simpa using fun hl => hnot (.inr hl)⟩

/-- A thread that may make a call is running. -/
theorem Engaged.running_of_actor (h : Engaged s)
    (ht : actor s c = some t) : (s.thread t).state = .running := by
  obtain ⟨hcur, -, hleaving⟩ := actor_current ht
  rcases h c t hcur with hrun | ⟨-, -, hl | hbusy⟩
  · exact hrun
  · rw [hleaving] at hl
    cases hl
  · rw [actor_run ht] at hbusy
    cases hbusy

variable {a : Label n}

theorem actor_of_caller (h : a.caller s = some t) : ∃ c, actor s c = some t := by
  cases a with
  | block c | sleep c | join c | exit c => exact ⟨c, h⟩
  | _ => cases h

/-- One processor is on a thread at a time. -/
theorem Inv.current_unique (h : Inv s) {c' : CpuId n}
    (hc : (s.cpu c).current = some t) (hc' : (s.cpu c').current = some t) : c = c' :=
  h.core.holder_unique (.inl hc) (.inl hc')

variable {s' : State n}

/-- The current thread of a processor that keeps its threads stays engaged. -/
theorem engaged_still (h : Inv s) (he : Engaged s) (hs : step s a = some s')
    (hcur : (s.cpu c).current = some t) (hcur' : (s'.cpu c).current = some t)
    (hidle : (s'.cpu c).idle = (s.cpu c).idle)
    (hbusy : (s.phase c).busy = true → (s'.phase c).busy = true)
    (hswitched : (s'.phase c).switched = (s.phase c).switched) : EngagedAt s' c t := by
  obtain ⟨hon, -, hcount⟩ := h.core.holds c t (.inl hcur)
  -- Whatever keeps the state and does not clear the flag keeps the thread engaged.
  have hkeep : (s'.thread t).leaving = (s.thread t).leaving →
      ((s.thread t).state = .running → (s'.thread t).state = .running) → EngagedAt s' c t := by
    intro hl hst
    rcases he c t hcur with hrun | ⟨hni, hns, hwhy⟩
    · exact .inl (hst hrun)
    · refine .inr ⟨by rwa [hidle], by rwa [hswitched], ?_⟩
      rw [hl]
      exact hwhy.imp_right hbusy
  cases fate_of_step h hs hcount with
  | kept hk => exact hkeep hk.leaving fun hrun => hk.state.trans hrun
  | called hcall hres =>
    obtain ⟨d, hd⟩ := actor_of_caller hcall
    obtain ⟨hdcur, _, -⟩ := actor_current hd
    obtain rfl := h.current_unique hcur hdcur
    have hns : (s'.phase c).switched = false := by
      rw [hswitched, actor_run hd]
      rfl
    rcases hres with hst | hl | ⟨e, _, -, hexit, hp⟩
    · exact .inl (hst.trans (he.running_of_actor hd))
    · exact .inr ⟨by rwa [hidle], hns, .inl hl⟩
    · obtain rfl := h.current_unique hcur (actor_current hexit).1
      exact .inr ⟨by rwa [hidle], hns, .inr (by rw [hp]; rfl)⟩
  | woken _ hb hst hl => exact hkeep hl fun hrun => by simp [hb] at hrun
  | noted _ _ hst _ hl => exact hkeep hl fun hrun => hst.trans hrun
  | @yields d _ hdcur hb hst =>
    obtain rfl := h.current_unique hcur hdcur
    rcases he c t hcur with hrun | ⟨hni, hns, -⟩
    · exact .inl (hst.trans hrun)
    · exact .inr ⟨by rwa [hidle], by rwa [hswitched], .inr hb⟩
  | @leaves d _ hdcur hnext =>
    obtain rfl := h.current_unique hcur hdcur
    exact absurd hcur' hnext
  | enters _ hoff => simp [hon] at hoff

theorem engaged_step (h : Inv s) (he : Engaged s) (hs : step s a = some s') : Engaged s' := by
  intro c t hcur'
  cases turn_of_step h hs c with
  | still hcur hidle _ hbusy hswitched =>
    exact engaged_still h he hs (hcur ▸ hcur') hcur' hidle hbusy hswitched
  | locked _ hphase hl =>
    cases hl with
    | stays hthread hcur hidle _ hp hrun =>
      rw [hcur] at hcur'
      rw [EngagedAt, hthread]
      obtain ⟨idle, hi⟩ : ∃ idle, (s.cpu c).idle = some idle := by
        cases hi : (s.cpu c).idle with
        | none => simp [h.steady.asleep c hi] at hcur'
        | some idle => exact ⟨idle, rfl⟩
      by_cases hti : t = idle
      · subst hti
        rcases he c t hcur' with hrun | ⟨hni, -⟩
        · exact .inl hrun
        · exact absurd hi hni
      · exact .inl (hrun t idle hcur' hi hti)
    | @switches s₀ o u h₀ ho hne hb hoff hthread hothers hidle hcur =>
      obtain rfl : u = t := by simpa [hcur] using hcur'
      left
      rw [hthread, commit_thread_next s₀ c hne]
  | arrives _ hphase hcur _ hs' =>
    rw [hcur] at hcur'
    rcases he c t hcur' with hrun | ⟨-, hns, -⟩
    · left
      rw [hs']
      exact (kept_flushPending s c t).state.trans hrun
    · rw [hphase] at hns
      cases hns
  | adopts hphase hcur hthread =>
    cases hcur.symm.trans hcur'
    left
    rw [hthread]
    exact (h.core.adopted c _ hphase).1

theorem initial_engaged : Engaged (initial : State n) := by
  intro c t hcur
  by_cases hc : c = 0
  · subst hc
    obtain rfl : 0 = t := by simpa [initial] using hcur
    exact .inl rfl
  · simp [initial, hc, Cpu.new] at hcur

theorem engaged_of_reachable (h : (machine n).Reachable s) : Engaged s := by
  have hboth : Inv s ∧ Engaged s := h.invariant_from
      (I := fun s => Inv s ∧ Engaged s) ⟨initial_inv, initial_engaged⟩
      fun hi _ hs => ⟨inv_step hi.1 hs, engaged_step hi.1 hi.2 hs⟩
  exact hboth.2

/-! ## A thread that is being left -/

/-- `t` is ready and processor `c` is on its stack: it has not decided to leave it yet, or
has decided and not flushed it. -/
structure Leaving (s : State n) (c : CpuId n) (t : ThreadId) : Prop where
  ready : (s.thread t).state = .ready
  notIdle : (s.cpu c).idle ≠ some t
  held : (s.cpu c).current = some t ∨ (s.cpu c).pending = some t

/-- The step is the `flush_pending` that lets `t` go. -/
@[simp] def Flushes (c : CpuId n) (t : ThreadId) (s : State n) (a : Label n) : Prop :=
  a = .arrive c ∧ (s.cpu c).pending = some t

/-- `flush_pending` queues a thread that is ready. -/
theorem queued_of_flush (h : Leaving s c t) (hp : (s.cpu c).pending = some t) :
    t ∈ ((flushPending s c).cpu c).ready (s.thread t).priority.index := by
  have hthread := released_thread_self s c t
  have hstate : ((released s c t).thread t).state = .ready := by rw [hthread]; exact h.ready
  have hidle : ((released s c t).cpu c).idle ≠ some t := by rw [released_cpu]; exact h.notIdle
  have hmem := mem_enqueue (released s c t) c t
  rw [hthread] at hmem
  unfold flushPending
  split
  · rename_i hnone
    simp [hp] at hnone
  rename_i u hu
  cases hp.symm.trans hu
  dsimp only
  split
  · split
    · rename_i hi
      exact absurd hi hidle
    · exact hmem
  · rename_i hst
    cases hstate.symm.trans hst
  · rename_i hst _
    exact absurd hstate hst

/-- The state of a thread that is being left does not change. -/
theorem leaving_ready (h : Inv s) (he : Engaged s) (hl : Leaving s c t) (hs : step s a = some s') :
    (s'.thread t).state = .ready := by
  obtain ⟨hon, -, hcount⟩ := h.core.holds c t (by
    rcases hl.held with hc | hp
    · exact .inl hc
    · exact .inr (.inl hp))
  cases fate_of_step h hs hcount with
  | kept hk => exact hk.state.trans hl.ready
  | called hcall =>
    obtain ⟨d, hd⟩ := actor_of_caller hcall
    have hrun := he.running_of_actor hd
    rw [hl.ready] at hrun
    cases hrun
  | woken _ hb => simp [hl.ready] at hb
  | noted _ _ hst | yields _ _ _ hst => exact hst.trans hl.ready
  | leaves _ _ _ hst => simp [hst, hl.ready]
  | enters _ hoff => simp [hon] at hoff

/-- **One step of leaving.**  The processor stays on the thread until it flushes it. -/
theorem leaving_step (h : Inv s) (he : Engaged s) (hl : Leaving s c t) (hs : step s a = some s')
    (hnot : ¬ Flushes c t s a) : Leaving s' c t := by
  have hready := leaving_ready h he hl hs
  cases turn_of_step h hs c with
  | still hcur hidle hpend =>
    exact ⟨hready, by rw [hidle]; exact hl.notIdle, by rw [hcur, hpend]; exact hl.held⟩
  | locked _ hphase hlock =>
    have hnone : (s.cpu c).pending = none := h.steady.pending_none (by rw [hphase]; rfl)
    have hcurrent : (s.cpu c).current = some t := by simpa [hnone] using hl.held
    cases hlock with
    | stays _ hcur hidle =>
      exact ⟨hready, by rw [hidle]; exact hl.notIdle, .inl (by rw [hcur]; exact hcurrent)⟩
    | switches h₀ ho hne hb hoff hthread hothers hidle hcur hpend =>
      cases ho.symm.trans hcurrent
      exact ⟨hready, by rw [hidle]; exact hl.notIdle, .inr hpend⟩
  | arrives ha _ hcur hidle =>
    refine ⟨hready, by rw [hidle]; exact hl.notIdle, .inl ?_⟩
    rw [hcur]
    exact hl.held.resolve_right fun hp => hnot ⟨ha, hp⟩
  | adopts hphase =>
    have hnone : (s.cpu c).pending = none := h.steady.pending_none (by rw [hphase]; rfl)
    have hcurrent : (s.cpu c).current = none := h.steady.asleep c (h.steady.adopting c _ hphase)
    simpa [hnone, hcurrent] using hl.held

/-- The processor that takes a step. -/
def Label.processor : Label n → Option (CpuId n)
  | .tick => none
  | .timer c | .collect c | .wakeNext c | .yield c | .preempt c | .steal c _ _ | .lock c
  | .bury c | .switch c | .arrive c | .spawn c _ | .enqueue c | .block c | .sleep c _
  | .join c _ | .exit c | .unblock c _ | .setPriority c _ _ | .adopt c | .adopted c => some c

/-- How far a processor is from flushing what it is leaving. -/
@[simp] def distance (s : State n) (c : CpuId n) : Nat :=
  match s.phase c with
  | .arrived => 0
  | .switching => 1
  | .burying true _ _ => 2
  | .locking => 3
  | .stealing => 4
  | .run => 5
  | .exiting joiners => 5 + joiners.length
  | .burying false _ _ => 6
  | .spawned _ => 6
  | .waking due _ => 6 + due.length
  | .ticking _ _ _ => 7 + s.sleepers.length
  | .adopting _ => 0

theorem distance_enterSchedule (s : State n) (c : CpuId n) :
    distance (enterSchedule s c) c ≤ 4 := by
  unfold enterSchedule
  split <;> simp

/-- The processor itself can always come closer. -/
theorem leaving_closer (h : Inv s) (he : Engaged s) (hl : Leaving s c t) :
    (s.phase c = .arrived ∧ (s.cpu c).pending = some t) ∨
      ∃ a s', a.processor = some c ∧ ¬ Flushes c t s a ∧ step s a = some s' ∧
        distance s' c < distance s c := by
  -- A processor that is not between two threads is on `t`, and has to leave it.
  have hcurrent : (s.phase c).switched = false → (s.cpu c).current = some t := by
    intro hns
    simpa [h.steady.pending_none hns] using hl.held
  cases hphase : s.phase c with
  | arrived =>
    refine .inl ⟨rfl, hl.held.resolve_left fun hcur => ?_⟩
    rcases he c t hcur with hrun | ⟨-, hns, -⟩
    · simp [hl.ready] at hrun
    · simp [hphase] at hns
  | run =>
    have hcur := hcurrent (by rw [hphase]; rfl)
    refine .inr ⟨.yield c, _, rfl, by simp, by simp only [step, hphase, hcur]; rfl, ?_⟩
    refine Nat.lt_of_le_of_lt (distance_enterSchedule _ c) ?_
    simp [hphase]
  | stealing =>
    refine .inr ⟨.steal c (fun _ => 0) 0, s.setPhase c .locking, rfl, by simp, ?_, ?_⟩
    · have hv : victim c (fun _ => 0) 0 = none := by simp [victim]
      simp [step, hphase, hv]
    · simp [hphase]
  | locking =>
    refine .inr ⟨.lock c, lockSection s c, rfl, by simp, by simp [step, hphase], ?_⟩
    have hcur := hcurrent (by rw [hphase]; rfl)
    cases locked_of_lockSection h hphase with
    | stays _ _ _ _ _ hrun =>
      cases hi : (s.cpu c).idle with
      | none => simp [h.steady.asleep c hi] at hcur
      | some idle =>
        have hne : t ≠ idle := fun heq => hl.notIdle (heq ▸ hi)
        exact absurd (hl.ready.symm.trans (hrun t idle hcur hi hne)) (by simp)
    | switches _ _ _ _ _ _ _ _ _ _ hp =>
      obtain ⟨_, _, hp⟩ := hp
      simp [hp, hphase]
  | burying switch =>
    refine .inr ⟨.bury c, _, rfl, by simp, by simp only [step, hphase]; rfl, ?_⟩
    cases switch <;> simp [hphase]
  | switching =>
    refine .inr ⟨.switch c, _, rfl, by simp, by simp only [step, hphase]; rfl, ?_⟩
    simp [hphase]
  | spawned u =>
    refine .inr ⟨.enqueue c, _, rfl, by simp, by simp only [step, hphase]; rfl, ?_⟩
    have hrun : (enqueue (s.setPhase c .run) c u).phase c = .run := by
      rw [(enqueue_frame (s.setPhase c .run) c u).phase]
      simp
    simp only [distance, hrun, hphase]
    omega
  | exiting joiners =>
    cases joiners with
    | nil =>
      refine .inr ⟨.wakeNext c, _, rfl, by simp, by simp only [step, hphase]; rfl, ?_⟩
      refine Nat.lt_of_le_of_lt (distance_enterSchedule _ c) ?_
      simp [hphase]
    | cons =>
      refine .inr ⟨.wakeNext c, _, rfl, by simp, by simp only [step, hphase]; rfl, ?_⟩
      simp [hphase]
  | ticking sleeperDue now =>
    cases sleeperDue with
    | false =>
      refine .inr ⟨.collect c, _, rfl, by simp, by simp only [step, hphase]; rfl, ?_⟩
      simp only [distance, setPhase, Function.update_self, hphase, List.length_nil]
      omega
    | true =>
      refine .inr ⟨.collect c, _, rfl, by simp, by simp only [step, hphase]; rfl, ?_⟩
      have hle := List.length_filter_le (fun x : ThreadId × Nat => decide (x.2 ≤ now)) s.sleepers
      simp only [distance, collectDue, setPhase, Function.update_self, hphase, List.length_map]
      omega
  | waking due =>
    cases due with
    | nil =>
      refine .inr ⟨.wakeNext c, _, rfl, by simp, by simp only [step, hphase]; rfl, ?_⟩
      split
      · refine Nat.lt_of_le_of_lt (distance_enterSchedule _ c) ?_
        simp [hphase]
      · simp [hphase]
    | cons =>
      refine .inr ⟨.wakeNext c, _, rfl, by simp, by simp only [step, hphase]; rfl, ?_⟩
      simp [hphase]
  | adopting =>
    have hnone : (s.cpu c).current = none := h.steady.asleep c (h.steady.adopting c _ hphase)
    have hcur := hcurrent (by rw [hphase]; rfl)
    simp [hnone] at hcur

theorem inv_engaged_of_leads {Ok : State n → Label n → Prop}
    (h : (machine n).Reachable s) (hl : (machine n).Leads Ok s s') : Inv s' ∧ Engaged s' :=
  ⟨inv_of_reachable (hl.reachable h), engaged_of_reachable (hl.reachable h)⟩

/-- **Leaving a thread, over a whole run.**  Until its flush it stays where it is. -/
theorem leaving_of_leads (h : (machine n).Reachable s) (hl : Leaving s c t)
    (hrun : (machine n).Leads (fun s a => ¬ Flushes c t s a) s s') : Leaving s' c t := by
  induction hrun with
  | refl => exact hl
  | step hlead hok hs ih =>
    obtain ⟨hinv, hengaged⟩ := inv_engaged_of_leads h hlead
    exact leaving_step hinv hengaged ih hs hok

/-- The steps of processor `c` up to its flush of `t`. -/
def Alone (c : CpuId n) (t : ThreadId) (s : State n) (a : Label n) : Prop :=
  a.processor = some c ∧ ¬ Flushes c t s a

/-- The processor's own steps lead to the flush. -/
theorem flush_of_leaving (h : (machine n).Reachable s) (hl : Leaving s c t) :
    ∃ s', (machine n).Leads (Alone c t) s s' ∧ s'.phase c = .arrived ∧
      (s'.cpu c).pending = some t := by
  -- By induction on how far the processor still has to go.
  induction hd : distance s c using Nat.strongRecOn generalizing s with
  | ind d ih =>
    have hinv := inv_of_reachable h
    have hengaged := engaged_of_reachable h
    rcases leaving_closer hinv hengaged hl with hdone | ⟨a, s₁, hproc, hnot, hs, hlt⟩
    · exact ⟨s, .refl, hdone⟩
    · obtain ⟨s', hlead, hdone⟩ := ih (distance s₁ c) (hd ▸ hlt) (h.step trivial hs)
        (leaving_step hinv hengaged hl hs hnot) rfl
      exact ⟨s', (Machine.Leads.refl.step ⟨hproc, hnot⟩ hs).trans hlead, hdone⟩

/-- `t` is ready and will be queued by the `flush_pending` of processor `c`, which is
leaving it: in every run up to that flush `t` stays ready and `c` stays on it, `c` can
always get to the flush by its own steps, and the flush queues `t`. -/
structure WillBeQueued (s : State n) (c : CpuId n) (t : ThreadId) : Prop where
  untilFlush : ∀ s', (machine n).Leads (fun s a => ¬ Flushes c t s a) s s' → Leaving s' c t
  getsThere : ∀ s', (machine n).Leads (fun s a => ¬ Flushes c t s a) s s' →
    ∃ s'', (machine n).Leads (Alone c t) s' s'' ∧ s''.phase c = .arrived ∧
      (s''.cpu c).pending = some t
  flushQueues : ∀ s' s'' a, (machine n).Leads (fun s a => ¬ Flushes c t s a) s s' →
    Flushes c t s' a → step s' a = some s'' → Queued s'' t

theorem willBeQueued_of_leaving (h : (machine n).Reachable s) (hl : Leaving s c t) :
    WillBeQueued s c t where
  untilFlush _ hrun := leaving_of_leads h hl hrun
  getsThere _ hrun := flush_of_leaving (hrun.reachable h) (leaving_of_leads h hl hrun)
  flushQueues s' s'' a hrun hflush hs := by
    obtain ⟨rfl, hp⟩ := hflush
    obtain ⟨-, rfl⟩ := Machine.of_guard hs
    exact ⟨c, _, queued_of_flush (leaving_of_leads h hl hrun) hp⟩

/-! ## Registering, blocking and waking -/

/-- `t` makes no blocking call in the step. -/
def NoCall (t : ThreadId) (s : State n) (a : Label n) : Prop := a.caller s ≠ some t

/-- `t` is not woken in the step. -/
def NoWake (t : ThreadId) (s : State n) (a : Label n) : Prop := a.wakes s ≠ some t

theorem noCall_of_wakes {u : ThreadId} (h : a.wakes s = some u) : NoCall t s a := by
  cases a with
  | wakeNext | unblock => exact fun hcall => by cases hcall
  | _ => cases h

/-- A thread that has not ended can be found and is neither parked nor finished. -/
structure Awake (s : State n) (t : ThreadId) : Prop where
  known : t < s.count
  notBlocked : (s.thread t).state ≠ .blocked
  notFinished : (s.thread t).state ≠ .finished

theorem present_of_known (h : Inv s) (hk : t < s.count)
    (hf : (s.thread t).state ≠ .finished) : s.present t = true := by
  by_contra hp
  exact hf (h.core.dead t (.inl ⟨hk, by simpa using hp⟩)).1

/-! The table of threads only grows, and the clock only advances. -/

/-- The table of threads, the sleepers and the clock are as they were. -/
structure Tables (s s' : State n) : Prop where
  count : s'.count = s.count
  sleepers : s'.sleepers = s.sleepers
  ticks : s'.ticks = s.ticks

theorem Tables.setPhase (h : Tables s s') (c : CpuId n) (p : Phase) : Tables s (s'.setPhase c p) :=
  { h with }

theorem tables_popFrom (s : State n) (c : CpuId n) (order : List (Fin 3)) :
    Tables s (popFrom s c order).2 := by
  induction order generalizing s with
  | nil => exact ⟨rfl, rfl, rfl⟩
  | cons level order ih =>
    simp only [popFrom]
    split
    · exact ⟨rfl, rfl, rfl⟩
    have h := ih ((s.setReady c level (popQueue s ((s.cpu c).ready level)).2).setQueued c
      (s.queued c - (((s.cpu c).ready level).length -
        (popQueue s ((s.cpu c).ready level)).2.length)))
    exact { h with }

theorem tables_stealFrom (s : State n) (c v : CpuId n) : Tables s (stealFrom s c v) := by
  have hpop := tables_popFrom s v [2, 1, 0]
  unfold stealFrom
  split
  · exact ⟨rfl, rfl, rfl⟩
  split <;> rename_i heq <;> rw [heq] at hpop <;> exact { hpop with }

theorem tables_popRunnable (s : State n) (c : CpuId n) : Tables s (popRunnable s c).2 := by
  have hpop := tables_popFrom s c (if !decide (starvationGuard ≤ (s.cpu c).priorityStreak) then
    [2, 1, 0] else if (s.cpu c).boostLevel = 0 then [0, 1, 2] else [1, 0, 2])
  unfold popRunnable
  dsimp only
  split <;> rename_i heq <;> rw [heq] at hpop <;> exact { hpop with }

theorem tables_prepareSwitch (s : State n) (c : CpuId n) : Tables s (prepareSwitch s c).2 := by
  have hpop := tables_popRunnable s c
  unfold prepareSwitch
  split
  · split <;> rename_i heq <;> rw [heq] at hpop
    · split <;> exact { hpop with }
    · split
      · exact { hpop with }
      · split <;> exact { hpop with }
  · exact ⟨rfl, rfl, rfl⟩

theorem tables_flushPending (s : State n) (c : CpuId n) : Tables s (flushPending s c) := by
  unfold flushPending
  split
  · exact ⟨rfl, rfl, rfl⟩
  dsimp only
  split
  · split <;> exact ⟨rfl, rfl, rfl⟩
  · split <;> exact ⟨rfl, rfl, rfl⟩
  · exact ⟨rfl, rfl, rfl⟩

theorem tables_unblock (s : State n) (w : CpuId n) (t : ThreadId) : Tables s (unblock s w t) := by
  unfold unblock
  split
  · dsimp only
    split
    · exact ⟨rfl, rfl, rfl⟩
    · split <;> exact ⟨rfl, rfl, rfl⟩
    · exact ⟨rfl, rfl, rfl⟩
  · exact ⟨rfl, rfl, rfl⟩

theorem tables_lockSection (h : Inv s) (hphase : s.phase c = .locking) :
    Tables s (lockSection s c) := by
  have hprepare := tables_prepareSwitch s c
  unfold lockSection
  rw [(h.flushPending_of_locking hphase).2]
  exact { hprepare with }

/-- No thread leaves the table's range, and no tick is taken back. -/
theorem later_step (h : Inv s) (hs : step s a = some s') :
    s.count ≤ s'.count ∧ s.ticks ≤ s'.ticks := by
  have hof : ∀ {s' : State n}, Tables s s' → s.count ≤ s'.count ∧ s.ticks ≤ s'.ticks :=
    fun ht => ⟨ht.count.ge, ht.ticks.ge⟩
  cases a with
  | tick =>
    cases hs
    exact ⟨le_rfl, Nat.le_succ _⟩
  | timer c | collect c | yield c | preempt c | bury c | switch c | enqueue c | adopted c =>
    simp only [step] at hs
    split at hs <;> cases hs <;> exact ⟨le_rfl, le_rfl⟩
  | wakeNext c =>
    simp only [step] at hs
    split at hs <;> cases hs
    · exact hof ((tables_unblock s c _).setPhase c _)
    · split <;> exact ⟨le_rfl, le_rfl⟩
    · exact hof ((tables_unblock s c _).setPhase c _)
    · exact ⟨le_rfl, le_rfl⟩
  | steal c =>
    obtain ⟨-, hs⟩ := ite_none_right_eq_some.mp hs
    split at hs <;> cases hs
    · exact ⟨le_rfl, le_rfl⟩
    · exact hof ((tables_stealFrom s c _).setPhase c _)
  | lock =>
    obtain ⟨hphase, rfl⟩ := Machine.of_guard hs
    exact hof (tables_lockSection h hphase)
  | arrive c =>
    simp only [step] at hs
    split at hs <;> cases hs
    exact hof ((tables_flushPending s c).setPhase c _)
  | spawn c priority | adopt c =>
    simp only [step] at hs
    split at hs <;> cases hs
    exact ⟨Nat.le_succ _, le_rfl⟩
  | block =>
    obtain ⟨u, -, rfl⟩ := map_eq_some_iff.mp hs
    unfold blockCurrent
    dsimp only
    split <;> exact ⟨le_rfl, le_rfl⟩
  | sleep =>
    obtain ⟨u, -, hs⟩ := bind_eq_some_iff.mp hs
    split at hs <;> cases hs
    exact ⟨le_rfl, le_rfl⟩
  | join =>
    obtain ⟨u, -, rfl⟩ := map_eq_some_iff.mp hs
    unfold joinThread
    split <;> exact ⟨le_rfl, le_rfl⟩
  | exit =>
    obtain ⟨u, -, rfl⟩ := map_eq_some_iff.mp hs
    exact ⟨le_rfl, le_rfl⟩
  | unblock c u =>
    simp only [step] at hs
    split at hs <;> cases hs
    exact hof (tables_unblock s c u)
  | setPriority =>
    obtain ⟨-, rfl⟩ := Machine.of_guard hs
    split <;> exact ⟨le_rfl, le_rfl⟩

/-- Without a call of its own a thread stays awake, and keeps a wake it has. -/
theorem awake_step (h : Inv s) (ha : Awake s t) (hs : step s a = some s') (hno : NoCall t s a) :
    Awake s' t ∧ ((s.thread t).wakePending = true → (s'.thread t).wakePending = true) := by
  have hk : t < s'.count := ha.known.trans_le (later_step h hs).1
  have hsame : (s'.thread t).state = (s.thread t).state → Awake s' t := fun he =>
    ⟨hk, by rw [he]; exact ha.notBlocked, by rw [he]; exact ha.notFinished⟩
  cases fate_of_step h hs ha.known with
  | kept hkept => exact ⟨hsame hkept.state, fun hw => hkept.wakePending.trans hw⟩
  | called hcall => exact absurd hcall hno
  | woken _ hb => exact absurd hb ha.notBlocked
  | noted _ _ hst hw => exact ⟨hsame hst, fun _ => hw⟩
  | yields _ _ _ hst hw => exact ⟨hsame hst, fun h => hw.trans h⟩
  | leaves _ _ _ hst hw =>
    refine ⟨?_, fun h => hw.trans h⟩
    split at hst
    · exact ⟨hk, by simp [hst], by simp [hst]⟩
    · exact hsame hst
  | enters _ _ _ _ hst hw => exact ⟨⟨hk, by simp [hst], by simp [hst]⟩, fun h => hw.trans h⟩

/-- A parked thread stays parked until it is woken. -/
theorem blocked_step (h : Inv s) (he : Engaged s)
    (hk : t < s.count) (hb : (s.thread t).state = .blocked) (hs : step s a = some s')
    (hno : NoWake t s a) : (s'.thread t).state = .blocked := by
  cases fate_of_step h hs hk with
  | kept hkept => exact hkept.state.trans hb
  | called hcall =>
    obtain ⟨c, hc⟩ := actor_of_caller hcall
    exact absurd (hb.symm.trans (he.running_of_actor hc)) (by simp)
  | woken hw | noted hw => exact absurd hw hno
  | yields _ _ _ hst => exact hst.trans hb
  | leaves _ _ _ hst => simpa [hb] using hst
  | enters _ _ hnb => simp [hb] at hnb

/-- A thread that has ended has ended for good. -/
theorem finished_step (h : Inv s) (he : Engaged s)
    (hk : t < s.count) (hf : (s.thread t).state = .finished) (hs : step s a = some s') :
    (s'.thread t).state = .finished := by
  cases fate_of_step h hs hk with
  | kept hkept => exact hkept.state.trans hf
  | called hcall =>
    obtain ⟨c, hc⟩ := actor_of_caller hcall
    exact absurd (hf.symm.trans (he.running_of_actor hc)) (by simp)
  | woken _ hb | enters _ _ hb => simp [hf] at hb
  | noted _ _ hst | yields _ _ _ hst => exact hst.trans hf
  | leaves _ _ _ hst => simpa [hf] using hst

theorem awake_of_leads (h : (machine n).Reachable s)
    (ha : Awake s t) (hl : (machine n).Leads (NoCall t) s s') :
    Awake s' t ∧ ((s.thread t).wakePending = true → (s'.thread t).wakePending = true) := by
  induction hl with
  | refl => exact ⟨ha, id⟩
  | step hlead hok hs ih =>
    obtain ⟨hawake, hkeeps⟩ := awake_step (inv_engaged_of_leads h hlead).1 ih.1 hs hok
    exact ⟨hawake, fun hw => hkeeps (ih.2 hw)⟩

theorem blocked_of_leads (h : (machine n).Reachable s)
    (hk : t < s.count) (hb : (s.thread t).state = .blocked)
    (hl : (machine n).Leads (NoWake t) s s') : t < s'.count ∧ (s'.thread t).state = .blocked := by
  induction hl with
  | refl => exact ⟨hk, hb⟩
  | step hlead hok hs ih =>
    obtain ⟨hinv, hengaged⟩ := inv_engaged_of_leads h hlead
    exact ⟨ih.1.trans_le (later_step hinv hs).1, blocked_step hinv hengaged ih.1 ih.2 hs hok⟩

theorem awake_of_actor (h : (machine n).Reachable s) (ht : actor s c = some t) : Awake s t := by
  have hrun := (engaged_of_reachable h).running_of_actor ht
  obtain ⟨-, -, hk⟩ := (inv_of_reachable h).core.holds c t (.inl (actor_current ht).1)
  exact ⟨hk, by simp [hrun], by simp [hrun]⟩

/-- A wake of a thread that is awake is recorded. -/
theorem wakePending_of_wakes (h : Inv s)
    (ha : Awake s t) (hs : step s a = some s') (hw : a.wakes s = some t) :
    (s'.thread t).wakePending = true := by
  obtain ⟨w, hthread, -⟩ := unblock_of_wakes hs hw
  have hp := present_of_known h ha.known ha.notFinished
  rw [hthread, unblock_awake s w hp ha.notBlocked ha.notFinished]

/-- A wake of a parked thread queues it, or leaves it to the processor still on it. -/
theorem queued_or_leaving_of_wakes (h : Inv s)
    (hk : t < s.count) (hb : (s.thread t).state = .blocked) (hs : step s a = some s')
    (hw : a.wakes s = some t) :
    (s'.thread t).state = .ready ∧ (Queued s' t ∨ ∃ c, Leaving s' c t) := by
  obtain ⟨w, hthread, hcpu⟩ := unblock_of_wakes hs hw
  obtain ⟨hready, -, hplace⟩ := unblock_blocked s w (present_of_known h hk (by simp [hb])) hb
  rw [← hthread] at hready hplace
  refine ⟨hready, hplace.imp (queued_of_cpu hcpu) fun hon => ?_⟩
  have hframe := (h.core.unblock w t).2
  obtain ⟨c, hc⟩ := (inv_step h hs).core.held t hon
  have hidle : (s'.cpu c).idle ≠ some t := by
    rw [hcpu, hframe.idle c]
    exact (h.core.loose_of_blocked hb).notIdle c
  rcases hc with hcur | hpend | hadopt
  · exact ⟨c, hready, hidle, .inl hcur⟩
  · exact ⟨c, hready, hidle, .inr hpend⟩
  · have hrun := ((inv_step h hs).core.adopted c t hadopt).1
    simp [hready] at hrun

/-- What `block_current` returns to thread `t`: whether it parked. -/
def blockReturns (s : State n) (t : ThreadId) : Bool := !(s.thread t).wakePending

/-- **No wake is lost.**  Thread `t` is running its own code on some processor when it
registers with its waker (`s₀`), and makes no blocking call until it calls
`block_current`, in a step from `s₁` to `s₂`.

If a wake for it comes before that call, `block_current` returns `false` and `t` does not
park.  Otherwise `block_current` returns `false` all the same, or `t` is parked, stays so
until it is woken, and the wake leaves it ready and queued, or ready and about to be queued
by the `flush_pending` of the processor that is still leaving it. -/
theorem wake_never_lost {s₀ s₁ s₂ : State n} {c d : CpuId n} {t : ThreadId}
    (h₀ : (machine n).Reachable s₀) (hreg : actor s₀ c = some t)
    (hrun : (machine n).Leads (NoCall t) s₀ s₁) (hcall : actor s₁ d = some t)
    (hblock : step s₁ (.block d) = some s₂) :
    (∀ u v a, (machine n).Leads (NoCall t) s₀ u → a.wakes u = some t →
      step u a = some v → (machine n).Leads (NoCall t) v s₁ →
        blockReturns s₁ t = false ∧ (s₂.thread t).state ≠ .blocked) ∧
    (blockReturns s₁ t = false ∧ (s₂.thread t).state ≠ .blocked ∨
      blockReturns s₁ t = true ∧ ∀ u, (machine n).Leads (NoWake t) s₂ u →
        (u.thread t).state = .blocked ∧ ∀ v a, a.wakes u = some t → step u a = some v →
          (v.thread t).state = .ready ∧ (Queued v t ∨ ∃ e, WillBeQueued v e t)) := by
  have h₁ := hrun.reachable h₀
  have hinv₁ := inv_of_reachable h₁
  have hawake₁ := awake_of_actor h₁ hcall
  have hs₂ : s₂ = blockCurrent s₁ t := by
    simpa [step, hcall] using hblock.symm
  -- A recorded wake is consumed by the call, which parks nobody.
  have hfalse : (s₁.thread t).wakePending = true →
      blockReturns s₁ t = false ∧ (s₂.thread t).state ≠ .blocked := by
    intro hw
    refine ⟨by simp [blockReturns, hw], ?_⟩
    have hst : (s₂.thread t).state = (s₁.thread t).state := by
      simp [hs₂, blockCurrent, hw]
    rw [hst]
    exact hawake₁.notBlocked
  constructor
  · intro u v a hlead hw hs hrest
    have hu := hlead.reachable h₀
    have hawake := (awake_of_leads h₀ (awake_of_actor h₀ hreg) hlead).1
    have hpend := wakePending_of_wakes (inv_of_reachable hu) hawake hs hw
    have hawake' := (awake_step (inv_of_reachable hu) hawake hs (noCall_of_wakes hw)).1
    exact hfalse ((awake_of_leads (hu.step trivial hs) hawake' hrest).2 hpend)
  cases hw : (s₁.thread t).wakePending with
  | true => exact .inl (hfalse hw)
  | false =>
    refine .inr ⟨by simp [blockReturns, hw], fun u hlead => ?_⟩
    have h₂ : (machine n).Reachable s₂ := h₁.step (a := .block d) trivial hblock
    have hb : (s₂.thread t).state = .blocked := by
      simp [hs₂, blockCurrent, hw]
    have hk : t < s₂.count := hawake₁.known.trans_le (later_step hinv₁ hblock).1
    obtain ⟨hku, hbu⟩ := blocked_of_leads h₂ hk hb hlead
    have hu := hlead.reachable h₂
    refine ⟨hbu, fun v a hwake hs => ?_⟩
    obtain ⟨hready, hplace⟩ := queued_or_leaving_of_wakes (inv_of_reachable hu) hku hbu hs hwake
    refine ⟨hready, hplace.imp_right ?_⟩
    rintro ⟨e, hleaving⟩
    exact ⟨e, willBeQueued_of_leaving (hu.step trivial hs) hleaving⟩

/-- Thread 3 parks on processor 0 and is woken by processor 1 while still on its
processor. -/
theorem wake_never_lost_on_cpu : ∃ s₀ s₂ v : State 1, (machine 1).Reachable s₀ ∧
    actor s₀ 0 = some 3 ∧ step s₀ (.block 0) = some s₂ ∧ step s₂ (.unblock 1 3) = some v ∧
    (v.thread 3).state = .ready ∧ (Queued v 3 ∨ ∃ e, WillBeQueued v e 3) := by
  obtain ⟨s₀, h₀, hact, hparks, hsteps⟩ :=
    (machine 1).exists_reachable (s := initial)
      [.adopt 1, .adopted 1, .spawn 0 .normal, .enqueue 0, .yield 0, .lock 0, .bury 0, .switch 0,
        .arrive 0] (fun s => actor s 0 = some 3 ∧ blockReturns s 3 = true ∧
        ((step s (.block 0)).bind fun s => step s (.unblock 1 3)).isSome = true) rfl (by decide)
  obtain ⟨v, hv⟩ := isSome_iff_exists.mp hsteps
  obtain ⟨s₂, hs₂, hv⟩ := bind_eq_some_iff.mp hv
  rcases (wake_never_lost h₀ hact .refl hact hs₂).2 with ⟨hnot, -⟩ | ⟨-, hwoken⟩
  · simp [hparks] at hnot
  · obtain ⟨hready, hplace⟩ := (hwoken s₂ .refl).2 v _ rfl hv
    exact ⟨s₀, s₂, v, h₀, hact, hs₂, hv, hready, hplace⟩

end Panda.Sched
