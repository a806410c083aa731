import PandaProof.SchedulerRuns

/-!
# What a step does to one thread, and to one processor

Invariants about a thread's way through the scheduler need two questions answered of
every step: what it did to the thread (`Fate`), and what it did to a processor that
holds the thread (`Turn`).  Each is answered once, for all steps.
-/
namespace Panda.Sched

open Function Option State Machine

variable {n : Nat}

/-! ## What a step does to a thread -/

/-- On the way into the critical section of `schedule`. -/
@[simp] def Phase.busy : Phase → Bool
  | .stealing => true
  | .locking => true
  | .exiting _ => true
  | _ => false

namespace Label

/-- The thread that makes a call in a step which may block or end it. -/
def caller (s : State n) : Label n → Option ThreadId
  | .block c | .sleep c _ | .join c _ | .exit c => actor s c
  | _ => none

/-- The thread that is unblocked in a step. -/
@[simp] def wakes (s : State n) : Label n → Option ThreadId
  | .unblock _ t => some t
  | .wakeNext c =>
    match s.phase c with
    | .waking (t :: _) _ | .exiting (t :: _) => some t
    | _ => none
  | _ => none

end Label

/-- Nothing about the thread changes that the parking protocol looks at. -/
structure Kept (x x' : Thread) : Prop where
  state : x'.state = x.state
  wakePending : x'.wakePending = x.wakePending
  leaving : x'.leaving = x.leaving

/-- What a step does to thread `t`. -/
inductive Fate (s : State n) (a : Label n) (s' : State n) (t : ThreadId) : Prop
  | kept (h : Kept (s.thread t) (s'.thread t))
  /-- It made a call; if that changed its state, it is on its way to `schedule`. -/
  | called (h : a.caller s = some t)
      (hres : (s'.thread t).state = (s.thread t).state ∨ (s'.thread t).leaving = true ∨
        ∃ c joiners, a = .exit c ∧ actor s c = some t ∧ s'.phase c = .exiting joiners)
  /-- It was parked and is unblocked: it is queued, or some processor is still on it. -/
  | woken (h : a.wakes s = some t) (hb : (s.thread t).state = .blocked)
      (hs : (s'.thread t).state = .ready) (hl : (s'.thread t).leaving = (s.thread t).leaving)
      (hplace : Queued s' t ∨ (s'.thread t).onCpu = true)
  /-- It was not parked and is unblocked: the wake is recorded. -/
  | noted (h : a.wakes s = some t) (hb : (s.thread t).state ≠ .blocked)
      (hs : (s'.thread t).state = (s.thread t).state) (hw : (s'.thread t).wakePending = true)
      (hl : (s'.thread t).leaving = (s.thread t).leaving)
  /-- It called `schedule`. -/
  | yields {c : CpuId n} (h : a = .yield c) (hcur : (s.cpu c).current = some t)
      (hbusy : (s'.phase c).busy = true) (hs : (s'.thread t).state = (s.thread t).state)
      (hw : (s'.thread t).wakePending = (s.thread t).wakePending)
  /-- Its processor decided to leave it. -/
  | leaves {c : CpuId n} (h : a = .lock c) (hcur : (s.cpu c).current = some t)
      (hnext : (s'.cpu c).current ≠ some t) (hs : (s'.thread t).state =
        if (s.thread t).state = .running then .ready else (s.thread t).state)
      (hw : (s'.thread t).wakePending = (s.thread t).wakePending)
      (hl : (s'.thread t).leaving = (s.thread t).leaving)
  /-- A processor decided to run it. -/
  | enters {c : CpuId n} (h : a = .lock c) (hoff : (s.thread t).onCpu = false)
      (hold : (s.thread t).state = .running ∨ (s.thread t).state = .ready)
      (hcur : (s'.cpu c).current = some t)
      (hs : (s'.thread t).state = .running)
      (hw : (s'.thread t).wakePending = (s.thread t).wakePending)
      (hl : (s'.thread t).leaving = (s.thread t).leaving)

theorem Kept.refl (x : Thread) : Kept x x := ⟨rfl, rfl, rfl⟩

variable {t u : ThreadId}

/-- Another thread's record is replaced, or this one's by one with the same state. -/
theorem kept_setThread (s : State n) {x : Thread}
    (h : t = u → Kept (s.thread t) x) : Kept (s.thread t) ((s.setThread u x).thread t) := by
  by_cases htu : t = u
  · subst htu
    simpa using h rfl
  · simpa [htu] using Kept.refl _

theorem kept_flushPending (s : State n) (c : CpuId n) (t : ThreadId) :
    Kept (s.thread t) ((flushPending s c).thread t) := by
  have hrel : ∀ u, Kept (s.thread t) ((released s c u).thread t) := by
    intro u
    rw [released_thread]
    exact ⟨rfl, rfl, rfl⟩
  unfold flushPending
  split
  · exact .refl _
  rename_i u _
  dsimp only
  split
  · split
    · exact hrel u
    · exact hrel u
  · split
    · have h := hrel u
      have h' := kept_setThread (released s c u) (t := t) (u := u)
        (x := { (released s c u).thread u with stack := false })
        (by rintro rfl; exact ⟨rfl, rfl, rfl⟩)
      exact ⟨h'.state.trans h.state, h'.wakePending.trans h.wakePending, h'.leaving.trans h.leaving⟩
    · exact hrel u
  · exact hrel u

variable {s : State n}

theorem kept_stealFrom (h : Core s) (c v : CpuId n) (t : ThreadId) :
    Kept (s.thread t) ((stealFrom s c v).thread t) := by
  unfold stealFrom
  split
  · exact .refl _
  rcases h.popFrom v [2, 1, 0] with ⟨hnone, -⟩ | ⟨l, -, u, rest, -, hsome⟩
  · simp only [hnone]
    exact .refl _
  · simp only [hsome]
    exact kept_setThread (requeue s v l rest (s.queued v - 1))
      (by rintro rfl; exact ⟨rfl, rfl, rfl⟩)

@[simp] theorem enqueue_thread (s : State n) (c : CpuId n) (t : ThreadId) :
    (enqueue s c t).thread = s.thread := rfl

theorem mem_enqueue (s : State n) (c : CpuId n) (t : ThreadId) :
    t ∈ ((enqueue s c t).cpu c).ready (s.thread t).priority.index := by
  simp [enqueue]

section Unblock

variable (s : State n) (w : CpuId n) {t : ThreadId}

theorem unblock_thread_of_ne {u : ThreadId} (h : t ≠ u) :
    (unblock s w u).thread t = s.thread t := by
  unfold unblock
  split
  · dsimp only
    split
    · rfl
    · split <;> simp [h]
    · simp [h]
  · rfl

/-- Nobody can be woken any more. -/
theorem unblock_gone (h : s.present t = true → (s.thread t).state = .finished) :
    unblock s w t = s := by
  unfold unblock
  split
  · rename_i hp
    simp [h hp]
  · rfl

/-- A parked thread is ready, and queued unless some processor is still on it. -/
theorem unblock_blocked (hp : s.present t = true) (hb : (s.thread t).state = .blocked) :
    ((unblock s w t).thread t).state = .ready ∧
      ((unblock s w t).thread t).leaving = (s.thread t).leaving ∧
      (Queued (unblock s w t) t ∨ ((unblock s w t).thread t).onCpu = true) := by
  unfold unblock
  rw [if_pos hp]
  simp only [hb]
  by_cases hon : (s.thread t).onCpu = true
  · rw [if_pos hon]
    simp [hon]
  · rw [if_neg hon]
    refine ⟨?_, ?_, .inl ⟨w, _, mem_enqueue _ _ _⟩⟩ <;> simp

/-- For a thread that is not parked the wake is recorded. -/
theorem unblock_awake (hp : s.present t = true) (hb : (s.thread t).state ≠ .blocked)
    (hf : (s.thread t).state ≠ .finished) :
    (unblock s w t).thread t = { s.thread t with wakePending := true } := by
  unfold unblock
  rw [if_pos hp]
  cases hst : (s.thread t).state with
  | finished => exact absurd hst hf
  | blocked => exact absurd hst hb
  | ready | running => simp [hst]

end Unblock

variable {s' : State n} {a : Label n}

/-- A step that wakes a thread is `unblock`, on some processor. -/
theorem unblock_of_wakes (hs : step s a = some s') (hw : a.wakes s = some t) :
    ∃ w, s'.thread = (unblock s w t).thread ∧ s'.cpu = (unblock s w t).cpu := by
  cases a with
  | wakeNext c =>
    simp only [Label.wakes] at hw
    split at hw
    case h_3 => cases hw
    all_goals
      rename_i hphase
      cases hw
      simp only [step, hphase] at hs
      cases hs
      exact ⟨c, rfl, rfl⟩
  | unblock c =>
    cases hw
    obtain ⟨-, rfl⟩ := of_guard hs
    exact ⟨c, rfl, rfl⟩
  | _ => cases hw

theorem queued_of_cpu (hcpu : s'.cpu = s.cpu) (h : Queued s t) : Queued s' t := by
  obtain ⟨c, l, hmem⟩ := h
  exact ⟨c, l, by rw [hcpu]; exact hmem⟩

/-- `unblock`, as any thread sees it. -/
theorem fate_of_unblock (w : CpuId n)
    (hw : a.wakes s = some u) (hthread : s'.thread = (unblock s w u).thread)
    (hcpu : s'.cpu = (unblock s w u).cpu) : Fate s a s' t := by
  by_cases htu : t = u
  case neg =>
    refine .kept ?_
    rw [hthread, unblock_thread_of_ne s w htu]
    exact .refl _
  subst htu
  by_cases hgone : s.present t = true → (s.thread t).state = .finished
  · refine .kept ?_
    rw [hthread, unblock_gone s w hgone]
    exact .refl _
  obtain ⟨hp, hf⟩ := Classical.not_imp.mp hgone
  by_cases hb : (s.thread t).state = .blocked
  · obtain ⟨hready, hleaving, hplace⟩ := unblock_blocked s w hp hb
    rw [← hthread] at hready hleaving hplace
    exact .woken hw hb hready hleaving (hplace.imp_left (queued_of_cpu hcpu))
  · have hawake := unblock_awake s w hp hb hf
    rw [← hthread] at hawake
    refine .noted hw hb ?_ ?_ ?_ <;> rw [hawake]

/-- The critical section of `schedule` on `c`. -/
inductive Locked (s : State n) (c : CpuId n) (s' : State n) : Prop
  /-- The processor stays with its current thread, which is running or its idle thread. -/
  | stays (hthread : s'.thread = s.thread) (hcur : ∀ c', (s'.cpu c').current = (s.cpu c').current)
      (hidle : ∀ c', (s'.cpu c').idle = (s.cpu c').idle)
      (hpend : ∀ c', (s'.cpu c').pending = (s.cpu c').pending)
      (hphase : ∃ graves reaped, s'.phase = update s.phase c (.burying false graves reaped))
      (hrun : ∀ o idle, (s.cpu c).current = some o → (s.cpu c).idle = some idle → o ≠ idle →
        (s.thread o).state = .running)
  /-- It leaves its current thread `o` for `t`. -/
  | switches {s₀ : State n} {o t : ThreadId} (h₀ : s₀.thread = s.thread)
      (ho : (s.cpu c).current = some o) (hne : t ≠ o)
      (hold : (s.thread t).state = .running ∨ (s.thread t).state = .ready)
      (hoff : (s.thread t).onCpu = false) (hthread : s'.thread = (commitSwitch s₀ c o t).thread)
      (hothers : ∀ c', c' ≠ c → (s'.cpu c').current = (s.cpu c').current ∧
        (s'.cpu c').pending = (s.cpu c').pending) (hidle : ∀ c', (s'.cpu c').idle = (s.cpu c').idle)
      (hcur : (s'.cpu c).current = some t) (hpend : (s'.cpu c).pending = some o)
      (hphase : ∃ graves reaped, s'.phase = update s.phase c (.burying true graves reaped))

variable {c : CpuId n}

theorem locked_of_lockSection (h : Inv s)
    (hphase : s.phase c = .locking) : Locked s c (lockSection s c) := by
  obtain ⟨hpending, hflush⟩ := h.flushPending_of_locking hphase
  obtain ⟨-, hcases⟩ := h.core.prepareSwitch hpending (by simp [hphase])
  unfold lockSection
  rw [hflush]
  dsimp only
  generalize hr : prepareSwitch s c = r at hcases ⊢
  -- Emptying the graveyard changes neither thread, and nor does the phase.
  have hcpu : ∀ {α : Type} (f : Cpu → α) (_ : f { r.2.cpu c with graveyard := [], reaped := [] } =
      f (r.2.cpu c)) (p : Phase) (c' : CpuId n), f (((r.2.setCpu c
      { r.2.cpu c with graveyard := [], reaped := [] }).setPhase c p).cpu c') = f (r.2.cpu c') :=
    fun f hf p c' => setCpu_field f hf c'
  rcases hcases with ⟨hfalse, hf, hthread, hrun⟩ |
    ⟨htrue, s₀, o, t, hf, hthread, ho, hidle, hne, ⟨hold, hoff⟩, heq⟩
  · refine .stays hthread (fun c' => ?_) (fun c' => ?_) (fun c' => ?_)
      ⟨(r.2.cpu c).graveyard, (r.2.cpu c).reaped, ?_⟩ hrun
    · exact (hcpu Cpu.current rfl _ c').trans (hf.current c')
    · exact (hcpu Cpu.idle rfl _ c').trans (hf.idle c')
    · exact (hcpu Cpu.pending rfl _ c').trans (hf.pending c')
    · rw [hfalse]
      exact congrArg (update · c _) hf.phase
  · have hself := commit_cpu_self s₀ c (o := o) (t := t)
    have hthread' : r.2.thread = (commitSwitch s₀ c o t).thread := congrArg thread heq
    refine .switches hthread ho hne hold hoff hthread' (fun c' hc => ?_) (fun c' => ?_) ?_ ?_
      ⟨(r.2.cpu c).graveyard, (r.2.cpu c).reaped, ?_⟩
    · have hother := commit_cpu_of_ne s₀ c (o := o) (t := t) hc
      constructor
      · rw [hcpu Cpu.current rfl, heq, hother]
        exact hf.current c'
      · rw [hcpu Cpu.pending rfl, heq, hother]
        exact hf.pending c'
    · rw [hcpu Cpu.idle rfl, heq, commit_cpu]
      exact hf.idle c'
    · rw [hcpu Cpu.current rfl, heq, hself]
    · rw [hcpu Cpu.pending rfl, heq, hself]
    · rw [htrue, heq]
      exact congrArg (update · c _) hf.phase

theorem fate_of_locked (h : Locked s c s') (t : ThreadId) : Fate s (.lock c) s' t := by
  cases h with
  | stays hthread => exact .kept (by rw [hthread]; exact .refl _)
  | @switches s₀ o u h₀ ho hne hold hoff hthread hothers hidle hcur =>
    by_cases htu : t = u
    · subst htu
      have hrec := commit_thread_next s₀ c hne
      rw [h₀] at hrec
      refine .enters rfl hoff hold hcur ?_ ?_ ?_ <;> rw [hthread, hrec]
    by_cases hto : t = o
    · subst hto
      have hrec := commit_thread_outgoing s₀ c hne
      rw [h₀] at hrec
      have hnext : (s'.cpu c).current ≠ some t := by simpa [hcur] using hne
      refine .leaves rfl ho hnext ?_ ?_ ?_ <;> rw [hthread, hrec]
    · refine .kept ?_
      rw [hthread, commit_thread_of_ne s₀ c hto htu, h₀]
      exact .refl _

theorem fate_of_step (h : Inv s) (hs : step s a = some s') (ht : t < s.count) : Fate s a s' t := by
  cases a with
  | tick =>
    cases hs
    exact .kept (.refl _)
  | timer c | collect c | preempt c | bury c | switch c | enqueue c | adopted c =>
    simp only [step] at hs
    split at hs <;> cases hs <;> exact .kept (.refl _)
  | wakeNext c =>
    simp only [step] at hs
    split at hs
    · rename_i hphase
      cases hs
      exact fate_of_unblock c (by simp [hphase]) rfl rfl
    · cases hs
      split <;> exact .kept (.refl _)
    · rename_i hphase
      cases hs
      exact fate_of_unblock c (by simp [hphase]) rfl rfl
    · cases hs
      exact .kept (.refl _)
    · cases hs
  | yield c =>
    simp only [step] at hs
    split at hs
    case h_2 => cases hs
    rename_i u _ hcur
    cases hs
    by_cases htu : t = u
    · subst htu
      refine .yields rfl hcur ?_ ?_ ?_
      · simp only [enterSchedule, setPhase, update_self]
        split <;> rfl
      · simp [enterSchedule]
      · simp [enterSchedule]
    · exact .kept (kept_setThread s fun h => absurd h htu)
  | steal c =>
    obtain ⟨-, hs⟩ := ite_none_right_eq_some.mp hs
    split at hs <;> cases hs
    · exact .kept (.refl _)
    · exact .kept (kept_stealFrom h.core c _ t)
  | lock =>
    obtain ⟨hphase, rfl⟩ := of_guard hs
    exact fate_of_locked (locked_of_lockSection h hphase) t
  | arrive c =>
    obtain ⟨-, rfl⟩ := of_guard hs
    exact .kept (kept_flushPending s c t)
  | spawn c priority | adopt c =>
    obtain ⟨-, rfl⟩ := of_guard hs
    exact .kept (kept_setThread s fun h => absurd (h ▸ ht) (lt_irrefl _))
  | block =>
    obtain ⟨u, hu, rfl⟩ := map_eq_some_iff.mp hs
    unfold blockCurrent
    dsimp only
    by_cases htu : t = u
    · subst htu
      refine .called hu ?_
      split
      · exact .inl (by simp)
      · exact .inr (.inl (by simp))
    · refine .kept ?_
      split <;> exact kept_setThread s fun h => absurd h htu
  | sleep =>
    obtain ⟨u, hu, hs⟩ := bind_eq_some_iff.mp hs
    split at hs
    · cases hs
    cases hs
    by_cases htu : t = u
    · subst htu
      exact .called hu (.inr (.inl (by simp)))
    · exact .kept (kept_setThread s fun h => absurd h htu)
  | join c target =>
    obtain ⟨u, hu, rfl⟩ := map_eq_some_iff.mp hs
    unfold joinThread
    split
    · by_cases htu : t = u
      · subst htu
        exact .called hu (.inr (.inl (by simp)))
      refine .kept ?_
      have htarget := kept_setThread s (t := t) (u := target)
        (x := { s.thread target with joiners := (s.thread target).joiners ++ [u] })
        (by rintro rfl; exact ⟨rfl, rfl, rfl⟩)
      simpa [htu] using htarget
    · exact .kept (.refl _)
  | exit c =>
    obtain ⟨u, hu, rfl⟩ := map_eq_some_iff.mp hs
    by_cases htu : t = u
    · subst htu
      exact .called hu (.inr (.inr ⟨c, (s.thread t).joiners, rfl, hu, by
        simp [exitCurrent]⟩))
    · exact .kept (kept_setThread s fun h => absurd h htu)
  | unblock c =>
    obtain ⟨-, rfl⟩ := of_guard hs
    exact fate_of_unblock c rfl rfl rfl
  | setPriority =>
    obtain ⟨-, rfl⟩ := of_guard hs
    split
    · exact .kept (kept_setThread s (by rintro rfl; exact ⟨rfl, rfl, rfl⟩))
    · exact .kept (.refl _)

/-! ## What a step does to a processor -/

/-- What a step does to processor `c`. -/
inductive Turn (s : State n) (a : Label n) (s' : State n) (c : CpuId n) : Prop
  /-- It keeps its threads. -/
  | still (hcur : (s'.cpu c).current = (s.cpu c).current)
      (hidle : (s'.cpu c).idle = (s.cpu c).idle) (hpend : (s'.cpu c).pending = (s.cpu c).pending)
      (hbusy : (s.phase c).busy = true → (s'.phase c).busy = true)
      (hswitched : (s'.phase c).switched = (s.phase c).switched)
  | locked (h : a = .lock c) (hphase : s.phase c = .locking) (hl : Locked s c s')
  /-- It lets go of the thread it switched away from. -/
  | arrives (h : a = .arrive c) (hphase : s.phase c = .arrived)
      (hcur : (s'.cpu c).current = (s.cpu c).current) (hidle : (s'.cpu c).idle = (s.cpu c).idle)
      (hs : s' = (flushPending s c).setPhase c .run)
  /-- It comes up, running the context it started in. -/
  | adopts {t : ThreadId} (hphase : s.phase c = .adopting t) (hcur : (s'.cpu c).current = some t)
      (hthread : s'.thread = s.thread)

section Still

variable {s s' : State n} {a : Label n} {c d : CpuId n} {p q : Phase}

/-- No processor changes threads, and only processor `d` its phase. -/
theorem turn_still (hcur : ∀ c, (s'.cpu c).current = (s.cpu c).current)
    (hidle : ∀ c, (s'.cpu c).idle = (s.cpu c).idle)
    (hpend : ∀ c, (s'.cpu c).pending = (s.cpu c).pending) (hold : s.phase d = p)
    (hnew : s'.phase = update s.phase d q) (hbusy : p.busy = true → q.busy = true)
    (hswitched : q.switched = p.switched) : Turn s a s' c := by
  by_cases hc : c = d
  · subst hc
    refine .still (hcur c) (hidle c) (hpend c) ?_ ?_ <;> rw [hnew, hold, update_self]
    exacts [hbusy, hswitched]
  · refine .still (hcur c) (hidle c) (hpend c) ?_ ?_ <;> rw [hnew, update_of_ne hc]
    exact id

theorem Frame.turn (hf : Frame s s') : Turn s a s' c :=
  .still (hf.current c) (hf.idle c) (hf.pending c) (by rw [hf.phase]; exact id) (by rw [hf.phase])

/-- A step that moves no processor, followed by a change of phase. -/
theorem Frame.turn_setPhase (hf : Frame s s') (hold : s.phase d = p)
    (hbusy : p.busy = true → q.busy = true) (hswitched : q.switched = p.switched) :
    Turn s a (s'.setPhase d q) c := by
  have hnew : (s'.setPhase d q).phase = update s.phase d q := by
    rw [← hf.phase]
    rfl
  exact turn_still hf.current hf.idle hf.pending hold hnew hbusy hswitched

theorem Frame.turn_enterSchedule (hf : Frame s s') (hold : s.phase d = p)
    (hp : p.switched = false) : Turn s a (enterSchedule s' d) c := by
  unfold enterSchedule
  split
  · exact hf.turn_setPhase hold (fun _ => rfl) hp.symm
  · exact hf.turn_setPhase hold (fun _ => rfl) hp.symm

end Still

theorem turn_of_lock (hphase : s.phase c = .locking)
    (h : Locked s c s') (d : CpuId n) : Turn s (.lock c) s' d := by
  by_cases hd : d = c
  · subst hd
    exact .locked rfl hphase h
  cases h with
  | stays hthread hcur hidle hpend hp =>
    obtain ⟨graves, reaped, hp⟩ := hp
    refine .still (hcur d) (hidle d) (hpend d) ?_ ?_ <;> rw [hp, update_of_ne hd]
    exact id
  | switches h₀ ho hne hb hoff hthread hothers hidle hcur hpend hp =>
    obtain ⟨graves, reaped, hp⟩ := hp
    refine .still (hothers d hd).1 (hidle d) (hothers d hd).2 ?_ ?_ <;>
      rw [hp, update_of_ne hd]
    exact id

theorem turn_of_step (h : Inv s) (hs : step s a = some s') (c : CpuId n) : Turn s a s' c := by
  cases a with
  | tick =>
    cases hs
    exact Frame.turn ⟨fun _ => rfl, fun _ => rfl, fun _ => rfl, rfl, rfl⟩
  | timer | switch | spawn =>
    obtain ⟨hphase, rfl⟩ := of_guard hs
    exact turn_still (fun _ => rfl) (fun _ => rfl) (fun _ => rfl) hphase rfl (by simp) rfl
  | collect d =>
    simp only [step] at hs
    split at hs
    case h_3 => cases hs
    all_goals
      rename_i hphase
      cases hs
      exact turn_still (fun _ => rfl) (fun _ => rfl) (fun _ => rfl) hphase rfl (by simp) rfl
  | wakeNext d =>
    simp only [step] at hs
    split at hs
    case h_5 => cases hs
    · rename_i t due expired hphase
      cases hs
      exact (h.core.unblock d t).2.turn_setPhase hphase (by simp) rfl
    · rename_i hphase
      cases hs
      split
      · exact (Frame.refl s).turn_enterSchedule hphase rfl
      · exact (Frame.refl s).turn_setPhase hphase (by simp) rfl
    · rename_i t joiners hphase
      cases hs
      exact (h.core.unblock d t).2.turn_setPhase hphase (fun _ => rfl) rfl
    · rename_i hphase
      cases hs
      exact (Frame.refl s).turn_enterSchedule hphase rfl
  | yield d =>
    simp only [step] at hs
    split at hs
    case h_2 => cases hs
    rename_i hphase hcur
    cases hs
    exact (Frame.setThread s _ _).turn_enterSchedule hphase rfl
  | preempt =>
    obtain ⟨hphase, rfl⟩ := of_guard hs
    exact (Frame.refl s).turn_enterSchedule hphase rfl
  | steal d =>
    obtain ⟨hphase, hs⟩ := ite_none_right_eq_some.mp hs
    split at hs <;> cases hs
    · exact (Frame.refl s).turn_setPhase hphase (fun _ => rfl) rfl
    · exact (h.core.stealFrom d _).2.turn_setPhase hphase (fun _ => rfl) rfl
  | lock =>
    obtain ⟨hphase, rfl⟩ := of_guard hs
    exact turn_of_lock hphase (locked_of_lockSection h hphase) c
  | bury d =>
    simp only [step] at hs
    split at hs
    case h_2 => cases hs
    rename_i switch graves reaped hphase
    cases hs
    exact turn_still (fun _ => rfl) (fun _ => rfl) (fun _ => rfl) hphase rfl (by simp)
      (by cases switch <;> rfl)
  | arrive d =>
    obtain ⟨hphase, rfl⟩ := of_guard hs
    have hf := flushPending_frame s d
    by_cases hc : c = d
    · subst hc
      refine .arrives rfl hphase ((hf.current c).trans ?_) ((hf.idle c).trans ?_) rfl
      · simp
      · simp
    have hcpu : (s.setCpu d { s.cpu d with pending := none }).cpu c = s.cpu c :=
      update_of_ne hc _ _
    have hphase' : ((flushPending s d).setPhase d .run).phase c = s.phase c :=
      (update_of_ne hc _ _).trans (congrFun hf.phase c)
    refine .still ((hf.current c).trans ?_) ((hf.idle c).trans ?_) ((hf.pending c).trans ?_) ?_ ?_
    · rw [hcpu]
    · rw [hcpu]
    · rw [hcpu]
    · rw [hphase']
      exact id
    · rw [hphase']
  | enqueue d =>
    simp only [step] at hs
    split at hs
    case h_2 => cases hs
    rename_i t hphase
    cases hs
    have hf := enqueue_frame (s.setPhase d .run) d t
    exact turn_still hf.current hf.idle hf.pending hphase hf.phase (by simp) rfl
  | block =>
    obtain ⟨t, -, rfl⟩ := map_eq_some_iff.mp hs
    unfold blockCurrent
    dsimp only
    split <;> exact (Frame.setThread ..).turn
  | sleep =>
    obtain ⟨t, -, hs⟩ := bind_eq_some_iff.mp hs
    split at hs
    · cases hs
    cases hs
    exact Frame.turn ⟨fun _ => rfl, fun _ => rfl, fun _ => rfl, rfl, rfl⟩
  | join =>
    obtain ⟨t, -, rfl⟩ := map_eq_some_iff.mp hs
    unfold joinThread
    split
    · exact ((Frame.setThread ..).trans (.setThread ..)).turn
    · exact (Frame.refl s).turn
  | exit =>
    obtain ⟨t, ht, rfl⟩ := map_eq_some_iff.mp hs
    exact (Frame.setThread ..).turn_setPhase (actor_run ht) (fun _ => rfl) rfl
  | unblock d t =>
    obtain ⟨-, rfl⟩ := of_guard hs
    exact (h.core.unblock d t).2.turn
  | setPriority =>
    obtain ⟨-, rfl⟩ := of_guard hs
    split
    · exact (Frame.setThread ..).turn
    · exact (Frame.refl s).turn
  | adopt =>
    obtain ⟨hphase, rfl⟩ := of_guard hs
    exact turn_still (fun _ => rfl) (fun _ => rfl) (fun _ => rfl) hphase.1 rfl (by simp) rfl
  | adopted d =>
    simp only [step] at hs
    split at hs
    case h_2 => cases hs
    rename_i t hphase
    cases hs
    by_cases hc : c = d
    · subst hc
      refine .adopts hphase ?_ rfl
      simp
    · refine .still ?_ ?_ ?_ ?_ ?_ <;> simp [hc]

end Panda.Sched
