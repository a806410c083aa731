import PandaProof.SchedulerWakes

/-!
# Who is listed to be woken

The scheduler itself keeps ids of threads it will unblock: the sleepers, the joiners of a
thread, and what a timer handler or an exiting thread has taken from those lists and works
through.  Only five kinds of step move an id into one of these places or out of it; every
other step leaves them as they are (`delisted_of_step`).
-/
namespace Panda.Sched

open Function Option Machine State

variable {n : Nat}

/-- What a processor has taken from a list and is working through. -/
def Phase.list : Phase → List ThreadId
  | .waking due _ => due
  | .exiting joiners => joiners
  | _ => []

/-- The places where the scheduler lists threads to unblock. -/
inductive Place (n : Nat)
  | sleepers
  | joiners (u : ThreadId)
  | list (c : CpuId n)

@[simp] def State.listed (s : State n) : Place n → List ThreadId
  | .sleepers => s.sleepers.map Prod.fst
  | .joiners u => (s.thread u).joiners
  | .list c => (s.phase c).list

/-- The steps that move ids between these places. -/
def Label.listing : Label n → Bool
  | .sleep _ _ | .join _ _ | .exit _ | .collect _ | .wakeNext _ => true
  | .tick | .timer _ | .yield _ | .preempt _ | .steal _ _ _ | .lock _ | .bury _ | .switch _
  | .arrive _ | .spawn _ _ | .enqueue _ | .block _ | .unblock _ _ | .setPriority _ _ _ | .adopt _
  | .adopted _ => false

/-- The time a timer handler has read. -/
def Phase.now : Phase → Option Nat
  | .ticking _ now _ => some now
  | _ => none

/-- No processor moves on but one, which has no list before or after; if it is in the timer
handler now, it has just read the clock. -/
def Passed (s s' : State n) : Prop :=
  s'.phase = s.phase ∨ ∃ c q, s'.phase = update s.phase c q ∧ (s.phase c).list = [] ∧
    q.list = [] ∧ ∀ now, q.now = some now → now = s.ticks

/-- Nobody new is listed anywhere. -/
structure Delisted (s s' : State n) : Prop where
  sleepers : s'.sleepers = s.sleepers
  joiners : ∀ u, (s'.thread u).joiners.Sublist (s.thread u).joiners
  passed : Passed s s'

variable {s s' : State n}

theorem Passed.list (h : Passed s s') (d : CpuId n) : (s'.phase d).list = (s.phase d).list := by
  rcases h with h | ⟨c, q, h, hp, hq, -⟩
  · rw [h]
  rw [h]
  by_cases hd : d = c
  · rw [hd, update_self, hp, hq]
  · rw [update_of_ne hd]

theorem Passed.now (h : Passed s s') {d : CpuId n} {now : Nat}
    (hnow : (s'.phase d).now = some now) : (s.phase d).now = some now ∨ now = s.ticks := by
  rcases h with h | ⟨c, q, h, -, -, hq⟩
  · exact .inl (h ▸ hnow)
  rw [h] at hnow
  by_cases hd : d = c
  · rw [hd, update_self] at hnow
    exact .inr (hq now hnow)
  · rw [update_of_ne hd] at hnow
    exact .inl hnow

theorem Delisted.listed (h : Delisted s s') (p : Place n) : (s'.listed p).Sublist (s.listed p) := by
  cases p with
  | sleepers =>
    simp only [State.listed, h.sleepers]
    exact .refl _
  | joiners u => exact h.joiners u
  | list =>
    simp only [State.listed, h.passed.list]
    exact .refl _

section Joiners

variable {s : State n}

theorem joiners_setThread {t : ThreadId} {x : Thread}
    (h : x.joiners.Sublist (s.thread t).joiners) (u : ThreadId) :
    ((s.setThread t x).thread u).joiners.Sublist (s.thread u).joiners := by
  by_cases hu : u = t
  · subst hu
    simpa using h
  · simp [hu]

theorem joiners_unblock (w : CpuId n) (t u : ThreadId) :
    ((unblock s w t).thread u).joiners = (s.thread u).joiners := by
  by_cases hu : u = t
  · subst hu
    unfold unblock
    split
    · dsimp only
      split
      · rfl
      · split <;> simp
      · simp
    · rfl
  · rw [unblock_thread_of_ne s w hu]

theorem joiners_flushPending (c : CpuId n) (u : ThreadId) :
    ((flushPending s c).thread u).joiners = (s.thread u).joiners := by
  have hrel : ∀ t, ((released s c t).thread u).joiners = (s.thread u).joiners := by
    intro t
    rw [released_thread]
  unfold flushPending
  split
  · rfl
  rename_i t _
  dsimp only
  split
  · split
    · exact hrel t
    · exact hrel t
  · split
    · by_cases hu : u = t
      · subst hu
        simp
      · rw [← hrel t]
        simp [released, hu]
    · exact hrel t
  · exact hrel t

theorem joiners_stealFrom (h : Core s) (c v : CpuId n) (u : ThreadId) :
    ((stealFrom s c v).thread u).joiners = (s.thread u).joiners := by
  unfold stealFrom
  split
  · rfl
  rcases h.popFrom v [2, 1, 0] with ⟨hnone, -⟩ | ⟨l, -, t, _, -, hsome⟩
  · simp [hnone]
  simp only [hsome]
  by_cases hu : u = t
  · subst hu
    simp [requeue]
  · simp [requeue, hu]

theorem joiners_commit (c : CpuId n) {o t : ThreadId} (hne : t ≠ o) (u : ThreadId) :
    ((commitSwitch s c o t).thread u).joiners = (s.thread u).joiners := by
  by_cases ht : u = t
  · subst ht
    rw [commit_thread_next s c hne]
  by_cases ho : u = o
  · subst ho
    rw [commit_thread_outgoing s c hne]
  · rw [commit_thread_of_ne s c ho ht]

end Joiners

variable {c : CpuId n}

theorem passed_of_phase {p q : Phase} (hold : s.phase c = p)
    (hnew : s'.phase = update s.phase c q) (hp : p.list = []) (hq : q.list = [])
    (hnow : q.now = none) : Passed s s' :=
  .inr ⟨c, q, hnew, hold ▸ hp, hq, fun now h => by rw [hnow] at h; cases h⟩

theorem passed_enterSchedule {p : Phase}
    (hphase : s'.phase = s.phase) (hold : s.phase c = p) (hp : p.list = []) :
    Passed s (enterSchedule s' c) := by
  have hnew : (enterSchedule s' c).phase = update s.phase c
      (if s'.queued c = 0 then .stealing else .locking) := by
    rw [← hphase]
    rfl
  split at hnew
  · exact passed_of_phase hold hnew hp rfl rfl
  · exact passed_of_phase hold hnew hp rfl rfl

variable {a : Label n}

theorem delisted_of_step (h : Inv s) (hs : step s a = some s')
    (ha : a.listing = false) : Delisted s s' := by
  cases a with
  | sleep | join | exit | collect | wakeNext => cases ha
  | tick =>
    cases hs
    exact ⟨rfl, fun _ => .refl _, .inl rfl⟩
  | timer c =>
    obtain ⟨hphase, rfl⟩ := of_guard hs
    refine ⟨rfl, fun _ => .refl _, .inr ⟨c, _, rfl, by rw [hphase]; rfl, rfl, fun now h => ?_⟩⟩
    exact (some.inj h).symm
  | switch =>
    obtain ⟨hphase, rfl⟩ := of_guard hs
    exact ⟨rfl, fun _ => .refl _, passed_of_phase hphase rfl rfl rfl rfl⟩
  | yield c =>
    simp only [step] at hs
    split at hs
    case h_2 => cases hs
    rename_i t hphase _
    cases hs
    exact ⟨rfl, joiners_setThread (.refl _), passed_enterSchedule rfl hphase rfl⟩
  | preempt =>
    obtain ⟨hphase, rfl⟩ := of_guard hs
    exact ⟨rfl, fun _ => .refl _, passed_enterSchedule rfl hphase rfl⟩
  | steal c hint again =>
    obtain ⟨hphase, hs⟩ := ite_none_right_eq_some.mp hs
    split at hs <;> obtain rfl := some.inj hs
    · exact ⟨rfl, fun _ => .refl _, passed_of_phase hphase rfl rfl rfl rfl⟩
    rename_i v _ _
    have hf := (h.core.stealFrom c v).2
    refine ⟨(tables_stealFrom s c v).sleepers, fun u => ?_, passed_of_phase hphase
      (congrArg (update · c _) hf.phase) rfl rfl rfl⟩
    show ((stealFrom s c v).thread u).joiners.Sublist _
    rw [joiners_stealFrom h.core]
  | lock c =>
    obtain ⟨hphase, rfl⟩ := of_guard hs
    have hsleepers := (tables_lockSection h hphase).sleepers
    cases locked_of_lockSection h hphase with
    | stays hthread _ _ _ hp =>
      obtain ⟨graves, reaped, hp⟩ := hp
      exact ⟨hsleepers, fun u => hthread ▸ .refl _, passed_of_phase hphase hp rfl rfl rfl⟩
    | @switches s₀ o t h₀ _ hne _ _ hthread _ _ _ _ hp =>
      obtain ⟨graves, reaped, hp⟩ := hp
      refine ⟨hsleepers, fun u => ?_, passed_of_phase hphase hp rfl rfl rfl⟩
      rw [hthread, joiners_commit c hne, h₀]
  | bury c =>
    simp only [step] at hs
    split at hs
    case h_2 => cases hs
    rename_i switch _ _ hphase
    cases hs
    cases switch with
    | true | false => exact ⟨rfl, fun _ => .refl _, passed_of_phase hphase rfl rfl rfl rfl⟩
  | arrive c =>
    obtain ⟨hphase, rfl⟩ := of_guard hs
    have hf := flushPending_frame s c
    refine ⟨(tables_flushPending s c).sleepers, fun u => ?_, passed_of_phase hphase
      (congrArg (update · c _) hf.phase) rfl rfl rfl⟩
    show ((flushPending s c).thread u).joiners.Sublist _
    rw [joiners_flushPending]
  | spawn =>
    obtain ⟨hphase, rfl⟩ := of_guard hs
    exact ⟨rfl, joiners_setThread (List.nil_sublist _), passed_of_phase hphase rfl rfl rfl rfl⟩
  | adopt =>
    obtain ⟨hphase, rfl⟩ := of_guard hs
    exact ⟨rfl, joiners_setThread (List.nil_sublist _), passed_of_phase hphase.1 rfl rfl rfl rfl⟩
  | enqueue | adopted =>
    simp only [step] at hs
    split at hs
    case h_2 => cases hs
    rename_i t hphase
    cases hs
    exact ⟨rfl, fun _ => .refl _, passed_of_phase hphase rfl rfl rfl rfl⟩
  | block =>
    obtain ⟨t, -, rfl⟩ := map_eq_some_iff.mp hs
    unfold blockCurrent
    dsimp only
    split <;> exact ⟨rfl, joiners_setThread (.refl _), .inl rfl⟩
  | unblock c t =>
    obtain ⟨-, rfl⟩ := of_guard hs
    have hf := (h.core.unblock c t).2
    refine ⟨(tables_unblock s c t).sleepers, fun u => ?_, .inl hf.phase⟩
    rw [joiners_unblock]
  | setPriority =>
    obtain ⟨-, rfl⟩ := of_guard hs
    split
    · exact ⟨rfl, joiners_setThread (.refl _), .inl rfl⟩
    · exact ⟨rfl, fun _ => .refl _, .inl rfl⟩

/-! ## The clock -/

/-- What a timer handler has read is not ahead of the clock. -/
def Clocked (s : State n) : Prop :=
  ∀ c now, (s.phase c).now = some now → now ≤ s.ticks

theorem clocked_step (h : Inv s) (hc : Clocked s) (hs : step s a = some s') : Clocked s' := by
  have hlater := (later_step h hs).2
  have hpassed : Passed s s' → Clocked s' := by
    intro hp c now hnow
    rcases hp.now hnow with hold | rfl
    · exact (hc c now hold).trans hlater
    · exact hlater
  -- A processor that goes on to a phase outside the timer's first part.
  have hphase : ∀ {c : CpuId n} {q : Phase}, s'.phase = update s.phase c q →
      q.now = none → Clocked s' := by
    intro c q hnew hq d now hnow
    rw [hnew] at hnow
    by_cases hd : d = c
    · rw [hd, update_self, hq] at hnow
      cases hnow
    · rw [update_of_ne hd] at hnow
      exact (hc d now hnow).trans hlater
  cases ha : a.listing with
  | false => exact hpassed (delisted_of_step h hs ha).passed
  | true =>
    cases a with
    | sleep =>
      obtain ⟨t, -, hs⟩ := bind_eq_some_iff.mp hs
      split at hs
      · cases hs
      · cases hs
        exact hpassed (.inl rfl)
    | join =>
      obtain ⟨t, -, rfl⟩ := map_eq_some_iff.mp hs
      unfold joinThread at hpassed ⊢
      split
      · exact fun d now hnow => hc d now hnow
      · exact hc
    | exit =>
      obtain ⟨t, -, rfl⟩ := map_eq_some_iff.mp hs
      exact hphase rfl rfl
    | collect =>
      simp only [step] at hs
      split at hs
      case h_3 => cases hs
      all_goals
        cases hs
        exact hphase rfl rfl
    | wakeNext c =>
      simp only [step] at hs
      split at hs
      case h_5 => cases hs
      · rename_i t due expired _
        cases hs
        exact hphase (congrArg (update · c _) (h.core.unblock c t).2.phase) rfl
      · rename_i expired hold
        cases hs
        cases expired with
        | true => exact hpassed (passed_enterSchedule rfl hold rfl)
        | false => exact hpassed (passed_of_phase hold rfl rfl rfl rfl)
      · rename_i t joiners _
        cases hs
        exact hphase (congrArg (update · c _) (h.core.unblock c t).2.phase) rfl
      · rename_i hold
        cases hs
        exact hpassed (passed_enterSchedule rfl hold rfl)
    | _ => cases ha

end Panda.Sched
