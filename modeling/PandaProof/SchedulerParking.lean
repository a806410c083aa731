import PandaProof.SchedulerWakes

/-!
# The scheduler behind the parking interface

Why the sleeping protocols of the kernel may be modelled over `Parking`: to that interface every
step of the scheduler, on any number of processors, is what its label names, or nothing.
-/
namespace Panda.Sched

open Function Option State

variable {n : Nat} {s s' : State n} {a : Label n} {t : ThreadId}

/-- What the sleeping protocols see of the scheduler. -/
def parking (s : State n) : Parking ThreadId where
  blocked t := (s.thread t).state = .blocked
  wakePending t := (s.thread t).wakePending

/-- A thread that sleeps or joins forgets a wake recorded for it, and parks. -/
def park (p : Parking ThreadId) (t : ThreadId) : Parking ThreadId :=
  ⟨update p.blocked t true, update p.wakePending t false⟩

/-- `unblock` of a thread that there is and that has not finished; of any other, nothing. -/
def State.woken (s : State n) (p : Parking ThreadId) (t : ThreadId) : Parking ThreadId :=
  if s.present t ∧ (s.thread t).state ≠ .finished then p.unblock t else p

/-- What a step is to the interface: a call of the thread that acts, a wake, or nothing. -/
def Label.shown (s : State n) (p : Parking ThreadId) : Label n → Parking ThreadId
  | .block c => (actor s c).elim p fun t => (p.blockCurrent t).1
  | .sleep c _ => (actor s c).elim p (park p)
  | .join c target => (actor s c).elim p fun t =>
    if s.present target ∧ t ≠ target ∧ (s.thread target).state ≠ .finished then park p t else p
  | a => (a.wakes s).elim p (s.woken p)

/-- The interface shows `p` of thread `t`. -/
def Shows (s : State n) (t : ThreadId) (p : Parking ThreadId) : Prop :=
  (parking s).blocked t = p.blocked t ∧ (parking s).wakePending t = p.wakePending t

/-- `unblock` is the interface's, if there is somebody to wake. -/
theorem shows_unblock (s : State n) (w : CpuId n) (t u : ThreadId) :
    Shows (unblock s w u) t (s.woken (parking s) u) := by
  unfold State.woken
  split
  · rename_i hu
    by_cases htu : t = u
    · subst htu
      cases hst : (s.thread t).state <;> cases hon : (s.thread t).onCpu <;>
        simp_all [Shows, parking, unblock, Parking.unblock, enqueue]
    · have hsame := unblock_thread_of_ne s w htu
      unfold Parking.unblock
      split <;> simp [Shows, parking, hsame, htu]
  · rename_i hu
    rw [unblock_gone s w fun hp => not_not.mp fun hf => hu ⟨hp, hf⟩]
    exact ⟨rfl, rfl⟩

/-- A step, as a thread sees it that makes no call: it wakes somebody, or shows nothing. -/
theorem shows_of_not_caller (h : Inv s) (hs : step s a = some s') (ht : t < s.count)
    (hcaller : a.caller s ≠ some t) :
    Shows s' t ((a.wakes s).elim (parking s) (s.woken (parking s))) := by
  cases hwakes : a.wakes s with
  | some u =>
    obtain ⟨w, hthread, -⟩ := unblock_of_wakes hs hwakes
    simpa only [Shows, parking, hthread, elim_some] using shows_unblock s w t u
  | none =>
    cases fate_of_step h hs ht with
    | kept hkept => simp [Shows, parking, hkept.state, hkept.wakePending]
    | called hcall => exact absurd hcall hcaller
    | woken hw | noted hw => cases hwakes.symm.trans hw
    | yields _ _ _ hst hw => simp [Shows, parking, hst, hw]
    | leaves _ _ _ hst hw =>
      by_cases hrun : (s.thread t).state = .running <;> simp [Shows, parking, hst, hw, hrun]
    | enters _ _ hold _ hst hw =>
      rcases hold with hold | hold <;> simp [Shows, parking, hst, hw, hold]

/-- **The scheduler refines the parking interface.**  In every run a step changes what the
interface shows by the operation its label names: switching, stealing, burying, spawning and
exiting park nobody and lose no wake. -/
theorem parking_refined (h : (machine n).Reachable s) (hs : step s a = some s')
    (ht : t < s.count) : Shows s' t (a.shown s (parking s)) := by
  have hother := shows_of_not_caller (inv_of_reachable h) hs ht
  cases a with
  | block c =>
    obtain ⟨u, hu, rfl⟩ := map_eq_some_iff.mp hs
    by_cases htu : t = u <;> cases hw : (s.thread u).wakePending <;>
      simp [Label.shown, hu, Shows, parking, blockCurrent, Parking.blockCurrent, htu, hw]
  | sleep c ticks =>
    obtain ⟨u, hu, hs⟩ := bind_eq_some_iff.mp hs
    split at hs <;> cases hs
    by_cases htu : t = u <;> simp [Label.shown, hu, Shows, parking, park, htu]
  | join c target =>
    obtain ⟨u, hu, rfl⟩ := map_eq_some_iff.mp hs
    simp only [Label.shown, hu, elim_some]
    by_cases htu : t = u
    · unfold joinThread
      split <;> simp [Shows, parking, park, htu]
    · -- The thread that is joined only gets a joiner.
      have hkept := hother (by simpa [Label.caller, hu] using Ne.symm htu)
      split <;> simpa [Shows, park, htu] using hkept
  | exit c =>
    obtain ⟨u, hu, rfl⟩ := map_eq_some_iff.mp hs
    -- Whoever calls `exit_current` is running, not parked.
    have hrun := (engaged_of_reachable h).running_of_actor hu
    by_cases htu : t = u <;> simp [Label.shown, Shows, parking, exitCurrent, htu, hrun]
  | _ => exact hother (some_ne_none t).symm

/-- The boot thread parks, and another processor wakes it. -/
theorem parking_refined_woken : ∃ s s' : State 1, (machine 1).Reachable s ∧
    step s (.unblock 1 0) = some s' ∧ (parking s).blocked 0 = true ∧
    Shows s' 0 ((parking s).unblock 0) := by
  have h : (machine 1).Reachable (blockCurrent initial 0) :=
    .step (a := .block 0) (.init rfl) trivial rfl
  exact ⟨_, _, h, rfl, rfl, parking_refined h (a := .unblock 1 0) rfl (by decide)⟩

end Panda.Sched
