import Mathlib.Logic.Function.Basic

/-!
# Parking and waking

What the scheduler promises to code that puts itself to sleep: `block_current`
parks the calling thread unless a wake was recorded for it, and `unblock`
either makes a parked thread runnable or records the wake for its next attempt
to park.  Each of the two runs under the lock of the processor owning the
thread, so each is one atomic step.  The sleeping protocols of the kernel
(`SleepMutex`, IPC endpoints, disk completions) are modelled over this
interface; that the scheduler provides it is shown where the scheduler is
modelled.
-/
namespace Panda

open Function

/-- Per thread: is it `Blocked`, and is a wake recorded for it? -/
structure Parking (T : Type) where
  blocked : T → Bool
  wakePending : T → Bool

namespace Parking
variable {T : Type} [DecidableEq T]

/-- Nobody parked, no wake recorded. -/
def initial : Parking T := ⟨fun _ => false, fun _ => false⟩

/-- `block_current` called by `t`: consume a recorded wake and return `false`,
or mark the thread `Blocked` and return `true`. -/
def blockCurrent (p : Parking T) (t : T) : Parking T × Bool :=
  if p.wakePending t then
    ({ p with wakePending := update p.wakePending t false }, false)
  else
    ({ p with blocked := update p.blocked t true }, true)

/-- `unblock t`: a `Blocked` thread becomes runnable; for any other the wake is
recorded. -/
def unblock (p : Parking T) (t : T) : Parking T :=
  if p.blocked t then
    { p with blocked := update p.blocked t false }
  else
    { p with wakePending := update p.wakePending t true }

variable {p : Parking T} {t : T}

theorem blockCurrent_of_wake (h : p.wakePending t = true) : p.blockCurrent t =
      ({ p with wakePending := update p.wakePending t false }, false) := by
  simp [blockCurrent, h]

theorem blockCurrent_of_no_wake (h : p.wakePending t = false) :
    p.blockCurrent t = ({ p with blocked := update p.blocked t true }, true) := by
  simp [blockCurrent, h]

theorem blockCurrent_snd (p : Parking T) (t : T) : (p.blockCurrent t).2 = !p.wakePending t := by
  cases hw : p.wakePending t <;> simp [blockCurrent, hw]

variable {u : T}

/-- `block_current` parks its caller only. -/
theorem blockCurrent_blocked_of_ne (h : u ≠ t) : (p.blockCurrent t).1.blocked u = p.blocked u := by
  unfold blockCurrent
  split <;> simp [h]

/-- `block_current` consumes its caller's wake only. -/
theorem blockCurrent_wakePending_of_ne (h : u ≠ t) :
    (p.blockCurrent t).1.wakePending u = p.wakePending u := by
  unfold blockCurrent
  split <;> simp [h]

/-- A thread that was not parked has a wake recorded once it is unblocked. -/
theorem unblock_wakePending_self (h : p.blocked t = false) :
    (p.unblock t).wakePending t = true := by
  simp [unblock, h]

/-- `unblock` never leaves its target parked. -/
@[simp] theorem unblock_blocked_self (p : Parking T) (t : T) : (p.unblock t).blocked t = false := by
  unfold unblock
  split
  · simp
  · simp_all

/-- `unblock` parks nobody. -/
theorem unblock_blocked_of_false (h : p.blocked u = false) : (p.unblock t).blocked u = false := by
  by_cases hu : u = t
  · subst hu; simp
  · unfold unblock
    split <;> simp [update_of_ne hu, h]

theorem blocked_of_unblock (h : (p.unblock t).blocked u = true) : p.blocked u = true := by
  by_contra hb
  simp [unblock_blocked_of_false (Bool.not_eq_true _ ▸ hb)] at h

/-- `unblock` forgets no recorded wake. -/
theorem unblock_wakePending_of_true (h : p.wakePending u = true) :
    (p.unblock t).wakePending u = true := by
  unfold unblock
  split
  · exact h
  · by_cases hu : u = t
    · subst hu; simp
    · simpa [update_of_ne hu] using h

/-! ## Where threads are blocked -/

variable {P : Type} {pc : T → P} {rest : P → Prop} {place : P}

/-- Threads are blocked only at places where they may rest. -/
def Rests (p : Parking T) (pc : T → P) (rest : P → Prop) : Prop :=
  ∀ u, p.blocked u = true → rest (pc u)

namespace Rests

variable (h : p.Rests pc rest)
include h

theorem unblock : (p.unblock t).Rests pc rest := fun u hu => h u (blocked_of_unblock hu)

/-- A thread moves that is not blocked, or to where it may rest. -/
theorem goto (ht : p.blocked t = false ∨ rest place) : p.Rests (update pc t place) rest :=
  (forall_update_iff pc fun u x => p.blocked u = true → rest x).mpr
    ⟨fun hb => ht.resolve_left (by simp [hb]), fun u _ => h u⟩

/-- A thread calls `block_current` where it may rest. -/
theorem block (ht : rest (pc t)) : (p.blockCurrent t).1.Rests pc rest := by
  intro u hu
  by_cases hut : u = t
  · exact hut ▸ ht
  · exact h u (blockCurrent_blocked_of_ne hut ▸ hu)

/-- A thread calls `block_current` and goes on, parked or not. -/
theorem block_goto (ht : p.blocked t = false ∧ p.wakePending t = true ∨ rest place) :
    (p.blockCurrent t).1.Rests (update pc t place) rest := by
  refine (forall_update_iff pc fun u x => _ → rest x).mpr
    ⟨fun hb => ht.resolve_left fun hw => ?_, fun u hut hb => ?_⟩
  · simp [blockCurrent_of_wake hw.2, hw.1] at hb
  · exact h u (blockCurrent_blocked_of_ne hut ▸ hb)

end Rests

end Parking
end Panda
