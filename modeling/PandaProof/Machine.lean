import Mathlib.Logic.Function.Basic
import Mathlib.Data.List.Basic

/-!
# Machines that run one atomic step at a time

Every concurrent protocol of the kernel is modelled the same way: a state, a
label for each atomic step any party can take, and a partial function saying
what the step does (`none` when the step is not possible there).  The function
is executable, so a schedule that breaks a property is a list of labels the
kernel of Lean can replay (`exec`).

Properties are about **every** schedule.  `Reaches Ok` is the set of states met
by the schedules whose every step satisfies `Ok` in the state it is taken from;
with `Ok` always true these are the reachable states.  `Path` keeps the steps of
one schedule, for statements about the schedule as a whole.
-/
namespace Panda

/-- Initial states, and what each labelled step does. -/
structure Machine (S A : Type) where
  Init : S → Prop
  step : S → A → Option S

namespace Machine
variable {S A : Type} (M : Machine S A)

/-- The states reached by schedules whose steps all satisfy `Ok`. -/
inductive Reaches (Ok : S → A → Prop) : S → Prop
  | init {s : S} (h : M.Init s) : Reaches Ok s
  | step {s t : S} {a : A} (h : Reaches Ok s) (hok : Ok s a) (hs : M.step s a = some t) :
      Reaches Ok t

/-- The states reached by any schedule. -/
abbrev Reachable (s : S) : Prop := M.Reaches (fun _ _ => True) s

variable {Ok : S → A → Prop} {I : S → Prop} {s : S}

/-- **The invariant rule.**  What holds initially and survives every permitted
step holds in every state reached by permitted steps. -/
theorem Reaches.invariant {M : Machine S A} (hinit : ∀ s, M.Init s → I s)
    (hstep : ∀ {s a t}, I s → Ok s a → M.step s a = some t → I t) (h : M.Reaches Ok s) : I s := by
  induction h with
  | init h => exact hinit _ h
  | step _ hok hs ih => exact hstep ih hok hs

/-- The rule for a machine with one initial state. -/
theorem Reaches.invariant_from {M : Machine S A} {s₀ : S} (hs₀ : I s₀)
    (hstep : ∀ {s a t}, I s → Ok s a → M.step s a = some t → I t) (h : M.Reaches Ok s)
    (hinit : ∀ s, M.Init s → s = s₀ := by exact fun _ h => h) : I s :=
  h.invariant (fun s hs => hinit s hs ▸ hs₀) hstep

variable {Ok' : S → A → Prop}

theorem Reaches.mono {M : Machine S A} (hok : ∀ s a, Ok s a → Ok' s a) (h : M.Reaches Ok s) :
    M.Reaches Ok' s := by
  induction h with
  | init h => exact .init h
  | step _ hs ht ih => exact .step ih (hok _ _ hs) ht

/-- A step with a guard was taken because the guard held. -/
theorem of_guard {p : Prop} [Decidable p] {x y : S} (h : (if p then some x else none) = some y) :
    p ∧ x = y := by
  split at h
  · rename_i hp
    exact ⟨hp, Option.some.inj h⟩
  · cases h

/-- From one state to another by steps that all satisfy `Ok`. -/
inductive Leads (Ok : S → A → Prop) (s : S) : S → Prop
  | refl : Leads Ok s s
  | step {t u : S} {a : A} (h : Leads Ok s t) (hok : Ok t a) (hs : M.step t a = some u) :
      Leads Ok s u

variable {t : S}

/-- What holds somewhere and survives every permitted step holds in every state that
permitted steps lead to from there. -/
theorem Leads.invariant {M : Machine S A}
    (h : M.Leads Ok s t) (hs : I s) (hstep : ∀ {s a t}, I s → Ok s a → M.step s a = some t → I t) :
    I t := by
  induction h with
  | refl => exact hs
  | step _ hok hs ih => exact hstep ih hok hs

theorem Leads.mono {M : Machine S A} (hok : ∀ s a, Ok s a → Ok' s a) (h : M.Leads Ok s t) :
    M.Leads Ok' s t := by
  induction h with
  | refl => exact .refl
  | step _ hk hs ih => exact .step ih (hok _ _ hk) hs

theorem Leads.reachable {M : Machine S A} (h : M.Leads Ok s t)
    (hs : M.Reachable s) : M.Reachable t := h.invariant hs fun hr _ hs => .step hr trivial hs

theorem Leads.trans {M : Machine S A} {u : S} (h : M.Leads Ok s t)
    (h' : M.Leads Ok t u) : M.Leads Ok s u := by
  induction h' with
  | refl => exact h
  | step _ hok hs ih => exact .step ih hok hs

/-- Replay a schedule, failing where a step is not possible or not permitted. -/
def exec (Ok : S → A → Prop) [∀ s a, Decidable (Ok s a)] (s : S) : List A → Option S
  | [] => some s
  | a :: as => if Ok s a then (M.step s a).bind fun t => exec Ok t as else none

variable {as : List A}

theorem reaches_of_exec [∀ s a, Decidable (Ok s a)]
    (hs : M.Reaches Ok s) (h : M.exec Ok s as = some t) : M.Reaches Ok t := by
  induction as generalizing s with
  | nil =>
    cases h
    exact hs
  | cons a as ih =>
    rw [exec] at h
    split at h
    · rename_i hok
      obtain ⟨u, hu, hrest⟩ := Option.bind_eq_some_iff.mp h
      exact ih (.step hs hok hu) hrest
    · cases h

/-- A replayed schedule that goes on from a reached state and ends in one with `p` shows
such a state reached. -/
theorem Reaches.exists_of_exec {M : Machine S A}
    [∀ s a, Decidable (Ok s a)] (hs : M.Reaches Ok s) (as : List A) (p : S → Prop)
    [DecidablePred p] (h : (M.exec Ok s as).any (fun t => decide (p t)) = true) :
    ∃ t, M.Reaches Ok t ∧ p t := by
  obtain ⟨t, ht, hp⟩ := (Option.any_eq_true _ _).mp h
  exact ⟨t, M.reaches_of_exec hs ht, of_decide_eq_true hp⟩

theorem exists_reaches (Ok : S → A → Prop) [∀ s a, Decidable (Ok s a)]
    (as : List A) (p : S → Prop) [DecidablePred p] (hs : M.Init s)
    (h : (M.exec Ok s as).any (fun t => decide (p t)) = true) : ∃ t, M.Reaches Ok t ∧ p t :=
  (Reaches.init hs).exists_of_exec as p h

theorem exists_reachable (as : List A) (p : S → Prop) [DecidablePred p] (hs : M.Init s)
    (h : (M.exec (fun _ _ => True) s as).any (fun t => decide (p t)) = true) :
    ∃ t, M.Reachable t ∧ p t :=
  M.exists_reaches _ as p hs h

/-- A schedule with the state each of its steps is taken from, oldest step
last. -/
inductive Path : List (S × A) → S → Prop
  | init {s : S} (h : M.Init s) : Path [] s
  | step {s t : S} {a : A} {p : List (S × A)} (h : Path p s) (hs : M.step s a = some t) :
      Path ((s, a) :: p) t

variable {p : List (S × A)}

theorem Path.append_exec {M : Machine S A} [∀ s a, Decidable (Ok s a)] (hp : M.Path p s)
    (h : M.exec Ok s as = some t) : ∃ q, M.Path (q ++ p) t ∧ q.length = as.length := by
  induction as generalizing s p with
  | nil =>
    cases h
    exact ⟨[], hp, rfl⟩
  | cons a as ih =>
    rw [exec] at h
    split at h
    · obtain ⟨u, hu, hrest⟩ := Option.bind_eq_some_iff.mp h
      obtain ⟨q, hq, hlen⟩ := ih (hp.step hu) hrest
      exact ⟨q ++ [(s, a)], by simpa using hq, by simp [hlen]⟩
    · cases h

theorem Path.reaches {M : Machine S A}
    (h : M.Path p s) (hok : ∀ x ∈ p, Ok x.1 x.2) : M.Reaches Ok s := by
  induction h with
  | init h => exact .init h
  | step _ hs ih =>
    exact .step (ih fun x hx => hok x (List.mem_cons_of_mem _ hx)) (hok _ List.mem_cons_self) hs

end Machine
end Panda
