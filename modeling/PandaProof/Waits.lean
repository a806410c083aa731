import PandaProof.SchedulerLists

/-!
# Calls that wait for a condition

`sleep_ticks` and `join` park the caller once and return when it runs again.  They do not
look whether the deadline has passed or the other thread has finished, so they rely on
nobody else unblocking a thread that is parked in them.

Everything else a thread waits on has the shape of a disk's completion: the thread leaves
its id in a word where the waker finds it, and goes back when it sees the answer, parked or
not; the waker takes the id out of the word and unblocks the thread in a later step.  The
thread may have left the wait between the two, and be anywhere else by then.
-/
namespace Panda.Waits

open Function List Option Sched

variable {n : Nat}

/-- A call that returns when its condition holds. -/
inductive Call
  /-- `sleep_ticks(ticks)`, called when the clock read `start`. -/
  | sleep (start ticks : Nat)
  /-- `join(target)`, called when there were `known` threads in the table. -/
  | join (target known : ThreadId)
  deriving DecidableEq

/-- The condition of a call by `t`. -/
def Met (s : State n) (t : ThreadId) : Call → Prop
  | .sleep start ticks => start + ticks ≤ s.ticks
  | .join target known => known ≤ target ∨ target = t ∨ (s.thread target).state = .finished

structure World (n : Nat) where
  sched : State n
  /-- Where threads leave their ids: the `waiter` of a completion, a ring's `sleeping`, a place
  in the waiting list of a mutex, an endpoint or the console. -/
  words : Nat → Option ThreadId
  /-- Ids that wakers took out of a word and have not unblocked yet. -/
  taken : List ThreadId
  /-- A thread's last `sleep_ticks` or `join`, unless it called `block_current` since. -/
  calls : ThreadId → Option Call

inductive Label (n : Nat)
  /-- A step of the scheduler, other than a call of `unblock` from outside it. -/
  | sched (a : Sched.Label n)
  /-- The current thread leaves its id in a word. -/
  | register (c : CpuId n) (w : Nat)
  /-- It sees the answer and clears the word. -/
  | leave (c : CpuId n) (w : Nat)
  /-- A waker swaps the word out. -/
  | take (w : Nat)
  /-- A waker, on processor `c`, unblocks a thread it took. -/
  | deliver (c : CpuId n) (t : ThreadId)

/-- The calls on record after a step of the scheduler. -/
def record (s : State n) (calls : ThreadId → Option Call) : Sched.Label n → ThreadId → Option Call
  | .sleep c ticks =>
    (actor s c).elim calls fun t => update calls t (some (.sleep s.ticks ticks))
  | .join c target =>
    (actor s c).elim calls fun t => update calls t (some (.join target s.count))
  | .block c => (actor s c).elim calls fun t => update calls t none
  | _ => calls

/-- Whether a step is an `unblock` from outside the scheduler. -/
def outside : Sched.Label n → Bool
  | .unblock _ _ => true
  | _ => false

/-- One atomic step. -/
def step (w : World n) : Label n → Option (World n)
  | .sched a =>
    if outside a then none
    else (Sched.step w.sched a).map fun s =>
      { w with sched := s, calls := record w.sched w.calls a }
  | .register c k =>
    (actor w.sched c).map fun t => { w with words := update w.words k (some t) }
  | .leave c k =>
    (actor w.sched c).map fun _ => { w with words := update w.words k none }
  | .take k => some { w with
      words := update w.words k none
      taken := (w.words k).toList ++ w.taken }
  | .deliver c t =>
    if t ∈ w.taken ∧ mayWake (w.sched.phase c) then
      some { w with sched := unblock w.sched c t, taken := w.taken.erase t }
    else none

def initial : World n := ⟨Sched.initial, fun _ => none, [], fun _ => none⟩

/-- The scheduler and everything threads register with. -/
def machine (n : Nat) : Machine (World n) (Label n) where
  Init w := w = initial
  step := step

/-- Every `sleep_ticks` and `join` that has returned met its condition. -/
def Honoured (w : World n) : Prop :=
  ∀ c t call, actor w.sched c = some t → w.calls t = some call → Met w.sched t call

/-- No waker unblocks a thread that is parked in `sleep_ticks` or `join`, and the deadline
of a sleep does not saturate. -/
def Spared (w : World n) : Label n → Prop
  | .deliver _ t => (w.sched.thread t).state = .blocked → w.calls t = none
  | .sched (.sleep _ ticks) => w.sched.ticks + ticks ≤ never
  | _ => True

/-! ## The invariant -/

/-- Every thread the scheduler has listed is parked in the call it was listed for, and is
listed once. -/
structure Sound (s : State n) (calls : ThreadId → Option Call) : Prop where
  reach : (Sched.machine n).Reachable s
  clock : Clocked s
  nodup : ∀ p, (s.listed p).Nodup
  once : ∀ p q t, t ∈ s.listed p → t ∈ s.listed q → p = q
  blocked : ∀ p t, t ∈ s.listed p → t < s.count ∧ (s.thread t).state = .blocked
  sleeping : ∀ t d, (t, d) ∈ s.sleepers →
    ∃ start ticks, calls t = some (.sleep start ticks) ∧ start + ticks ≤ d
  joining : ∀ u t, t ∈ (s.thread u).joiners → ∃ known, calls t = some (.join u known)
  /-- Whoever is about to be unblocked has its condition. -/
  due : ∀ c t, t ∈ (s.phase c).list → ∃ call, calls t = some call ∧ Met s t call
  kept : ∀ t call, calls t = some call → Met s t call ∨ t < s.count ∧ (s.thread t).state = .blocked
  known : ∀ t u k, calls t = some (.join u k) → k ≤ s.count

/-- Parked, whatever in. -/
def Parked (s : State n) (t : ThreadId) : Prop :=
  t < s.count ∧ (s.thread t).state = .blocked

/-- What its place in one of the lists says of a thread's call. -/
def Placed (s : State n) (calls : ThreadId → Option Call) (t : ThreadId) : Place n → Prop
  | .sleepers => ∀ d, (t, d) ∈ s.sleepers →
    ∃ start ticks, calls t = some (.sleep start ticks) ∧ start + ticks ≤ d
  | .joiners u => ∃ known, calls t = some (.join u known)
  | .list _ => ∃ call, calls t = some call ∧ Met s t call

namespace Sound

variable {s s' : State n} {calls calls' : ThreadId → Option Call} {a : Sched.Label n}

section

variable (h : Sound s calls)
include h

theorem inv : Inv s := inv_of_reachable h.reach

theorem engaged : Engaged s := engaged_of_reachable h.reach

variable {c : CpuId n} {t : ThreadId}

/-- A thread that makes a call is in the table, is not parked and is listed nowhere. -/
theorem actor (ht : Sched.actor s c = some t) :
    t < s.count ∧ (s.thread t).state = .running ∧ ∀ p, t ∉ s.listed p := by
  have hrun := h.engaged.running_of_actor ht
  refine ⟨(h.inv.core.holds c t (.inl (actor_current ht).1)).2.2, hrun, fun p hp => ?_⟩
  rw [(h.blocked p t hp).2] at hrun
  cases hrun

/-- A listed thread has a call on record. -/
theorem called {p : Place n} (ht : t ∈ s.listed p) : calls t ≠ none := by
  cases p with
  | sleepers =>
    obtain ⟨⟨u, d⟩, hmem, rfl⟩ := mem_map.mp ht
    obtain ⟨_, _, hcall, -⟩ := h.sleeping u d hmem
    simp [hcall]
  | joiners u =>
    obtain ⟨_, hcall⟩ := h.joining u t ht
    simp [hcall]
  | list c =>
    obtain ⟨_, hcall, -⟩ := h.due c t ht
    simp [hcall]

variable {call : Call}

section

variable (hs : Sched.step s a = some s')
include hs

/-- A condition that is met stays met. -/
theorem met
    (hknown : ∀ u k, call = .join u k → k ≤ s.count) (hm : Met s t call) : Met s' t call := by
  cases call with
  | sleep => exact hm.trans (later_step h.inv hs).2
  | join u k =>
    rcases hm with hm | hm | hm
    · exact .inl hm
    · exact .inr (.inl hm)
    by_cases hu : k ≤ u
    · exact .inl hu
    · have hlt : u < s.count := (Nat.lt_of_not_le hu).trans_le (hknown u k rfl)
      exact .inr (.inr (finished_step h.inv h.engaged hlt hm hs))

/-- What a listed thread that is not woken does: it stays parked. -/
theorem stays (ht : Parked s t) (hno : a.wakes s ≠ some t) : Parked s' t :=
  ⟨ht.1.trans_le (later_step h.inv hs).1, blocked_step h.inv h.engaged ht.1 ht.2 hs hno⟩

/-- What is left to see after a step: where the listed threads are, and that a call that
is new on the record is met or has parked its caller. -/
theorem next (hnodup : ∀ p, (s'.listed p).Nodup)
    (honce : ∀ p q x, x ∈ s'.listed p → x ∈ s'.listed q → p = q)
    (hplaced : ∀ p x, x ∈ s'.listed p → Parked s' x ∧ Placed s' calls' x p)
    (hkept : ∀ x call, calls' x = some call →
      calls x = some call ∧ (a.wakes s = some x → Parked s x → Met s x call) ∨
        (Met s' x call ∨ Parked s' x) ∧ ∀ u k, call = .join u k → k ≤ s.count) :
    Sound s' calls' := by
  have hcount := (later_step h.inv hs).1
  refine ⟨.step h.reach trivial hs, clocked_step h.inv h.clock hs, hnodup, honce,
    fun p x hx => (hplaced p x hx).1,
    fun x d hx => (hplaced .sleepers x (mem_map_of_mem (f := Prod.fst) hx)).2 d hx,
    fun u x hx => (hplaced (.joiners u) x hx).2, fun c x hx => (hplaced (.list c) x hx).2, ?_, ?_⟩
  · intro x call hcall
    rcases hkept x call hcall with ⟨hold, hwoken⟩ | ⟨hnew, -⟩
    · have hmet := h.met hs (t := x) fun u k he => h.known x u k (he ▸ hold)
      rcases h.kept x call hold with hm | hb
      · exact .inl (hmet hm)
      by_cases hw : a.wakes s = some x
      · exact .inl (hmet (hwoken hw hb))
      · exact .inr (h.stays hs hb hw)
    · exact hnew
  · intro x u k hcall
    rcases hkept x _ hcall with ⟨hold, -⟩ | ⟨-, hknown⟩
    · exact (h.known x u k hold).trans hcount
    · exact (hknown u k rfl).trans hcount

/-- A thread that stays where it is listed, with the same call. -/
theorem carried {p : Place n} (ht : t ∈ s.listed p) (hcalls : calls' t = calls t)
    (hsleep : ∀ d, (t, d) ∈ s'.sleepers → (t, d) ∈ s.sleepers) (hw : a.wakes s ≠ some t) :
    Parked s' t ∧ Placed s' calls' t p := by
  refine ⟨h.stays hs (h.blocked p t ht) hw, ?_⟩
  cases p with
  | sleepers =>
    intro d hd
    rw [hcalls]
    exact h.sleeping t d (hsleep d hd)
  | joiners u =>
    obtain ⟨known, hcall⟩ := h.joining u t ht
    exact ⟨known, hcalls.trans hcall⟩
  | list c =>
    obtain ⟨call, hcall, hm⟩ := h.due c t ht
    exact ⟨call, hcalls.trans hcall, h.met hs (fun u k he => h.known t u k (he ▸ hcall)) hm⟩

/-- A step that lists nobody and wakes nobody who is parked in a call. -/
theorem delisted (hd : Delisted s s')
    (hspared : ∀ t, a.wakes s = some t → (s.thread t).state = .blocked → calls t = none)
    (hcalls : ∀ t, calls' t = calls t ∨ calls' t = none ∧ (s.thread t).state ≠ .blocked) :
    Sound s' calls' := by
  have hlisted : ∀ {p t}, t ∈ s'.listed p → t ∈ s.listed p := fun ht =>
    (hd.listed _).subset ht
  refine h.next hs (fun p => (h.nodup p).sublist (hd.listed p))
    (fun p q t hp hq => h.once p q t (hlisted hp) (hlisted hq)) ?_ ?_
  · intro p x hx
    have hb := (h.blocked p x (hlisted hx)).2
    exact h.carried hs (hlisted hx) ((hcalls x).resolve_right fun hc => hc.2 hb)
      (fun d hmem => hd.sleepers ▸ hmem) fun hw => h.called (hlisted hx) (hspared x hw hb)
  · intro x call hcall
    rcases hcalls x with he | ⟨he, -⟩
    · rw [he] at hcall
      refine .inl ⟨hcall, fun hw hb => ?_⟩
      rw [hspared x hw hb.2] at hcall
      cases hcall
    · rw [he] at hcall
      cases hcall

/-- The running thread makes a call. -/
theorem calling (hw : ∀ x, a.wakes s ≠ some x) (hnodup : ∀ p, (s'.listed p).Nodup)
    (honce : ∀ p q x, x ∈ s'.listed p → x ∈ s'.listed q → p = q)
    (hplaced : ∀ p x, x ∈ s'.listed p →
      Parked s' x ∧ Placed s' (update calls t (some call)) x p)
    (hnew : Met s' t call ∨ Parked s' t) (hknown : ∀ u k, call = .join u k → k ≤ s.count) :
    Sound s' (update calls t (some call)) := by
  refine h.next hs hnodup honce hplaced fun x call' hcall => ?_
  by_cases hxt : x = t
  · subst hxt
    rw [update_self] at hcall
    cases hcall
    exact .inr ⟨hnew, hknown⟩
  · rw [update_of_ne hxt] at hcall
    exact .inl ⟨hcall, fun hxw => absurd hxw (hw x)⟩

/-- The calling thread parks and is listed in one place. -/
theorem parks (ht : Sched.actor s c = some t) (hw : ∀ x, a.wakes s ≠ some x) (p₀ : Place n)
    (hp₀ : s'.listed p₀ = s.listed p₀ ++ [t]) (hp : ∀ p, p ≠ p₀ → s'.listed p = s.listed p)
    (hb : (s'.thread t).state = .blocked)
    (hsleep : ∀ x d, x ≠ t → (x, d) ∈ s'.sleepers → (x, d) ∈ s.sleepers)
    (hplaced : Placed s' (update calls t (some call)) t p₀)
    (hknown : ∀ u k, call = .join u k → k ≤ s.count) : Sound s' (update calls t (some call)) := by
  obtain ⟨hcount, -, hnot⟩ := h.actor ht
  have hmem : ∀ {p x}, x ∈ s'.listed p → x ∈ s.listed p ∨ x = t ∧ p = p₀ := by
    intro p x hx
    by_cases hpp : p = p₀
    · subst hpp
      rw [hp₀, mem_append, mem_singleton] at hx
      exact hx.imp_right fun hx => ⟨hx, rfl⟩
    · exact .inl (hp p hpp ▸ hx)
  have hne : ∀ {p x}, x ∈ s.listed p → x ≠ t := fun hx hxt => hnot _ (hxt ▸ hx)
  have htparked : Parked s' t := ⟨hcount.trans_le (later_step h.inv hs).1, hb⟩
  refine h.calling hs hw ?_ ?_ ?_ (.inr htparked) hknown
  · intro p
    by_cases hpp : p = p₀
    · subst hpp
      rw [hp₀, nodup_append]
      refine ⟨h.nodup p, nodup_singleton t, fun x hx y hy hxy => ?_⟩
      rw [mem_singleton] at hy
      exact hne hx (hxy.trans hy)
    · rw [hp p hpp]
      exact h.nodup p
  · intro p q x hxp hxq
    rcases hmem hxp with hxp | ⟨rfl, rfl⟩
    · rcases hmem hxq with hxq | ⟨rfl, rfl⟩
      · exact h.once p q x hxp hxq
      · exact absurd hxp (hnot p)
    · rcases hmem hxq with hxq | ⟨-, rfl⟩
      · exact absurd hxq (hnot q)
      · rfl
  · intro p x hx
    rcases hmem hx with hx | ⟨rfl, rfl⟩
    · exact h.carried hs hx (update_of_ne (hne hx) _ _) (fun d => hsleep x d (hne hx)) (hw x)
    · exact ⟨htparked, hplaced⟩

/-- A processor takes threads from a list, whose conditions hold. -/
theorem takes (hw : ∀ x, a.wakes s ≠ some x)
    (c : CpuId n) (src : Place n) (hsrc : (s'.listed src).Sublist (s.listed src))
    (hlist : (s'.listed (.list c)).Sublist (s.listed src)) (hne : src ≠ .list c)
    (hapart : ∀ x, x ∈ s'.listed (.list c) → x ∉ s'.listed src)
    (hp : ∀ p, p ≠ src → p ≠ .list c → s'.listed p = s.listed p)
    (hsleep : ∀ x, x ∈ s'.sleepers → x ∈ s.sleepers)
    (hdue : ∀ x, x ∈ s'.listed (.list c) → ∃ call, calls x = some call ∧ Met s' x call) :
    Sound s' calls := by
  -- Where a listed thread was before.
  have hwas : ∀ {p x}, x ∈ s'.listed p → p = .list c ∧ x ∈ s.listed src ∨
      p ≠ .list c ∧ x ∈ s.listed p := by
    intro p x hx
    by_cases hpc : p = .list c
    · subst hpc
      exact .inl ⟨rfl, hlist.subset hx⟩
    refine .inr ⟨hpc, ?_⟩
    by_cases hps : p = src
    · subst hps
      exact hsrc.subset hx
    · rwa [hp p hps hpc] at hx
  refine h.next hs ?_ ?_ ?_ fun x call hcall => .inl ⟨hcall, fun hxw => absurd hxw (hw x)⟩
  · intro p
    by_cases hpc : p = .list c
    · subst hpc
      exact (h.nodup src).sublist hlist
    by_cases hps : p = src
    · subst hps
      exact (h.nodup p).sublist hsrc
    · rw [hp p hps hpc]
      exact h.nodup p
  · intro p q x hxp hxq
    rcases hwas hxp with ⟨rfl, hxs⟩ | ⟨hpc, hxs⟩
    · rcases hwas hxq with ⟨rfl, -⟩ | ⟨hqc, hxs'⟩
      · rfl
      · obtain rfl := h.once _ _ x hxs hxs'
        exact absurd hxq (hapart x hxp)
    · rcases hwas hxq with ⟨rfl, hxs'⟩ | ⟨hqc, hxs'⟩
      · obtain rfl := h.once _ _ x hxs hxs'
        exact absurd hxp (hapart x hxq)
      · exact h.once p q x hxs hxs'
  · intro p x hx
    rcases hwas hx with ⟨rfl, hxs⟩ | ⟨-, hxs⟩
    · exact ⟨h.stays hs (h.blocked _ x hxs) (hw x), hdue x hx⟩
    · exact h.carried hs hxs rfl (fun d => hsleep (x, d)) (hw x)

/-- A processor unblocks the next thread of its list. -/
theorem wakes {rest : List ThreadId} {q : Phase} (hw : a.wakes s = some t)
    (hs' : s' = (unblock s c t).setPhase c q) (hold : (s.phase c).list = t :: rest)
    (hq : q.list = rest) : Sound s' calls := by
  have hframe := (h.inv.core.unblock c t).2
  have hsleep : s'.sleepers = s.sleepers := by
    rw [hs']
    exact (tables_unblock s c t).sleepers
  have hnew : s'.listed (.list c) = rest := by
    rw [hs', ← hq]
    exact congrArg Phase.list (update_self ..)
  have hp : ∀ p, p ≠ .list c → s'.listed p = s.listed p := by
    intro p hpc
    cases p with
    | sleepers => exact congrArg (map Prod.fst) hsleep
    | joiners u =>
      rw [hs']
      exact joiners_unblock c t u
    | list d =>
      have hd : d ≠ c := fun hd => hpc (hd ▸ rfl)
      rw [hs']
      exact congrArg Phase.list ((update_of_ne hd _ _).trans (congrFun hframe.phase d))
  have hold : s.listed (.list c) = t :: rest := hold
  have hmem : t ∈ s.listed (.list c) := hold ▸ mem_cons_self
  obtain ⟨htrest, hnodup⟩ := nodup_cons.mp (hold ▸ h.nodup (.list c))
  have hwas : ∀ {p x}, x ∈ s'.listed p → x ∈ s.listed p ∧ x ≠ t := by
    intro p x hx
    by_cases hpc : p = .list c
    · subst hpc
      rw [hnew] at hx
      exact ⟨hold ▸ mem_cons_of_mem _ hx, fun hxt => htrest (hxt ▸ hx)⟩
    · rw [hp p hpc] at hx
      exact ⟨hx, fun hxt => hpc (h.once p (.list c) x hx (hxt ▸ hmem))⟩
  refine h.next hs ?_ (fun p q x hxp hxq => h.once p q x (hwas hxp).1 (hwas hxq).1) ?_ ?_
  · intro p
    by_cases hpc : p = .list c
    · subst hpc
      exact hnew ▸ hnodup
    · rw [hp p hpc]
      exact h.nodup p
  · exact fun p x hx => h.carried hs (hwas hx).1 rfl (fun d hd => hsleep ▸ hd) fun hxw =>
      (hwas hx).2 (some.inj (hxw.symm.trans hw))
  · intro x call hcall
    refine .inl ⟨hcall, fun hxw _ => ?_⟩
    -- It was listed, so its condition holds.
    cases hw.symm.trans hxw
    obtain ⟨_, hcall', hm⟩ := h.due c t hmem
    cases hcall.symm.trans hcall'
    exact hm

end

theorem sleep {ticks : Nat}
    (ht : Sched.actor s c = some t) (hs : Sched.step s (.sleep c ticks) = some s')
    (hfits : s.ticks + ticks ≤ never) :
    Sound s' (update calls t (some (.sleep s.ticks ticks))) := by
  obtain ⟨u, hu, hs'⟩ := bind_eq_some_iff.mp hs
  cases ht.symm.trans hu
  split at hs'
  · cases hs'
  cases hs'
  have hdeadline : min (s.ticks + ticks) never = s.ticks + ticks := min_eq_left hfits
  refine h.parks hs ht (fun x => by simp) .sleepers ?_ ?_ ?_ ?_ ?_ ?_
  · simp
  · intro p hp
    cases p with
    | sleepers => exact absurd rfl hp
    | joiners u =>
      by_cases hut : u = t
      · subst hut
        simp
      · simp [hut]
    | list => rfl
  · simp
  · intro x d hxt hx
    refine (mem_append.mp hx).resolve_right fun hx => hxt ?_
    exact congrArg Prod.fst (mem_singleton.mp hx)
  · intro d hd
    rcases mem_append.mp hd with hd | hd
    · exact absurd (mem_map_of_mem (f := Prod.fst) hd) ((h.actor ht).2.2 .sleepers)
    · rw [mem_singleton, hdeadline] at hd
      cases hd
      exact ⟨_, _, update_self .., le_rfl⟩
  · intro u k he
    cases he

/-- `join` returns at once if the condition holds, and parks otherwise. -/
theorem join {target : ThreadId}
    (ht : Sched.actor s c = some t) (hs : Sched.step s (.join c target) = some s') :
    Sound s' (update calls t (some (.join target s.count))) := by
  obtain ⟨u, hu, hs'⟩ := map_eq_some_iff.mp hs
  cases ht.symm.trans hu
  obtain ⟨_, _, hnot⟩ := h.actor ht
  unfold joinThread at hs'
  split at hs'
  · rename_i hparks
    obtain ⟨-, hne, -⟩ := hparks
    subst hs'
    have hjoiners : ∀ u, u ≠ target → (((s.addJoiner target t).setThread t
          { (s.addJoiner target t).thread t with
            wakePending := false, state := .blocked, leaving := true }).thread u).joiners =
          (s.thread u).joiners := by
      intro u hu
      by_cases hut : u = t
      · subst hut
        simp [hne]
      · simp [hu, hut]
    refine h.parks hs ht (fun x => by simp) (.joiners target) ?_ ?_ ?_ ?_ ?_ ?_
    · simp [hne.symm]
    · intro p hp
      cases p with
      | sleepers | list => rfl
      | joiners u => exact hjoiners u fun hut => hp (hut ▸ rfl)
    · simp
    · exact fun x d _ hx => hx
    · exact ⟨s.count, update_self ..⟩
    · intro u k he
      cases he
      exact le_rfl
  · rename_i hstays
    subst hs'
    have hmet : Met s t (.join target s.count) := by
      by_cases hknown : s.count ≤ target
      · exact .inl hknown
      by_cases hself : target = t
      · exact .inr (.inl hself)
      by_contra hnot
      -- In the table, and neither finished nor the caller: it would have parked.
      have hfinished : (s.thread target).state ≠ .finished := fun hf => hnot (.inr (.inr hf))
      exact hstays ⟨present_of_known h.inv (Nat.lt_of_not_le hknown) hfinished,
        fun he => hself he.symm,
        hfinished⟩
    refine h.calling hs (fun x => by simp) h.nodup h.once ?_ (.inl hmet) ?_
    · intro p x hx
      have hxt : x ≠ t := fun hxt => hnot p (hxt ▸ hx)
      exact h.carried hs hx (update_of_ne hxt _ _) (fun _ hd => hd) (by simp)
    · intro u k he
      cases he
      exact le_rfl

theorem exit (hs : Sched.step s (.exit c) = some s') : Sound s' calls := by
  obtain ⟨u, hu, rfl⟩ := map_eq_some_iff.mp hs
  have hrun : (s.phase c).list = [] := by rw [actor_run hu]; rfl
  have hlist : (exitCurrent s c u).listed (.list c) = s.listed (.joiners u) := by
    simp [exitCurrent, Phase.list]
  have hnone : (exitCurrent s c u).listed (.joiners u) = [] := by
    simp [exitCurrent]
  refine h.takes hs (fun x => by simp) c (.joiners u) ?_ ?_ (by simp) ?_ ?_ (fun x hx => hx) ?_
  · rw [hnone]
    exact nil_sublist _
  · rw [hlist]
  · intro x _ hx
    rw [hnone] at hx
    cases hx
  · intro p hpu hpc
    cases p with
    | sleepers => rfl
    | joiners v =>
      have hv : v ≠ u := fun hv => hpu (hv ▸ rfl)
      simp [exitCurrent, hv]
    | list d =>
      have hd : d ≠ c := fun hd => hpc (hd ▸ rfl)
      simp [exitCurrent, hd]
  · intro x hx
    rw [hlist] at hx
    obtain ⟨_, hcall⟩ := h.joining u x hx
    refine ⟨_, hcall, .inr (.inr ?_)⟩
    simp [exitCurrent]

/-- The timer handler takes the sleepers whose deadlines have passed. -/
theorem collect (hs : Sched.step s (.collect c) = some s') : Sound s' calls := by
  have hs' := hs
  simp only [Sched.step] at hs'
  split at hs'
  case h_3 => cases hs'
  · rename_i now expired hphase
    cases hs'
    have hnow : now ≤ s.ticks := h.clock c now (by rw [hphase]; rfl)
    have hlist : (collectDue s c now expired).listed (.list c) =
        (s.sleepers.filter fun x => decide (x.2 ≤ now)).map Prod.fst := by
      simp [collectDue, Phase.list]
    have hstay : (collectDue s c now expired).listed .sleepers =
        (s.sleepers.filter fun x => decide (now < x.2)).map Prod.fst := rfl
    refine h.takes hs (fun x => by simp) c .sleepers ?_ ?_ (by simp) ?_ ?_ ?_ ?_
    · rw [hstay]
      exact (filter_sublist).map _
    · rw [hlist]
      exact (filter_sublist).map _
    · intro x hdue hstays
      rw [hlist] at hdue
      rw [hstay] at hstays
      obtain ⟨⟨y, d⟩, hd, rfl⟩ := mem_map.mp hdue
      obtain ⟨⟨y', d'⟩, hd', heq⟩ := mem_map.mp hstays
      rw [mem_filter] at hd hd'
      -- The id is listed once, so the two entries are one.
      have hsame : (y', d') = (y, d) := inj_on_of_nodup_map (h.nodup .sleepers) hd'.1 hd.1 heq
      cases hsame
      have hle := of_decide_eq_true hd.2
      have hlt := of_decide_eq_true hd'.2
      exact absurd hle (Nat.not_le_of_lt hlt)
    · intro p hps hpc
      cases p with
      | sleepers => exact absurd rfl hps
      | joiners => rfl
      | list d =>
        have hd : d ≠ c := fun hd => hpc (hd ▸ rfl)
        simp [collectDue, hd]
    · exact fun x hx => mem_of_mem_filter hx
    · intro x hx
      rw [hlist] at hx
      obtain ⟨⟨y, d⟩, hd, rfl⟩ := mem_map.mp hx
      rw [mem_filter] at hd
      obtain ⟨_, _, hcall, hle⟩ := h.sleeping y d hd.1
      have hdue : d ≤ now := of_decide_eq_true hd.2
      exact ⟨_, hcall, hle.trans (hdue.trans hnow)⟩
  · rename_i hphase
    cases hs'
    exact h.delisted hs ⟨rfl, fun _ => .refl _, passed_of_phase hphase rfl rfl rfl rfl⟩
      (fun t hw => by cases hw) fun _ => .inl rfl

theorem wakeNext (hs : Sched.step s (.wakeNext c) = some s') : Sound s' calls := by
  have hs' := hs
  simp only [Sched.step] at hs'
  split at hs'
  case h_5 => cases hs'
  · rename_i t due expired hphase
    cases hs'
    exact h.wakes hs (by simp [hphase]) rfl (by rw [hphase]; rfl) rfl
  · rename_i expired hphase
    cases hs'
    have hno : ∀ t, Sched.Label.wakes s (.wakeNext c) ≠ some t := by
      simp [hphase]
    cases expired with
    | true =>
      exact h.delisted hs ⟨rfl, fun _ => .refl _, passed_enterSchedule rfl hphase rfl⟩
        (fun t hw => absurd hw (hno t)) fun _ => .inl rfl
    | false =>
      exact h.delisted hs ⟨rfl, fun _ => .refl _, passed_of_phase hphase rfl rfl rfl rfl⟩
        (fun t hw => absurd hw (hno t)) fun _ => .inl rfl
  · rename_i t joiners hphase
    cases hs'
    exact h.wakes hs (by simp [hphase]) rfl (by rw [hphase]; rfl) rfl
  · rename_i hphase
    cases hs'
    have hno : ∀ t, Sched.Label.wakes s (.wakeNext c) ≠ some t := by
      simp [hphase]
    exact h.delisted hs ⟨rfl, fun _ => .refl _, passed_enterSchedule rfl hphase rfl⟩
      (fun t hw => absurd hw (hno t)) fun _ => .inl rfl

end

end Sound

variable {s : State n} {a : Sched.Label n}

theorem wakes_none (hl : a.listing = false)
    (ho : outside a = false) (t : ThreadId) : a.wakes s ≠ some t := by
  cases a with
  | unblock => cases ho
  | wakeNext => cases hl
  | _ => exact fun h => by cases h

/-- A step that is not one of the three blocking calls leaves the record alone. -/
theorem record_of_not_listing {calls : ThreadId → Option Call}
    (he : Engaged s) (hl : a.listing = false) (t : ThreadId) :
    record s calls a t = calls t ∨ record s calls a t = none ∧ (s.thread t).state ≠ .blocked := by
  cases a with
  | sleep c ticks | join c target => cases hl
  | block c =>
    cases hu : actor s c with
    | none => exact .inl (by simp [record, hu])
    | some u =>
      by_cases htu : t = u
      · subst htu
        exact .inr ⟨by simp [record, hu], by simp [he.running_of_actor hu]⟩
      · exact .inl (by simp [record, hu, htu])
  | _ => exact .inl rfl

theorem sound_step {w w' : World n} {l : Label n} (h : Sound w.sched w.calls) (hok : Spared w l)
    (hs : step w l = some w') : Sound w'.sched w'.calls := by
  cases l with
  | register c k | leave c k =>
    obtain ⟨t, -, rfl⟩ := map_eq_some_iff.mp hs
    exact h
  | take =>
    cases hs
    exact h
  | deliver c t =>
    obtain ⟨hc, rfl⟩ := Machine.of_guard hs
    have hunblock : Sched.step w.sched (.unblock c t) = some (unblock w.sched c t) := if_pos hc.2
    refine h.delisted hunblock (delisted_of_step h.inv hunblock rfl) ?_ fun _ => .inl rfl
    intro u hu
    cases hu
    exact hok
  | sched a =>
    simp only [step] at hs
    split at hs
    case isTrue => cases hs
    rename_i ho
    obtain ⟨s, hstep, rfl⟩ := map_eq_some_iff.mp hs
    cases hl : a.listing with
    | false =>
      exact h.delisted hstep (delisted_of_step h.inv hstep hl)
        (fun t hw => absurd hw (wakes_none hl (by simpa using ho) t))
        (record_of_not_listing h.engaged hl)
    | true =>
      cases a with
      | sleep =>
        obtain ⟨t, ht, -⟩ := bind_eq_some_iff.mp hstep
        simpa [record, ht] using h.sleep ht hstep hok
      | join =>
        obtain ⟨t, ht, -⟩ := map_eq_some_iff.mp hstep
        simpa [record, ht] using h.join ht hstep
      | exit => exact h.exit hstep
      | collect => exact h.collect hstep
      | wakeNext => exact h.wakeNext hstep
      | _ => cases hl

theorem sound_initial : Sound (Sched.initial : State n) fun _ => none := by
  have hlisted : ∀ p, (Sched.initial : State n).listed p = [] := by
    intro p
    cases p with
    | sleepers | list => rfl
    | joiners u => by_cases hu : u = 0 <;> simp [Sched.initial, hu] <;> rfl
  refine ⟨.init rfl, ?_, ?_, ?_, ?_, ?_, ?_, ?_, ?_, ?_⟩
  · intro c now hnow
    cases hnow
  · intro p
    rw [hlisted]
    exact nodup_nil
  · intro p q t ht
    rw [hlisted] at ht
    cases ht
  · intro p t ht
    rw [hlisted] at ht
    cases ht
  · intro t d ht
    cases ht
  · intro u t ht
    have hmem : t ∈ (Sched.initial : State n).listed (.joiners u) := ht
    rw [hlisted] at hmem
    cases hmem
  · intro c t ht
    cases ht
  · intro t call hcall
    cases hcall
  · intro t u k hcall
    cases hcall

/-- **`join` and `sleep_ticks` honour their condition** in every run in which no waker
unblocks a thread that is parked in one of them, and no deadline saturates: whenever a
thread runs again after such a call, its condition holds. -/
theorem honoured_of_spared {w : World n} (h : (machine n).Reaches Spared w) : Honoured w := by
  have hsound : Sound w.sched w.calls := h.invariant_from
    (I := fun w => Sound w.sched w.calls) sound_initial sound_step
  intro c t call ht hcall
  rcases hsound.kept t call hcall with hm | ⟨-, hb⟩
  · exact hm
  · rw [(hsound.actor ht).2.1] at hb
    cases hb

instance (w : World n) (l : Label n) : Decidable (Spared w l) := by
  unfold Spared
  split <;> infer_instance

/-- Processor `d` comes up, and thread 0, running on `c`, registers with a completion whose
`finish`, on `d`, takes its id before thread 0 sees the answer and leaves. -/
def lateFinish (c d : CpuId 1) : List (Label 1) :=
  [.sched (.adopt d), .sched (.adopted d), .register c 0, .take 0, .leave c 0]

/-- `schedule` on processor `c`, from its first lock on. -/
def switchOn (c : CpuId 1) : List (Label 1) :=
  [.sched (.lock c), .sched (.bury c), .sched (.switch c), .sched (.arrive c)]

/-- The wake comes before the sleep; the sleeper is woken by the timer. -/
theorem honoured_of_spared_early : ∃ w : World 1, (machine 1).Reaches Spared w ∧
    (actor w.sched 1 = some 0 ∧ w.calls 0 = some (.sleep 0 2) ∧ w.taken = []) ∧ Honoured w := by
  obtain ⟨w, hw, hp⟩ := (machine 1).exists_reaches Spared
    (lateFinish 0 1 ++ [.deliver 1 0, .sched (.sleep 0 2), .sched (.yield 0),
        .sched (.steal 0 (fun _ => 0) 0)] ++ switchOn 0 ++
      [.sched .tick, .sched .tick, .sched (.timer 1), .sched (.collect 1), .sched (.wakeNext 1),
        .sched (.wakeNext 1)] ++ switchOn 1)
    (fun w => actor w.sched 1 = some 0 ∧ w.calls 0 = some (.sleep 0 2) ∧ w.taken = []) rfl
    (by decide +kernel)
  exact ⟨w, hw, hp, honoured_of_spared hw⟩

/-- Thread 0 goes to sleep for ten ticks, or waits for thread 3, and `finish` unblocks it
then: it runs again at once. -/
theorem late_finish_dishonoured :
    (∃ w : World 1, (machine 1).Reachable w ∧ actor w.sched 1 = some 0 ∧
      w.calls 0 = some (.sleep 0 10) ∧ ¬ Met w.sched 0 (.sleep 0 10)) ∧
    ∃ w : World 1, (machine 1).Reachable w ∧ actor w.sched 1 = some 0 ∧
      w.calls 0 = some (.join 3 4) ∧ ¬ Met w.sched 0 (.join 3 4) := by
  constructor
  · obtain ⟨w, hw, ha, hc, ht⟩ := (machine 1).exists_reachable
      (lateFinish 0 1 ++ [.sched (.sleep 0 10), .sched (.yield 0),
        .sched (.steal 0 (fun _ => 0) 0)] ++
        switchOn 0 ++ [.deliver 1 0, .sched (.preempt 1)] ++ switchOn 1)
      (fun w => actor w.sched 1 = some 0 ∧ w.calls 0 = some (.sleep 0 10) ∧ w.sched.ticks = 0)
      rfl (by decide +kernel)
    exact ⟨w, hw, ha, hc, by simp [Met, ht]⟩
  · obtain ⟨w, hw, ha, hc, ht⟩ := (machine 1).exists_reachable
      (lateFinish 0 1 ++ [.sched (.spawn 0 .normal), .sched (.enqueue 0), .sched (.join 0 3),
        .sched (.yield 0)] ++ switchOn 0 ++ [.deliver 1 0, .sched (.preempt 1)] ++ switchOn 1)
      (fun w => actor w.sched 1 = some 0 ∧ w.calls 0 = some (.join 3 4) ∧
        (w.sched.thread 3).state = .running) rfl (by decide +kernel)
    exact ⟨w, hw, ha, hc, by simp [Met, ht]⟩

end Panda.Waits
