import PandaProof.Scheduler

/-!
# Who owns a thread

The invariant that ties a thread's state, its `on_cpu` flag, its owner and the queues
together.  A thread that is on a processor is *held* by exactly that processor, as its
current thread, as the one it is leaving, or as the context it is just adopting; a
thread on a queue is held by nobody.  `Core` says this of the tables, and `Steady`
relates the tables to the stack each processor is physically standing on, phase by
phase.  Both survive every step, whatever the interleaving.
-/
namespace Panda.Sched

open State List

variable {n : Nat}

/-- Processor `c` is committed to the stack of `t`. -/
def Holds (s : State n) (c : CpuId n) (t : ThreadId) : Prop :=
  (s.cpu c).current = some t ∨ (s.cpu c).pending = some t ∨ s.phase c = .adopting t

/-- `t` is on some ready queue. -/
def Queued (s : State n) (t : ThreadId) : Prop := ∃ c l, t ∈ (s.cpu c).ready l

namespace Phase

/-- The stacks and ids on their way out of the table. -/
@[simp] def graves : Phase → List ThreadId
  | .burying _ graves reaped => graves ++ reaped
  | _ => []

/-- Between deciding on a switch and flushing what was switched away from. -/
@[simp] def switched : Phase → Bool
  | .burying true _ _ => true
  | .switching => true
  | .arrived => true
  | _ => false

/-- Between deciding on a switch and making it. -/
@[simp] def departing : Phase → Bool
  | .burying true _ _ => true
  | .switching => true
  | _ => false

end Phase

/-- The stack of `t` has been handed over, or `t` has left the table. -/
def Dead (s : State n) (t : ThreadId) : Prop :=
  (t < s.count ∧ s.present t = false) ∨
    ∃ c, t ∈ (s.cpu c).graveyard ∨ t ∈ (s.cpu c).reaped ∨ t ∈ (s.phase c).graves

/-- Nothing but its own record constrains `t`. -/
structure Loose (s : State n) (t : ThreadId) : Prop where
  notQueued : ¬ Queued s t
  notIdle : ∀ c, (s.cpu c).idle ≠ some t
  notFresh : ∀ c, s.phase c ≠ .spawned t
  notAdopted : ∀ c, s.phase c ≠ .adopting t
  notDead : ¬ Dead s t

/-- The thread may run on the processor, and does not yet. -/
abbrev MayRun (s : State n) (c : CpuId n) (t : ThreadId) : Prop :=
  (s.thread t).state = .ready ∧ (s.thread t).onCpu = false ∧ (s.thread t).owner = c ∧ t < s.count

/-- The ready queues hold threads that may run here, each of them once. -/
structure Queues (s : State n) : Prop where
  queued : ∀ c l t, t ∈ (s.cpu c).ready l → MayRun s c t
  nodup : ∀ c l, ((s.cpu c).ready l).Nodup
  levels : ∀ c l l' t, t ∈ (s.cpu c).ready l → t ∈ (s.cpu c).ready l' → l = l'
  /-- `QUEUED` counts the queues, so its decrements never wrap. -/
  counted : ∀ c, s.queued c =
    ((s.cpu c).ready 0).length + ((s.cpu c).ready 1).length + ((s.cpu c).ready 2).length

/-- The scheduler's tables agree with each other. -/
structure Core (s : State n) : Prop extends Queues s where
  /-- A thread is marked as on a processor only while one holds it. -/
  held : ∀ t, (s.thread t).onCpu = true → ∃ c, Holds s c t
  /-- A held thread is marked, and owned by its holder. -/
  holds : ∀ c t, Holds s c t → (s.thread t).onCpu = true ∧ (s.thread t).owner = c ∧ t < s.count
  /-- A processor does not leave the thread it is on. -/
  apart : ∀ c t, (s.cpu c).pending = some t → (s.cpu c).current ≠ some t ∧ s.phase c ≠ .adopting t
  /-- Idle threads never block, never move and are never queued. -/
  idle : ∀ c t, (s.cpu c).idle = some t → (s.thread t).owner = c ∧ t < s.count ∧
      ((s.thread t).state = .running ∨ (s.thread t).state = .ready) ∧ ¬ Queued s t
  /-- A thread between `spawn`'s two sections is still its spawner's. -/
  fresh : ∀ c t, s.phase c = .spawned t →
    (s.thread t).state = .ready ∧ (s.thread t).onCpu = false ∧ (s.thread t).owner = c ∧
      t < s.count ∧ ¬ Queued s t ∧ ∀ c', (s.cpu c').idle ≠ some t
  /-- A processor coming up adopts a running context, nobody's idle thread so far. -/
  adopted : ∀ c t, s.phase c = .adopting t →
    (s.thread t).state = .running ∧ ∀ c', (s.cpu c').idle ≠ some t
  present : ∀ t, s.present t = true → t < s.count
  dead : ∀ t, Dead s t → (s.thread t).state = .finished ∧ (s.thread t).onCpu = false ∧ t < s.count

/-- What the tables say of one thread that is not dead. -/
structure CoreAt (s : State n) (t : ThreadId) : Prop where
  held : (s.thread t).onCpu = true → ∃ c, Holds s c t
  holds : ∀ c, Holds s c t → (s.thread t).onCpu = true ∧ (s.thread t).owner = c ∧ t < s.count
  apart : ∀ c, (s.cpu c).pending = some t → (s.cpu c).current ≠ some t ∧ s.phase c ≠ .adopting t
  idle : ∀ c, (s.cpu c).idle = some t → (s.thread t).owner = c ∧ t < s.count ∧
      ((s.thread t).state = .running ∨ (s.thread t).state = .ready) ∧ ¬ Queued s t
  fresh : ∀ c, s.phase c = .spawned t →
    (s.thread t).state = .ready ∧ (s.thread t).onCpu = false ∧ (s.thread t).owner = c ∧
      t < s.count ∧ ¬ Queued s t ∧ ∀ c', (s.cpu c').idle ≠ some t
  adopted : ∀ c, s.phase c = .adopting t →
    (s.thread t).state = .running ∧ ∀ c', (s.cpu c').idle ≠ some t

/-- Queues and graves apart, `t` is where it was. -/
structure Stays (s s' : State n) (t : ThreadId) : Prop where
  state : (s'.thread t).state = (s.thread t).state
  onCpu : (s'.thread t).onCpu = (s.thread t).onCpu
  owner : (s'.thread t).owner = (s.thread t).owner
  current : ∀ c, (s'.cpu c).current = some t ↔ (s.cpu c).current = some t
  pending : ∀ c, (s'.cpu c).pending = some t ↔ (s.cpu c).pending = some t
  idle : ∀ c, (s'.cpu c).idle = some t → (s.cpu c).idle = some t
  spawned : ∀ c, s'.phase c = .spawned t → s.phase c = .spawned t
  adopting : ∀ c, s'.phase c = .adopting t ↔ s.phase c = .adopting t

/-- No processor changes thread, phase or stack. -/
structure Frame (s s' : State n) : Prop where
  current : ∀ c, (s'.cpu c).current = (s.cpu c).current
  idle : ∀ c, (s'.cpu c).idle = (s.cpu c).idle
  pending : ∀ c, (s'.cpu c).pending = (s.cpu c).pending
  phase : s'.phase = s.phase
  standing : s'.standing = s.standing

/-- Everything the invariants read is the same in both states. -/
structure Same (s s' : State n) : Prop extends Frame s s' where
  state : ∀ t, (s'.thread t).state = (s.thread t).state
  onCpu : ∀ t, (s'.thread t).onCpu = (s.thread t).onCpu
  owner : ∀ t, (s'.thread t).owner = (s.thread t).owner
  count : s'.count = s.count
  present : s'.present = s.present
  ready : ∀ c, (s'.cpu c).ready = (s.cpu c).ready
  graveyard : ∀ c, (s'.cpu c).graveyard = (s.cpu c).graveyard
  reaped : ∀ c, (s'.cpu c).reaped = (s.cpu c).reaped
  queued : s'.queued = s.queued

variable {s s' : State n}

/-- The queues keep their threads, and the threads on them what makes them runnable. -/
theorem Queues.keep (h : Queues s)
    (hready : ∀ c, (s'.cpu c).ready = (s.cpu c).ready) (hcounter : s'.queued = s.queued)
    (hcount : s.count ≤ s'.count)
    (hthread : ∀ t, Queued s t → (s'.thread t).state = (s.thread t).state ∧
      (s'.thread t).onCpu = (s.thread t).onCpu ∧ (s'.thread t).owner = (s.thread t).owner) :
    Queues s' where
  queued c l t ht := by
    rw [hready] at ht
    obtain ⟨h1, h2, h3, h4⟩ := h.queued c l t ht
    obtain ⟨e1, e2, e3⟩ := hthread t ⟨c, l, ht⟩
    exact ⟨e1.trans h1, e2.trans h2, e3.trans h3, h4.trans_le hcount⟩
  nodup c l := by rw [hready]; exact h.nodup c l
  levels c l l' t := by rw [hready]; exact h.levels c l l' t
  counted c := by rw [hready, hcounter]; exact h.counted c

/-! ## Thread by thread -/

variable {c : CpuId n} {t u : ThreadId}

theorem Core.each (h : Core s) (t : ThreadId) : CoreAt s t :=
  ⟨h.held t, (h.holds · t), (h.apart · t), (h.idle · t), (h.fresh · t), (h.adopted · t)⟩

theorem Core.of_each (hqueues : Queues s) (hpresent : ∀ t, s.present t = true → t < s.count)
    (hdead : ∀ t, Dead s t →
      (s.thread t).state = .finished ∧ (s.thread t).onCpu = false ∧ t < s.count)
    (h : ∀ t, CoreAt s t) : Core s :=
  ⟨hqueues, fun t => (h t).held, fun c t => (h t).holds c, fun c t => (h t).apart c,
    fun c t => (h t).idle c, fun c t => (h t).fresh c, fun c t => (h t).adopted c, hpresent, hdead⟩

/-- A loose thread need only be held right. -/
theorem Loose.coreAt (h : Loose s t) (hheld : (s.thread t).onCpu = true → ∃ c, Holds s c t)
    (hholds : ∀ c, Holds s c t →
      (s.thread t).onCpu = true ∧ (s.thread t).owner = c ∧ t < s.count)
    (hapart : ∀ c, (s.cpu c).pending = some t → (s.cpu c).current ≠ some t) : CoreAt s t :=
  ⟨hheld, hholds, fun c hc => ⟨hapart c hc, h.notAdopted c⟩, fun c hc => absurd hc (h.notIdle c),
    fun c hc => absurd hc (h.notFresh c), fun c hc => absurd hc (h.notAdopted c)⟩

theorem Loose.setThread (h : Loose s t) (u : ThreadId) (x : Thread) :
    Loose (s.setThread u x) t := { h with }

namespace Stays

theorem holds_iff (k : Stays s s' t) (c : CpuId n) : Holds s' c t ↔ Holds s c t := by
  rw [Holds, Holds, k.current, k.pending, k.adopting]

theorem trans {s'' : State n} (k : Stays s s' t) (k' : Stays s' s'' t) : Stays s s'' t where
  state := k'.state.trans k.state
  onCpu := k'.onCpu.trans k.onCpu
  owner := k'.owner.trans k.owner
  current c := (k'.current c).trans (k.current c)
  pending c := (k'.pending c).trans (k.pending c)
  idle c hc := k.idle c (k'.idle c hc)
  spawned c hc := k.spawned c (k'.spawned c hc)
  adopting c := (k'.adopting c).trans (k.adopting c)

theorem setThread (hu : u ≠ t) (x : Thread) : Stays s (s.setThread t x) u :=
  ⟨by simp [hu], by simp [hu], by simp [hu], fun _ => .rfl, fun _ => .rfl, fun _ => id,
    fun _ => id, fun _ => .rfl⟩

theorem setCpu {x : Cpu} (hcurrent : x.current = some u ↔ (s.cpu c).current = some u)
    (hpending : x.pending = some u ↔ (s.cpu c).pending = some u)
    (hidle : x.idle = some u → (s.cpu c).idle = some u) : Stays s (s.setCpu c x) u where
  state := rfl
  onCpu := rfl
  owner := rfl
  current := (Function.forall_update_iff s.cpu fun c' y => y.current = some u ↔
    (s.cpu c').current = some u).mpr ⟨hcurrent, fun _ _ => .rfl⟩
  pending := (Function.forall_update_iff s.cpu fun c' y => y.pending = some u ↔
    (s.cpu c').pending = some u).mpr ⟨hpending, fun _ _ => .rfl⟩
  idle := (Function.forall_update_iff s.cpu fun c' y => y.idle = some u →
    (s.cpu c').idle = some u).mpr ⟨hidle, fun _ _ => id⟩
  spawned _ := id
  adopting _ := .rfl

theorem setPhase {p : Phase} (hspawned : p = .spawned u → s.phase c = .spawned u)
    (hadopting : p = .adopting u ↔ s.phase c = .adopting u) : Stays s (s.setPhase c p) u where
  state := rfl
  onCpu := rfl
  owner := rfl
  current _ := .rfl
  pending _ := .rfl
  idle _ := id
  spawned := (Function.forall_update_iff s.phase fun c' q => q = .spawned u →
    s.phase c' = .spawned u).mpr ⟨hspawned, fun _ _ => id⟩
  adopting := (Function.forall_update_iff s.phase fun c' q => q = .adopting u ↔
    s.phase c' = .adopting u).mpr ⟨hadopting, fun _ _ => .rfl⟩

end Stays

/-- A thread that stays where it is, and joins a queue only if it was loose. -/
theorem CoreAt.keep (h : CoreAt s t) (k : Stays s s' t) (hcount : s.count ≤ s'.count)
    (hqueued : Queued s' t → Queued s t ∨ Loose s t) : CoreAt s' t where
  held ht := by simpa only [k.holds_iff] using h.held (k.onCpu ▸ ht)
  holds c hc := by
    obtain ⟨h1, h2, h3⟩ := h.holds c ((k.holds_iff c).mp hc)
    exact ⟨k.onCpu.trans h1, k.owner.trans h2, h3.trans_le hcount⟩
  apart c := by simpa only [k.pending, ne_eq, k.current, k.adopting] using h.apart c
  idle c hc := by
    obtain ⟨h1, h2, h3, h4⟩ := h.idle c (k.idle c hc)
    rw [k.state]
    exact ⟨k.owner.trans h1, h2.trans_le hcount, h3, fun hq =>
      (hqueued hq).elim h4 fun hl => hl.notIdle c (k.idle c hc)⟩
  fresh c hc := by
    obtain ⟨h1, h2, h3, h4, h5, h6⟩ := h.fresh c (k.spawned c hc)
    exact ⟨k.state.trans h1, k.onCpu.trans h2, k.owner.trans h3, h4.trans_le hcount,
      fun hq => (hqueued hq).elim h5 fun hl => hl.notFresh c (k.spawned c hc),
      fun c' hc' => h6 c' (k.idle c' hc')⟩
  adopted c hc := by
    obtain ⟨h1, h2⟩ := h.adopted c ((k.adopting c).mp hc)
    exact ⟨k.state.trans h1, fun c' hc' => h2 c' (k.idle c' hc')⟩

/-- **The queues stay as they are**, and so does every thread but some that are neither queued
nor dead. -/
theorem Core.keep (h : Core s) (hready : ∀ c, (s'.cpu c).ready = (s.cpu c).ready)
    (hcounter : s'.queued = s.queued) (hcount : s.count ≤ s'.count)
    (hpresent : ∀ t, s'.present t = true → t < s'.count)
    (hdead : ∀ t, Dead s' t → Dead s t ∨
      (s'.thread t).state = .finished ∧ (s'.thread t).onCpu = false ∧ t < s'.count)
    (heach : ∀ t, Stays s s' t ∨ ¬ Queued s t ∧ ¬ Dead s t ∧ (¬ Queued s' t → CoreAt s' t)) :
    Core s' := by
  have hqueued : ∀ t, Queued s' t ↔ Queued s t := fun t => by simp only [Queued, hready]
  refine .of_each (h.toQueues.keep hready hcounter hcount fun t hq => ?_) hpresent
    (fun t hd => ?_) fun t => ?_
  · rcases heach t with k | ⟨hno, -⟩
    · exact ⟨k.state, k.onCpu, k.owner⟩
    · exact absurd hq hno
  · rcases hdead t hd, heach t with ⟨hd | hd, k | ⟨-, hno, -⟩⟩
    · obtain ⟨h1, h2, h3⟩ := h.dead t hd
      exact ⟨k.state.trans h1, k.onCpu.trans h2, h3.trans_le hcount⟩
    · exact absurd hd hno
    · exact hd
    · exact hd
  · rcases heach t with k | ⟨hno, -, hat⟩
    · exact (h.each t).keep k hcount fun hq => .inl ((hqueued t).mp hq)
    · exact hat fun hq => hno ((hqueued t).mp hq)

namespace Frame

theorem refl (s : State n) : Frame s s := ⟨fun _ => rfl, fun _ => rfl, fun _ => rfl, rfl, rfl⟩

theorem trans {s s' s'' : State n} (h : Frame s s') (h' : Frame s' s'') : Frame s s'' where
  current c := (h'.current c).trans (h.current c)
  idle c := (h'.idle c).trans (h.idle c)
  pending c := (h'.pending c).trans (h.pending c)
  phase := h'.phase.trans h.phase
  standing := h'.standing.trans h.standing

theorem setThread (s : State n) (t : ThreadId) (x : Thread) : Frame s (s.setThread t x) :=
  ⟨fun _ => rfl, fun _ => rfl, fun _ => rfl, rfl, rfl⟩

end Frame

namespace Same

variable {s s' : State n} (e : Same s s')
include e

theorem queued_iff (t : ThreadId) : Queued s' t ↔ Queued s t := by
  simp [Queued, e.ready]

theorem dead_iff (t : ThreadId) : Dead s' t ↔ Dead s t := by
  simp [Dead, e.count, e.present, e.graveyard, e.reaped, e.phase]

theorem stays (t : ThreadId) : Stays s s' t :=
  ⟨e.state t, e.onCpu t, e.owner t, fun c => by rw [e.current], fun c => by rw [e.pending],
    fun c => by simp [e.idle], fun c => by simp [e.phase], fun c => by rw [e.phase]⟩

theorem core (h : Core s) : Core s' := by
  refine h.keep e.ready e.queued e.count.ge ?_ (fun t hd => .inl ((e.dead_iff t).mp hd))
    fun t => .inl (e.stays t)
  rw [e.present, e.count]
  exact h.present

theorem loose {t : ThreadId} (h : Loose s t) : Loose s' t where
  notQueued := by simpa only [e.queued_iff] using h.notQueued
  notIdle := by simpa only [e.idle] using h.notIdle
  notFresh := by simpa only [e.phase] using h.notFresh
  notAdopted := by simpa only [e.phase] using h.notAdopted
  notDead := by simpa only [e.dead_iff] using h.notDead

end Same

/-- Clocks and slices are not part of the tables. -/
theorem Same.of_eq (hthread : s'.thread = s.thread) (hcount : s'.count = s.count)
    (hpresent : s'.present = s.present) (hcpu : s'.cpu = s.cpu) (hqueued : s'.queued = s.queued)
    (hphase : s'.phase = s.phase) (hstanding : s'.standing = s.standing) : Same s s' where
  current c := by rw [hcpu]
  idle c := by rw [hcpu]
  pending c := by rw [hcpu]
  phase := hphase
  standing := hstanding
  state t := by rw [hthread]
  onCpu t := by rw [hthread]
  owner t := by rw [hthread]
  count := hcount
  present := hpresent
  ready c := by rw [hcpu]
  graveyard c := by rw [hcpu]
  reaped c := by rw [hcpu]
  queued := hqueued

/-- Replacing a thread's record by one with the same scheduling state. -/
theorem same_setThread (s : State n) (t : ThreadId) {x : Thread}
    (hstate : x.state = (s.thread t).state) (honCpu : x.onCpu = (s.thread t).onCpu)
    (howner : x.owner = (s.thread t).owner) : Same s (s.setThread t x) := by
  refine ⟨.setThread s t x, fun u => ?_, fun u => ?_, fun u => ?_, rfl, rfl, fun _ => rfl,
    fun _ => rfl, fun _ => rfl, rfl⟩ <;>
  · by_cases hu : u = t
    · subst hu; simpa
    · simp [hu]

/-- What replacing a processor's record leaves alone. -/
theorem setCpu_field {α : Type} (f : Cpu → α) {x : Cpu}
    (hf : f x = f (s.cpu c)) (c' : CpuId n) : f ((s.setCpu c x).cpu c') = f (s.cpu c') := by
  by_cases hc : c' = c
  · subst hc; simpa using hf
  · simp [hc]

/-- Replacing a processor's record by one that only counts differently. -/
theorem same_setCpu (s : State n) (c : CpuId n) {x : Cpu}
    (hx : x = { s.cpu c with priorityStreak := x.priorityStreak, boostLevel := x.boostLevel }) :
    Same s (s.setCpu c x) :=
  ⟨⟨setCpu_field Cpu.current (by rw [hx]), setCpu_field Cpu.idle (by rw [hx]),
      setCpu_field Cpu.pending (by rw [hx]), rfl, rfl⟩,
    fun _ => rfl, fun _ => rfl, fun _ => rfl, rfl, rfl, setCpu_field Cpu.ready (by rw [hx]),
    setCpu_field Cpu.graveyard (by rw [hx]), setCpu_field Cpu.reaped (by rw [hx]), rfl⟩

namespace Core

variable {s : State n} (h : Core s)
include h

variable {c : CpuId n} {t : ThreadId}

/-- **No thread is held by two processors.** -/
theorem holder_unique {c' : CpuId n} (hc : Holds s c t) (hc' : Holds s c' t) : c = c' := by
  have h1 := (h.holds c t hc).2.1
  have h2 := (h.holds c' t hc').2.1
  exact Fin.ext (h1.symm.trans h2)

theorem not_queued_of_onCpu (ht : (s.thread t).onCpu = true) : ¬ Queued s t := by
  rintro ⟨c, l, hl⟩
  simp [(h.queued c l t hl).2.1] at ht

theorem not_fresh_of_onCpu (ht : (s.thread t).onCpu = true) (c : CpuId n) :
    s.phase c ≠ .spawned t := by
  intro hc
  simp [(h.fresh c t hc).2.1] at ht

theorem not_dead_of_onCpu (ht : (s.thread t).onCpu = true) : ¬ Dead s t := by
  intro hd
  simp [(h.dead t hd).2.1] at ht

theorem not_adopted_of_holds (ht : Holds s c t)
    (hc : s.phase c ≠ .adopting t) (c' : CpuId n) : s.phase c' ≠ .adopting t := by
  intro hc'
  obtain rfl := h.holder_unique ht (.inr (.inr hc'))
  exact hc hc'

/-- An idle thread is only ever held by the processor it belongs to. -/
theorem idle_ne_of_holds (ht : Holds s c t)
    (hc : (s.cpu c).idle ≠ some t) (c' : CpuId n) : (s.cpu c').idle ≠ some t := by
  intro hc'
  have hown := (h.holds c t ht).2.1
  have hc'own := (h.idle c' t hc').1
  obtain rfl : c = c' := Fin.ext (hown.symm.trans hc'own)
  exact hc hc'

theorem loose_of_holds (ht : Holds s c t)
    (hidle : (s.cpu c).idle ≠ some t) (hphase : s.phase c ≠ .adopting t) : Loose s t where
  notQueued := h.not_queued_of_onCpu (h.holds c t ht).1
  notIdle := h.idle_ne_of_holds ht hidle
  notFresh := h.not_fresh_of_onCpu (h.holds c t ht).1
  notAdopted := h.not_adopted_of_holds ht hphase
  notDead := h.not_dead_of_onCpu (h.holds c t ht).1

theorem loose_of_blocked (ht : (s.thread t).state = .blocked) : Loose s t where
  notQueued := by
    rintro ⟨c, l, hl⟩
    simp [(h.queued c l t hl).1] at ht
  notIdle c hc := by
    rcases (h.idle c t hc).2.2.1 with hs | hs <;> simp [hs] at ht
  notFresh c hc := by simp [(h.fresh c t hc).1] at ht
  notAdopted c hc := by simp [(h.adopted c t hc).1] at ht
  notDead hd := by simp [(h.dead t hd).1] at ht

/-- Every thread on a queue is runnable: nothing in `pop_from` is ever discarded. -/
theorem runnable_of_mem {l : Fin 3} (ht : t ∈ (s.cpu c).ready l) : runnable s t = true := by
  obtain ⟨hstate, honCpu, -⟩ := h.queued c l t ht
  simp [runnable, hstate, honCpu]

/-- Changing the state of a thread that is neither queued nor idle, and its owner too
if nobody holds it. -/
theorem setThread (hl : Loose s t) {x : Thread} (honCpu : x.onCpu = (s.thread t).onCpu)
    (howner : (s.thread t).onCpu = true → x.owner = (s.thread t).owner) :
    Core (s.setThread t x) := by
  refine h.keep (fun _ => rfl) rfl le_rfl h.present (fun _ => .inl) fun u => ?_
  by_cases hu : u = t
  case neg => exact .inl (.setThread hu x)
  subst hu
  have hself : (s.setThread u x).thread u = x := by simp
  refine .inr ⟨hl.notQueued, hl.notDead, fun _ =>
    (hl.setThread u x).coreAt ?_ ?_ fun c hc => (h.apart c u hc).1⟩
  · rw [hself, honCpu]
    exact h.held u
  · intro c hc
    obtain ⟨h1, h2, h3⟩ := h.holds c u hc
    rw [hself]
    exact ⟨honCpu.trans h1, (howner h1).trans h2, h3⟩

end Core

/-! ## Queues -/

section Queues

variable (s : State n) (c : CpuId n) (level : Fin 3) (queue : List ThreadId) (k : Nat)

/-- A processor's queue and its counter change, nothing else. -/
abbrev requeue : State n := (s.setReady c level queue).setQueued c k

theorem requeue_ready (c' : CpuId n) (l : Fin 3) : ((requeue s c level queue k).cpu c').ready l =
      if c' = c ∧ l = level then queue else (s.cpu c').ready l := by
  by_cases hc : c' = c
  · subst hc
    by_cases hl : l = level
    · subst hl; simp
    · simp [hl]
  · simp [hc]

/-- The rest of every processor is as it was. -/
theorem requeue_cpu (c' : CpuId n) : (requeue s c level queue k).cpu c' =
      { s.cpu c' with ready := ((requeue s c level queue k).cpu c').ready } := by
  by_cases hc : c' = c
  · subst hc; simp
  · simp [hc]

theorem requeue_frame : Frame s (requeue s c level queue k) :=
  ⟨fun _ => by rw [requeue_cpu], fun _ => by rw [requeue_cpu], fun _ => by rw [requeue_cpu],
    rfl, rfl⟩

theorem requeue_idle (c' : CpuId n) : ((requeue s c level queue k).cpu c').idle = (s.cpu c').idle :=
  (requeue_frame s c level queue k).idle c'

theorem requeue_dead_iff (t : ThreadId) : Dead (requeue s c level queue k) t ↔ Dead s t := by
  have hcpu := requeue_cpu s c level queue k
  constructor <;>
  · rintro (hp | ⟨c', hc'⟩)
    · exact .inl hp
    · refine .inr ⟨c', ?_⟩
      rw [hcpu c'] at *
      exact hc'

variable {s c level queue k}

/-- Who is on a queue afterwards. -/
theorem queued_of_requeue {t : ThreadId} (h : Queued (requeue s c level queue k) t) :
    t ∈ queue ∨ Queued s t := by
  obtain ⟨c', l, hl⟩ := h
  rw [requeue_ready] at hl
  split at hl
  · exact .inl hl
  · exact .inr ⟨c', l, hl⟩

end Queues

/-- A queue may lose threads, and gain loose ones that are ready to run here. -/
theorem Queues.requeue (h : Queues s) {level : Fin 3} {queue : List ThreadId} {k : Nat}
    (hmem : ∀ t ∈ queue, t ∈ (s.cpu c).ready level ∨ ¬ Queued s t ∧ MayRun s c t)
    (hnodup : queue.Nodup)
    (hk : k + ((s.cpu c).ready level).length = s.queued c + queue.length) :
    Queues (requeue s c level queue k) where
  queued c' l t ht := by
    rw [requeue_ready] at ht
    split at ht
    · rename_i hcl
      obtain ⟨rfl, rfl⟩ := hcl
      rcases hmem t ht with hm | ⟨-, hm⟩
      · exact h.queued c' l t hm
      · exact hm
    · exact h.queued c' l t ht
  nodup c' l := by
    rw [requeue_ready]
    split
    · exact hnodup
    · exact h.nodup c' l
  levels c' l l' t := by
    -- a thread that joins the queue was loose, so it is on no other level
    have aux : ∀ l t, l ≠ level → t ∈ queue → t ∉ (s.cpu c).ready l := by
      intro l t hl hq ht
      rcases hmem t hq with hm | hm
      · exact hl (h.levels c l level t ht hm)
      · exact hm.1 ⟨c, l, ht⟩
    rw [requeue_ready, requeue_ready]
    by_cases hc : c' = c
    · subst hc
      by_cases hl : l = level <;> by_cases hl' : l' = level <;>
        simp only [hl, hl', and_self, if_true, and_false, if_false]
      · exact fun _ _ => trivial
      · exact fun hq ht => absurd ht (aux l' t hl' hq)
      · exact fun ht hq => absurd ht (aux l t hl hq)
      · exact h.levels c' l l' t
    · simp only [hc, false_and, if_false]
      exact h.levels c' l l' t
  counted c' := by
    rw [requeue_ready, requeue_ready, requeue_ready]
    by_cases hc : c' = c
    · subst hc
      have hcount := h.counted c'
      have hq : (Sched.requeue s c' level queue k).queued c' = k := by simp
      rw [hq]
      rcases level with ⟨_ | _ | _ | i, _⟩
      · simp at hk ⊢; omega
      · simp at hk ⊢; omega
      · simp at hk ⊢; omega
      · omega
    · have hq : (Sched.requeue s c level queue k).queued c' = s.queued c' := by
        simp [hc]
      simp only [hq, hc, false_and, if_false]
      exact h.counted c'

namespace Core

variable {s : State n} (h : Core s)
include h

variable {c : CpuId n} {level : Fin 3}

theorem requeue {queue : List ThreadId} {k : Nat}
    (hmem : ∀ t ∈ queue, t ∈ (s.cpu c).ready level ∨ Loose s t ∧ MayRun s c t)
    (hnodup : queue.Nodup)
    (hk : k + ((s.cpu c).ready level).length = s.queued c + queue.length) :
    Core (requeue s c level queue k) := by
  have hqueued : ∀ t, Queued (Sched.requeue s c level queue k) t → Queued s t ∨ Loose s t := by
    intro t ht
    rcases queued_of_requeue ht with hq | hq
    · rcases hmem t hq with hm | hm
      · exact .inl ⟨c, level, hm⟩
      · exact .inr hm.1
    · exact .inl hq
  have hframe := requeue_frame s c level queue k
  refine .of_each (h.toQueues.requeue (fun t ht => (hmem t ht).imp_right fun hm =>
    ⟨hm.1.notQueued, hm.2⟩) hnodup hk) h.present
    (fun t hd => h.dead t ((requeue_dead_iff ..).mp hd))
    fun t => (h.each t).keep ?_ le_rfl (hqueued t)
  exact ⟨rfl, rfl, rfl, fun c => by rw [hframe.current], fun c => by rw [hframe.pending],
    fun c hc => (hframe.idle c).symm.trans hc, fun _ => id, fun _ => .rfl⟩

variable {t : ThreadId}

/-- `enqueue` of a thread that waits nowhere else and is ready to run here. -/
theorem enqueue (hl : Loose s t)
    (hstate : (s.thread t).state = .ready) (honCpu : (s.thread t).onCpu = false)
    (howner : (s.thread t).owner = c) (hcount : t < s.count) : Core (enqueue s c t) := by
  refine h.requeue (fun u hu => ?_) ?_ ?_
  · rcases mem_append.mp hu with hu | hu
    · exact .inl hu
    · obtain rfl := mem_singleton.mp hu
      exact .inr ⟨hl, hstate, honCpu, howner, hcount⟩
  · refine nodup_append.mpr ⟨h.nodup c _, nodup_singleton t, fun u hu v hv => ?_⟩
    obtain rfl := mem_singleton.mp hv
    rintro rfl
    exact hl.notQueued ⟨c, _, hu⟩
  · simp
    omega

/-- The front of a queue leaves it. -/
theorem dequeue {rest : List ThreadId} (ht : (s.cpu c).ready level = t :: rest) :
    Core (Sched.requeue s c level rest (s.queued c - 1)) ∧
      Loose (Sched.requeue s c level rest (s.queued c - 1)) t := by
  have hmem : t ∈ (s.cpu c).ready level := by rw [ht]; exact mem_cons_self
  have hnodup : (t :: rest).Nodup := by rw [← ht]; exact h.nodup c level
  obtain ⟨hstate, honCpu, howner, _⟩ := h.queued c level t hmem
  have hlen : 0 < s.queued c := by
    have hcounted := h.counted c
    have hpos : 0 < ((s.cpu c).ready level).length := by simp [ht]
    rcases level with ⟨_ | _ | _ | i, _⟩
    · simp at hpos; omega
    · simp at hpos; omega
    · simp at hpos; omega
    · omega
  refine ⟨h.requeue (fun u hu => .inl (by rw [ht]; exact mem_cons_of_mem _ hu))
    hnodup.of_cons (by rw [ht]; simp; omega), ?_⟩
  constructor
  · rintro ⟨c', l, hl⟩
    rw [requeue_ready] at hl
    split at hl
    · exact (nodup_cons.mp hnodup).1 hl
    · rename_i hne
      obtain rfl : c' = c := Fin.ext ((h.queued c' l t hl).2.2.1.symm.trans howner)
      exact hne ⟨rfl, h.levels c' l level t hl hmem⟩
  · intro c' hc'
    rw [requeue_idle] at hc'
    exact (h.idle c' t hc').2.2.2 ⟨c, level, hmem⟩
  · intro c' hc'
    exact (h.fresh c' t hc').2.2.2.2.1 ⟨c, level, hmem⟩
  · intro c' hc'
    have hon := (h.holds c' t (.inr (.inr hc'))).1
    rw [honCpu] at hon
    cases hon
  · intro hd
    have hfin := (h.dead t ((requeue_dead_iff ..).mp hd)).1
    rw [hstate] at hfin
    cases hfin

end Core

end Panda.Sched
