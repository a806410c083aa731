import PandaProof.SchedulerInvariant

/-!
# Every function keeps the tables consistent

Each function of the scheduler is shown to keep `Core`, and where it does not switch
also which thread and stack every processor is on (`Frame`).  Nothing here assumes how
the functions are interleaved.
-/
namespace Panda.Sched

open List Option State

variable {n : Nat}

/-! ## Popping and stealing -/

theorem requeue_self (s : State n) (c : CpuId n) (level : Fin 3) :
    requeue s c level ((s.cpu c).ready level) (s.queued c) = s := by
  simp [requeue]

variable {s : State n}

theorem popQueue_eq {queue : List ThreadId}
    (h : ∀ t ∈ queue, runnable s t = true) : popQueue s queue = (queue.head?, queue.tail) := by
  cases queue with
  | nil => rfl
  | cons t => simp [popQueue, h t mem_cons_self]

theorem enqueue_frame (s : State n) (c : CpuId n) (t : ThreadId) : Frame s (enqueue s c t) :=
  requeue_frame ..

namespace Core

variable {s : State n} (h : Core s)
include h

/-- `pop_from` finds its levels empty, or takes the front of one of them and leaves
everything else in place. -/
theorem popFrom (c : CpuId n) (order : List (Fin 3)) :
    popFrom s c order = (none, s) ∧ (∀ l ∈ order, (s.cpu c).ready l = []) ∨
      ∃ l ∈ order, ∃ t rest, (s.cpu c).ready l = t :: rest ∧
        popFrom s c order = (some t, Sched.requeue s c l rest (s.queued c - 1)) := by
  induction order with
  | nil => exact .inl ⟨rfl, by simp⟩
  | cons level order ih =>
    have hpop := popQueue_eq (s := s) fun t ht => h.runnable_of_mem (c := c) (l := level) ht
    cases hq : (s.cpu c).ready level with
    | nil =>
      have hself := requeue_self s c level
      rw [hq] at hself hpop
      have hskip : Sched.popFrom s c (level :: order) = Sched.popFrom s c order := by
        simp only [Sched.popFrom, hq, hpop, head?_nil, tail_nil, length_nil, Nat.sub_zero]
        exact congrArg (fun s' => Sched.popFrom s' c order) hself
      rcases ih with ⟨hnone, hempty⟩ | ⟨l, hl, t, rest, hmem, hsome⟩
      · refine .inl ⟨hskip.trans hnone, fun l hl => ?_⟩
        rcases mem_cons.mp hl with rfl | hl
        · exact hq
        · exact hempty l hl
      · exact .inr ⟨l, mem_cons_of_mem _ hl, t, rest, hmem, hskip.trans hsome⟩
    | cons t rest =>
      rw [hq] at hpop
      refine .inr ⟨level, mem_cons_self, t, rest, hq, ?_⟩
      simp [Sched.popFrom, hq, hpop]

/-- `pop_runnable`: no candidate and nothing changed, or the front of a queue. -/
theorem popRunnable (c : CpuId n) :
    popRunnable s c = (none, s) ∨ ∃ l t rest s', (s.cpu c).ready l = t :: rest ∧
      popRunnable s c = (some t, s') ∧ s'.thread = s.thread ∧
        Same (Sched.requeue s c l rest (s.queued c - 1)) s' := by
  unfold Sched.popRunnable
  rcases h.popFrom c (if !decide (starvationGuard ≤ (s.cpu c).priorityStreak) then [2, 1, 0]
      else if (s.cpu c).boostLevel = 0 then [0, 1, 2] else [1, 0, 2]) with
    ⟨hnone, -⟩ | ⟨l, -, t, rest, hmem, hsome⟩
  · left
    simp only [hnone]
  right
  refine ⟨l, t, rest, _, hmem, by simp only [hsome]; rfl, ?_, same_setCpu _ _ ?_⟩
  · rfl
  · split <;> rfl

end Core

namespace Core

variable {s : State n} (h : Core s)
include h

/-- A loose thread that is ready to run moves to `c` and joins its queue. -/
theorem migrate {t : ThreadId} (hl : Loose s t) (hstate : (s.thread t).state = .ready)
    (honCpu : (s.thread t).onCpu = false) (hcount : t < s.count) (c : CpuId n) :
    Core (Sched.enqueue (s.setThread t { s.thread t with owner := c }) c t) := by
  have hmoved : Core (s.setThread t { s.thread t with owner := c }) :=
    h.setThread hl rfl (by simp [honCpu])
  refine hmoved.enqueue (hl.setThread _ _) ?_ ?_ ?_ hcount <;>
    simp [hstate, honCpu]

/-- `steal` moves one runnable thread, or nothing. -/
theorem stealFrom (c v : CpuId n) : Core (stealFrom s c v) ∧ Frame s (stealFrom s c v) := by
  unfold Sched.stealFrom
  split
  · exact ⟨h, .refl s⟩
  rcases h.popFrom v [2, 1, 0] with ⟨hnone, -⟩ | ⟨l, -, t, _, hmem, hsome⟩
  · simp only [hnone]
    exact ⟨h, .refl s⟩
  simp only [hsome]
  obtain ⟨hstate, honCpu, -, hcount⟩ := h.queued v l t (by rw [hmem]; exact mem_cons_self)
  obtain ⟨hcore, hloose⟩ := h.dequeue hmem
  exact ⟨hcore.migrate hloose hstate honCpu hcount c,
    ((requeue_frame ..).trans (.setThread ..)).trans (enqueue_frame ..)⟩

/-- `unblock` keeps the tables consistent from any processor, at any moment. -/
theorem unblock (w : CpuId n) (t : ThreadId) : Core (unblock s w t) ∧ Frame s (unblock s w t) := by
  unfold Sched.unblock
  split
  case isFalse => exact ⟨h, .refl s⟩
  rename_i hpresent
  have hcount := h.present t hpresent
  dsimp only
  split
  · exact ⟨h, .refl s⟩
  · rename_i hblocked
    have hl := h.loose_of_blocked hblocked
    have hready : Core (s.setThread t { s.thread t with state := .ready }) :=
      h.setThread hl rfl fun _ => rfl
    split
    · exact ⟨hready, .setThread ..⟩
    · rename_i honCpu
      refine ⟨hready.migrate (hl.setThread _ _) (by simp) (by simpa using honCpu) hcount w, ?_⟩
      exact ((Frame.setThread ..).trans (.setThread ..)).trans (enqueue_frame ..)
  · refine ⟨(same_setThread s t ?_ ?_ ?_).core h, .setThread ..⟩ <;> rfl

end Core

/-! ## The switch path -/

/-- The processor lets go of the thread it switched away from. -/
abbrev released (s : State n) (c : CpuId n) (t : ThreadId) : State n :=
  (s.setCpu c { s.cpu c with pending := none }).setThread t { s.thread t with onCpu := false }

section Released

variable (s : State n) (c : CpuId n) (t : ThreadId)

theorem released_thread_self : (released s c t).thread t = { s.thread t with onCpu := false } := by
  simp

theorem released_thread (u : ThreadId) : (released s c t).thread u =
      { s.thread u with onCpu := if u = t then false else (s.thread u).onCpu } := by
  by_cases hu : u = t
  · subst hu; simp
  · simp [hu]

theorem released_cpu (c' : CpuId n) : (released s c t).cpu c' =
      { s.cpu c' with pending := if c' = c then none else (s.cpu c').pending } := by
  by_cases hc : c' = c
  · subst hc; simp
  · simp [hc]

theorem released_queued_iff (u : ThreadId) : Queued (released s c t) u ↔ Queued s u := by
  simp only [Queued, released_cpu]

theorem released_dead_iff (u : ThreadId) : Dead (released s c t) u ↔ Dead s u := by
  simp only [Dead, released_cpu]
  rfl

end Released

namespace Core

variable {s : State n} (h : Core s)
include h

variable {c : CpuId n} {t : ThreadId}

/-- The switch away from `t` is complete: it is nobody's any more. -/
theorem release (hp : (s.cpu c).pending = some t) : Core (released s c t) := by
  have hholds : Holds s c t := .inr (.inl hp)
  have honCpu := (h.holds c t hholds).1
  have hadopting := h.not_adopted_of_holds hholds (h.apart c t hp).2
  refine h.keep (fun c' => by rw [released_cpu]) rfl le_rfl h.present
    (fun u hd => .inl ((released_dead_iff ..).mp hd)) fun u => ?_
  by_cases hu : u = t
  case neg =>
    refine .inl (.trans (.setCpu ?_ ?_ ?_) (.setThread hu _)) <;> simp [hp, Ne.symm hu]
  subst hu
  have hnone : ∀ c', ((released s c u).cpu c').pending ≠ some u := by
    intro c' hc'
    rw [released_cpu] at hc'
    dsimp only at hc'
    split at hc'
    · cases hc'
    · exact ‹¬ c' = c› (h.holder_unique (.inr (.inl hc')) hholds)
  refine .inr ⟨h.not_queued_of_onCpu honCpu, h.not_dead_of_onCpu honCpu, fun hq => ⟨by simp, ?_,
    fun c' hc' => absurd hc' (hnone c'), fun c' hc' => ?_,
    fun c' hc' => absurd hc' (h.not_fresh_of_onCpu honCpu c'),
    fun c' hc' => absurd hc' (hadopting c')⟩⟩
  · rintro c' (hc' | hc' | hc')
    · rw [released_cpu] at hc'
      obtain rfl := h.holder_unique (.inl hc') hholds
      exact absurd hc' (h.apart c' u hp).1
    · exact absurd hc' (hnone c')
    · exact absurd hc' (hadopting c')
  · rw [released_cpu] at hc'
    obtain ⟨h1, h2, h3, -⟩ := h.idle c' u hc'
    rw [released_thread]
    exact ⟨h1, h2, h3, hq⟩

theorem loose_released (hp : (s.cpu c).pending = some t)
    (hidle : (s.cpu c).idle ≠ some t) : Loose (released s c t) t := by
  have hl := h.loose_of_holds (.inr (.inl hp)) hidle (h.apart c t hp).2
  exact ⟨by rw [released_queued_iff]; exact hl.notQueued,
    fun c' => by rw [released_cpu]; exact hl.notIdle c', hl.notFresh, hl.notAdopted,
    by rw [released_dead_iff]; exact hl.notDead⟩

/-- Finished threads that no processor holds may go to the graveyard. -/
theorem setGraves {x : Cpu} (hx : x = { s.cpu c with graveyard := x.graveyard, reaped := x.reaped })
    (hgrave : ∀ u, u ∈ x.graveyard ∨ u ∈ x.reaped →
      (s.thread u).state = .finished ∧ (s.thread u).onCpu = false ∧ u < s.count) :
    Core (s.setCpu c x) := by
  refine h.keep (setCpu_field Cpu.ready (by rw [hx])) rfl le_rfl h.present ?_
    fun u => .inl (.setCpu (by rw [hx]) (by rw [hx]) (by rw [hx]; exact id))
  rintro u (hu | ⟨c', hc'⟩)
  · exact .inl (.inl hu)
  by_cases hc : c' = c
  · subst hc
    have hself : (s.setCpu c' x).cpu c' = x := by simp
    rw [hself] at hc'
    rcases hc' with hu | hu | hu
    · exact .inr (hgrave u (.inl hu))
    · exact .inr (hgrave u (.inr hu))
    · exact .inl (.inr ⟨c', .inr (.inr hu)⟩)
  · exact .inl (.inr ⟨c', by simpa [hc] using hc'⟩)

/-- **`flush_pending`** queues, buries or just lets go of what was switched away from. -/
theorem flushPending (c : CpuId n) : Core (flushPending s c) := by
  unfold Sched.flushPending
  split
  · exact h
  rename_i t hp
  obtain ⟨_, howner, hcount⟩ := h.holds c t (.inr (.inl hp))
  have hcore := h.release hp
  have hself := released_thread_self s c t
  dsimp only
  split
  · rename_i hready
    split
    · exact hcore
    rename_i hidle
    have hidle' : ((released s c t).cpu c).idle ≠ some t := hidle
    rw [released_cpu] at hidle'
    exact hcore.enqueue (h.loose_released hp hidle') hready (by rw [hself])
      (by rw [hself]; exact howner) hcount
  · rename_i hstate
    have hfinished : ((released s c t).thread t).state = .finished := hstate
    split
    · -- its stack is taken out of the record first
      have hcore' : Core ((released s c t).setThread t
          { (released s c t).thread t with stack := false }) := by
        refine (same_setThread _ t ?_ ?_ ?_).core hcore <;> rfl
      have hgone : (((released s c t).setThread t
          { (released s c t).thread t with stack := false }).thread t).state = .finished := by
        simpa using hfinished
      refine hcore'.setGraves rfl fun u hu => ?_
      rcases hu with hu | hu <;> rcases mem_append.mp hu with hu | hu
      · exact hcore'.dead u (.inr ⟨c, .inl hu⟩)
      · obtain rfl := mem_singleton.mp hu
        exact ⟨hgone, by simp, hcount⟩
      · exact hcore'.dead u (.inr ⟨c, .inr (.inl hu)⟩)
      · obtain rfl := mem_singleton.mp hu
        exact ⟨hgone, by simp, hcount⟩
    · refine hcore.setGraves rfl fun u hu => ?_
      rcases hu with hu | hu
      · exact hcore.dead u (.inr ⟨c, .inl hu⟩)
      rcases mem_append.mp hu with hu | hu
      · exact hcore.dead u (.inr ⟨c, .inr (.inl hu)⟩)
      · obtain rfl := mem_singleton.mp hu
        exact ⟨hfinished, by rw [hself], hcount⟩
  · exact hcore

end Core

section Committed

variable (s : State n) (c : CpuId n) {o t : ThreadId} (hne : t ≠ o)

/-- The outgoing thread after a switch was decided: only a running one becomes ready. -/
theorem commit_thread_outgoing (hne : t ≠ o) : (commitSwitch s c o t).thread o = { s.thread o with
        state := if (s.thread o).state = .running then .ready else (s.thread o).state } := by
  simp only [commitSwitch, renewSlice, setCpu, setThread, Function.update_of_ne hne.symm,
    Function.update_self]
  split <;> simp_all

theorem commit_thread_next (hne : t ≠ o) :
    (commitSwitch s c o t).thread t = { s.thread t with state := .running, onCpu := true } := by
  simp [commitSwitch, hne]

theorem commit_thread_of_ne {u : ThreadId} (ho : u ≠ o) (ht : u ≠ t) :
    (commitSwitch s c o t).thread u = s.thread u := by
  simp [commitSwitch, ho, ht]

theorem commit_cpu_self :
    (commitSwitch s c o t).cpu c = { s.cpu c with pending := some o, current := some t } := by
  simp [commitSwitch]

theorem commit_cpu_of_ne {c' : CpuId n} (hc : c' ≠ c) :
    (commitSwitch s c o t).cpu c' = s.cpu c' := by
  simp [commitSwitch, hc]

/-- Only the committing processor's `pending` and `current` change. -/
theorem commit_cpu (c' : CpuId n) : (commitSwitch s c o t).cpu c' = { s.cpu c' with
      pending := ((commitSwitch s c o t).cpu c').pending
      current := ((commitSwitch s c o t).cpu c').current } := by
  by_cases hc : c' = c
  · subst hc; rw [commit_cpu_self]
  · rw [commit_cpu_of_ne s c hc]

theorem commit_dead_iff (u : ThreadId) : Dead (commitSwitch s c o t) u ↔ Dead s u := by
  have hgrave : ∀ c', ((commitSwitch s c o t).cpu c').graveyard = (s.cpu c').graveyard := by
    intro c'
    rw [commit_cpu]
  have hreaped : ∀ c', ((commitSwitch s c o t).cpu c').reaped = (s.cpu c').reaped := by
    intro c'
    rw [commit_cpu]
  simp only [Dead, hgrave, hreaped]
  rfl

end Committed

namespace Core

variable {s : State n} (h : Core s)
include h

variable {c : CpuId n}

/-- **Committing to the next thread.**  It was nobody's, and owned by this processor;
the processor holds both it and the outgoing one until the switch is flushed. -/
theorem commitSwitch {o t : ThreadId} (ho : (s.cpu c).current = some o)
    (hp : (s.cpu c).pending = none) (hphase : ∀ u, s.phase c ≠ .adopting u) (hne : t ≠ o)
    (honCpu : (s.thread t).onCpu = false) (howner : (s.thread t).owner = c)
    (hcount : t < s.count) (hqueued : ¬ Queued s t) (hfresh : ∀ c', s.phase c' ≠ .spawned t)
    (hdead : ¬ Dead s t) : Core (commitSwitch s c o t) := by
  have hholdo : Holds s c o := .inl ho
  obtain ⟨hoOn, hoOwner, hoCount⟩ := h.holds c o hholdo
  have hidle : ∀ c', ((Sched.commitSwitch s c o t).cpu c').idle = (s.cpu c').idle := by
    intro c'
    rw [commit_cpu]
  have hnot : ∀ c', ¬ Holds s c' t := fun c' hc' => by simp [(h.holds c' t hc').1] at honCpu
  -- who holds the two threads afterwards
  have hholds : ∀ c' u, u = t ∨ u = o → Holds (Sched.commitSwitch s c o t) c' u → c' = c := by
    intro c' u hu hc'
    by_contra hc
    rw [Holds, commit_cpu_of_ne s c hc] at hc'
    rcases hu with rfl | rfl
    · exact hnot c' hc'
    · exact hc (h.holder_unique hc' hholdo)
  refine h.keep (fun c' => by rw [commit_cpu]) rfl le_rfl h.present
    (fun u hd => .inl ((commit_dead_iff ..).mp hd)) fun u => ?_
  by_cases hut : u = t
  · subst hut
    have hself := commit_thread_next s c hne
    refine .inr ⟨hqueued, hdead, fun hq => ⟨fun _ => ⟨c, .inl (by rw [commit_cpu_self])⟩,
      fun c' hc' => ?_, fun c' hc' => ?_, fun c' hc' => ?_, fun c' hc' => absurd hc' (hfresh c'),
      fun c' hc' => absurd (.inr (.inr hc')) (hnot c')⟩⟩
    · rw [hself, hholds c' u (.inl rfl) hc']
      exact ⟨rfl, howner, hcount⟩
    · obtain rfl := hholds c' u (.inl rfl) (.inr (.inl hc'))
      rw [commit_cpu_self] at hc'
      exact absurd (some.inj hc').symm hne
    · rw [hidle] at hc'
      rw [hself]
      exact ⟨(h.idle c' u hc').1, hcount, .inl rfl, hq⟩
  by_cases huo : u = o
  · subst huo
    have hself := commit_thread_outgoing s c hne
    refine .inr ⟨h.not_queued_of_onCpu hoOn, h.not_dead_of_onCpu hoOn, fun hq => ⟨
      fun _ => ⟨c, .inr (.inl (by rw [commit_cpu_self]))⟩, fun c' hc' => ?_, fun c' hc' => ?_,
      fun c' hc' => ?_, fun c' hc' => absurd hc' (h.not_fresh_of_onCpu hoOn c'),
      fun c' hc' => absurd hc' (h.not_adopted_of_holds hholdo (hphase u) c')⟩⟩
    · rw [hself, hholds c' u (.inr rfl) hc']
      exact ⟨hoOn, hoOwner, hoCount⟩
    · obtain rfl := hholds c' u (.inr rfl) (.inr (.inl hc'))
      rw [commit_cpu_self]
      exact ⟨fun he => hne (some.inj he), hphase u⟩
    · rw [hidle] at hc'
      obtain ⟨h1, h2, h3, -⟩ := h.idle c' u hc'
      rw [hself]
      exact ⟨h1, h2, by rcases h3 with h3 | h3 <;> simp [h3], hq⟩
  · have hsame := commit_thread_of_ne s c huo hut
    refine .inl ⟨by rw [hsame], by rw [hsame], by rw [hsame], fun c' => ?_, fun c' => ?_,
      fun c' hc' => (hidle c').symm.trans hc', fun _ => id, fun _ => .rfl⟩
    · by_cases hc : c' = c
      · subst hc
        rw [commit_cpu_self, ho]
        simp [Ne.symm hut, Ne.symm huo]
      · rw [commit_cpu_of_ne s c hc]
    · by_cases hc : c' = c
      · subst hc
        rw [commit_cpu_self, hp]
        simp [Ne.symm huo]
      · rw [commit_cpu_of_ne s c hc]

/-- **`prepare_switch`**: the processor stays where it is, or commits to another thread
and remembers the one it is leaving. -/
theorem prepareSwitch (hp : (s.cpu c).pending = none) (hphase : ∀ u, s.phase c ≠ .adopting u) :
    Core (prepareSwitch s c).2 ∧ ((prepareSwitch s c).1 = false ∧ Frame s (prepareSwitch s c).2 ∧
          (prepareSwitch s c).2.thread = s.thread ∧
          (∀ o idle, (s.cpu c).current = some o → (s.cpu c).idle = some idle → o ≠ idle →
            (s.thread o).state = .running) ∨
        (prepareSwitch s c).1 = true ∧ ∃ s' o t, Frame s s' ∧ s'.thread = s.thread ∧
          (s.cpu c).current = some o ∧ (s.cpu c).idle ≠ none ∧
          t ≠ o ∧ (((s.thread t).state = .running ∨ (s.thread t).state = .ready) ∧
            (s.thread t).onCpu = false) ∧ (prepareSwitch s c).2 = Sched.commitSwitch s' c o t) := by
  unfold Sched.prepareSwitch
  split
  case h_2 =>
    rename_i hnone
    exact ⟨h, .inl ⟨rfl, .refl s, rfl, fun o idle ho hi _ => absurd hi (hnone o idle ho)⟩⟩
  rename_i o idle ho hidle
  have hslice : ∀ s' : State n, Same s' (renewSlice s' c) := fun s' =>
    .of_eq rfl rfl rfl rfl rfl rfl rfl
  rcases h.popRunnable c with hnone | ⟨l, t, _, s', hmem, hsome, hthread, hsame⟩
  · simp only [hnone]
    split
    · rename_i hrunning
      refine ⟨(hslice s).core h, .inl ⟨rfl, (hslice s).toFrame, rfl, fun o' _ ho' _ _ => ?_⟩⟩
      cases ho.symm.trans ho'
      exact hrunning.2
    split
    · rename_i heq
      refine ⟨(hslice s).core h, .inl ⟨rfl, (hslice s).toFrame, rfl, fun o' i ho' hi hne => ?_⟩⟩
      cases ho.symm.trans ho'
      cases hidle.symm.trans hi
      exact absurd heq.symm hne
    rename_i hne
    obtain ⟨howner, hcount, hstate, hqueued⟩ := h.idle c idle hidle
    -- the idle thread could only be held here, and this processor holds another
    have honCpu : (s.thread idle).onCpu = false := by
      rw [Bool.eq_false_iff]
      intro hon
      obtain ⟨c', hc'⟩ := h.held idle hon
      obtain rfl : c' = c := Fin.ext ((h.holds c' idle hc').2.1.symm.trans howner)
      rcases hc' with hc' | hc' | hc'
      · exact hne (some.inj (hc'.symm.trans ho))
      · simp [hp] at hc'
      · exact hphase idle hc'
    have hfresh : ∀ c', s.phase c' ≠ .spawned idle := fun c' hc' =>
      (h.fresh c' idle hc').2.2.2.2.2 c hidle
    have hdead : ¬ Dead s idle := by
      intro hd
      rcases hstate with hs | hs <;> simp [(h.dead idle hd).1] at hs
    exact ⟨h.commitSwitch ho hp hphase hne honCpu howner hcount hqueued hfresh hdead,
      .inr ⟨rfl, s, o, idle, .refl s, rfl, ho, by simp [hidle], hne, ⟨hstate, honCpu⟩, rfl⟩⟩
  · simp only [hsome]
    obtain ⟨hcore, hloose⟩ := h.dequeue hmem
    have hcore' := hsame.core hcore
    have hloose' := hsame.loose hloose
    have hframe : Frame s s' := (requeue_frame ..).trans hsame.toFrame
    obtain ⟨hready, honCpu, howner, hcount⟩ := h.queued c l t (by rw [hmem]; exact mem_cons_self)
    split
    · -- the current thread is on this processor, so it was on no queue
      rename_i heq
      exact absurd ((h.holds c o (.inl ho)).1.symm.trans (heq ▸ honCpu)) (by simp)
    rename_i hne
    refine ⟨hcore'.commitSwitch ((hframe.current c).trans ho) ((hframe.pending c).trans hp)
      (by rw [hframe.phase]; exact hphase) hne ((hsame.onCpu t).trans honCpu)
      ((hsame.owner t).trans howner) (by rw [hsame.count]; exact hcount) hloose'.notQueued
      hloose'.notFresh hloose'.notDead, ?_⟩
    exact .inr ⟨rfl, s', o, t, hframe, hthread, ho, by simp [hidle], hne,
      ⟨.inr hready, honCpu⟩, rfl⟩

variable {p : Phase}

/-- A processor goes on to a phase in which it holds no further thread. -/
theorem setPhase (hold : ∀ t, s.phase c ≠ .adopting t)
    (hspawned : ∀ t, p ≠ .spawned t) (hadopting : ∀ t, p ≠ .adopting t)
    (hgraves : ∀ t ∈ p.graves, Dead s t) : Core (s.setPhase c p) := by
  refine h.keep (fun _ => rfl) rfl le_rfl h.present ?_ fun t => .inl (.setPhase ?_ ?_)
  · rintro t (ht | ⟨c', ht | ht | ht⟩)
    · exact .inl (.inl ht)
    · exact .inl (.inr ⟨c', .inl ht⟩)
    · exact .inl (.inr ⟨c', .inr (.inl ht)⟩)
    by_cases hc : c' = c
    · subst hc
      exact .inl (hgraves t (by simpa using ht))
    · exact .inl (.inr ⟨c', .inr (.inr (by simpa [hc] using ht))⟩)
  · exact fun ht => absurd ht (hspawned t)
  · simp [hold, hadopting]

/-- A new thread enters the table, as `spawn` or `adopt_secondary_cpu` makes it. -/
theorem insert (hrun : s.phase c = .run) {x : Thread} (howner : x.owner = c)
    (hp : p = .spawned s.count ∧ x.state = .ready ∧ x.onCpu = false ∨
      p = .adopting s.count ∧ x.state = .running ∧ x.onCpu = true) :
    Core (State.setPhase { s.setThread s.count x with
      count := s.count + 1
      present := Function.update s.present s.count true } c p) := by
  set s' := State.setPhase { s.setThread s.count x with
    count := s.count + 1
    present := Function.update s.present s.count true } c p with hs'
  have hself : s'.phase c = p := by simp [hs']
  have hother : ∀ c', c' ≠ c → s'.phase c' = s.phase c' := by
    intro c' hc
    simp [hs', hc]
  have hgraves : p.graves = [] := by rcases hp with ⟨rfl, -⟩ | ⟨rfl, -⟩ <;> rfl
  -- nobody knows the new thread
  have hnot : ∀ c', ¬ Holds s c' s.count := fun c' hc' => lt_irrefl _ (h.holds c' _ hc').2.2
  have hidle : ∀ c', (s.cpu c').idle ≠ some s.count := fun c' hc' =>
    lt_irrefl _ (h.idle c' _ hc').2.1
  have hqueued : ¬ Queued s s.count := fun ⟨c', l, hl⟩ => lt_irrefl _ (h.queued c' l _ hl).2.2.2
  refine h.keep (fun _ => rfl) rfl (Nat.le_succ _) (fun u hu => ?_) (fun u hu => .inl ?_)
    fun u => ?_
  · by_cases hne : u = s.count
    · exact hne ▸ Nat.lt_succ_self _
    · exact Nat.lt_succ_of_lt (h.present u (by simpa [hs', hne] using hu))
  · rcases hu with ⟨hu, hpresent⟩ | ⟨c', hu | hu | hu⟩
    · have hne : u ≠ s.count := by
        rintro rfl
        simp [hs'] at hpresent
      have hu' : u < s.count + 1 := hu
      exact .inl ⟨Nat.lt_of_le_of_ne (Nat.le_of_lt_succ hu') hne,
        by simpa [hs', hne] using hpresent⟩
    · exact .inr ⟨c', .inl hu⟩
    · exact .inr ⟨c', .inr (.inl hu)⟩
    by_cases hc : c' = c
    · subst hc
      rw [hself, hgraves] at hu
      cases hu
    · rw [hother c' hc] at hu
      exact .inr ⟨c', .inr (.inr hu)⟩
  by_cases hu : u = s.count
  case neg =>
    have hstays : Stays s ((s.setThread s.count x).setPhase c p) u := by
      refine .trans (.setThread hu x) (.setPhase ?_ ?_) <;> rcases hp with ⟨rfl, -⟩ | ⟨rfl, -⟩ <;>
        simp [hrun, Ne.symm hu]
    exact .inl { hstays with }
  subst hu
  have hnew : s'.thread s.count = x := by simp [hs']
  -- only the phase of `c` names it
  have hphase : ∀ c', s'.phase c' = .spawned s.count ∨ s'.phase c' = .adopting s.count →
      c' = c := by
    intro c' hc'
    by_contra hc
    rw [hother c' hc] at hc'
    rcases hc' with hc' | hc'
    · exact lt_irrefl _ (h.fresh c' _ hc').2.2.2.1
    · exact hnot c' (.inr (.inr hc'))
  refine .inr ⟨hqueued, fun hd => lt_irrefl _ (h.dead _ hd).2.2, fun hq => ⟨fun hon => ?_, ?_,
    fun c' hc' => absurd (.inr (.inl hc')) (hnot c'), fun c' hc' => absurd hc' (hidle c'),
    fun c' hc' => ?_, fun c' hc' => ?_⟩⟩
  · rw [hnew] at hon
    rcases hp with ⟨-, -, hoff⟩ | ⟨rfl, -⟩
    · simp [hoff] at hon
    · exact ⟨c, .inr (.inr hself)⟩
  · rintro c' (hc' | hc' | hc')
    · exact absurd (.inl hc') (hnot c')
    · exact absurd (.inr (.inl hc')) (hnot c')
    obtain rfl := hphase c' (.inr hc')
    rcases hp with ⟨rfl, -⟩ | ⟨-, -, hon⟩
    · cases hself.symm.trans hc'
    · rw [hnew]
      exact ⟨hon, howner, Nat.lt_succ_self _⟩
  · obtain rfl := hphase c' (.inl hc')
    rcases hp with ⟨-, hready, hoff⟩ | ⟨rfl, -⟩
    · rw [hnew]
      exact ⟨hready, hoff, howner, Nat.lt_succ_self _, hq, hidle⟩
    · cases hself.symm.trans hc'
  · obtain rfl := hphase c' (.inr hc')
    rcases hp with ⟨rfl, -⟩ | ⟨-, hrunning, -⟩
    · cases hself.symm.trans hc'
    · rw [hnew]
      exact ⟨hrunning, hidle⟩

/-- The context being adopted becomes the processor's current and idle thread. -/
theorem becomeIdle {t : ThreadId} (hadopting : s.phase c = .adopting t)
    (hcurrent : (s.cpu c).current = none) (hpending : (s.cpu c).pending = none) :
    Core ((s.setIdle c t).setPhase c .run) := by
  set s' := (s.setIdle c t).setPhase c .run with hs'
  have hself : s'.cpu c = { s.cpu c with current := some t, idle := some t } := by
    simp [hs']
  have hphase : s'.phase c = .run := by simp [hs']
  have hcpu : ∀ c', c' ≠ c → s'.cpu c' = s.cpu c' ∧ s'.phase c' = s.phase c' := by
    intro c' hc
    simp [hs', hc]
  have hholds : Holds s c t := .inr (.inr hadopting)
  obtain ⟨hon, howner, hcount⟩ := h.holds c t hholds
  obtain ⟨hstate, hidle⟩ := h.adopted c t hadopting
  have honly : ∀ c', Holds s' c' t → c' = c := by
    intro c' hc'
    by_contra hc
    rw [Holds, (hcpu c' hc).1, (hcpu c' hc).2] at hc'
    exact hc (h.holder_unique hc' hholds)
  refine h.keep (setCpu_field Cpu.ready rfl) rfl le_rfl h.present (fun u hu => .inl ?_) fun u => ?_
  · rcases hu with hu | ⟨c', hu⟩
    · exact .inl hu
    refine .inr ⟨c', ?_⟩
    by_cases hc : c' = c
    · subst hc
      rw [hself, hphase] at hu
      exact hu.imp_right (Or.imp_right fun hu => by cases hu)
    · rwa [(hcpu c' hc).1, (hcpu c' hc).2] at hu
  by_cases hu : u = t
  case neg =>
    refine .inl (.trans (.setCpu ?_ ?_ ?_) (.setPhase ?_ ?_))
    all_goals simp [hcurrent, hadopting, Ne.symm hu]
  subst hu
  refine .inr ⟨h.not_queued_of_onCpu hon, h.not_dead_of_onCpu hon, fun hq => ⟨
    fun _ => ⟨c, .inl (by rw [hself])⟩, fun c' hc' => honly c' hc' ▸ ⟨hon, howner, hcount⟩,
    fun c' hc' => ?_, fun c' hc' => ?_, fun c' hc' => ?_, fun c' hc' => ?_⟩⟩
  · obtain rfl := honly c' (.inr (.inl hc'))
    simp [hself, hpending] at hc'
  · by_cases hc : c' = c
    · subst hc
      exact ⟨howner, hcount, .inl hstate, hq⟩
    · rw [(hcpu c' hc).1] at hc'
      exact absurd hc' (hidle c')
  · by_cases hc : c' = c
    · subst hc
      simp [hphase] at hc'
    · rw [(hcpu c' hc).2] at hc'
      exact absurd hc' (h.not_fresh_of_onCpu hon c')
  · obtain rfl := honly c' (.inr (.inr hc'))
    simp [hphase] at hc'

end Core

end Panda.Sched
