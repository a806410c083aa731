import PandaProof.SchedulerOwnership

/-!
# Whole runs of the scheduler

`Steady` relates the tables to the stacks the processors are physically standing on:
before a decided switch has been made a processor stands on the stack of the thread it
is leaving, otherwise on its current thread's.  With `Core` it survives every step, and
what the two say together holds in every reachable state.
-/
namespace Panda.Sched

open Function List Option State Machine

variable {n : Nat}

/-- The tables and the stacks the processors stand on. -/
structure Steady (s : State n) : Prop where
  /-- A thread is being left only between a decided switch and its flush. -/
  pend : ∀ c t, (s.cpu c).pending = some t → (s.phase c).switched = true
  /-- Whose stack a processor is on. -/
  stands : ∀ c, s.standing c =
    if (s.phase c).departing then (s.cpu c).pending else (s.cpu c).current
  /-- A processor that has not come up yet runs no thread. -/
  asleep : ∀ c, (s.cpu c).idle = none → (s.cpu c).current = none
  adopting : ∀ c t, s.phase c = .adopting t → (s.cpu c).idle = none

/-- Every processor but `c` stays as it is. -/
structure Elsewhere (s s' : State n) (c : CpuId n) : Prop where
  current : ∀ c', c' ≠ c → (s'.cpu c').current = (s.cpu c').current
  idle : ∀ c', c' ≠ c → (s'.cpu c').idle = (s.cpu c').idle
  pending : ∀ c', c' ≠ c → (s'.cpu c').pending = (s.cpu c').pending
  phase : ∀ c', c' ≠ c → s'.phase c' = s.phase c'
  standing : ∀ c', c' ≠ c → s'.standing c' = s.standing c'

namespace Elsewhere

variable {s s' s'' : State n} {c : CpuId n}

theorem trans (h : Elsewhere s s' c) (h' : Elsewhere s' s'' c) : Elsewhere s s'' c where
  current c' hc := (h'.current c' hc).trans (h.current c' hc)
  idle c' hc := (h'.idle c' hc).trans (h.idle c' hc)
  pending c' hc := (h'.pending c' hc).trans (h.pending c' hc)
  phase c' hc := (h'.phase c' hc).trans (h.phase c' hc)
  standing c' hc := (h'.standing c' hc).trans (h.standing c' hc)

theorem of_frame (h : Frame s s') : Elsewhere s s' c :=
  ⟨fun c' _ => h.current c', fun c' _ => h.idle c', fun c' _ => h.pending c',
    fun c' _ => by rw [h.phase], fun c' _ => by rw [h.standing]⟩

theorem setPhase (s : State n) (c : CpuId n) (p : Phase) : Elsewhere s (s.setPhase c p) c :=
  ⟨fun _ _ => rfl, fun _ _ => rfl, fun _ _ => rfl, fun c' hc => by simp [hc], fun _ _ => rfl⟩

theorem setCpu (s : State n) (c : CpuId n) (x : Cpu) : Elsewhere s (s.setCpu c x) c := by
  constructor <;> intro c' hc <;> simp [hc]

theorem setStanding (s : State n) (c : CpuId n) (t : Option ThreadId) :
    Elsewhere s { s with standing := update s.standing c t } c :=
  ⟨fun _ _ => rfl, fun _ _ => rfl, fun _ _ => rfl, fun _ _ => rfl, fun c' hc => by simp [hc]⟩

theorem commitSwitch (s : State n) (c : CpuId n) (o t : ThreadId) :
    Elsewhere s (commitSwitch s c o t) c :=
  ⟨fun c' hc => by rw [commit_cpu_of_ne s c hc], fun c' hc => by rw [commit_cpu_of_ne s c hc],
    fun c' hc => by rw [commit_cpu_of_ne s c hc], fun _ _ => rfl, fun _ _ => rfl⟩

end Elsewhere

variable {p : Phase}

theorem Phase.switched_of_departing (h : p.departing = true) : p.switched = true := by
  cases p with
  | burying switch => cases switch <;> simp_all
  | _ => simp_all

theorem Phase.not_departing_of_not_switched (h : p.switched = false) : p.departing = false := by
  rw [Bool.eq_false_iff]
  intro hd
  cases (Phase.switched_of_departing hd).symm.trans h

namespace Steady

variable {s : State n} (h : Steady s)
include h

variable {s' : State n}

theorem frame (hf : Frame s s') : Steady s' where
  pend c t := by rw [hf.pending, hf.phase]; exact h.pend c t
  stands c := by rw [hf.standing, hf.phase, hf.pending, hf.current]; exact h.stands c
  asleep c := by rw [hf.idle, hf.current]; exact h.asleep c
  adopting c t := by rw [hf.phase, hf.idle]; exact h.adopting c t

variable {c : CpuId n}

theorem pending_none (hc : (s.phase c).switched = false) : (s.cpu c).pending = none := by
  cases hp : (s.cpu c).pending with
  | none => rfl
  | some t => cases (h.pend c t hp).symm.trans hc

/-- Only one processor moves, and its own part still holds. -/
theorem of_elsewhere (he : Elsewhere s s' c)
    (hpend : ∀ t, (s'.cpu c).pending = some t → (s'.phase c).switched = true)
    (hstands : s'.standing c =
      if (s'.phase c).departing then (s'.cpu c).pending else (s'.cpu c).current)
    (hasleep : (s'.cpu c).idle = none → (s'.cpu c).current = none)
    (hadopting : ∀ t, s'.phase c = .adopting t → (s'.cpu c).idle = none) : Steady s' := by
  constructor <;> intro c' <;> by_cases hc : c' = c
  · subst hc; exact hpend
  · rw [he.pending c' hc, he.phase c' hc]; exact h.pend c'
  · subst hc; exact hstands
  · rw [he.standing c' hc, he.phase c' hc, he.pending c' hc, he.current c' hc]
    exact h.stands c'
  · subst hc; exact hasleep
  · rw [he.idle c' hc, he.current c' hc]; exact h.asleep c'
  · subst hc; exact hadopting
  · rw [he.phase c' hc, he.idle c' hc]; exact h.adopting c'

/-- A processor goes on to another phase, on the same stack. -/
theorem setPhase {p : Phase} (hold : (s.phase c).switched = false)
    (hnew : p.switched = false) (hadopting : ∀ t, p = .adopting t → (s.cpu c).idle = none) :
    Steady (s.setPhase c p) := by
  have hself : (s.setPhase c p).phase c = p := by simp
  refine h.of_elsewhere (.setPhase s c p) ?_ ?_ (h.asleep c) ?_
  · intro t ht
    have hnone : (s.cpu c).pending = none := h.pending_none hold
    cases hnone.symm.trans ht
  · have hs := h.stands c
    rw [Phase.not_departing_of_not_switched hold] at hs
    rw [hself, Phase.not_departing_of_not_switched hnew]
    exact hs
  · rw [hself]
    exact hadopting

end Steady

/-- The invariant of every run. -/
structure Inv (s : State n) : Prop where
  core : Core s
  steady : Steady s

theorem initial_inv : Inv (initial : State n) := by
  have hcpu0 : (initial : State n).cpu 0 =
      { Cpu.new with current := some 0, idle := some 1 } := by simp [initial]
  have hcpu : ∀ c : CpuId n, c ≠ 0 → (initial : State n).cpu c = .new := by
    intro c hc
    simp [initial, hc]
  have hready : ∀ (c : CpuId n) l, ((initial : State n).cpu c).ready l = [] := by
    intro c l
    by_cases hc : c = 0
    · subst hc; rw [hcpu0]; rfl
    · rw [hcpu c hc]; rfl
  have hqueued : ∀ t, ¬ Queued (initial : State n) t := by
    rintro t ⟨c, l, hl⟩
    simp [hready] at hl
  have hpending : ∀ c : CpuId n, ((initial : State n).cpu c).pending = none := by
    intro c
    by_cases hc : c = 0
    · subst hc; rw [hcpu0]; rfl
    · rw [hcpu c hc]; rfl
  have hcurrent : ∀ (c : CpuId n) t, ((initial : State n).cpu c).current = some t ↔
      c = 0 ∧ t = 0 := by
    intro c t
    by_cases hc : c = 0
    · subst hc; rw [hcpu0]; simp [eq_comm]
    · rw [hcpu c hc]; simp [hc, Cpu.new]
  have hidle : ∀ (c : CpuId n) t, ((initial : State n).cpu c).idle = some t ↔ c = 0 ∧ t = 1 := by
    intro c t
    by_cases hc : c = 0
    · subst hc; rw [hcpu0]; simp [eq_comm]
    · rw [hcpu c hc]; simp [hc, Cpu.new]
  have hphase : ∀ c : CpuId n, (initial : State n).phase c = .run := fun _ => rfl
  constructor
  · constructor
    · constructor
      · intro c l t ht
        simp [hready] at ht
      · intro c l
        simp [hready]
      · intro c l l' t ht
        simp [hready] at ht
      · intro c
        rw [hready, hready, hready]
        rfl
    · intro t ht
      refine ⟨0, .inl ((hcurrent 0 t).mpr ⟨rfl, ?_⟩)⟩
      by_contra hne
      simp [initial, hne, Thread.new] at ht
    · intro c t ht
      rcases ht with ht | ht | ht
      · obtain ⟨rfl, rfl⟩ := (hcurrent c t).mp ht
        exact ⟨rfl, rfl, by simp [initial]⟩
      · simp [hpending] at ht
      · simp [hphase] at ht
    · intro c t ht
      simp [hpending] at ht
    · intro c t ht
      obtain ⟨rfl, rfl⟩ := (hidle c t).mp ht
      exact ⟨rfl, by simp [initial], .inr rfl, hqueued 1⟩
    · intro c t ht
      simp [hphase] at ht
    · intro c t ht
      simp [hphase] at ht
    · intro t ht
      simpa [initial] using ht
    · rintro t (⟨h1, h2⟩ | ⟨c, ht⟩)
      · exact absurd h1 (of_decide_eq_false h2)
      by_cases hc : c = 0
      · subst hc
        rw [hcpu0, hphase] at ht
        simp [Cpu.new] at ht
      · rw [hcpu c hc, hphase] at ht
        simp [Cpu.new] at ht
  · constructor
    · intro c t ht
      simp [hpending] at ht
    · intro c
      by_cases hc : c = 0
      · subst hc; rw [hcpu0, hphase]; simp [initial]
      · rw [hcpu c hc, hphase]; simp [initial, Cpu.new, hc]
    · intro c ht
      by_cases hc : c = 0
      · subst hc; rw [hcpu0] at ht; cases ht
      · rw [hcpu c hc]; rfl
    · intro c t ht
      simp [hphase] at ht

variable {s : State n}

/-- Where a processor sits is not part of the tables. -/
theorem Core.setStanding (h : Core s) (f : CpuId n → Option ThreadId) :
    Core { s with standing := f } := { h with }

/-- Phases in which a processor holds nothing beside its current thread. -/
def Phase.plain : Phase → Bool
  | .run => true
  | .stealing => true
  | .locking => true
  | .exiting _ => true
  | .ticking _ _ _ => true
  | .waking _ _ => true
  | _ => false

variable {c : CpuId n}

theorem plain_of_run (h : s.phase c = .run) : (s.phase c).plain = true := by
  rw [h]
  rfl

namespace Inv

variable {s : State n} (h : Inv s)
include h

theorem same {s' : State n} (e : Same s s') : Inv s' :=
  ⟨e.core h.core, h.steady.frame e.toFrame⟩

variable {c : CpuId n}

theorem setPhase {p : Phase} (hold : (s.phase c).plain = true)
    (hnew : p.plain = true) : Inv (s.setPhase c p) := by
  constructor
  · refine h.core.setPhase ?_ ?_ ?_ ?_
    · rintro t ht; simp [ht, Phase.plain] at hold
    · rintro t rfl; cases hnew
    · rintro t rfl; cases hnew
    · intro t ht
      cases p <;> simp_all [Phase.plain]
  · refine h.steady.setPhase ?_ ?_ ?_
    · cases hp : s.phase c <;> simp_all [Phase.plain]
    · cases p <;> simp_all [Phase.plain]
    · rintro t rfl; cases hnew

theorem enterSchedule (hold : (s.phase c).plain = true) : Inv (enterSchedule s c) := by
  refine h.setPhase hold ?_
  split <;> rfl

/-- The current thread, not being the idle one, changes its own record. -/
theorem setCurrent {t : ThreadId} (ht : actor s c = some t) {x : Thread}
    (honCpu : x.onCpu = (s.thread t).onCpu) (howner : x.owner = (s.thread t).owner) :
    Inv (s.setThread t x) := by
  unfold actor at ht
  split at ht
  case h_2 => cases ht
  rename_i u hrun hcur
  split at ht
  · cases ht
  rename_i hno
  cases ht
  have hl := h.core.loose_of_holds (.inl hcur) (fun hi => hno (.inl hi)) (by simp [hrun])
  exact ⟨h.core.setThread hl honCpu fun _ => howner, h.steady.frame (.setThread ..)⟩

theorem unblock (c : CpuId n) (t : ThreadId) : Inv (unblock s c t) := by
  obtain ⟨hcore, hframe⟩ := h.core.unblock c t
  exact ⟨hcore, h.steady.frame hframe⟩

end Inv

variable {t : ThreadId}

theorem actor_run (h : actor s c = some t) : s.phase c = .run := by
  unfold actor at h
  split at h
  · assumption
  · cases h

/-! ## The steps that switch -/

/-- Apart from letting go of the pending thread, `flush_pending` moves no processor. -/
theorem flushPending_frame (s : State n) (c : CpuId n) :
    Frame (s.setCpu c { s.cpu c with pending := none }) (flushPending s c) := by
  unfold flushPending
  split
  · rename_i hp
    have hself : s.setCpu c { s.cpu c with pending := none } = s := by
      have hc : ({ s.cpu c with pending := none } : Cpu) = s.cpu c := by
        conv_rhs => rw [show s.cpu c = { s.cpu c with pending := (s.cpu c).pending } from rfl, hp]
      rw [hc]
      simp
    rw [hself]
    exact .refl s
  · rename_i t hp
    have hrel : Frame (s.setCpu c { s.cpu c with pending := none }) (released s c t) :=
      .setThread ..
    have hgrave : ∀ (s' : State n) (g r : List ThreadId),
        Frame s' (s'.setCpu c { s'.cpu c with graveyard := g, reaped := r }) := fun s' g r =>
      ⟨setCpu_field Cpu.current rfl, setCpu_field Cpu.idle rfl, setCpu_field Cpu.pending rfl,
        rfl, rfl⟩
    dsimp only
    split
    · split
      · exact hrel
      · exact hrel.trans (enqueue_frame ..)
    · split
      · exact (hrel.trans (.setThread ..)).trans (hgrave ..)
      · exact hrel.trans (hgrave ..)
    · exact hrel

namespace Inv

variable {s : State n} (h : Inv s)
include h

variable {c : CpuId n}

/-- The incoming context has flushed before, so `schedule` finds nothing pending. -/
theorem flushPending_of_locking (hphase : s.phase c = .locking) :
    (s.cpu c).pending = none ∧ flushPending s c = s := by
  have hpending : (s.cpu c).pending = none := h.steady.pending_none (by rw [hphase]; rfl)
  exact ⟨hpending, by simp [flushPending, hpending]⟩

/-- **Deciding on a switch.**  The processor keeps standing where it stood. -/
theorem lockSection (hphase : s.phase c = .locking) : Inv (lockSection s c) := by
  obtain ⟨hpending, hflush⟩ := h.flushPending_of_locking hphase
  have hstand : s.standing c = (s.cpu c).current := by
    rw [h.steady.stands c, hphase]
    rfl
  have hadopting : ∀ u, s.phase c ≠ .adopting u := by simp [hphase]
  obtain ⟨hcore, hcases⟩ := h.core.prepareSwitch hpending hadopting
  unfold Sched.lockSection
  rw [hflush]
  dsimp only
  set s' := (prepareSwitch s c).2
  set p : Phase := .burying (prepareSwitch s c).1 (s'.cpu c).graveyard (s'.cpu c).reaped with hp
  have hphase' : s'.phase = s.phase := by
    rcases hcases with ⟨-, hf, -⟩ | ⟨-, s₀, o, t, hf, -, -, -, -, -, heq⟩
    · exact hf.phase
    · rw [heq]; exact hf.phase
  constructor
  · have hburied : Core (s'.setPhase c p) := by
      refine hcore.setPhase (by rw [hphase']; exact hadopting) (by simp [hp]) (by simp [hp]) ?_
      intro t ht
      rcases mem_append.mp ht with ht | ht
      · exact .inr ⟨c, .inl ht⟩
      · exact .inr ⟨c, .inr (.inl ht)⟩
    exact hburied.setGraves (c := c)
      (x := { s'.cpu c with graveyard := [], reaped := [] }) rfl (by simp)
  · set s'' := (s'.setCpu c { s'.cpu c with graveyard := [], reaped := [] }).setPhase c p
    have hcpu : s''.cpu c = { s'.cpu c with graveyard := [], reaped := [] } := by
      simp [s'']
    have hcur : (s''.cpu c).current = (s'.cpu c).current := by rw [hcpu]
    have hpen : (s''.cpu c).pending = (s'.cpu c).pending := by rw [hcpu]
    have hidl : (s''.cpu c).idle = (s'.cpu c).idle := by rw [hcpu]
    have hself : s''.phase c = p := by simp [s'']
    have hend : Elsewhere s' s'' c := (Elsewhere.setCpu ..).trans (.setPhase ..)
    have hnot : ∀ t, s''.phase c = .adopting t → (s''.cpu c).idle = none := by
      intro t ht
      rw [hself, hp] at ht
      cases ht
    rcases hcases with ⟨hfalse, hf, -⟩ | ⟨htrue, s₀, o, t, hf, -, ho, hidle, -, -, heq⟩
    · refine h.steady.of_elsewhere ((Elsewhere.of_frame hf).trans hend) ?_ ?_ ?_ hnot
      · intro u hu
        rw [hpen, hf.pending, hpending] at hu
        cases hu
      · have hstanding : s''.standing c = s.standing c := congrFun hf.standing c
        rw [hstanding, hself, hp, hfalse, hcur, hf.current, hstand]
        rfl
      · rw [hidl, hcur, hf.idle, hf.current]
        exact h.steady.asleep c
    · have hc0 : s'.cpu c = { s₀.cpu c with pending := some o, current := some t } := by
        rw [heq]
        exact commit_cpu_self s₀ c
      have hcommit : Elsewhere s₀ s' c := by
        rw [heq]
        exact .commitSwitch s₀ c o t
      refine h.steady.of_elsewhere (((Elsewhere.of_frame hf).trans hcommit).trans hend)
        ?_ ?_ ?_ hnot
      · intro u _
        rw [hself, hp, htrue]
        rfl
      · have hst : s'.standing = s₀.standing := by rw [heq]; rfl
        have hstanding : s''.standing c = s.standing c := congrFun (hst.trans hf.standing) c
        rw [hstanding, hself, hp, htrue, hpen, hc0, hstand, ho]
        rfl
      · intro hi
        rw [hidl, hc0] at hi
        exact absurd ((hf.idle c).symm.trans hi) hidle

/-- The stacks and ids leave; the processor goes on to its switch, if it has one. -/
theorem bury {switch : Bool} {graves reaped : List ThreadId}
    (hphase : s.phase c = .burying switch graves reaped) :
    Inv ((bury s reaped).setPhase c (if switch then .switching else .run)) := by
  have hcore : Core (Sched.bury s reaped) := by
    refine ⟨⟨h.core.queued, h.core.nodup, h.core.levels, h.core.counted⟩, h.core.held,
      h.core.holds, h.core.apart, h.core.idle, h.core.fresh, h.core.adopted, ?_, ?_⟩
    · intro t ht
      exact h.core.present t (Bool.and_eq_true_iff.mp ht).1
    rintro t (⟨hlt, hpresent⟩ | hd)
    · by_cases hmem : t ∈ reaped
      · refine h.core.dead t (.inr ⟨c, .inr (.inr ?_)⟩)
        rw [hphase]
        exact mem_append_right _ hmem
      · have hfalse : s.present t = false := by
          simpa [Sched.bury, hmem] using hpresent
        exact h.core.dead t (.inl ⟨hlt, hfalse⟩)
    · exact h.core.dead t (.inr hd)
  have hsteady : Steady (Sched.bury s reaped) :=
    h.steady.frame ⟨fun _ => rfl, fun _ => rfl, fun _ => rfl, rfl, rfl⟩
  have hphase' : (Sched.bury s reaped).phase c = .burying switch graves reaped := hphase
  constructor
  · refine hcore.setPhase (by simp [hphase']) ?_ ?_ ?_ <;> cases switch <;> simp
  have hself : ∀ p, ((Sched.bury s reaped).setPhase c p).phase c = p := by
    intro p
    simp
  have hpend := hsteady.pend c
  have hstands := hsteady.stands c
  rw [hphase'] at hpend hstands
  refine hsteady.of_elsewhere (.setPhase ..) ?_ ?_ (hsteady.asleep c) ?_
  · intro t ht
    have hsw := hpend t ht
    rw [hself]
    cases switch with
    | true => rfl
    | false => cases hsw
  · rw [hself]
    cases switch <;> exact hstands
  · intro t ht
    rw [hself] at ht
    cases switch <;> cases ht

/-- **The context switch**: now the processor is on the incoming thread's stack. -/
theorem switch (hphase : s.phase c = .switching) : Inv (State.setPhase
      { s with standing := update s.standing c (s.cpu c).current } c .arrived) := by
  have hcore := h.core.setStanding (update s.standing c (s.cpu c).current)
  constructor
  · exact hcore.setPhase (by simp [hphase]) (by simp) (by simp) (by simp)
  refine h.steady.of_elsewhere ((Elsewhere.setStanding ..).trans (.setPhase ..)) ?_ ?_
    (h.steady.asleep c) ?_
  · intro t _
    simp
  · simp
  · intro t ht
    simp at ht

/-- The incoming context flushes what the processor switched away from. -/
theorem arrive (hphase : s.phase c = .arrived) : Inv ((flushPending s c).setPhase c .run) := by
  have hf := flushPending_frame s c
  have hphase' : (flushPending s c).phase c = .arrived := by
    rw [hf.phase]
    exact hphase
  constructor
  · exact (h.core.flushPending c).setPhase (by simp [hphase']) (by simp) (by simp) (by simp)
  have hpending : ((flushPending s c).cpu c).pending = none := by
    rw [hf.pending]
    simp
  have hcurrent : ((flushPending s c).cpu c).current = (s.cpu c).current := by
    rw [hf.current]
    simp
  have hidle : ((flushPending s c).cpu c).idle = (s.cpu c).idle := by
    rw [hf.idle]
    simp
  have hstands : (flushPending s c).standing c = (s.cpu c).current := by
    rw [hf.standing]
    exact (h.steady.stands c).trans (by rw [hphase]; rfl)
  refine h.steady.of_elsewhere
    (((Elsewhere.setCpu ..).trans (.of_frame hf)).trans (.setPhase ..)) ?_ ?_ ?_ ?_
  · intro t ht
    cases hpending.symm.trans ht
  · have hself : ((flushPending s c).setPhase c .run).phase c = .run := by
      simp
    rw [hself]
    exact hstands.trans hcurrent.symm
  · intro hi
    exact hcurrent.trans (h.steady.asleep c (hidle.symm.trans hi))
  · intro t ht
    simp at ht

/-! ## The steps that make threads -/

theorem insert (hrun : s.phase c = .run) {x : Thread} {p : Phase} (howner : x.owner = c)
    (hp : p = .spawned s.count ∧ x.state = .ready ∧ x.onCpu = false ∨
      p = .adopting s.count ∧ x.state = .running ∧ x.onCpu = true ∧ (s.cpu c).idle = none) :
    Inv (State.setPhase { s.setThread s.count x with
      count := s.count + 1
      present := update s.present s.count true } c p) := by
  constructor
  · exact h.core.insert hrun howner (hp.imp_right fun hp => ⟨hp.1, hp.2.1, hp.2.2.1⟩)
  have hsteady : Steady { s.setThread s.count x with
      count := s.count + 1
      present := update s.present s.count true } :=
    h.steady.frame ⟨fun _ => rfl, fun _ => rfl, fun _ => rfl, rfl, rfl⟩
  have hold : (s.phase c).switched = false := by rw [hrun]; rfl
  refine hsteady.setPhase hold ?_ ?_
  · rcases hp with ⟨rfl, -⟩ | ⟨rfl, -⟩ <;> rfl
  · rcases hp with ⟨rfl, -⟩ | ⟨rfl, -, -, hidle⟩
    · intro t ht; cases ht
    · exact fun _ _ => hidle

variable {t : ThreadId}

/-- `spawn` queues its new thread. -/
theorem enqueueFresh (hphase : s.phase c = .spawned t) : Inv (enqueue (s.setPhase c .run) c t) := by
  obtain ⟨hstate, honCpu, howner, hcount, hqueued, hidle⟩ := h.core.fresh c t hphase
  have hcore : Core (s.setPhase c .run) :=
    h.core.setPhase (by simp [hphase]) (by simp) (by simp) (by simp)
  have hsteady : Steady (s.setPhase c .run) := h.steady.setPhase (by rw [hphase]; rfl) rfl (by simp)
  refine ⟨hcore.enqueue ⟨hqueued, hidle, ?_, ?_, ?_⟩ hstate honCpu howner hcount,
    hsteady.frame (enqueue_frame ..)⟩
  · -- no other processor is spawning the same thread
    intro c' hc'
    by_cases hc : c' = c
    · subst hc
      simp at hc'
    · have hc'' : s.phase c' = .spawned t := by simpa [hc] using hc'
      exact hc (Fin.ext ((h.core.fresh c' t hc'').2.2.1.symm.trans howner))
  · intro c' hc'
    have hon := (hcore.holds c' t (.inr (.inr hc'))).1
    simp [honCpu] at hon
  · intro hd
    have hfin := (hcore.dead t hd).1
    simp [hstate] at hfin

/-- A processor that came up runs the context it adopted. -/
theorem becomeIdle (hphase : s.phase c = .adopting t) : Inv (State.setPhase
      { renewSlice (s.setIdle c t) c with
        standing := update s.standing c (some t) } c .run) := by
  have hpending : (s.cpu c).pending = none := h.steady.pending_none (by rw [hphase]; rfl)
  have hcurrent : (s.cpu c).current = none := h.steady.asleep c (h.steady.adopting c t hphase)
  have hcore := h.core.becomeIdle hphase hcurrent hpending
  have hslice : Same
      ((s.setIdle c t).setPhase c .run) (renewSlice ((s.setIdle c t).setPhase c .run) c) :=
    .of_eq rfl rfl rfl rfl rfl rfl rfl
  constructor
  · exact (hslice.core hcore).setStanding (update s.standing c (some t))
  have hcpu : Elsewhere s (s.setIdle c t) c := .setCpu ..
  have hstand := Elsewhere.setStanding (renewSlice (s.setIdle c t) c) c (some t)
  have hslice' : Elsewhere (s.setIdle c t) (renewSlice (s.setIdle c t) c) c :=
    .of_frame ⟨fun _ => rfl, fun _ => rfl, fun _ => rfl, rfl, rfl⟩
  refine h.steady.of_elsewhere (((hcpu.trans hslice').trans hstand).trans (.setPhase ..))
    ?_ ?_ ?_ ?_
  · intro u hu
    simp [hpending] at hu
  · simp
  · intro hi
    simp at hi
  · intro u hu
    simp at hu

end Inv

/-! ## Runs -/

variable {s' : State n} {a : Label n}

/-- **Every step keeps the invariant.** -/
theorem inv_step (h : Inv s) (hs : step s a = some s') : Inv s' := by
  cases a with
  | tick =>
    cases hs
    exact h.same (.of_eq rfl rfl rfl rfl rfl rfl rfl)
  | timer c =>
    obtain ⟨hrun, rfl⟩ := of_guard hs
    have h' : Inv { s with slice := update s.slice c (s.slice c - 1) } :=
      h.same (.of_eq rfl rfl rfl rfl rfl rfl rfl)
    exact h'.setPhase (plain_of_run hrun) rfl
  | collect c =>
    simp only [step] at hs
    split at hs
    · rename_i hphase
      cases hs
      have hplain : (s.phase c).plain = true := by rw [hphase]; rfl
      refine Inv.setPhase (h.same ?_) hplain rfl
      exact .of_eq rfl rfl rfl rfl rfl rfl rfl
    · rename_i hphase
      cases hs
      exact h.setPhase (by rw [hphase]; rfl) rfl
    · cases hs
  | wakeNext c =>
    have hwake : ∀ t, (unblock s c t).phase = s.phase := fun t => (h.core.unblock c t).2.phase
    simp only [step] at hs
    split at hs
    · rename_i hphase
      cases hs
      exact (h.unblock c _).setPhase (by rw [hwake, hphase]; rfl) rfl
    · rename_i hphase
      cases hs
      split
      · exact h.enterSchedule (by rw [hphase]; rfl)
      · exact h.setPhase (by rw [hphase]; rfl) rfl
    · rename_i hphase
      cases hs
      exact (h.unblock c _).setPhase (by rw [hwake, hphase]; rfl) rfl
    · rename_i hphase
      cases hs
      exact h.enterSchedule (by rw [hphase]; rfl)
    · cases hs
  | yield c =>
    simp only [step] at hs
    split at hs
    case h_2 => cases hs
    rename_i t hrun hcur
    cases hs
    have h' : Inv (s.setThread t { s.thread t with leaving := false }) := by
      refine h.same (same_setThread s t ?_ ?_ ?_) <;> rfl
    exact h'.enterSchedule (plain_of_run hrun)
  | preempt =>
    obtain ⟨hrun, rfl⟩ := of_guard hs
    exact h.enterSchedule (plain_of_run hrun)
  | steal c hint again =>
    obtain ⟨hphase, hs⟩ := ite_none_right_eq_some.mp hs
    split at hs
    · cases hs
      exact h.setPhase (by rw [hphase]; rfl) rfl
    rename_i v _
    cases hs
    obtain ⟨hcore, hframe⟩ := h.core.stealFrom c v
    have h' : Inv (stealFrom s c v) := ⟨hcore, h.steady.frame hframe⟩
    exact h'.setPhase (by rw [hframe.phase, hphase]; rfl) rfl
  | lock =>
    obtain ⟨hphase, rfl⟩ := of_guard hs
    exact h.lockSection hphase
  | bury c =>
    simp only [step] at hs
    split at hs
    case h_2 => cases hs
    rename_i hphase
    cases hs
    exact h.bury hphase
  | switch =>
    obtain ⟨hphase, rfl⟩ := of_guard hs
    exact h.switch hphase
  | arrive =>
    obtain ⟨hphase, rfl⟩ := of_guard hs
    exact h.arrive hphase
  | spawn =>
    obtain ⟨hrun, rfl⟩ := of_guard hs
    exact h.insert hrun rfl (.inl ⟨rfl, rfl, rfl⟩)
  | enqueue c =>
    simp only [step] at hs
    split at hs
    case h_2 => cases hs
    rename_i hphase
    cases hs
    exact h.enqueueFresh hphase
  | block =>
    obtain ⟨t, ht, rfl⟩ := map_eq_some_iff.mp hs
    unfold blockCurrent
    dsimp only
    split <;> exact h.setCurrent ht rfl rfl
  | sleep =>
    obtain ⟨t, ht, hs⟩ := bind_eq_some_iff.mp hs
    split at hs
    · cases hs
    cases hs
    have h' : Inv (s.setThread t
        { s.thread t with wakePending := false, state := .blocked, leaving := true }) :=
      h.setCurrent ht rfl rfl
    exact h'.same (.of_eq rfl rfl rfl rfl rfl rfl rfl)
  | join c target =>
    obtain ⟨t, ht, rfl⟩ := map_eq_some_iff.mp hs
    unfold joinThread
    split
    · rename_i hcond
      have h' : Inv (s.addJoiner target t) := by
        refine h.same (same_setThread s target ?_ ?_ ?_) <;> rfl
      have ht' : actor (s.addJoiner target t) c = some t := by
        rw [← ht]
        unfold actor State.addJoiner State.setThread
        dsimp only
        split
        · rename_i u _ _
          by_cases hu : u = target
          · subst hu; simp
          · simp [hu]
        · rfl
      exact h'.setCurrent ht' rfl rfl
    · exact h
  | exit c =>
    obtain ⟨t, ht, rfl⟩ := map_eq_some_iff.mp hs
    have h' : Inv (s.setThread t { s.thread t with state := .finished, joiners := [] }) :=
      h.setCurrent ht rfl rfl
    have hplain : (s.phase c).plain = true := plain_of_run (actor_run ht)
    exact h'.setPhase hplain rfl
  | unblock c t =>
    obtain ⟨-, rfl⟩ := of_guard hs
    exact h.unblock c t
  | setPriority c t =>
    obtain ⟨-, rfl⟩ := of_guard hs
    split
    · refine h.same (same_setThread s t ?_ ?_ ?_) <;> rfl
    · exact h
  | adopt =>
    obtain ⟨hcond, rfl⟩ := of_guard hs
    exact h.insert hcond.1 rfl (.inr ⟨rfl, rfl, rfl, hcond.2⟩)
  | adopted c =>
    simp only [step] at hs
    split at hs
    case h_2 => cases hs
    rename_i hphase
    cases hs
    exact h.becomeIdle hphase

theorem inv_of_reachable (h : (machine n).Reachable s) : Inv s :=
  h.invariant_from initial_inv fun hi _ hs => inv_step hi hs

namespace Inv

variable {s : State n} (h : Inv s)
include h

/-- No thread is on two queues, or twice on one. -/
theorem queues_nodup : ((finRange (n + 1)).flatMap fun c =>
      (finRange 3).flatMap (s.cpu c).ready).Nodup := by
  refine nodup_flatMap.mpr ⟨fun c _ => nodup_flatMap.mpr ⟨?_, ?_⟩, ?_⟩
  · exact fun l _ => h.core.nodup c l
  · refine (nodup_finRange 3).imp fun hne => ?_
    intro t ht ht'
    exact hne (h.core.levels c _ _ t ht ht')
  refine (nodup_finRange (n + 1)).imp fun hne => ?_
  intro t ht ht'
  obtain ⟨l, -, hl⟩ := mem_flatMap.mp ht
  obtain ⟨l', -, hl'⟩ := mem_flatMap.mp ht'
  exact hne (Fin.ext ((h.core.queued _ l t hl).2.2.1.symm.trans (h.core.queued _ l' t hl').2.2.1))

variable {t : ThreadId}

/-- A processor holds the thread whose stack it is on. -/
theorem holds_of_standing {c : CpuId n} (ht : s.standing c = some t) : Holds s c t := by
  rw [h.steady.stands c] at ht
  split at ht
  · exact .inr (.inl ht)
  · exact .inl ht

/-- Nobody stands on a stack that has been handed over. -/
theorem not_standing_of_dead (ht : Dead s t) (c : CpuId n) : s.standing c ≠ some t := by
  intro hc
  have hon := (h.core.holds c t (h.holds_of_standing hc)).1
  simp [(h.core.dead t ht).2.1] at hon

end Inv

/-- The two steps that put a processor on another stack bury nobody. -/
theorem standing_or_graveyard (h : Inv s) (hs : step s a = some s') :
    s'.standing = s.standing ∨ ∀ c, (s'.cpu c).graveyard = (s.cpu c).graveyard := by
  have hwake : ∀ c t, (unblock s c t).standing = s.standing := fun c t =>
    (h.core.unblock c t).2.standing
  cases a with
  | switch =>
    obtain ⟨-, rfl⟩ := of_guard hs
    exact .inr fun _ => rfl
  | adopted c =>
    simp only [step] at hs
    split at hs
    case h_2 => cases hs
    cases hs
    refine .inr fun c' => ?_
    by_cases hc : c' = c
    · subst hc; simp
    · simp [hc]
  | wakeNext c =>
    left
    simp only [step] at hs
    split at hs
    · cases hs
      exact hwake c _
    · cases hs
      split <;> rfl
    · cases hs
      exact hwake c _
    · cases hs
      rfl
    · cases hs
  | unblock c t =>
    left
    obtain ⟨-, rfl⟩ := of_guard hs
    exact hwake c t
  | steal c =>
    left
    obtain ⟨-, hs⟩ := ite_none_right_eq_some.mp hs
    split at hs <;> cases hs
    · rfl
    · exact (h.core.stealFrom c _).2.standing
  | lock c =>
    left
    obtain ⟨hphase, rfl⟩ := of_guard hs
    obtain ⟨hpending, hflush⟩ := h.flushPending_of_locking hphase
    have hcases := (h.core.prepareSwitch hpending (by simp [hphase])).2
    change (prepareSwitch (flushPending s c) c).2.standing = s.standing
    rw [hflush]
    rcases hcases with ⟨-, hf, -⟩ | ⟨-, _, o, t, hf, -, -, -, -, -, heq⟩
    · exact hf.standing
    · rw [heq]
      exact hf.standing
  | arrive c =>
    left
    obtain ⟨-, rfl⟩ := of_guard hs
    exact (flushPending_frame s c).standing
  | block =>
    obtain ⟨t, -, rfl⟩ := map_eq_some_iff.mp hs
    unfold blockCurrent
    dsimp only
    split <;> exact .inl rfl
  | sleep =>
    obtain ⟨t, -, hs⟩ := bind_eq_some_iff.mp hs
    split at hs
    · cases hs
    · cases hs
      exact .inl rfl
  | join =>
    obtain ⟨t, -, rfl⟩ := map_eq_some_iff.mp hs
    unfold joinThread
    split <;> exact .inl rfl
  | exit =>
    obtain ⟨t, -, rfl⟩ := map_eq_some_iff.mp hs
    exact .inl rfl
  | setPriority =>
    obtain ⟨-, rfl⟩ := of_guard hs
    split <;> exact .inl rfl
  | tick =>
    cases hs
    exact .inl rfl
  | timer c | collect c | yield c | preempt c | bury c | spawn c _ | enqueue c | adopt c =>
    left
    simp only [step] at hs
    split at hs <;> cases hs <;> rfl

/-- **The ownership invariant.**  In every reachable state, with any number of
processors: no thread is current on two of them; no thread is queued twice; every
queued thread is `Ready`, off every processor and owned by the processor whose queue
holds it, so that popping never discards one; and a stack that a step leaves in a
graveyard belongs to a finished thread, and no processor stood on it even before the
step. -/
theorem ownership_invariant {s : State n} (h : (machine n).Reachable s) :
    (∀ c c' t, (s.cpu c).current = some t → (s.cpu c').current = some t → c = c') ∧
    ((finRange (n + 1)).flatMap fun c =>
      (finRange 3).flatMap (s.cpu c).ready).Nodup ∧
    (∀ c l t, t ∈ (s.cpu c).ready l →
      (s.thread t).state = .ready ∧ (s.thread t).onCpu = false ∧ (s.thread t).owner = c) ∧
    (∀ c order, popFrom s c order = (none, s) ∧ (∀ l ∈ order, (s.cpu c).ready l = []) ∨
      ∃ l ∈ order, ∃ t rest, (s.cpu c).ready l = t :: rest ∧
        popFrom s c order = (some t, requeue s c l rest (s.queued c - 1))) ∧
    (∀ a s' c t, step s a = some s' → t ∈ (s'.cpu c).graveyard →
      (s'.thread t).state = .finished ∧ ∀ c', s.standing c' ≠ some t) := by
  have hi := inv_of_reachable h
  refine ⟨fun c c' t hc hc' => hi.core.holder_unique (.inl hc) (.inl hc'), hi.queues_nodup,
    fun c l t ht => ?_, hi.core.popFrom, fun a s' c t hs ht => ?_⟩
  · obtain ⟨h1, h2, h3, -⟩ := hi.core.queued c l t ht
    exact ⟨h1, h2, h3⟩
  have hi' := inv_step hi hs
  have hdead' : Dead s' t := .inr ⟨c, .inl ht⟩
  refine ⟨(hi'.core.dead t hdead').1, fun c' => ?_⟩
  rcases standing_or_graveyard hi hs with hsame | hsame
  · rw [← hsame]
    exact hi'.not_standing_of_dead hdead' c'
  · rw [hsame c] at ht
    exact hi.not_standing_of_dead (.inr ⟨c, .inl ht⟩) c'

/-- A thread exits and is switched away from: the next flush hands its stack over, and
the processor is off it. -/
theorem ownership_invariant_exited : ∃ s s' : State 1, (machine 1).Reachable s ∧
    step s (.arrive 0) = some s' ∧ 2 ∈ (s'.cpu 0).graveyard ∧ ∀ c, s.standing c ≠ some 2 := by
  obtain ⟨s, hs, hp⟩ := (machine 1).exists_reachable (s := initial)
    [.spawn 0 .normal, .enqueue 0, .yield 0, .lock 0, .bury 0, .switch 0, .arrive 0, .exit 0,
      .wakeNext 0, .lock 0, .bury 0, .switch 0]
    (fun s => (step s (.arrive 0)).any (fun s' => 2 ∈ (s'.cpu 0).graveyard) = true) rfl (by decide)
  obtain ⟨s', hs', hmem⟩ := (any_eq_true _ _).mp hp
  have hmem : 2 ∈ (s'.cpu 0).graveyard := of_decide_eq_true hmem
  exact ⟨s, s', hs, hs', hmem, ((ownership_invariant hs).2.2.2.2 _ s' 0 2 hs' hmem).2⟩

end Panda.Sched
