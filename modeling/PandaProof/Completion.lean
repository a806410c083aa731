import PandaProof.Machine
import PandaProof.Parking
import PandaProof.StoreBuffer

/-!
# Disk completions under store buffering

`Completion::wait`, in its sleeping branch, against `Completion::finish` on
another processor, with the stores of each delayed as x86 may delay them.  The
waiter stores its id into `waiter` and then looks at `state` once more before it
parks; `finish` stores the answer into `state` and then swaps `waiter` out.  The
swap is a locked instruction and so drains the finisher's store first, but
nothing drains the waiter's: its store may still be in the buffer while its
second look reads the old `state`.  If `finish` swaps in that gap it finds no
waiter, and the waiter goes on to park with nobody left to wake it
(`lost_waiter_reachable`).

That gap is the only one: a run meets a lost waiter exactly when one of its steps
is such a swap (`no_lost_waiter_iff`).  `block_current` begins with a locked
instruction (the scheduler's ticket lock), and so does every way a thread can
move to another processor, so one buffer stands for the waiter wherever it runs.
-/
namespace Panda.Completion

open List Option StoreBuffer

/-- The two words of a `Completion`. -/
inductive Loc
  | state
  | waiter
  deriving DecidableEq

/-- The processor the waiter runs on, and the one `finish` runs on. -/
inductive Cpu
  | waiting
  | finishing
  deriving DecidableEq

def inFlight : Nat := 1
def done : Nat := 2
def fault : Nat := 3

/-- `outcome`: does this value of `state` end the wait? -/
def outcome (state : Nat) : Option Bool :=
  if state = done then some true else if state = fault then some false else none

/-- Where `wait` is. -/
inductive WaitPc
  /-- At the first `outcome()` of the loop. -/
  | looking
  /-- About to store its id into `waiter`. -/
  | registering
  /-- At the second `outcome()`. -/
  | checking
  /-- Saw an answer there, about to store zero into `waiter`. -/
  | clearing (answer : Bool)
  /-- Saw none, about to call `block_current`. -/
  | blocking
  /-- `block_current` marked it `Blocked`; it goes on once it is unblocked. -/
  | parked
  | returned (answer : Bool)
  deriving DecidableEq

/-- Where `finish` is. -/
inductive FinishPc
  | start
  /-- The answer is stored, about to swap `waiter`. -/
  | swapping
  /-- About to unblock the thread it found there. -/
  | unblocking (id : Nat)
  | returned
  deriving DecidableEq

structure State where
  store : StoreBuffer Cpu Loc Nat
  parking : Parking Nat
  wait : WaitPc
  finish : FinishPc

/-- The command is with the device, and nobody is registered. -/
def initial : State where
  store := ⟨fun l => match l with | .state => inFlight | .waiter => 0, fun _ => []⟩
  parking := .initial
  wait := .looking
  finish := .start

inductive Label
  /-- The waiter goes on. -/
  | wait
  /-- `finish(ok)` stores the answer. -/
  | answer (ok : Bool)
  /-- `finish` swaps `waiter`. -/
  | swap
  /-- `finish` unblocks whom it found. -/
  | unblock
  /-- The oldest store of a processor reaches memory. -/
  | drain (cpu : Cpu)
  /-- Something unrelated unblocks the waiting thread. -/
  | stray
  deriving DecidableEq

/-- The next step of `wait`, called by thread `me`. -/
def waitStep (me : Nat) (s : State) : Option State :=
  match s.wait with
  | .looking =>
    match outcome (s.store.load .waiting .state) with
    | some answer => some { s with wait := .returned answer }
    | none => some { s with wait := .registering }
  | .registering =>
    some { s with store := s.store.store .waiting .waiter (me + 1), wait := .checking }
  | .checking =>
    match outcome (s.store.load .waiting .state) with
    | some answer => some { s with wait := .clearing answer }
    | none => some { s with wait := .blocking }
  | .clearing answer =>
    some { s with store := s.store.store .waiting .waiter 0, wait := .returned answer }
  | .blocking =>
    -- The lock `block_current` takes is a locked instruction.
    if s.store.drained .waiting then
      let r := s.parking.blockCurrent me
      some { s with parking := r.1, wait := if r.2 then .parked else .looking }
    else none
  | .parked => if s.parking.blocked me then none else some { s with wait := .looking }
  | .returned _ => none

/-- One atomic step. -/
def step (me : Nat) (s : State) : Label → Option State
  | .wait => waitStep me s
  | .answer ok =>
    match s.finish with
    | .start => some { s with
        store := s.store.store .finishing .state (if ok then done else fault)
        finish := .swapping }
    | _ => none
  | .swap =>
    match s.finish with
    | .swapping => (s.store.exchange .finishing .waiter 0).map fun (waiter, store) =>
        { s with
          store := store
          finish := if waiter = 0 then .returned else .unblocking (waiter - 1) }
    | _ => none
  | .unblock =>
    match s.finish with
    | .unblocking id => some { s with parking := s.parking.unblock id, finish := .returned }
    | _ => none
  | .drain cpu => (s.store.drain cpu).map fun store => { s with store := store }
  | .stray => some { s with parking := s.parking.unblock me }

/-- Thread `me` waits, another processor finishes. -/
def machine (me : Nat) : Machine State Label where
  Init s := s = initial
  step := step me

/-- The answer is in memory, `finish` has returned, and the waiter is parked, or is
about to park with no wake recorded. -/
def Lost (me : Nat) (s : State) : Prop :=
  (s.store.memory .state = done ∨ s.store.memory .state = fault) ∧ s.finish = .returned ∧
    (s.wait = .parked ∧ s.parking.blocked me = true ∨
      s.wait = .blocking ∧ s.parking.wakePending me = false)

instance (me : Nat) (s : State) : Decidable (Lost me s) := inferInstanceAs (Decidable (_ ∧ _))

/-! ## A schedule that loses the waiter -/

/-- The waiter's registration stays in its store buffer over its second look and
over the whole of `finish`; then it parks. -/
def losingSchedule : List Label :=
  [.wait, .wait, .wait, .answer true, .drain .finishing, .swap, .drain .waiting, .wait]

/-- **A disk completion can lose its waiter**: the answer is there, `finish` has
returned without waking anybody, and the waiter is parked. -/
theorem lost_waiter_reachable : ∃ s, (machine 5).Reachable s ∧ Lost 5 s ∧ s.wait = .parked :=
  (machine 5).exists_reaches _ losingSchedule _ rfl (by decide)

/-! ## What a step can do -/

inductive Step (me : Nat) (s : State) : Label → State → Prop
  | lookAnswered {answer : Bool} (hpc : s.wait = .looking) :
      Step me s .wait { s with wait := .returned answer }
  | lookNone (hpc : s.wait = .looking) (ho : outcome (s.store.load .waiting .state) = none) :
      Step me s .wait { s with wait := .registering }
  | register (hpc : s.wait = .registering) : Step me s .wait
      { s with store := s.store.store .waiting .waiter (me + 1), wait := .checking }
  | checkAnswered {answer : Bool} (hpc : s.wait = .checking) :
      Step me s .wait { s with wait := .clearing answer }
  | checkNone (hpc : s.wait = .checking) (ho : outcome (s.store.load .waiting .state) = none) :
      Step me s .wait { s with wait := .blocking }
  | clear {answer : Bool} (hpc : s.wait = .clearing answer) : Step me s .wait
      { s with store := s.store.store .waiting .waiter 0, wait := .returned answer }
  | blockWoken (hpc : s.wait = .blocking) (hw : s.parking.wakePending me = true) :
      Step me s .wait { s with parking := (s.parking.blockCurrent me).1, wait := .looking }
  | blockPark (hpc : s.wait = .blocking) (hd : s.store.buffer .waiting = [])
      (hw : s.parking.wakePending me = false) :
      Step me s .wait { s with parking := (s.parking.blockCurrent me).1, wait := .parked }
  | resume (hpc : s.wait = .parked) (hb : s.parking.blocked me = false) :
      Step me s .wait { s with wait := .looking }
  | answer {ok : Bool} (hpc : s.finish = .start) : Step me s (.answer ok) { s with
        store := s.store.store .finishing .state (if ok then done else fault)
        finish := .swapping }
  | swapNone (hpc : s.finish = .swapping) (hd : s.store.buffer .finishing = [])
      (hw : s.store.memory .waiter = 0) : Step me s .swap { s with
          store := { s.store with memory := Function.update s.store.memory .waiter 0 }
          finish := .returned }
  | swapSome (hpc : s.finish = .swapping) (hd : s.store.buffer .finishing = [])
      (hw : s.store.memory .waiter ≠ 0) : Step me s .swap { s with
          store := { s.store with memory := Function.update s.store.memory .waiter 0 }
          finish := .unblocking (s.store.memory .waiter - 1) }
  | unblock {id : Nat} (hpc : s.finish = .unblocking id) :
      Step me s .unblock { s with parking := s.parking.unblock id, finish := .returned }
  | drain {cpu : Cpu} {store : StoreBuffer Cpu Loc Nat} (hd : s.store.drain cpu = some store) :
      Step me s (.drain cpu) { s with store := store }
  | stray : Step me s .stray { s with parking := s.parking.unblock me }

variable {me : Nat} {s s' : State}

theorem waitStep_cases (h : waitStep me s = some s') : Step me s .wait s' := by
  unfold waitStep at h
  split at h
  · rename_i hpc
    split at h
    · exact some.inj h ▸ .lookAnswered hpc
    · exact some.inj h ▸ .lookNone hpc ‹_›
  · exact some.inj h ▸ .register ‹_›
  · rename_i hpc
    split at h
    · exact some.inj h ▸ .checkAnswered hpc
    · exact some.inj h ▸ .checkNone hpc ‹_›
  · exact some.inj h ▸ .clear ‹_›
  · rename_i hpc
    split at h
    · rename_i hd
      cases h
      cases hw : s.parking.wakePending me with
      | true =>
        rw [Parking.blockCurrent_snd, hw]
        exact .blockWoken hpc hw
      | false =>
        rw [Parking.blockCurrent_snd, hw]
        exact .blockPark hpc (drained_iff.mp hd) hw
    · cases h
  · rename_i hpc
    split at h
    · cases h
    · rename_i hb
      exact some.inj h ▸ .resume hpc (by simpa using hb)
  · cases h

variable {l : Label}

theorem step_cases (h : step me s l = some s') : Step me s l s' := by
  cases l with
  | wait => exact waitStep_cases h
  | answer =>
    simp only [step] at h
    split at h
    · exact some.inj h ▸ .answer ‹_›
    · cases h
  | swap =>
    simp only [step] at h
    split at h
    · rename_i hpc
      obtain ⟨⟨_, store⟩, hex, rfl⟩ := map_eq_some_iff.mp h
      obtain ⟨hd, rfl, rfl⟩ := exchange_eq_some hex
      by_cases hw : s.store.memory .waiter = 0
      · have hstep : Step me s .swap _ := .swapNone hpc hd hw
        simpa [hw] using hstep
      · have hstep : Step me s .swap _ := .swapSome hpc hd hw
        simpa [hw] using hstep
    · cases h
  | unblock =>
    simp only [step] at h
    split at h
    · exact some.inj h ▸ .unblock ‹_›
    · cases h
  | drain =>
    obtain ⟨store, hd, rfl⟩ := map_eq_some_iff.mp h
    exact .drain hd
  | stray => exact some.inj h ▸ .stray

/-! ## The only gap -/

/-- `finish` swaps while the waiter is past its second look, with no wake recorded
and its registration not in memory. -/
def MissesWaiter (me : Nat) (s : State) (l : Label) : Prop :=
  l = .swap ∧ s.wait = .blocking ∧ s.parking.wakePending me = false ∧ s.store.memory .waiter = 0

/-- `finish` has not swapped yet. -/
@[simp] def FinishPc.early : FinishPc → Bool
  | .start | .swapping => true
  | _ => false

/-- A word of `state` that is an answer. -/
def Answer (v : Nat) : Prop := v = done ∨ v = fault

structure Inv (me : Nat) (s : State) : Prop where
  /-- The waiter stores into `waiter` only. -/
  own : ∀ x ∈ s.store.buffer .waiting, x.1 = .waiter ∧ (x.2 = 0 ∨ x.2 = me + 1)
  word : s.store.memory .waiter = 0 ∨ s.store.memory .waiter = me + 1
  /-- `finish` stores its answer only. -/
  answers : ∀ x ∈ s.store.buffer .finishing, x.1 = .state ∧ Answer x.2
  /-- Once `finish` has stored it, the answer is in the buffer or in memory. -/
  answered : s.finish ≠ .start → s.store.buffer .finishing = [] → Answer (s.store.memory .state)
  /-- A locked exchange leaves nothing in the buffer. -/
  swapped : s.finish.early = false → s.store.buffer .finishing = []
  blocks : s.parking.blocked me = true → s.wait = .parked
  /-- The waiter sees its own registration from its second look on. -/
  registered : s.finish.early = true → s.wait = .checking ∨ s.wait = .blocking →
    s.store.load .waiting .waiter = me + 1
  /-- A parked waiter's registration is in memory until it is swapped out. -/
  parks : s.finish.early = true → s.wait = .parked →
    s.store.buffer .waiting = [] ∧ s.store.memory .waiter = me + 1
  /-- `finish` unblocks the waiter and nobody else. -/
  unblocks : ∀ id, s.finish = .unblocking id → id = me
  /-- Once `finish` has returned, the waiter is awake or has a wake recorded. -/
  woken : s.finish = .returned → (s.wait = .blocking → s.parking.wakePending me = true) ∧
      (s.wait = .parked → s.parking.blocked me = false)

theorem initial_inv (me : Nat) : Inv me initial := by
  constructor <;> simp [initial, Parking.initial]

section

variable (hi : Inv me s)
include hi

/-- The waiter reads `state` from memory. -/
theorem Inv.load_state : s.store.load .waiting .state = s.store.memory .state := by
  refine load_of_not_stored fun x hx => ?_
  rw [(hi.own x hx).1]
  simp

/-- Once `finish` has swapped, the waiter sees the answer wherever it looks. -/
theorem Inv.sees_answer (h : s.finish.early = false) :
    outcome (s.store.load .waiting .state) ≠ none := by
  have hstart : s.finish ≠ .start := by
    intro hs
    simp [hs] at h
  rw [hi.load_state]
  rcases hi.answered hstart (hi.swapped h) with ha | ha <;> simp [outcome, ha, done, fault]

variable {pc : WaitPc}

/-- The waiter moves without touching memory, to a place from which it does not
sleep. -/
theorem Inv.goto (hb : s.parking.blocked me = false) (hc : pc ≠ .checking) (hblock : pc ≠ .blocking)
    (hpark : pc ≠ .parked) : Inv me { s with wait := pc } := { hi with
    blocks := fun h => absurd (hb.symm.trans h) (by simp)
    registered := fun _ h => absurd h (by simp [hc, hblock])
    parks := fun _ h => absurd h hpark
    woken := fun _ => ⟨fun h => absurd h hblock, fun h => absurd h hpark⟩ }

theorem Inv.not_blocked (h : s.wait ≠ .parked) : s.parking.blocked me = false := by
  by_contra hb
  exact h (hi.blocks (by simpa using hb))

/-- The waiter stores `v` into `waiter` and moves on. -/
theorem Inv.store {v : Nat} (hb : s.parking.blocked me = false) (hv : v = 0 ∨ v = me + 1)
    (hc : pc = .checking → v = me + 1) (hblock : pc ≠ .blocking) (hpark : pc ≠ .parked) :
    Inv me { s with store := s.store.store .waiting .waiter v, wait := pc } where
  own x hx := by
    rw [show (s.store.store .waiting .waiter v).buffer .waiting =
      s.store.buffer .waiting ++ [(.waiter, v)] by simp [StoreBuffer.store]] at hx
    rcases mem_append.mp hx with hx | hx
    · exact hi.own x hx
    · rw [mem_singleton.mp hx]
      exact ⟨rfl, hv⟩
  word := hi.word
  answers := by simpa [StoreBuffer.store] using hi.answers
  answered := by simpa [StoreBuffer.store] using hi.answered
  swapped := by simpa [StoreBuffer.store] using hi.swapped
  blocks h := absurd (hb.symm.trans h) (by simp)
  registered _ h := by
    rcases h with h | h
    · rw [load_store_self, hc h]
    · exact absurd h hblock
  parks _ h := absurd h hpark
  unblocks := hi.unblocks
  woken _ := ⟨fun h => absurd h hblock, fun h => absurd h hpark⟩

theorem inv_block (hpc : s.wait = .blocking)
    (hd : s.store.buffer .waiting = []) (hw : s.parking.wakePending me = false) :
    Inv me { s with parking := (s.parking.blockCurrent me).1, wait := .parked } := { hi with
    blocks := fun _ => rfl
    registered := fun _ h => absurd h (by simp)
    parks := fun he _ => by
      -- Its buffer is empty, so what it sees is what is in memory.
      refine ⟨hd, ?_⟩
      rw [← hi.registered he (.inr hpc)]
      exact (load_of_not_stored (by simp [hd])).symm
    woken := fun hf => by
      have := (hi.woken hf).1 hpc
      simp [hw] at this }

theorem inv_answer (hpc : s.finish = .start) (v : Nat) (hv : Answer v) :
    Inv me { s with store := s.store.store .finishing .state v, finish := .swapping } where
  own := by simpa [store] using hi.own
  word := hi.word
  answers x hx := by
    rw [show (s.store.store .finishing .state v).buffer .finishing =
      s.store.buffer .finishing ++ [(.state, v)] by simp [store]] at hx
    rcases mem_append.mp hx with hx | hx
    · exact hi.answers x hx
    · rw [mem_singleton.mp hx]
      exact ⟨rfl, hv⟩
  answered _ h := by simp [store] at h
  swapped h := by simp at h
  blocks := hi.blocks
  registered _ h := by
    have hl := hi.registered (by simp [hpc]) h
    simpa [load, store] using hl
  parks _ h := by
    have hp := hi.parks (by simp [hpc]) h
    simpa [store] using hp
  unblocks id h := by simp at h
  woken h := by simp at h

/-- What the swap leaves, whatever it found, if it is right to stop there. -/
theorem inv_swap (hpc : s.finish = .swapping)
    (hd : s.store.buffer .finishing = []) {pc : FinishPc} (hpc' : pc.early = false)
    (hun : ∀ id, pc = .unblocking id → id = me)
    (hret : pc = .returned → (s.wait = .blocking → s.parking.wakePending me = true) ∧
      (s.wait = .parked → s.parking.blocked me = false)) : Inv me { s with
      store := { s.store with memory := Function.update s.store.memory .waiter 0 }
      finish := pc } where
  own := hi.own
  word := .inl (by simp)
  answers := hi.answers
  answered _ _ := by
    simpa using hi.answered (by simp [hpc]) hd
  swapped _ := hd
  blocks := hi.blocks
  registered h := absurd (hpc'.symm.trans h) (by simp)
  parks h := absurd (hpc'.symm.trans h) (by simp)
  unblocks := hun
  woken := hret

theorem inv_drain {cpu : Cpu}
    {store : StoreBuffer Cpu Loc Nat} (h : s.store.drain cpu = some store) :
    Inv me { s with store := store } := by
  have hload := load_drain h
  obtain ⟨l, v, _, hbuf, rfl⟩ := drain_eq_some h
  cases cpu with
  | waiting =>
    obtain ⟨rfl, hv⟩ := hi.own (l, v) (by simp [hbuf])
    exact { hi with
        own := fun x hx => hi.own x (by rw [hbuf]; exact mem_cons_of_mem _ (by simpa using hx))
        word := by simpa using hv
        answers := by simpa using hi.answers
        answered := by simpa using hi.answered
        swapped := by simpa using hi.swapped
        registered := fun he hw => (hload .waiter).trans (hi.registered he hw)
        parks := fun he hw => by
          have hp := (hi.parks he hw).1
          simp [hbuf] at hp }
  | finishing =>
    obtain ⟨rfl, hv⟩ := hi.answers (l, v) (by simp [hbuf])
    have hearly : s.finish.early = true := by
      by_contra he
      have := hi.swapped (by simpa using he)
      simp [hbuf] at this
    exact { hi with
        own := by simpa using hi.own
        word := by simpa using hi.word
        answers := fun x hx =>
          hi.answers x (by rw [hbuf]; exact mem_cons_of_mem _ (by simpa using hx))
        answered := fun _ _ => by simpa using hv
        swapped := fun h => absurd (hearly.symm.trans h) (by simp)
        registered := fun he hw => by
          have hl := hi.registered he hw
          simpa [load] using hl
        parks := fun he hw => by simpa using hi.parks he hw }

/-- Unblocking the waiter leaves it awake, or with a wake recorded. -/
theorem inv_unblock {pc : FinishPc}
    (hpc : pc = s.finish ∨ s.finish = .unblocking me ∧ pc = .returned) :
    Inv me { s with parking := s.parking.unblock me, finish := pc } := by
  have hearly : pc.early = s.finish.early := by
    rcases hpc with rfl | ⟨hf, rfl⟩
    · rfl
    · rw [hf]
      rfl
  exact { hi with
      answered := fun _ hd => by
        refine hi.answered (fun hs => ?_) hd
        rcases hpc with rfl | ⟨hf, -⟩
        · exact absurd hs ‹_›
        · cases hs.symm.trans hf
      swapped := fun h => hi.swapped (hearly ▸ h)
      blocks := fun h => absurd h (by simp)
      registered := fun h => hi.registered (hearly ▸ h)
      parks := fun h => hi.parks (hearly ▸ h)
      unblocks := fun id h => by
        rcases hpc with rfl | ⟨-, rfl⟩
        · exact hi.unblocks id h
        · simp at h
      woken := fun _ => by
        refine ⟨fun hb => Parking.unblock_wakePending_self (hi.not_blocked ?_), fun _ => by simp⟩
        rw [show s.wait = .blocking from hb]
        simp }

theorem inv_step (hok : ¬ MissesWaiter me s l) (h : Step me s l s') : Inv me s' := by
  cases h with
  | lookAnswered hpc | lookNone hpc | checkAnswered hpc =>
    exact hi.goto (hi.not_blocked (by simp [hpc])) (by simp) (by simp) (by simp)
  | register hpc =>
    exact hi.store (hi.not_blocked (by simp [hpc])) (.inr rfl) (fun _ => rfl) (by simp) (by simp)
  | checkNone hpc ho =>
    have hearly : s.finish.early = true := by
      by_contra he
      exact hi.sees_answer (by simpa using he) ho
    exact { hi with
        blocks := fun h => absurd ((hi.not_blocked (by simp [hpc])).symm.trans h) (by simp)
        registered := fun he _ => hi.registered he (.inl hpc)
        parks := fun _ h => absurd h (by simp)
        woken := fun hf => by
          have hf : s.finish = .returned := hf
          simp [hf] at hearly }
  | clear hpc =>
    exact hi.store (hi.not_blocked (by simp [hpc])) (.inl rfl) (by simp) (by simp) (by simp)
  | blockWoken hpc hw =>
    rw [Parking.blockCurrent_of_wake hw]
    have hb := hi.not_blocked (by simp [hpc])
    exact { hi with
        blocks := fun h => absurd (hb.symm.trans h) (by simp)
        registered := fun _ h => absurd h (by simp)
        parks := fun _ h => absurd h (by simp)
        woken := fun _ => ⟨fun h => absurd h (by simp), fun h => absurd h (by simp)⟩ }
  | blockPark hpc hd hw => exact inv_block hi hpc hd hw
  | resume hpc hb => exact hi.goto hb (by simp) (by simp) (by simp)
  | @answer ok hpc =>
    refine inv_answer hi hpc _ ?_
    cases ok
    · exact .inr rfl
    · exact .inl rfl
  | swapNone hpc hd hw =>
    -- Nobody is registered in memory, so the waiter is not parked; if it is about to
    -- park, a wake is recorded.
    refine inv_swap hi hpc hd rfl (by simp) (fun _ => ⟨fun hb => ?_, fun hp => ?_⟩)
    · by_contra hn
      exact hok ⟨rfl, hb, by simpa using hn, hw⟩
    · have := (hi.parks (by simp [hpc]) hp).2
      omega
  | swapSome hpc hd hw =>
    refine inv_swap hi hpc hd rfl (fun id hid => ?_) (by simp)
    have hword := hi.word.resolve_left hw
    simp only [FinishPc.unblocking.injEq] at hid
    omega
  | @unblock id hpc =>
    obtain rfl := hi.unblocks id hpc
    exact inv_unblock hi (.inr ⟨hpc, rfl⟩)
  | drain hd => exact inv_drain hi hd
  | stray => exact inv_unblock hi (.inl rfl)

theorem Inv.not_lost : ¬ Lost me s := by
  rintro ⟨-, hf, ⟨hp, hb⟩ | ⟨hp, hw⟩⟩
  · simp [(hi.woken hf).2 hp] at hb
  · simp [(hi.woken hf).1 hp] at hw

/-- After a swap that misses the waiter, the waiter is lost at once. -/
theorem lost_of_missesWaiter (hm : MissesWaiter me s l) (h : Step me s l s') : Lost me s' := by
  obtain ⟨rfl, hb, hw, hword⟩ := hm
  cases h with
  | swapNone hpc hd =>
    refine ⟨?_, rfl, .inr ⟨hb, hw⟩⟩
    simpa [Answer] using hi.answered (by simp [hpc]) hd
  | swapSome hpc hd hw' => exact absurd hword hw'

end

/-- **A run loses its waiter exactly when `finish` swaps in the gap**: between the
waiter's second look and its `block_current`, with its registration still in the
store buffer and no wake recorded. -/
theorem no_lost_waiter_iff {me : Nat} {p : List (State × Label)} {s : State}
    (h : (machine me).Path p s) :
    ((∀ x ∈ p, ¬ Lost me x.1) ∧ ¬ Lost me s) ↔ ∀ x ∈ p, ¬ MissesWaiter me x.1 x.2 := by
  have hinv : ∀ {p : List (State × Label)} {s : State}, (machine me).Path p s →
      (∀ x ∈ p, ¬ MissesWaiter me x.1 x.2) → Inv me s := by
    intro p s hp hok
    have hreach : (machine me).Reaches (fun s l => ¬ MissesWaiter me s l) s := hp.reaches hok
    exact hreach.invariant_from (initial_inv me) fun hi hok hs => inv_step hi hok (step_cases hs)
  induction h with
  | init h =>
    obtain rfl := h
    simp [(initial_inv me).not_lost]
  | @step r t l q hq hs ih =>
    constructor
    · rintro ⟨hvis, hlost⟩ x hx
      have htail : ∀ x ∈ q, ¬ MissesWaiter me x.1 x.2 :=
        ih.mp ⟨fun x hx => hvis x (mem_cons_of_mem _ hx), hvis (r, l) mem_cons_self⟩
      rcases mem_cons.mp hx with rfl | hx
      · intro hm
        exact hlost (lost_of_missesWaiter (hinv hq htail) hm (step_cases hs))
      · exact htail x hx
    · intro hok
      have htail : ∀ x ∈ q, ¬ MissesWaiter me x.1 x.2 := fun x hx => hok x (mem_cons_of_mem _ hx)
      obtain ⟨hvis, hr⟩ := ih.mpr htail
      refine ⟨fun x hx => ?_, (hinv (hq.step hs) hok).not_lost⟩
      rcases mem_cons.mp hx with rfl | hx
      · exact hr
      · exact hvis x hx

/-- The run in which the registration reaches memory before the swap. -/
theorem no_lost_waiter_iff_drained : ∃ p s, (machine 5).Path p s ∧ p.length = 8 ∧
    (((∀ x ∈ p, ¬ Lost 5 x.1) ∧ ¬ Lost 5 s) ↔ ∀ x ∈ p, ¬ MissesWaiter 5 x.1 x.2) := by
  have hex : ((machine 5).exec (fun _ _ => True) initial [.wait, .wait, .wait, .answer true,
      .drain .finishing, .drain .waiting, .swap, .unblock]).isSome = true := by decide
  obtain ⟨s, hs⟩ := isSome_iff_exists.mp hex
  obtain ⟨q, hq, hlen⟩ := (Machine.Path.init rfl).append_exec hs
  exact ⟨q ++ [], s, hq, by simpa using hlen, no_lost_waiter_iff hq⟩

end Panda.Completion
