import Mathlib.Data.Set.Card
import PandaProof.Machine
import PandaProof.Parking

/-!
# The request slots of a disk

`Slots` of `request.rs`, for any number of threads: `take` waits for one slot, `take_all` for
all of them, and while somebody is queued for all of them no single slot is handed out.
Every section under the lock, every atomic operation and every wake is a step of its own.

The slots handed out are disjoint and are exactly the busy ones, whatever happens.  Waiters
are woken all at once by every release, so a thread that sleeps does so because what it wants
is not to be had, with one exception: a thread that queued for every slot and then finds the
kernel panicking gives up without taking itself off the count, and single slots are not
handed out any more although nobody waits for all of them.
-/
namespace Panda.DiskSlots

open Function List Option Parking

variable {T : Type} {count : Nat}

/-! ## The slots -/

/-- `Slots::all`. -/
def allSlots (count : Nat) : BitVec 32 := (BitVec.allOnes 64 >>> (64 - count)).setWidth 32

/-- `trailing_zeros`. -/
def trailingZeros (bits : BitVec 32) : Nat := ((range 32).find? bits.getLsbD).getD 32

/-- What a request holds: the slot `take` returned, or what `take_all` took. -/
inductive Hold
  | slot (i : Nat)
  | all
  deriving DecidableEq

/-- What `give` and `give_all` release. -/
def Hold.bits (count : Nat) : Hold → BitVec 32
  | .slot i => 1#32 <<< i
  | .all => allSlots count

/-- The slot is one of those held. -/
def Hold.Has (count : Nat) (h : Hold) (i : Nat) : Prop := (h.bits count).getLsbD i = true

instance (h : Hold) (i : Nat) : Decidable (h.Has count i) :=
  inferInstanceAs (Decidable (_ = true))

/-! ## The machine -/

/-- What a caller of `acquire` wants: one slot, or all of them, for which it may have queued
(`queued_exclusive`). -/
inductive Want
  | one
  | all (queued : Bool)
  deriving DecidableEq

/-- Where a thread is in `acquire` or in `release`. -/
inductive Pc (T : Type)
  | outside
  /-- At the top of the loop, about to ask whether it may sleep. -/
  | deciding (want : Want)
  /-- About to enter the locked section. -/
  | claiming (want : Want) (sleep : Bool)
  /-- It took something, about to count the request. -/
  | counting (h : Hold)
  /-- About to raise the peak. -/
  | peaking (now : Nat)
  /-- It is on the list of waiters, about to call `block_current`. -/
  | blocking (want : Want)
  | parked (want : Want)
  /-- It may not sleep, about to look whether the kernel panics. -/
  | polling (want : Want)
  /-- The request is no longer counted, about to clear its bits. -/
  | clearing (h : Hold)
  /-- About to wake these, one after the other. -/
  | waking (rest : List T)
  deriving DecidableEq

structure State (T : Type) where
  busy : BitVec 32
  exclusiveWaiting : Nat
  waiters : List T
  inFlight : Nat
  peak : Nat
  panicking : Bool
  parking : Parking T
  pc : T → Pc T
  /-- What is taken and not given back, and by whom. -/
  held : List (T × Hold)

/-- `Slots::new`. -/
@[simp] def initial : State T := ⟨0, 0, [], 0, 0, false, .initial, fun _ => .outside, []⟩

def State.goto [DecidableEq T] (s : State T) (t : T) (pc : Pc T) : State T :=
  { s with pc := update s.pc t pc }

/-- The bits to take, if they are to be had. -/
def State.claim (count : Nat) (s : State T) : Want → Option (BitVec 32)
  | .all _ => if s.busy = 0 then some (allSlots count) else none
  | .one =>
    let free := ~~~s.busy &&& allSlots count
    if free ≠ 0 ∧ s.exclusiveWaiting = 0 then some (free &&& -free) else none

/-- What the caller makes of the bits it took. -/
def Want.hold (bits : BitVec 32) : Want → Hold
  | .one => .slot (trailingZeros bits)
  | .all _ => .all

/-- The wanting of a thread that went on the list of waiters. -/
def Want.enqueued : Want → Want
  | .one => .one
  | .all _ => .all true

/-- The locked section of `acquire`. -/
def State.acquire [DecidableEq T] (count : Nat) (s : State T) (t : T) (want : Want)
    (sleep : Bool) : State T := match s.claim count want with
  | some bits =>
    { s with
      busy := s.busy ||| bits
      exclusiveWaiting :=
        if want = Want.all true then s.exclusiveWaiting - 1 else s.exclusiveWaiting
      held := (t, want.hold bits) :: s.held }.goto t (.counting (want.hold bits))
  | none =>
    if sleep then
      { s with
        exclusiveWaiting :=
          if want = Want.all false then s.exclusiveWaiting + 1 else s.exclusiveWaiting
        waiters := s.waiters ++ [t] }.goto t (.blocking want.enqueued)
    else s.goto t (.polling want)

/-- What a running thread does next. -/
inductive Act
  /-- Calls `take` or `take_all`. -/
  | acquire (exclusive : Bool)
  /-- `can_sleep`, which is false once the kernel panics. -/
  | decide (canSleep : Bool)
  | claim
  | count
  | peak
  | block
  | resume
  | poll
  /-- Calls `give` or `give_all`. -/
  | give (h : Hold)
  | clear
  | wake
  /-- Calls `block_current` for a reason of its own. -/
  | elsewhere

/-- A thread runs, something unrelated unblocks it, or some processor panics. -/
inductive Label (T : Type)
  | run (t : T) (a : Act)
  | stray (t : T)
  | panic

/-- One atomic step.  A parked thread takes none. -/
def step [DecidableEq T] (count : Nat) (s : State T) : Label T → Option (State T)
  | .stray t => some { s with parking := s.parking.unblock t }
  | .panic => some { s with panicking := true }
  | .run t a =>
    if s.parking.blocked t then none
    else match a, s.pc t with
      | .acquire exclusive, .outside =>
        some (s.goto t (.deciding (if exclusive then .all false else .one)))
      | .decide canSleep, .deciding want =>
        some (s.goto t (.claiming want (canSleep && !s.panicking)))
      | .claim, .claiming want sleep => some (s.acquire count t want sleep)
      | .count, .counting _ =>
        some ({ s with inFlight := s.inFlight + 1 }.goto t (.peaking (s.inFlight + 1)))
      | .peak, .peaking now => some ({ s with peak := max s.peak now }.goto t .outside)
      | .block, .blocking want =>
        let r := s.parking.blockCurrent t
        some ({ s with parking := r.1 }.goto t (if r.2 then .parked want else .deciding want))
      | .resume, .parked want => some (s.goto t (.deciding want))
      | .poll, .polling want =>
        some (s.goto t (if s.panicking then .outside else .deciding want))
      | .give h, .outside =>
        if (t, h) ∈ s.held then
          some ({ s with inFlight := s.inFlight - 1 }.goto t (.clearing h))
        else none
      | .clear, .clearing h =>
        some ({ s with
          busy := s.busy &&& ~~~h.bits count
          waiters := []
          held := s.held.erase (t, h) }.goto t (.waking s.waiters))
      | .wake, .waking [] => some (s.goto t .outside)
      | .wake, .waking (next :: rest) =>
        some ({ s with parking := s.parking.unblock next }.goto t (.waking rest))
      | .elsewhere, .outside => some { s with parking := (s.parking.blockCurrent t).1 }
      | _, _ => none

def machine (count : Nat) (T : Type) [DecidableEq T] : Machine (State T) (Label T) where
  Init s := s = initial
  step := step count

/-- What the thread wants, in the loop of `acquire`. -/
@[simp] def Pc.want : Pc T → Option Want
  | .deciding want | .claiming want _ | .blocking want | .parked want | .polling want => some want
  | _ => none

/-- What the thread is on the list of waiters for. -/
def Pc.waits : Pc T → Option Want
  | .blocking want | .parked want => some want
  | _ => none

/-- The threads it is about to wake. -/
@[simp] def Pc.wakes : Pc T → List T
  | .waking rest => rest
  | _ => []

/-- What the thread waits for is to be had: every slot, or one with nobody queued for every
slot. -/
def State.Available (count : Nat) (s : State T) : Want → Prop
  | .all _ => s.busy = 0
  | .one => ~~~s.busy &&& allSlots count ≠ 0 ∧ ∀ u, (s.pc u).want ≠ some (.all true)

/-- **What the slots promise.** -/
structure Sound (count : Nat) (s : State T) : Prop where
  disjoint : s.held.Pairwise fun x y => ∀ i, ¬ (x.2.Has count i ∧ y.2.Has count i)
  busy : ∀ i, s.busy.getLsbD i = true ↔ ∃ x ∈ s.held, x.2.Has count i
  alone : ∀ t, (t, Hold.all) ∈ s.held → s.held = [(t, Hold.all)]
  peak : s.peak ≤ count
  /-- A thread stays parked with what it wants to be had only until the release that will
  wake it gets to it. -/
  awaited : ∀ t want, s.pc t = .parked want → s.parking.blocked t = true →
    s.Available count want → ∃ u rest, s.pc u = .waking rest ∧ t ∈ rest

/-- No thread that has queued for every slot gives up. -/
def StaysQueued (s : State T) : Label T → Prop
  | .run t .poll => s.pc t = .polling (.all true) → s.panicking = false
  | _ => True

instance [DecidableEq T] (s : State T) (l : Label T) : Decidable (StaysQueued s l) := by
  cases l with
  | run t a => cases a <;> unfold StaysQueued <;> infer_instance
  | stray | panic => exact isTrue trivial

/-! ## Bits -/

open State

theorem getLsbD_allSlots (h : count ≤ 32) (i : Nat) :
    (allSlots count).getLsbD i = decide (i < count) := by
  rw [allSlots, BitVec.getLsbD_setWidth, BitVec.getLsbD_ushiftRight, BitVec.getLsbD_allOnes]
  by_cases hi : i < count
  · simp [hi, show i < 32 by omega, show 64 - count + i < 64 by omega]
  · simp [hi]
    omega

theorem has_slot {i j : Nat} : (Hold.slot i).Has count j ↔ j = i ∧ i < 32 := by
  simp only [Hold.Has, Hold.bits, BitVec.getLsbD_shiftLeft]
  by_cases hji : j < i
  · simp [hji]
    omega
  · simp [hji, BitVec.getLsbD_one]
    omega

/-- The lowest bit that is set. -/
theorem lowest_bit {free : BitVec 32} (h : free ≠ 0) :
    free &&& -free = 1#32 <<< trailingZeros (free &&& -free) ∧
      trailingZeros (free &&& -free) < 32 := by
  have hbit : ∀ i, (free &&& -free).getLsbD i = true ↔
      free.getLsbD i = true ∧ ∀ j < i, free.getLsbD j = false := by
    intro i
    rw [BitVec.getLsbD_and, BitVec.getLsbD_neg]
    by_cases hi : i < 32
    · cases hf : free.getLsbD i <;> simp [hi]
    · simp [BitVec.getLsbD_of_ge _ _ (Nat.le_of_not_lt hi)]
  obtain ⟨k, hk, hlow⟩ : ∃ k, free.getLsbD k = true ∧ ∀ j < k, free.getLsbD j = false := by
    have hex : ∃ k, free.getLsbD k = true := by
      by_contra hnone
      refine h (BitVec.eq_of_getLsbD_eq fun i _ => ?_)
      simpa using not_exists.mp hnone i
    exact ⟨Nat.find hex, Nat.find_spec hex, fun j hj => by simpa using Nat.find_min hex hj⟩
  have hk32 : k < 32 := BitVec.lt_of_getLsbD hk
  have hzeros : trailingZeros (free &&& -free) = k := by
    have hfind : ((range 32).find? (free &&& -free).getLsbD) = some k := by
      rw [find?_range_eq_some]
      refine ⟨(hbit k).mpr ⟨hk, hlow⟩, mem_range.mpr hk32, fun j hj => ?_⟩
      simp [hlow j hj]
    rw [trailingZeros, hfind, getD_some]
  rw [hzeros]
  refine ⟨BitVec.eq_of_getLsbD_eq fun i hi => ?_, hk32⟩
  rw [Bool.eq_iff_iff, hbit, show (1#32 <<< k).getLsbD i = true ↔ i = k ∧ k < 32 from
    @has_slot 0 k i]
  constructor
  · rintro ⟨hfree, hnone⟩
    rcases Nat.lt_trichotomy i k with hlt | rfl | hgt
    · simp [hlow i hlt] at hfree
    · exact ⟨rfl, hk32⟩
    · simp [hnone k hgt] at hk
  · rintro ⟨rfl, -⟩
    exact ⟨hk, hlow⟩

/-! ## What the locked section takes -/

variable {s : State T} {want : Want}

/-- What a claim takes was free, and is what the holder will release. -/
theorem claim_eq_some {bits : BitVec 32} (hpos : 1 ≤ count)
    (hcount : count ≤ 32) (h : s.claim count want = some bits) :
    (want.hold bits).bits count = bits ∧ (∃ i, (want.hold bits).Has count i) ∧
      ∀ i, (want.hold bits).Has count i → i < count ∧ s.busy.getLsbD i = false := by
  have hall : ∀ i, (Hold.all).Has count i ↔ i < count := fun i => by
    rw [Hold.Has, Hold.bits, getLsbD_allSlots hcount, decide_eq_true_iff]
  cases want with
  | all =>
    obtain ⟨hbusy, rfl⟩ : s.busy = 0 ∧ allSlots count = bits := by
      simpa [claim] using h
    refine ⟨rfl, ⟨0, (hall 0).mpr hpos⟩, fun i hi => ⟨(hall i).mp hi, ?_⟩⟩
    simp [hbusy]
  | one =>
    obtain ⟨⟨hfree, -⟩, hbits⟩ : (~~~s.busy &&& allSlots count ≠ 0 ∧ s.exclusiveWaiting = 0) ∧
        (~~~s.busy &&& allSlots count) &&& -(~~~s.busy &&& allSlots count) = bits := by
      simpa [claim] using h
    obtain ⟨heq, hlt⟩ := lowest_bit hfree
    rw [hbits] at heq hlt
    refine ⟨heq.symm, ⟨trailingZeros bits, has_slot.mpr ⟨rfl, hlt⟩⟩, fun i hi => ?_⟩
    rw [Hold.Has, Want.hold, Hold.bits, ← heq, ← hbits, BitVec.getLsbD_and, BitVec.getLsbD_and,
      BitVec.getLsbD_not, getLsbD_allSlots hcount] at hi
    simp only [Bool.and_eq_true, Bool.not_eq_true', decide_eq_true_eq] at hi
    exact ⟨hi.1.2, hi.1.1.2⟩

theorem claim_eq_none : s.claim count want = none ↔ match want with
    | .all _ => s.busy ≠ 0
    | .one => ~~~s.busy &&& allSlots count = 0 ∨ s.exclusiveWaiting ≠ 0 := by
  cases want with
  | all => simp [claim]
  | one =>
    simp only [claim, ite_eq_right_iff, reduceCtorEq, imp_false, not_and_or, not_not]

variable {s' : State T}

/-- More is busy, and there is nothing to be had still. -/
theorem claim_none_mono (h : s.claim count want = none)
    (hbusy : ∀ i, s.busy.getLsbD i = true → s'.busy.getLsbD i = true)
    (hwaiting : s.exclusiveWaiting ≠ 0 → s'.exclusiveWaiting ≠ 0 ∨
      ~~~s'.busy &&& allSlots count = 0) : s'.claim count want = none := by
  rw [claim_eq_none] at h ⊢
  cases want with
  | all =>
    refine fun hzero => h (BitVec.eq_of_getLsbD_eq fun i _ => ?_)
    by_contra hne
    simpa [hzero] using hbusy i (by simpa using hne)
  | one =>
    rcases h with hfree | hne
    · refine .inl (BitVec.eq_of_getLsbD_eq fun i hi => ?_)
      have := congrArg (fun x => BitVec.getLsbD x i) hfree
      simp only [BitVec.getLsbD_and, BitVec.getLsbD_not, hi, decide_true, Bool.true_and] at this ⊢
      cases hs : s.busy.getLsbD i with
      | false => simp_all
      | true => simp [hbusy i hs]
    · exact (hwaiting hne).symm

theorem claim_enqueued : s.claim count want.enqueued = s.claim count want := by
  cases want <;> rfl

/-! ## What is handed out -/

/-- What the thread holds although it is not counted. -/
def Pc.pending : Pc T → Option Hold
  | .counting h | .clearing h => some h
  | _ => none

/-- The peak the thread is about to record. -/
def Pc.mark : Pc T → Nat
  | .peaking now => now
  | _ => 0

/-- The requests that are counted. -/
def State.counted (s : State T) : Set (T × Hold) :=
  {x | x ∈ s.held ∧ (s.pc x.1).pending ≠ some x.2}

/-- The busy bits and the counters are those of the requests there are. -/
structure Handed (count : Nat) (s : State T) : Prop where
  disjoint : s.held.Pairwise fun x y => ∀ i, ¬ (x.2.Has count i ∧ y.2.Has count i)
  busy : ∀ i, s.busy.getLsbD i = true ↔ ∃ x ∈ s.held, x.2.Has count i
  nonempty : ∀ x ∈ s.held, ∃ i, x.2.Has count i
  bound : ∀ x ∈ s.held, ∀ i, x.2.Has count i → i < count
  pending : ∀ t h, (s.pc t).pending = some h → (t, h) ∈ s.held
  inFlight : s.counted.encard = s.inFlight
  mark : ∀ t, (s.pc t).mark ≤ count
  peak : s.peak ≤ count

namespace Handed
variable {s s' : State T} (h : Handed count s)
include h

/-- Two requests with a slot in common are one. -/
theorem eq_of_has {x y : T × Hold} (hx : x ∈ s.held) (hy : y ∈ s.held) {i : Nat}
    (hxi : x.2.Has count i) (hyi : y.2.Has count i) : x = y := by
  by_contra hne
  have : Std.Symm fun x y : T × Hold => ∀ i, ¬ (x.2.Has count i ∧ y.2.Has count i) :=
    ⟨fun a b hab i ⟨hb, ha⟩ => hab i ⟨ha, hb⟩⟩
  exact h.disjoint.forall hx hy hne i ⟨hxi, hyi⟩

theorem nodup : s.held.Nodup :=
  h.disjoint.imp_of_mem fun {x y} hx _ hxy heq => by
    obtain ⟨i, hi⟩ := h.nonempty x hx
    exact hxy i ⟨hi, heq ▸ hi⟩

/-- **There are no more requests than slots.** -/
theorem encard_le : {x | x ∈ s.held}.encard ≤ count := by
  choose! slot hslot using h.nonempty
  have hmaps : Set.MapsTo slot {x | x ∈ s.held} (Finset.range count : Set ℕ) := fun x hx =>
    Finset.mem_coe.mpr (Finset.mem_range.mpr (h.bound x hx _ (hslot x hx)))
  have hinj : Set.InjOn slot {x | x ∈ s.held} := fun x hx y hy hxy =>
    h.eq_of_has hx hy (hslot x hx) (hxy ▸ hslot y hy)
  refine (Set.encard_le_encard_of_injOn hmaps hinj).trans ?_
  rw [Set.encard_coe_eq_coe_finsetCard, Finset.card_range]

/-- Nothing is handed out or given back. -/
theorem of_same (hbusy : s'.busy = s.busy) (hheld : s'.held = s.held)
    (hinFlight : s'.inFlight = s.inFlight)
    (hpending : ∀ t, (s'.pc t).pending = (s.pc t).pending) (hmark : ∀ t, (s'.pc t).mark ≤ count)
    (hpeak : s'.peak ≤ count) : Handed count s' := by
  refine ⟨hheld ▸ h.disjoint, ?_, hheld ▸ h.nonempty, hheld ▸ h.bound, ?_, ?_, hmark, hpeak⟩
  · rw [hbusy, hheld]
    exact h.busy
  · simp only [hpending, hheld]
    exact h.pending
  · rw [hinFlight, ← h.inFlight]
    simp [counted, hpending, hheld]

end Handed

/-- The threads queued for every slot. -/
def queued (pc : T → Pc T) : Set T := {t | (pc t).want = some (.all true)}

theorem mem_queued {pc : T → Pc T} {t : T} : t ∈ queued pc ↔ (pc t).want = some (.all true) :=
  Iff.rfl

/-! ## What a step can do -/

/-- A thread that goes on without touching anything. -/
inductive Move (s : State T) : Act → Pc T → Pc T → Prop
  | acquire (exclusive : Bool) :
      Move s (.acquire exclusive) .outside (.deciding (if exclusive then .all false else .one))
  | decide (canSleep : Bool) (want : Want) :
      Move s (.decide canSleep) (.deciding want) (.claiming want (canSleep && !s.panicking))
  | refused (want : Want) : Move s .claim (.claiming want false) (.polling want)
  | resume (want : Want) : Move s .resume (.parked want) (.deciding want)
  | poll (want : Want) (h : s.panicking = false) : Move s .poll (.polling want) (.deciding want)
  | giveUp (want : Want) (h : s.panicking = true) : Move s .poll (.polling want) .outside
  | done : Move s .wake (.waking []) .outside

variable {p p' : Pc T}

theorem Move.pending {a : Act} (h : Move s a p p') : p'.pending = p.pending ∧ p'.mark = 0 := by
  cases h <;> exact ⟨rfl, rfl⟩

theorem Move.waits {a : Act} (h : Move s a p p') : p'.waits = none ∧ p.wakes = [] := by
  cases h <;> exact ⟨rfl, rfl⟩

variable [DecidableEq T]

/-- What a running thread does, one constructor for each way the state can change. -/
inductive Runs (count : Nat) (s : State T) (t : T) : Act → State T → Prop
  | elsewhere (hpc : s.pc t = .outside) :
      Runs count s t .elsewhere { s with parking := (s.parking.blockCurrent t).1 }
  | move {a : Act} {pc : Pc T} (h : Move s a (s.pc t) pc) : Runs count s t a (s.goto t pc)
  | claimed {want : Want} {sleep : Bool} {bits : BitVec 32} (hpc : s.pc t = .claiming want sleep)
      (hclaim : s.claim count want = some bits) : Runs count s t .claim ({ s with
        busy := s.busy ||| bits
        exclusiveWaiting :=
          if want = Want.all true then s.exclusiveWaiting - 1 else s.exclusiveWaiting
        held := (t, want.hold bits) :: s.held }.goto t (.counting (want.hold bits)))
  | listed {want : Want} (hpc : s.pc t = .claiming want true)
      (hclaim : s.claim count want = none) : Runs count s t .claim ({ s with
        exclusiveWaiting :=
          if want = Want.all false then s.exclusiveWaiting + 1 else s.exclusiveWaiting
        waiters := s.waiters ++ [t] }.goto t (.blocking want.enqueued))
  | counted {h : Hold} (hpc : s.pc t = .counting h) : Runs count s t .count
        ({ s with inFlight := s.inFlight + 1 }.goto t (.peaking (s.inFlight + 1)))
  | peaked {now : Nat} (hpc : s.pc t = .peaking now) :
      Runs count s t .peak ({ s with peak := max s.peak now }.goto t .outside)
  | woken {want : Want} (hpc : s.pc t = .blocking want) (hw : s.parking.wakePending t = true) :
      Runs count s t .block
        ({ s with parking := (s.parking.blockCurrent t).1 }.goto t (.deciding want))
  | parked {want : Want} (hpc : s.pc t = .blocking want) (hw : s.parking.wakePending t = false) :
      Runs count s t .block
        ({ s with parking := (s.parking.blockCurrent t).1 }.goto t (.parked want))
  | given {h : Hold} (hpc : s.pc t = .outside) (hheld : (t, h) ∈ s.held) :
      Runs count s t (.give h) ({ s with inFlight := s.inFlight - 1 }.goto t (.clearing h))
  | cleared {h : Hold} (hpc : s.pc t = .clearing h) : Runs count s t .clear ({ s with
        busy := s.busy &&& ~~~h.bits count
        waiters := []
        held := s.held.erase (t, h) }.goto t (.waking s.waiters))
  | wake {next : T} {rest : List T} (hpc : s.pc t = .waking (next :: rest)) :
      Runs count s t .wake ({ s with parking := s.parking.unblock next }.goto t (.waking rest))

variable {l : Label T} {t : T} {a : Act}

theorem runs_of_step (h : step count s (.run t a) = some s') :
    s.parking.blocked t = false ∧ Runs count s t a s' := by
  cases hrun : s.parking.blocked t with
  | true => simp [step, hrun] at h
  | false =>
    refine ⟨rfl, ?_⟩
    cases a <;> cases hpc : s.pc t <;> simp only [step, hrun, hpc, reduceCtorEq, if_false,
      Bool.false_eq_true, some.injEq] at h
    · exact h ▸ .move (hpc ▸ .acquire _)
    · exact h ▸ .move (hpc ▸ .decide ..)
    · rename_i want sleep
      unfold acquire at h
      cases hclaim : s.claim count want with
      | some =>
        simp only [hclaim] at h
        exact h ▸ .claimed hpc hclaim
      | none =>
        simp only [hclaim] at h
        cases sleep with
        | true => exact h ▸ .listed hpc hclaim
        | false => exact h ▸ .move (hpc ▸ .refused want)
    · exact h ▸ .counted hpc
    · exact h ▸ .peaked hpc
    · cases hw : s.parking.wakePending t with
      | true =>
        simp only [blockCurrent_snd, hw, Bool.not_true, if_false, Bool.false_eq_true] at h
        exact h ▸ .woken hpc hw
      | false =>
        simp only [blockCurrent_snd, hw, Bool.not_false, if_true] at h
        exact h ▸ .parked hpc hw
    · exact h ▸ .move (hpc ▸ .resume _)
    · cases hp : s.panicking with
      | true => exact (by simpa [hp] using h) ▸ .move (hpc ▸ .giveUp _ hp)
      | false => exact (by simpa [hp] using h) ▸ .move (hpc ▸ .poll _ hp)
    · obtain ⟨hheld, rfl⟩ := Machine.of_guard h
      exact .given hpc hheld
    · exact h ▸ .cleared hpc
    · rename_i rest
      cases rest with
      | nil => exact some.inj h ▸ .move (hpc ▸ .done)
      | cons => exact some.inj h ▸ .wake hpc
    · exact h ▸ .elsewhere hpc

variable {pc : Pc T}

theorem forall_goto {P : T → Pc T → Prop} :
    (∀ u, P u ((s.goto t pc).pc u)) ↔ P t pc ∧ ∀ u, u ≠ t → P u (s.pc u) := forall_update_iff s.pc P

variable {u : T}

/-- A thread goes on, and the requests of the others are counted as before. -/
theorem counted_goto {r : State T} {A : Set (T × Hold)}
    (hself : ∀ k, (t, k) ∈ r.held ∧ pc.pending ≠ some k ↔ (t, k) ∈ A)
    (hothers : ∀ u, u ≠ t → ∀ k, (u, k) ∈ r.held ∧ (r.pc u).pending ≠ some k ↔ (u, k) ∈ A) :
    (r.goto t pc).counted = A := Set.ext fun ⟨u, k⟩ => forall_goto
    (P := fun u pc => ∀ k, (u, k) ∈ r.held ∧ pc.pending ≠ some k ↔ (u, k) ∈ A).mpr
    ⟨hself, hothers⟩ u k

namespace Handed
variable {s s' : State T} (h : Handed count s)
include h

theorem goto {t : T} {pc : Pc T} (hbusy : s'.busy = s.busy) (hheld : s'.held = s.held)
    (hinFlight : s'.inFlight = s.inFlight) (hpc : s'.pc = s.pc)
    (hpending : pc.pending = (s.pc t).pending) (hmark : pc.mark ≤ count)
    (hpeak : s'.peak ≤ count) : Handed count (s'.goto t pc) := by
  refine h.of_same hbusy hheld hinFlight (forall_goto
    (P := fun u pc => pc.pending = (s.pc u).pending) |>.mpr ⟨hpending, fun u _ => by rw [hpc]⟩)
    (forall_goto (P := fun _ pc => pc.mark ≤ count).mpr ⟨hmark, fun u _ => hpc ▸ h.mark u⟩) hpeak

/-- A thread goes on, and what is handed out changes. -/
theorem change {t : T} {pc : Pc T} (hpc : s'.pc = s.pc)
    (hdisjoint : s'.held.Pairwise fun x y => ∀ i, ¬ (x.2.Has count i ∧ y.2.Has count i))
    (hbusy : ∀ i, s'.busy.getLsbD i = true ↔ ∃ x ∈ s'.held, x.2.Has count i)
    (hnew : ∀ x ∈ s'.held, x ∈ s.held ∨ (∃ i, x.2.Has count i) ∧ ∀ i, x.2.Has count i → i < count)
    (hself : ∀ k, pc.pending = some k → (t, k) ∈ s'.held)
    (hothers : ∀ u, u ≠ t → ∀ k, (u, k) ∈ s.held → (u, k) ∈ s'.held)
    (hcounted : (s'.goto t pc).counted.encard = s'.inFlight) (hmark : pc.mark ≤ count)
    (hpeak : s'.peak = s.peak) : Handed count (s'.goto t pc) where
  disjoint := hdisjoint
  busy := hbusy
  nonempty x hx := (hnew x hx).elim (h.nonempty x) And.left
  bound x hx := (hnew x hx).elim (h.bound x) And.right
  pending := forall_goto (P := fun u pc => ∀ k, pc.pending = some k → (u, k) ∈ s'.held).mpr
    ⟨hself, fun u hu k hk => hothers u hu k (h.pending u k (hpc ▸ hk))⟩
  inFlight := hcounted
  mark := forall_goto (P := fun _ pc => pc.mark ≤ count).mpr ⟨hmark, fun u _ => hpc ▸ h.mark u⟩
  peak := hpeak.trans_le h.peak

end Handed

theorem handed_step (hpos : 1 ≤ count) (hcount : count ≤ 32)
    (h : Handed count s) (hs : Runs count s t a s') : Handed count s' := by
  cases hs with
  | elsewhere => exact h.of_same rfl rfl rfl (fun _ => rfl) h.mark h.peak
  | move hmove =>
    exact h.goto rfl rfl rfl rfl hmove.pending.1 (hmove.pending.2 ▸ Nat.zero_le _) h.peak
  | listed hpc | woken hpc | parked hpc | wake hpc =>
    exact h.goto rfl rfl rfl rfl (by rw [hpc]; rfl) (Nat.zero_le _) h.peak
  | peaked hpc =>
    refine h.goto rfl rfl rfl rfl (by rw [hpc]; rfl) (Nat.zero_le _) (Nat.max_le.mpr ⟨h.peak, ?_⟩)
    have := h.mark t
    rwa [hpc] at this
  | @claimed want sleep bits hpc hclaim =>
    obtain ⟨hbits, hsome, hfree⟩ := claim_eq_some hpos hcount hclaim
    have hnew : ∀ x ∈ s.held, ∀ i, ¬ ((want.hold bits).Has count i ∧ x.2.Has count i) := by
      rintro x hx i ⟨hi, hxi⟩
      simpa [(hfree i hi).2] using (h.busy i).mpr ⟨x, hx, hxi⟩
    refine h.change rfl (pairwise_cons.mpr ⟨hnew, h.disjoint⟩) (fun i => ?_)
      (forall_mem_cons.mpr ⟨.inr ⟨hsome, fun i hi => (hfree i hi).1⟩, fun _ => .inl⟩)
      (fun k hk => some.inj hk ▸ mem_cons_self) (fun u _ k => mem_cons_of_mem _)
      ((congrArg Set.encard (counted_goto (fun k => ?_) fun u hu k => ?_)).trans h.inFlight)
      (Nat.zero_le _) rfl
    · change (s.busy ||| bits).getLsbD i = true ↔ ∃ x ∈ (t, want.hold bits) :: s.held, _
      rw [BitVec.getLsbD_or, Bool.or_eq_true, h.busy, or_comm, exists_mem_cons_iff]
      exact or_congr_left (by rw [Hold.Has, hbits])
    · obtain ⟨i, hi⟩ := hsome
      have hne : (t, k) ∈ s.held → want.hold bits ≠ k := by
        rintro hmem rfl
        exact hnew _ hmem i ⟨hi, hi⟩
      simp only [counted, mem_cons, Prod.mk.injEq, true_and, hpc, Pc.pending, Set.mem_ofPred_eq]
      grind
    · simp [counted, hu]
  | @counted hold hpc =>
    have hmem : (t, hold) ∈ s.held := h.pending t hold (by rw [hpc]; rfl)
    have hnot : (t, hold) ∉ s.counted := fun hcontra => hcontra.2 (by rw [hpc]; rfl)
    have hcard : (insert (t, hold) s.counted).encard = ↑(s.inFlight + 1) := by
      rw [Set.encard_insert_of_notMem hnot, h.inFlight]
      rfl
    refine h.change rfl h.disjoint h.busy (fun _ => .inl) (fun k hk => (by cases hk))
      (fun _ _ _ => id)
      ((congrArg Set.encard (counted_goto (fun k => ?_) fun u hu k => ?_)).trans hcard) ?_ rfl
    · simp only [counted, Set.mem_insert_iff, Prod.mk.injEq, true_and, hpc, Pc.pending,
        Set.mem_ofPred_eq]
      grind
    · simp [counted, hu]
    have hsub : insert (t, hold) s.counted ⊆ {x | x ∈ s.held} :=
      Set.insert_subset hmem fun x hx => hx.1
    have hle := (Set.encard_le_encard hsub).trans h.encard_le
    rw [hcard] at hle
    exact_mod_cast hle
  | @given hold hpc hheld =>
    have hmem : (t, hold) ∈ s.counted := ⟨hheld, by simp [hpc, Pc.pending]⟩
    refine h.change rfl h.disjoint h.busy (fun _ => .inl) (fun k hk => some.inj hk ▸ hheld)
      (fun _ _ _ => id) ?_ (Nat.zero_le _) rfl
    rw [counted_goto (A := s.counted \ {(t, hold)}) (fun k => ?_) fun u hu k => ?_,
      Set.encard_sdiff_singleton_of_mem hmem, h.inFlight]
    · rfl
    · simp only [counted, Set.mem_sdiff, Set.mem_singleton_iff, Prod.mk.injEq, true_and, hpc,
        Pc.pending, Set.mem_ofPred_eq]
      grind
    · simp [counted, hu]
  | @cleared hold hpc =>
    have hmem : (t, hold) ∈ s.held := h.pending t hold (by rw [hpc]; rfl)
    have herase : ∀ {x}, x ∈ s.held.erase (t, hold) ↔ x ≠ (t, hold) ∧ x ∈ s.held :=
      h.nodup.mem_erase_iff
    have hrest : ∀ u, u ≠ t → ∀ k, (u, k) ∈ s.held.erase (t, hold) ↔ (u, k) ∈ s.held :=
      fun u hu k => herase.trans (and_iff_right fun heq => hu (congrArg Prod.fst heq))
    refine h.change rfl (h.disjoint.sublist erase_sublist) (fun i => ?_)
      (fun x hx => .inl (herase.mp hx).2) (fun k hk => (by cases hk))
      (fun u hu k => (hrest u hu k).mpr)
      ((congrArg Set.encard (counted_goto (fun k => ?_) fun u hu k => ?_)).trans h.inFlight)
      (Nat.zero_le _) rfl
    · change (s.busy &&& ~~~hold.bits count).getLsbD i = true ↔ ∃ x ∈ s.held.erase (t, hold), _
      rw [BitVec.getLsbD_and, BitVec.getLsbD_not, Bool.and_eq_true, h.busy]
      constructor
      · rintro ⟨⟨x, hx, hi⟩, hnot⟩
        refine ⟨x, herase.mpr ⟨?_, hx⟩, hi⟩
        rintro rfl
        simp [show (hold.bits count).getLsbD i = true from hi] at hnot
      · rintro ⟨x, hx, hi⟩
        obtain ⟨hne, hx⟩ := herase.mp hx
        refine ⟨⟨x, hx, hi⟩, ?_⟩
        have hnot : ¬ hold.Has count i := fun hcontra => hne (h.eq_of_has hx hmem hi hcontra)
        rw [Hold.Has, Bool.not_eq_true] at hnot
        rw [hnot, decide_eq_true ((h.bound x hx i hi).trans_le hcount)]
        rfl
    · simp only [counted, herase, ne_eq, Prod.mk.injEq, true_and, hpc, Pc.pending,
        Set.mem_ofPred_eq]
      grind
    · exact and_congr_left' (hrest u hu k)

/-! ## Who waits -/

/-- A thread on its way to sleep was woken. -/
def State.Woken (s : State T) (t : T) : Prop :=
  s.parking.blocked t = false ∧ (s.parking.wakePending t = true ∨ ∃ want, s.pc t = .parked want)

/-- A thread that waits is on the list with nothing to be had for it, or is being woken, or
was. -/
def State.Accounted (count : Nat) (s : State T) (t : T) : Prop :=
  ∀ want, (s.pc t).waits = some want →
    t ∈ s.waiters ∧ s.claim count want = none ∨ (∃ u, t ∈ (s.pc u).wakes) ∨ s.Woken t

structure Watched (count : Nat) (s : State T) : Prop where
  runs : ∀ t, s.parking.blocked t = true → s.pc t = .outside ∨ ∃ want, s.pc t = .parked want
  accounted : ∀ t, s.Accounted count t

theorem goto_self (s : State T) (t : T) (pc : Pc T) : (s.goto t pc).pc t = pc :=
  update_self ..

theorem goto_of_ne (s : State T) (h : u ≠ t) (pc : Pc T) : (s.goto t pc).pc u = s.pc u :=
  update_of_ne h ..

variable {r : State T}

/-- What the step of a thread has to leave to the others. -/
theorem State.Accounted.goto (h : s.Accounted count u) (hu : u ≠ t) (hpc : r.pc = s.pc)
    (hlist : ∀ want, u ∈ s.waiters → s.claim count want = none →
      u ∈ r.waiters ∧ r.claim count want = none ∨ u ∈ pc.wakes)
    (hwakes : u ∈ (s.pc t).wakes → u ∈ pc.wakes ∨ ∀ want, (s.pc u).waits = some want →
      (r.goto t pc).Woken u) (hblocked : s.parking.blocked u = false → r.parking.blocked u = false)
    (hpending : s.parking.wakePending u = true → r.parking.wakePending u = true) :
    (r.goto t pc).Accounted count u := by
  intro want hwaits
  rw [goto_of_ne r hu, hpc] at hwaits
  rcases h want hwaits with ⟨hmem, hnone⟩ | ⟨v, hv⟩ | ⟨hrun, hwoken⟩
  · rcases hlist want hmem hnone with hstill | hmem
    · exact .inl hstill
    · exact .inr (.inl ⟨t, by rwa [goto_self]⟩)
  · by_cases hvt : v = t
    · subst hvt
      rcases hwakes hv with hmem | hwoken
      · exact .inr (.inl ⟨v, by rwa [goto_self]⟩)
      · exact .inr (.inr (hwoken want hwaits))
    · exact .inr (.inl ⟨v, by rwa [goto_of_ne r hvt, hpc]⟩)
  · refine .inr (.inr ⟨hblocked hrun, hwoken.imp hpending ?_⟩)
    rintro ⟨want', hpark⟩
    exact ⟨want', by rw [goto_of_ne r hu, hpc, hpark]⟩

/-- A thread goes on that is not blocked, unless it parks. -/
theorem Watched.change (h : Watched count s) (hpc : r.pc = s.pc)
    (ht : r.parking.blocked t = false ∨ ∃ want, pc = .parked want)
    (hblocked : ∀ u, u ≠ t → r.parking.blocked u = true → s.parking.blocked u = true)
    (hself : (r.goto t pc).Accounted count t)
    (hothers : ∀ u, u ≠ t → (r.goto t pc).Accounted count u) : Watched count (r.goto t pc) where
  runs := forall_goto (P := fun u pc => r.parking.blocked u = true →
    pc = .outside ∨ ∃ want, pc = .parked want).mpr ⟨fun hb => .inr (ht.resolve_left (by simp [hb])),
      fun u hu hb => hpc ▸ h.runs u (hblocked u hu hb)⟩
  accounted u := if hu : u = t then hu ▸ hself else hothers u hu

/-- A thread that does not wait has nothing to be accounted for. -/
theorem State.Accounted.of_waits (h : pc.waits = none) : (r.goto t pc).Accounted count t := by
  intro want hw
  rw [goto_self, h] at hw
  cases hw

/-- A thread goes on that does not wait and wakes nobody. -/
theorem Watched.goto (h : Watched count s)
    (hrun : s.parking.blocked t = false) (hpc : r.pc = s.pc) (hwaiters : r.waiters = s.waiters)
    (hparking : r.parking = s.parking)
    (hclaim : ∀ want, s.claim count want = none → r.claim count want = none)
    (hwaits : pc.waits = none) (hwakes : (s.pc t).wakes = []) : Watched count (r.goto t pc) :=
  h.change hpc (.inl (hparking ▸ hrun)) (fun _ _ => hparking ▸ id) (.of_waits hwaits)
    fun u hu => (h.accounted u).goto hu hpc
      (fun want hmem hnone => .inl ⟨hwaiters ▸ hmem, hclaim want hnone⟩)
      (fun hmem => absurd (hwakes ▸ hmem) not_mem_nil) (hparking ▸ id) (hparking ▸ id)

theorem watched_stray (h : Watched count s) (t : T) :
    Watched count { s with parking := s.parking.unblock t } := by
  refine ⟨fun u hb => h.runs u (blocked_of_unblock hb), fun u want hw => ?_⟩
  refine (h.accounted u want hw).imp_right (Or.imp_right fun ⟨hb, hwoken⟩ => ?_)
  exact ⟨unblock_blocked_of_false hb, hwoken.imp_left unblock_wakePending_of_true⟩

theorem watched_step (h : Watched count s) (hrun : s.parking.blocked t = false)
    (hs : Runs count s t a s') : Watched count s' := by
  cases hs with
  | elsewhere hpc =>
    refine ⟨fun u hb => ?_, fun u want hw => ?_⟩
    · by_cases hu : u = t
      · exact .inl (hu ▸ hpc)
      · exact h.runs u (by rwa [← blockCurrent_blocked_of_ne hu])
    have hu : u ≠ t := by
      rintro rfl
      simp [hpc, Pc.waits] at hw
    refine (h.accounted u want hw).imp_right (Or.imp_right fun ⟨hb, hwoken⟩ =>
      ⟨?_, hwoken.imp_left ?_⟩)
    · rwa [← blockCurrent_blocked_of_ne hu] at hb
    · rw [← blockCurrent_wakePending_of_ne hu]
      exact id
  | move hmove => exact h.goto hrun rfl rfl rfl (fun _ h => h) hmove.waits.1 hmove.waits.2
  | counted hpc | peaked hpc | given hpc =>
    exact h.goto hrun rfl rfl rfl (fun _ h => h) rfl (by rw [hpc]; rfl)
  | @claimed want sleep bits hpc hclaim =>
    refine h.goto hrun rfl rfl rfl (fun want' hnone => ?_) rfl (by rw [hpc]; rfl)
    refine claim_none_mono hnone (fun i hi => by simp [hi]) fun hne => ?_
    by_cases hall : want = .all true
    · -- nobody gets a slot besides the one who took all of them
      subst hall
      obtain ⟨-, rfl⟩ : s.busy = 0 ∧ allSlots count = bits := by simpa [claim] using hclaim
      exact .inr (BitVec.eq_of_getLsbD_eq fun i hi => by simp)
    · exact .inl (by simpa [hall] using hne)
  | @listed want hpc hclaim =>
    have hstill : ∀ want', s.claim count want' = none → claim count { s with
        exclusiveWaiting := if want = Want.all false then s.exclusiveWaiting + 1
          else s.exclusiveWaiting
        waiters := s.waiters ++ [t] } want' = none := fun want' hnone =>
      claim_none_mono hnone (fun _ => id) fun hne => .inl (by dsimp only; split <;> omega)
    refine h.change rfl (.inl hrun) (fun _ _ => id) (fun want' hw => ?_) fun u hu =>
      (h.accounted u).goto hu rfl (fun want' hmem hnone =>
        .inl ⟨mem_append_left _ hmem, hstill want' hnone⟩) (by simp [hpc]) id id
    rw [goto_self] at hw
    cases hw
    exact .inl ⟨mem_append_right _ mem_cons_self, hstill _ (claim_enqueued.trans hclaim)⟩
  | woken hpc hw =>
    rw [blockCurrent_of_wake hw]
    exact h.change rfl (.inl hrun) (fun _ _ => id) (.of_waits rfl) fun u hu =>
      (h.accounted u).goto hu rfl (fun _ hmem hnone => .inl ⟨hmem, hnone⟩)
        (by simp [hpc]) id fun hpending => by simpa [hu] using hpending
  | @parked want hpc hw =>
    rw [blockCurrent_of_no_wake hw]
    refine h.change rfl (.inr ⟨want, rfl⟩) (fun u hu hb => by simpa [hu] using hb)
      (fun want' hw' => ?_) fun u hu =>
        (h.accounted u).goto hu rfl (fun _ hmem hnone => .inl ⟨hmem, hnone⟩)
          (by simp [hpc]) (fun hb => by simpa [hu] using hb) id
    rw [goto_self] at hw'
    cases hw'
    rcases h.accounted t want (by rw [hpc]; rfl) with hlist | ⟨v, hv⟩ | ⟨-, hwoken | ⟨_, hpark⟩⟩
    · exact .inl hlist
    · have hvt : v ≠ t := by
        rintro rfl
        simp [hpc] at hv
      exact .inr (.inl ⟨v, by rwa [goto_of_ne _ hvt]⟩)
    · simp [hw] at hwoken
    · simp [hpc] at hpark
  | cleared hpc =>
    exact h.change rfl (.inl hrun) (fun _ _ => id) (.of_waits rfl) fun u hu =>
      (h.accounted u).goto hu rfl (fun _ hmem _ => .inr hmem) (by simp [hpc]) id id
  | wake hpc =>
    refine h.change rfl (.inl (unblock_blocked_of_false hrun)) (fun u _ => blocked_of_unblock)
      (.of_waits rfl) fun u hu => (h.accounted u).goto hu rfl
        (fun _ hmem hnone => .inl ⟨hmem, hnone⟩) (fun hmem => ?_) unblock_blocked_of_false
        unblock_wakePending_of_true
    · rw [hpc] at hmem
      rcases mem_cons.mp hmem with rfl | hmem
      · refine .inr fun want hw => ⟨unblock_blocked_self .., ?_⟩
        rw [goto_of_ne _ hu]
        cases hb : s.parking.blocked u with
        | false => exact .inl (unblock_wakePending_self hb)
        | true =>
          refine .inr ((h.runs u hb).resolve_left fun hout => ?_)
          simp [hout, Pc.waits] at hw
      · exact .inl hmem

/-! ## Who is queued for every slot -/

theorem mem_queued_update {pc : T → Pc T} : u ∈ queued (update pc t p) ↔
      u = t ∧ p.want = some (.all true) ∨ u ≠ t ∧ u ∈ queued pc := by
  by_cases hu : u = t
  · subst hu
    simp [mem_queued]
  · simp [mem_queued, hu]

/-- A thread goes on and is queued as before. -/
theorem queued_update {pc : T → Pc T}
    (hwant : p.want = some (.all true) ↔ (pc t).want = some (.all true)) :
    queued (update pc t p) = queued pc := by
  ext u
  rw [mem_queued_update, hwant, mem_queued]
  grind

theorem queued_step (h : (queued s.pc).encard = s.exclusiveWaiting)
    (hok : StaysQueued s (.run t a)) (hs : Runs count s t a s') :
    (queued s'.pc).encard = s'.exclusiveWaiting := by
  cases hs with
  | elsewhere => exact h
  | move hmove =>
    refine (congrArg Set.encard (queued_update ?_)).trans h
    generalize hp : s.pc t = p at hmove
    cases hmove with
    | acquire exclusive => cases exclusive <;> simp
    | decide | refused | resume | poll | done => exact Iff.rfl
    | giveUp want hpanic =>
      have hne : want ≠ .all true := by
        rintro rfl
        simp [hok hp] at hpanic
      simp [hne]
  | counted hpc | peaked hpc | woken hpc | parked hpc | given hpc | cleared hpc | wake hpc =>
    exact (congrArg Set.encard (queued_update (by simp [hpc]))).trans h
  | @claimed want sleep bits hpc =>
    change (queued (update s.pc t _)).encard = ((if _ then _ else _ : ℕ) : ℕ∞)
    by_cases hall : want = .all true
    · have hset : queued (update s.pc t (.counting (want.hold bits))) = queued s.pc \ {t} := by
        ext u
        rw [mem_queued_update, Set.mem_sdiff]
        simp [and_comm]
      rw [hset, Set.encard_sdiff_singleton_of_mem (by simp [mem_queued, hpc, hall]), h, if_pos hall]
      rfl
    · rw [queued_update (by simp [hpc, hall]), if_neg hall]
      exact h
  | @listed want hpc =>
    change (queued (update s.pc t _)).encard = ((if _ then _ else _ : ℕ) : ℕ∞)
    by_cases hall : want = .all false
    · have hset : queued (update s.pc t (.blocking want.enqueued)) = insert t (queued s.pc) := by
        ext u
        rw [mem_queued_update, Set.mem_insert_iff]
        by_cases hu : u = t <;> simp [hall, Want.enqueued, hu]
      rw [hset, Set.encard_insert_of_notMem (by simp [mem_queued, hpc, hall]), h, if_pos hall]
      rfl
    · rw [queued_update ?_, if_neg hall]
      · exact h
      rw [hpc]
      rcases want with _ | _ | _ <;> simp_all [Want.enqueued]

/-! ## Runs -/

theorem handed_of_reaches {Ok : State T → Label T → Prop} (hpos : 1 ≤ count)
    (hcount : count ≤ 32) (h : (machine count T).Reaches Ok s) :
    Handed count s ∧ Watched count s := by
  refine h.invariant_from (I := fun s => Handed count s ∧ Watched count s) ?_ ?_
  · refine ⟨⟨.nil, ?_, ?_, ?_, ?_, ?_, ?_, Nat.zero_le _⟩, ?_, ?_⟩
    · simp
    · simp
    · simp
    · simp [Pc.pending]
    · simp [counted]
    · simp [Pc.mark]
    · simp
    · exact fun t want hw => by cases hw
  · rintro s l s' ⟨hhanded, hwatched⟩ - hs
    cases l with
    | run =>
      obtain ⟨hrun, hr⟩ := runs_of_step hs
      exact ⟨handed_step hpos hcount hhanded hr, watched_step hwatched hrun hr⟩
    | stray t => exact some.inj hs ▸ ⟨{ hhanded with }, watched_stray hwatched t⟩
    | panic => exact some.inj hs ▸ ⟨{ hhanded with }, { hwatched with }⟩

theorem queued_of_reaches (h : (machine count T).Reaches StaysQueued s) :
    (queued s.pc).encard = s.exclusiveWaiting := by
  refine h.invariant_from (I := fun s => (queued s.pc).encard = s.exclusiveWaiting) ?_ ?_
  · simp [queued]
  · rintro s l s' h hok hs
    cases l with
    | run => exact queued_step h hok (runs_of_step hs).2
    | stray | panic => exact some.inj hs ▸ h

/-- **Slots are exclusive and never stranded**, in every run in which no thread that queued
for every slot gives up. -/
theorem slots_sound {s : State T} (hpos : 1 ≤ count) (hcount : count ≤ 32)
    (h : (machine count T).Reaches StaysQueued s) : Sound count s := by
  obtain ⟨hhanded, hwatched⟩ := handed_of_reaches hpos hcount h
  refine ⟨hhanded.disjoint, hhanded.busy, fun t ht => ?_, hhanded.peak, ?_⟩
  · -- whatever else is held would share a slot with it
    refine perm_singleton.mp ((perm_ext_iff_of_nodup hhanded.nodup
      (nodup_singleton _)).mpr fun x => ?_)
    refine ⟨fun hx => mem_singleton.mpr ?_, fun hx => mem_singleton.mp hx ▸ ht⟩
    obtain ⟨i, hi⟩ := hhanded.nonempty x hx
    refine hhanded.eq_of_has hx ht hi ?_
    rw [Hold.Has, Hold.bits, getLsbD_allSlots hcount]
    exact decide_eq_true (hhanded.bound x hx i hi)
  · intro t want hpark hblocked havail
    rcases hwatched.accounted t want (by rw [hpark]; rfl) with ⟨-, hnone⟩ | ⟨u, hu⟩ | ⟨hrun, -⟩
    · exfalso
      rw [claim_eq_none] at hnone
      cases want with
      | all => exact hnone havail
      | one =>
        have hzero : queued s.pc = ∅ := Set.eq_empty_of_forall_notMem fun u hu => havail.2 u hu
        have hcard := queued_of_reaches h
        rw [hzero, Set.encard_empty] at hcard
        exact hnone.elim havail.1 fun hne => hne (by exact_mod_cast hcard.symm)
    · cases hwake : s.pc u with
      | waking rest => exact ⟨u, rest, hwake, by simpa [hwake] using hu⟩
      | _ => simp [hwake] at hu
    · simp [hblocked] at hrun

/-- A thread's steps, one after the other. -/
def turn (t : T) (acts : List Act) : List (Label T) := acts.map (.run t)

/-- Two of three slots are out, and a thread waits for all of them. -/
theorem slots_sound_waiting : ∃ s, (machine 3 (Fin 3)).Reaches StaysQueued s ∧
    s.held = [(1, .slot 1), (0, .slot 0)] ∧ s.pc 2 = .parked (.all true) ∧ Sound 3 s := by
  obtain ⟨s, hreaches, hheld, hpark⟩ := (machine 3 (Fin 3)).exists_reaches StaysQueued
    (turn 0 [.acquire false, .decide true, .claim] ++
      turn 1 [.acquire false, .decide true, .claim] ++
      turn 2 [.acquire true, .decide true, .claim, .block])
    (fun s => s.held = [(1, .slot 1), (0, .slot 0)] ∧ s.pc 2 = .parked (.all true)) rfl
    (by decide +kernel)
  exact ⟨s, hreaches, hheld, hpark, slots_sound (by decide) (by decide) hreaches⟩

/-- **A thread stays parked with a slot free**: thread 2 queues for every slot and gives up
when the kernel panics, with thread 3 asleep behind it.  Nobody is queued any more, but the
count still says so. -/
theorem stranded_by_panic : ∃ s, (machine 3 (Fin 4)).Reachable s ∧ s.pc 3 = .parked .one ∧
    s.parking.blocked 3 = true ∧ s.Available 3 .one ∧ (∀ u, u ≠ 3 → s.pc u = .outside) ∧
    ¬ Sound 3 s := by
  obtain ⟨s, hreaches, hpark, hblocked, hfree, hothers⟩ :=
    (machine 3 (Fin 4)).exists_reachable
    (turn 0 [.acquire false, .decide true, .claim, .count, .peak] ++
      turn 1 [.acquire false, .decide true, .claim, .count, .peak] ++
      turn 2 [.acquire true, .decide true, .claim, .block] ++
      turn 3 [.acquire false, .decide true, .claim, .block] ++
      turn 0 [.give (.slot 0), .clear, .wake, .wake, .wake] ++
      turn 3 [.resume, .decide true, .claim, .block] ++
      .panic :: turn 2 [.resume, .decide true, .claim, .poll])
    (fun s => s.pc 3 = .parked .one ∧ s.parking.blocked 3 = true ∧
      ~~~s.busy &&& allSlots 3 ≠ 0 ∧ ∀ u, u ≠ 3 → s.pc u = .outside) rfl (by decide +kernel)
  have hnone : ∀ u, (s.pc u).want ≠ some (.all true) := by
    intro u
    by_cases hu : u = 3
    · simp [hu, hpark]
    · simp [hothers u hu]
  refine ⟨s, hreaches, hpark, hblocked, ⟨hfree, hnone⟩, hothers, fun hsound => ?_⟩
  obtain ⟨u, _, hwake, -⟩ := hsound.awaited 3 .one hpark hblocked ⟨hfree, hnone⟩
  by_cases hu : u = 3
  · simp [hu, hpark] at hwake
  · simp [hothers u hu] at hwake

end Panda.DiskSlots
