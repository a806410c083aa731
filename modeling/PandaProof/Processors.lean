import Mathlib.Data.List.Nodup
import PandaProof.Machine

/-!
# Processor numbering

`record_topology` of `smp.rs` numbers the processors in the order the firmware lists them, and
`start_application_processors` starts them one by one.  Each comes up through the trampoline,
with the index it finds in the parameter block, and waits for nobody; the boot processor waits
for each, but not for ever, and the next one's parameters then overwrite its own.

The boot processor ran as number zero before there was a table.  It keeps that number only if
the firmware lists it first.  The last part takes the way through the trampoline apart: a
processor that is late reads what was meant for the next one.
-/
namespace Panda.Smp

open Function List Machine

def maxCpus : Nat := 16

/-- A slot the firmware did not fill. -/
def noCpu : UInt8 := 255

/-- `APIC_ID_OF`, `INDEX_OF` and `PROCESSORS`. -/
structure Tables where
  apicIdOf : Nat → UInt8
  indexOf : UInt8 → UInt8
  processors : Nat

/-- One round of the loop of `record_topology`. -/
def Tables.record (t : Tables) (slot : UInt8 × Nat) : Tables :=
  { t with
    apicIdOf := update t.apicIdOf slot.2 slot.1
    indexOf := update t.indexOf slot.1 (UInt8.ofNat slot.2 + 1) }

def recordTopology (processors : List UInt8) : Tables :=
  { (processors.take maxCpus).zipIdx.foldl Tables.record ⟨fun _ => noCpu, fun _ => 0, 0⟩ with
    processors := min processors.length maxCpus }

/-- `cpu_index`, on the processor with this APIC id. -/
def Tables.cpuIndex (t : Tables) (apicId : UInt8) : Nat :=
  if t.indexOf apicId = 0 then 0 else (t.indexOf apicId).toNat - 1

/-! ## Starting them -/

structure State where
  /-- Where the loop of `start_application_processors` is. -/
  next : Nat
  /-- The boot processor waits for a handshake. -/
  waiting : Bool
  /-- `PARAM_INDEX` of the trampoline. -/
  param : Nat
  handshake : Nat
  onlineMask : Nat
  /-- Processors that were sent a start-up and have not come up. -/
  sent : List UInt8
  /-- Application processors that have. -/
  running : List UInt8

def initial : State := ⟨0, false, 0, 0, 1, [], []⟩

inductive Act
  /-- The boot processor looks at the next slot. -/
  | start
  /-- A processor arrives in `application_processor_entry`. -/
  | enter (apicId : UInt8)
  /-- The boot processor has its handshake. -/
  | answered
  /-- Or has spun for long enough. -/
  | giveUp

def step (t : Tables) (boot : UInt8) (s : State) : Act → Option State
  | .start =>
    if s.waiting = false ∧ 1 < t.processors ∧ s.next < t.processors then
      let apicId := t.apicIdOf s.next
      some (if apicId = boot ∨ apicId = noCpu then { s with next := s.next + 1 }
        else { s with
          next := s.next + 1
          waiting := true
          param := s.next
          handshake := 0
          sent := apicId :: s.sent })
    else none
  | .enter apicId =>
    if apicId ∈ s.sent then
      some { s with
        onlineMask := s.onlineMask ||| 1 <<< s.param
        handshake := s.param + 1
        sent := s.sent.erase apicId
        running := apicId :: s.running }
    else none
  | .answered =>
    if s.waiting = true ∧ s.handshake ≠ 0 then some { s with waiting := false } else none
  | .giveUp => if s.waiting then some { s with waiting := false } else none

/-- Start-up after `record_topology`, on the processor `boot`. -/
def machine (processors : List UInt8) (boot : UInt8) : Machine State Act where
  Init s := s = initial
  step := step (recordTopology processors) boot

/-- A processor comes up before the parameters are the next one's. -/
def Prompt (processors : List UInt8) (s : State) : Act → Prop
  | .enter apicId => (recordTopology processors).apicIdOf s.param = apicId
  | _ => True

instance (processors : List UInt8) (s : State) (a : Act) : Decidable (Prompt processors s a) := by
  rw [Prompt.eq_def]
  split <;> infer_instance

/-! ## The tables -/

variable {processors : List UInt8} {boot apicId : UInt8} {i : Nat}

theorem record_foldl (l : List UInt8) (first : Nat) (t : Tables) :
    (∀ apicId ∉ l, ((l.zipIdx first).foldl Tables.record t).indexOf apicId = t.indexOf apicId) ∧
    (∀ i, i < first → ((l.zipIdx first).foldl Tables.record t).apicIdOf i = t.apicIdOf i) ∧
    ∀ i apicId, l[i]? = some apicId →
      ((l.zipIdx first).foldl Tables.record t).apicIdOf (first + i) = apicId ∧
      (l.Nodup → ((l.zipIdx first).foldl Tables.record t).indexOf apicId =
        UInt8.ofNat (first + i) + 1) := by
  induction l generalizing first t with
  | nil => simp
  | cons x rest ih =>
    obtain ⟨hindex, hapic, hat⟩ := ih (first + 1) (t.record (x, first))
    rw [zipIdx_cons, foldl_cons]
    refine ⟨fun apicId hmem => ?_, fun i hi => ?_, fun i apicId hi => ?_⟩
    · rw [mem_cons, not_or] at hmem
      exact (hindex apicId hmem.2).trans (update_of_ne hmem.1 ..)
    · exact (hapic i (by omega)).trans (update_of_ne (by omega) ..)
    cases i with
    | zero =>
      cases hi
      refine ⟨(hapic first (by omega)).trans (update_self ..), fun hnodup => ?_⟩
      exact (hindex x (nodup_cons.mp hnodup).1).trans (update_self ..)
    | succ i =>
      obtain ⟨hid, hnum⟩ := hat i apicId hi
      rw [show first + (i + 1) = first + 1 + i by omega]
      exact ⟨hid, fun hnodup => hnum (nodup_cons.mp hnodup).2⟩

/-- The processor in a slot has the slot's number. -/
theorem recordTopology_slot (h : (processors.take maxCpus)[i]? = some apicId) :
    (recordTopology processors).apicIdOf i = apicId ∧
      (processors.Nodup → (recordTopology processors).cpuIndex apicId = i) := by
  obtain ⟨hapic, hindex⟩ := (record_foldl (processors.take maxCpus) 0
    ⟨fun _ => noCpu, fun _ => 0, 0⟩).2.2 i apicId h
  rw [Nat.zero_add] at hapic hindex
  refine ⟨hapic, fun hnodup => ?_⟩
  obtain ⟨hlen, -⟩ := List.getElem?_eq_some_iff.mp h
  have hi : i < 16 := Nat.lt_of_lt_of_le hlen (length_take_le ..)
  have hbytes : ∀ i < 16,
      (if UInt8.ofNat i + 1 = 0 then 0 else (UInt8.ofNat i + 1).toNat - 1) = i := by decide
  rw [← hbytes i hi, ← hindex (hnodup.sublist (take_sublist ..))]
  rfl

/-! ## The processors that run -/

/-- Who was sent a start-up is in a slot, and the mask has the numbers of who runs. -/
structure Inv (processors : List UInt8) (boot : UInt8) (s : State) : Prop where
  slots : ∀ p ∈ s.sent ++ s.running, ∃ i : Nat, (processors.take maxCpus)[i]? = some p
  param : s.sent ≠ [] → ∃ q, (processors.take maxCpus)[s.param]? = some q
  mask : ∀ i, s.onlineMask.testBit i = true ↔
    ∃ p ∈ boot :: s.running, (recordTopology processors).cpuIndex p = i

variable {s t : State} {a : Act}

theorem inv_step (hnodup : processors.Nodup) (h : Inv processors boot s)
    (hok : Prompt processors s a) (hs : step (recordTopology processors) boot s a = some t) :
    Inv processors boot t := by
  cases a with
  | start =>
    obtain ⟨⟨-, -, hnext⟩, rfl⟩ := of_guard hs
    obtain ⟨q, hq⟩ : ∃ q, (processors.take maxCpus)[s.next]? = some q := by
      refine ⟨_, List.getElem?_eq_some_iff.mpr ⟨?_, rfl⟩⟩
      rw [length_take, Nat.min_comm]
      exact hnext
    rw [(recordTopology_slot hq).1]
    split
    · exact { h with }
    · exact ⟨forall_mem_cons.mpr ⟨⟨s.next, hq⟩, h.slots⟩, fun _ => ⟨q, hq⟩, h.mask⟩
  | enter apicId =>
    obtain ⟨hmem, rfl⟩ := of_guard hs
    obtain ⟨q, hq⟩ := h.param (ne_nil_of_mem hmem)
    obtain rfl : q = apicId := (recordTopology_slot hq).1.symm.trans hok
    refine ⟨fun p hp => h.slots p ?_, fun _ => ⟨q, hq⟩, fun i => ?_⟩
    · rcases mem_append.mp hp with hp | hp
      · exact mem_append_left _ (mem_of_mem_erase hp)
      · rcases mem_cons.mp hp with rfl | hp
        · exact mem_append_left _ hmem
        · exact mem_append_right _ hp
    · have hself := (recordTopology_slot hq).2 hnodup
      rw [Nat.testBit_or, Bool.or_eq_true, h.mask, Nat.one_shiftLeft, Nat.testBit_two_pow]
      simp only [mem_cons, exists_eq_or_imp, decide_eq_true_eq, hself]
      rw [or_right_comm, or_assoc]
  | answered =>
    obtain ⟨-, rfl⟩ := of_guard hs
    exact { h with }
  | giveUp =>
    obtain ⟨-, rfl⟩ := of_guard hs
    exact { h with }

/-- The processors that run have numbers of their own, the boot processor's is zero, and the
mask has exactly theirs. -/
structure Numbered (processors : List UInt8) (boot : UInt8) (s : State) : Prop where
  distinct : ∀ p ∈ boot :: s.running, ∀ q ∈ boot :: s.running,
    (recordTopology processors).cpuIndex p = (recordTopology processors).cpuIndex q → p = q
  zero : (recordTopology processors).cpuIndex boot = 0
  mask : ∀ i, s.onlineMask.testBit i = true ↔
    ∃ p ∈ boot :: s.running, (recordTopology processors).cpuIndex p = i

/-- **The processors are numbered soundly** when the firmware lists the boot processor first and
every processor comes up before its parameters are overwritten. -/
theorem numbered_of_boot_first (hnodup : processors.Nodup) (hboot : processors.head? = some boot)
    (h : (machine processors boot).Reaches (Prompt processors) s) : Numbered processors boot s := by
  have hslot : (processors.take maxCpus)[0]? = some boot := by
    rw [getElem?_take_of_lt (by decide), ← head?_eq_getElem?, hboot]
  have hzero := (recordTopology_slot hslot).2 hnodup
  have hinv : Inv processors boot s := by
    refine h.invariant_from ?_ (inv_step hnodup)
    refine ⟨by simp [initial], by simp [initial], fun i => ?_⟩
    rw [show initial.onlineMask = 1 <<< 0 from rfl, Nat.one_shiftLeft, Nat.testBit_two_pow]
    simp [initial, hzero]
  refine ⟨fun p hp q hq heq => ?_, hzero, hinv.mask⟩
  have hslots : ∀ p ∈ boot :: s.running, ∃ i : Nat, (processors.take maxCpus)[i]? = some p :=
    forall_mem_cons.mpr ⟨⟨0, hslot⟩, fun p hp => hinv.slots p (mem_append_right _ hp)⟩
  obtain ⟨i, hi⟩ := hslots p hp
  obtain ⟨j, hj⟩ := hslots q hq
  rw [(recordTopology_slot hi).2 hnodup, (recordTopology_slot hj).2 hnodup] at heq
  exact Option.some.inj (hi.symm.trans (heq ▸ hj))

/-- Three processors, of which the second does not start. -/
theorem numbered_of_boot_first_three : ∃ s, Numbered [4, 0, 9] 4 s ∧ s.onlineMask = 5 := by
  obtain ⟨s, hs, hp⟩ := (machine [4, 0, 9] 4).exists_reaches (Prompt [4, 0, 9])
    [.start, .start, .giveUp, .start, .enter 9, .answered] (fun s => s.onlineMask = 5) rfl
    (by decide)
  exact ⟨s, numbered_of_boot_first (by decide) rfl hs, hp⟩

/-- Listed second, the boot processor becomes number one, and the other takes the number and the
bit it had. -/
theorem boot_renumbered : ∃ s, (machine [1, 0] 0).Reaches (Prompt [1, 0]) s ∧ s.running = [1] ∧
    (recordTopology [1, 0]).cpuIndex 0 = 1 ∧ (recordTopology [1, 0]).cpuIndex 1 = 0 ∧
    s.onlineMask.testBit 1 = false :=
  (machine [1, 0] 0).exists_reaches (Prompt [1, 0]) [.start, .enter 1, .answered] _
    rfl (by decide)

/-! ## The parameter block -/

namespace Startup

/-- Where a processor is on its way through the trampoline, with what it has read there. -/
inductive Arrival
  | off
  | sent
  | loaded (stack : Nat)
  /-- In `application_processor_entry`. -/
  | entered (stack index : Nat)
  deriving DecidableEq

/-- How far the boot processor is with a slot. -/
inductive Phase
  | looking | stacked | indexed | waiting
  deriving DecidableEq

/-- Processors are named by their slots, and so are the stacks made for them. -/
structure State where
  next : Nat
  phase : Phase
  /-- `PARAM_STACK` and `PARAM_INDEX`, which every processor reads. -/
  stack : Nat
  index : Nat
  handshake : Nat
  started : Nat
  arrival : Nat → Arrival
  /-- Who has reported, the latest first. -/
  reports : List Nat

inductive Act
  | skip | writeStack | writeIndex | signal
  /-- The handshake is there, or was waited for long enough. -/
  | finish
  | loadStack (i : Nat) | loadIndex (i : Nat) | report (i : Nat)

def step (t : Tables) (boot : UInt8) (s : State) : Act → Option State
  | .skip =>
    if s.phase = .looking ∧ s.next < t.processors ∧
        (t.apicIdOf s.next = boot ∨ t.apicIdOf s.next = noCpu) then
      some { s with next := s.next + 1 }
    else none
  | .writeStack =>
    if s.phase = .looking ∧ s.next < t.processors ∧ 1 < t.processors ∧
        ¬(t.apicIdOf s.next = boot ∨ t.apicIdOf s.next = noCpu) then
      some { s with phase := .stacked, stack := s.next }
    else none
  | .writeIndex =>
    if s.phase = .stacked then some { s with phase := .indexed, index := s.next } else none
  | .signal =>
    if s.phase = .indexed then
      some { s with phase := .waiting, handshake := 0, arrival := update s.arrival s.next .sent }
    else none
  | .finish =>
    if s.phase = .waiting then
      some { s with
        phase := .looking
        next := s.next + 1
        started := s.started + if s.handshake ≠ 0 then 1 else 0 }
    else none
  | .loadStack i =>
    if s.arrival i = .sent then some { s with arrival := update s.arrival i (.loaded s.stack) }
    else none
  | .loadIndex i =>
    match s.arrival i with
    | .loaded stack => some { s with arrival := update s.arrival i (.entered stack s.index) }
    | _ => none
  | .report i =>
    match s.arrival i with
    | .entered _ index =>
      if i ∉ s.reports then some { s with handshake := index + 1, reports := i :: s.reports }
      else none
    | _ => none

/-- Start-up with any delays on the way through the trampoline. -/
def machine (t : Tables) (boot : UInt8) : Machine State Act where
  Init s := s = ⟨0, .looking, 0, 0, 0, 0, fun _ => .off, []⟩
  step := step t boot

/-- A processor goes through the trampoline and reports while it is waited for. -/
def OnTime (s : State) : Act → Prop
  | .loadStack i | .loadIndex i | .report i => s.phase = .waiting ∧ i = s.next
  | _ => True

instance (s : State) (a : Act) : Decidable (OnTime s a) := by
  rw [OnTime.eq_def]
  split <;> infer_instance

/-- What a processor has read was meant for it. -/
def Arrival.Own (i : Nat) : Arrival → Prop
  | .loaded stack => stack = i
  | .entered stack index => stack = i ∧ index = i
  | _ => True

/-- Reports the boot processor has counted, or will when its wait is over. -/
@[simp] def State.counts (s : State) : Nat :=
  s.started + if s.phase = .waiting ∧ s.handshake ≠ 0 then 1 else 0

structure Inv (s : State) : Prop where
  own : ∀ i, (s.arrival i).Own i
  stack : s.phase ≠ .looking → s.stack = s.next
  index : s.phase = .indexed ∨ s.phase = .waiting → s.index = s.next
  answer : s.phase = .waiting → s.handshake ≠ 0 → s.next ∈ s.reports
  nodup : s.reports.Nodup
  counted : s.counts = s.reports.length

variable {t : Tables} {boot : UInt8} {s s' : State} {a : Act}

theorem Inv.own_update (h : Inv s) {i : Nat} {x : Arrival} (hx : x.Own i) (j : Nat) :
    (update s.arrival i x j).Own j :=
  (forall_update_iff s.arrival fun j x => x.Own j).mpr ⟨hx, fun j _ => h.own j⟩ j

theorem inv_step (h : Inv s) (hok : OnTime s a) (hs : step t boot s a = some s') : Inv s' := by
  cases a with
  | skip =>
    obtain ⟨⟨hp, -⟩, rfl⟩ := of_guard hs
    exact ⟨h.own, by simp [hp], by simp [hp], by simp [hp], h.nodup, h.counted⟩
  | writeStack =>
    obtain ⟨⟨hp, -⟩, rfl⟩ := of_guard hs
    exact ⟨h.own, fun _ => rfl, by simp, by simp, h.nodup, by simpa [hp] using h.counted⟩
  | writeIndex =>
    obtain ⟨hp, rfl⟩ := of_guard hs
    exact ⟨h.own, fun _ => h.stack (by simp [hp]), fun _ => rfl, by simp, h.nodup,
      by simpa [hp] using h.counted⟩
  | signal =>
    obtain ⟨hp, rfl⟩ := of_guard hs
    exact ⟨h.own_update trivial, fun _ => h.stack (by simp [hp]), fun _ => h.index (.inl hp),
      fun _ hne => absurd rfl hne, h.nodup, by simpa [hp] using h.counted⟩
  | finish =>
    obtain ⟨hp, rfl⟩ := of_guard hs
    exact ⟨h.own, by simp, by simp, by simp, h.nodup, by simpa [hp] using h.counted⟩
  | loadStack i =>
    obtain ⟨-, rfl⟩ := of_guard hs
    obtain ⟨hp, rfl⟩ := hok
    exact { h with own := h.own_update (h.stack (by simp [hp])) }
  | loadIndex i =>
    obtain ⟨hp, rfl⟩ := hok
    rw [step] at hs
    split at hs
    · rename_i stack hloaded
      cases hs
      have hstack := h.own s.next
      rw [hloaded] at hstack
      exact { h with own := h.own_update ⟨hstack, h.index (.inr hp)⟩ }
    · cases hs
  | report i =>
    obtain ⟨hp, rfl⟩ := hok
    rw [step] at hs
    split at hs
    · obtain ⟨hnew, rfl⟩ := of_guard hs
      have hzero : s.handshake = 0 := by
        by_contra hne
        exact hnew (h.answer hp hne)
      exact { h with
        answer := fun _ _ => mem_cons_self
        nodup := nodup_cons.mpr ⟨hnew, h.nodup⟩
        counted := by simpa [hp, hzero] using h.counted }
    · cases hs

/-- **Every processor has its own stack and index**, and is counted once, if each goes through the
trampoline and reports while the boot processor waits for it. -/
theorem apart_of_onTime (h : (machine t boot).Reaches OnTime s) :
    (∀ i j stack index stack' index', s.arrival i = .entered stack index →
      s.arrival j = .entered stack' index' → stack = stack' ∨ index = index' → i = j) ∧
    s.reports.Nodup ∧ s.counts = s.reports.length := by
  have hinv : Inv s := by
    refine h.invariant_from ?_ inv_step
    exact ⟨fun _ => trivial, by simp, by simp, by simp, nodup_nil, rfl⟩
  refine ⟨fun i j stack index stack' index' hi hj hsame => ?_, hinv.nodup, hinv.counted⟩
  have hown := hinv.own i
  have hown' := hinv.own j
  rw [hi] at hown
  rw [hj] at hown'
  obtain ⟨rfl, rfl⟩ := hown
  obtain ⟨rfl, rfl⟩ := hown'
  exact hsame.elim id id

/-- Two processors besides the boot processor, one after the other. -/
theorem apart_of_onTime_two : ∃ s : State, s.arrival 2 = .entered 2 2 ∧ s.started = 2 ∧
    s.reports.Nodup ∧ s.counts = s.reports.length := by
  obtain ⟨s, hs, hentered, hstarted⟩ :=
    (machine (recordTopology [4, 0, 9]) 4).exists_reaches OnTime
      [.skip, .writeStack, .writeIndex, .signal, .loadStack 1, .loadIndex 1, .report 1, .finish,
        .writeStack, .writeIndex, .signal, .loadStack 2, .loadIndex 2, .report 2, .finish]
      (fun s => s.arrival 2 = .entered 2 2 ∧ s.started = 2) rfl (by decide)
  exact ⟨s, hentered, hstarted, (apart_of_onTime hs).2⟩

/-- **A late processor takes the next one's place**: it was given up on, both then read the same
parameters, and the two reports are counted as one. -/
theorem late_shares : ∃ s, (machine (recordTopology [4, 0, 9]) 4).Reachable s ∧
    s.arrival 1 = .entered 2 2 ∧ s.arrival 2 = .entered 2 2 ∧ s.phase = .looking ∧ s.next = 3 ∧
    s.reports = [2, 1] ∧ s.started = 1 :=
  (machine (recordTopology [4, 0, 9]) 4).exists_reachable
    [.skip, .writeStack, .writeIndex, .signal, .finish, .writeStack, .writeIndex, .signal,
      .loadStack 1, .loadStack 2, .loadIndex 1, .loadIndex 2, .report 1, .report 2, .finish] _
    rfl (by decide)

end Startup
end Panda.Smp
