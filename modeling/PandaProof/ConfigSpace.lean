import Mathlib.Data.Set.Card
import PandaProof.Machine

/-!
# Configuration-space windows

`with_config_space` of `pci.rs`, for any number of processors.  A bus is mapped when somebody
first reaches for it, inside the section under the lock of `BUSES`; to keep the set bounded the
section may pick an idle bus, which its processor unmaps after its own access, outside the
lock.  Each locked section (with the mapping it does), each access and each unmapping of a bus
is one step.  How far a mapping gets is up to the frame allocator.

What keeps a window under its readers is that a bus with readers is never picked, so it all
rests on `readers` counting them.  It is a byte, and 256 accesses in flight on one bus would
read as none; but every caller runs on a stack of its own, and there are no more stacks than the
processors' and the slots of `kstack.rs`.
-/
namespace Panda.ConfigSpace

open Function List Option

abbrev Bus := Fin 256

inductive BusState
  | unmapped
  | mapped
  | evicting
  deriving DecidableEq

/-- One call of `with_config_space`. -/
structure Call where
  bus : Bus
  mapIfNeeded : Bool
  deriving DecidableEq

def pagesPerBus : Nat := 256

/-- Where a processor is in `with_config_space`. -/
inductive Pc
  | outside
  /-- At the top of the loop, about to enter the locked section. -/
  | claiming (c : Call)
  /-- Inside `access`; afterwards it unmaps the bus it picked. -/
  | accessing (c : Call) (evict : Option Bus)
  /-- About to call `unmap_kernel_range`. -/
  | unmapping (bus : Bus) (count : Nat)
  /-- The pages are gone, about to say so. -/
  | marking (bus : Bus)
  deriving DecidableEq

namespace Pc

/-- The bus it has an access in flight on. -/
def reads : Pc → Option Bus
  | .accessing c _ => some c.bus
  | _ => none

/-- The bus it is unmapping. -/
def unmaps : Pc → Option Bus
  | .unmapping bus _ | .marking bus => some bus
  | _ => none

/-- The bus it marked `Evicting` and has yet to mark `Unmapped`. -/
def evicts : Pc → Option Bus
  | .accessing _ evict => evict
  | pc => pc.unmaps

/-- The bus is one the window covers, and no more pages go than a bus has. -/
def Fits (start : Bus) : Pc → Prop
  | .claiming c => start ≤ c.bus
  | .unmapping _ count => count ≤ pagesPerBus
  | _ => True

theorem evicts_of_unmaps {pc : Pc} {b : Bus} (h : pc.unmaps = some b) : pc.evicts = some b := by
  cases pc <;> first | exact h | simp [unmaps] at h

end Pc

/-- `BUSES`, the pages of the window that are mapped, and where everybody is. -/
structure State (P : Type) where
  state : Bus → BusState
  readers : Bus → Nat
  lastUsed : Bus → UInt64
  clock : UInt64
  window : Nat → Bool
  pc : P → Pc

variable {P : Type} {start stop : Bus}

def initial : State P :=
  ⟨fun _ => .unmapped, fun _ => 0, fun _ => 0, 0, fun _ => false, fun _ => .outside⟩

def maxMappedBuses : Nat := 8

/-- `bus_page`, as a page of the window. -/
def busPage (start bus : Bus) : Nat := (bus.val - start.val) * pagesPerBus

/-- The pages of a range, mapped or not. -/
def setRange (window : Nat → Bool) (first count : Nat) (present : Bool) : Nat → Bool :=
  fun page => if first ≤ page ∧ page < first + count then present else window page

namespace State
variable [DecidableEq P]

def goto (s : State P) (p : P) (pc : Pc) : State P := { s with pc := update s.pc p pc }

def setState (s : State P) (bus : Bus) (state : BusState) : State P :=
  { s with state := update s.state bus state }

def setReaders (s : State P) (bus : Bus) (count : Nat) : State P :=
  { s with readers := update s.readers bus count }

/-- `Buses::mapped`. -/
def mapped (s : State P) : Nat :=
  ((finRange 256).filter fun bus => s.state bus = .mapped).length

/-- `min_by_key`: the first of the least. -/
def oldest (s : State P) : List Bus → Option Bus
  | [] => none
  | bus :: rest =>
    some (rest.foldl (fun best b => if s.lastUsed b < s.lastUsed best then b else best) bus)

/-- `Buses::victim`. -/
def victim (s : State P) : Option Bus :=
  if s.mapped < maxMappedBuses then none
  else s.oldest ((finRange 256).filter fun bus => s.state bus = .mapped ∧ s.readers bus = 0)

/-- The claimed bus gets one more reader, in a byte. -/
def begin (s : State P) (bus : Bus) : State P :=
  { s.setReaders bus ((s.readers bus + 1) % 256) with
    clock := s.clock + 1
    lastUsed := update s.lastUsed bus (s.clock + 1) }

/-- The end of the locked section, with the bus mapped. -/
def hold (s : State P) (p : P) (c : Call) : State P :=
  let s := s.begin c.bus
  match s.victim with
  | none => s.goto p (.accessing c none)
  | some victim => (s.setState victim .evicting).goto p (.accessing c (some victim))

/-- The locked section.  `fails` says which pages `map_to_frame` refuses. -/
def claim (start : Bus) (s : State P) (p : P) (c : Call) (fails : Nat → Bool) : State P :=
  match s.state c.bus with
  | .mapped => s.hold p c
  | .evicting => if c.mapIfNeeded then s else s.goto p .outside
  | .unmapped =>
    if !c.mapIfNeeded then s.goto p .outside
    else
      match (range pagesPerBus).find? fails with
      | some 0 => s.goto p .outside
      | some count =>
        ({ s with window := setRange s.window (busPage start c.bus) count true }.setState c.bus
          .evicting).goto p (.unmapping c.bus count)
      | none =>
        ({ s with window := setRange s.window (busPage start c.bus) pagesPerBus true }.setState
          c.bus .mapped).hold p c

end State

inductive Act
  /-- Calls `with_config_space` for a bus the window covers. -/
  | call (c : Call)
  | claim (fails : Nat → Bool)
  /-- `access` returns, and the bus has one reader less. -/
  | finish
  | unmap
  | mark

def step [DecidableEq P] (start stop : Bus) (s : State P) (l : P × Act) : Option (State P) :=
  match s.pc l.1, l.2 with
  | .outside, .call c =>
    if start ≤ c.bus ∧ c.bus ≤ stop then some (s.goto l.1 (.claiming c)) else none
  | .claiming c, .claim fails => some (s.claim start l.1 c fails)
  | .accessing c evict, .finish =>
    some ((s.setReaders c.bus ((s.readers c.bus + 255) % 256)).goto l.1 (match evict with
        | some victim => .unmapping victim pagesPerBus
        | none => .outside))
  | .unmapping bus count, .unmap =>
    some ({ s with window := setRange s.window (busPage start bus) count false }.goto l.1
      (.marking bus))
  | .marking bus, .mark => some ((s.setState bus .unmapped).goto l.1 .outside)
  | _, _ => none

/-- Any number of processors in `with_config_space`. -/
def machine (start stop : Bus) (P : Type) [DecidableEq P] : Machine (State P) (P × Act) where
  Init s := s = initial
  step := step start stop

/-! ## The invariant -/

namespace State
variable {s : State P} {p q : P}

/-- The processors with an access in flight on the bus. -/
def readersOf (s : State P) (b : Bus) : Set P := {p | (s.pc p).reads = some b}

theorem mem_readersOf {b : Bus} : p ∈ s.readersOf b ↔ (s.pc p).reads = some b := Iff.rfl

variable [DecidableEq P]

theorem goto_self (s : State P) (p : P) (pc : Pc) : (s.goto p pc).pc p = pc :=
  update_self ..

theorem goto_of_ne (s : State P) (h : q ≠ p) (pc : Pc) : (s.goto p pc).pc q = s.pc q :=
  update_of_ne h ..

/-- What the processors read or evict after one of them moved. -/
theorem of_goto {pc : Pc} {α : Type} (f : Pc → Option α) {a : α}
    (h : f ((s.goto p pc).pc q) = some a) :
    q = p ∧ f pc = some a ∨ q ≠ p ∧ f (s.pc q) = some a := by
  by_cases hq : q = p
  · subst hq
    rw [goto_self] at h
    exact .inl ⟨rfl, h⟩
  · rw [goto_of_ne s hq] at h
    exact .inr ⟨hq, h⟩

end State

/-- Readers are counted and read mapped buses, and whoever marked a bus `Evicting` is alone
with it. -/
structure Inv (start : Bus) (s : State P) : Prop where
  evicting : ∀ p b, (s.pc p).evicts = some b → s.state b = .evicting
  alone : ∀ p q b, (s.pc p).evicts = some b → (s.pc q).evicts = some b → p = q
  reads : ∀ p b, (s.pc p).reads = some b → s.state b = .mapped
  counted : ∀ b, (s.readersOf b).encard = s.readers b
  byte : ∀ b, s.readers b < 256
  mapped : ∀ b, s.state b = .mapped → ∀ i < pagesPerBus, s.window (busPage start b + i) = true
  covered : ∀ b, s.state b ≠ .unmapped → start ≤ b
  fits : ∀ p, (s.pc p).Fits start

theorem inv_initial : Inv start (initial : State P) where
  evicting := by simp [initial, Pc.evicts, Pc.unmaps]
  alone := by simp [initial, Pc.evicts, Pc.unmaps]
  reads := by simp [initial, Pc.reads]
  counted := by simp [initial, State.readersOf, Pc.reads]
  byte := by simp [initial]
  mapped := by simp [initial]
  covered := by simp [initial]
  fits := by simp [initial, Pc.Fits]

variable {b d : Bus}

/-- The windows of two buses do not meet. -/
theorem busPage_disjoint {i j : Nat} (hb : start ≤ b) (hd : start ≤ d)
    (hi : i < pagesPerBus) (hj : j < pagesPerBus)
    (h : busPage start b + i = busPage start d + j) : b = d := by
  have hb' : start.val ≤ b.val := hb
  have hd' : start.val ≤ d.val := hd
  simp only [busPage, pagesPerBus] at *
  ext
  omega

namespace Inv
variable {s : State P} {p : P} {pc : Pc} {b : Bus} (h : Inv start s)
include h

theorem not_read (hb : s.state b ≠ .mapped) (q : P) : (s.pc q).reads ≠ some b :=
  fun hq => hb (h.reads q b hq)

theorem not_evicted (hb : s.state b ≠ .evicting) (q : P) : (s.pc q).evicts ≠ some b :=
  fun hq => hb (h.evicting q b hq)

theorem not_read_of_evicts {q : P} (hq : (s.pc q).evicts = some b) (r : P) :
    (s.pc r).reads ≠ some b := h.not_read (by simp [h.evicting q b hq]) r

theorem readers_eq_zero : s.readers b = 0 ↔ ∀ r, (s.pc r).reads ≠ some b := by
  rw [← Nat.cast_inj (R := ℕ∞), ← h.counted b, Nat.cast_zero, Set.encard_eq_zero,
    Set.eq_empty_iff_forall_notMem]
  exact Iff.rfl

/-- More pages mapped do no harm. -/
theorem window_mono (w : Nat → Bool) (hw : ∀ page, s.window page = true → w page = true) :
    Inv start { s with window := w } :=
  { h with mapped := fun b hb i hi => hw _ (h.mapped b hb i hi) }

/-- A bus that nobody reads or evicts may be marked. -/
theorem setState {x : BusState} (hread : ∀ q, (s.pc q).reads ≠ some b)
    (hevict : ∀ q, (s.pc q).evicts ≠ some b)
    (hmapped : x = .mapped → ∀ i < pagesPerBus, s.window (busPage start b + i) = true)
    (hstart : x ≠ .unmapped → start ≤ b) : Inv start (s.setState b x) := by
  have hself : (s.setState b x).state b = x := update_self ..
  have hne : ∀ {d}, d ≠ b → (s.setState b x).state d = s.state d := fun hd => update_of_ne hd ..
  refine { h with evicting := fun q d hq => ?_, reads := fun q d hq => ?_,
                  mapped := fun d hd => ?_, covered := fun d hd => ?_ }
  · exact (hne fun hdb => hevict q (hdb ▸ hq)).trans (h.evicting q d hq)
  · exact (hne fun hdb => hread q (hdb ▸ hq)).trans (h.reads q d hq)
  · by_cases hdb : d = b
    · subst hdb
      exact hmapped (hself.symm.trans hd)
    · exact h.mapped d ((hne hdb).symm.trans hd)
  · by_cases hdb : d = b
    · subst hdb
      exact hstart fun hx => hd (hself.trans hx)
    · exact h.covered d fun hun => hd ((hne hdb).trans hun)

/-- A bus nobody evicts is marked `Mapped` once it is. -/
theorem map (hb : s.state b = .unmapped) (hstart : start ≤ b) :
    Inv start ({ s with window := setRange s.window (busPage start b) pagesPerBus true }.setState b
      .mapped) := by
  have hmono := h.window_mono (setRange s.window (busPage start b) pagesPerBus true) (by
    intro page hp
    simp [setRange, hp])
  refine hmono.setState (h.not_read (by simp [hb])) (h.not_evicted (by simp [hb])) ?_
    fun _ => hstart
  intro _ i hi
  change setRange _ _ _ _ _ = true
  rw [setRange, if_pos ⟨Nat.le_add_right .., Nat.add_lt_add_left hi _⟩]

theorem byte_update {n : Nat} (hn : n < 256) (d : Bus) : update s.readers b n d < 256 := by
  by_cases hd : d = b
  · rw [hd, update_self]
    exact hn
  · rw [update_of_ne hd]
    exact h.byte d

/-- The pages of a bus that is being evicted go. -/
theorem unmap (count : Nat) (hcount : count ≤ pagesPerBus) (hb : s.state b = .evicting) :
    Inv start { s with window := setRange s.window (busPage start b) count false } := by
  refine { h with mapped := fun d hd i hi => ?_ }
  change setRange _ _ _ _ _ = true
  have hstate : s.state d = .mapped := hd
  rw [setRange, if_neg]
  · exact h.mapped d hstate i hi
  rintro ⟨_, _⟩
  have hbd : b = d := busPage_disjoint (j := i) (i := busPage start d + i - busPage start b)
    (h.covered b (by simp [hb])) (h.covered d (by simp [hstate])) (by omega) hi (by omega)
  rw [← hbd, hb] at hstate
  cases hstate

variable [DecidableEq P]

/-- A processor that reads what it read leaves the counts right. -/
theorem counted_goto (hreads : pc.reads = (s.pc p).reads) (b : Bus) :
    ((s.goto p pc).readersOf b).encard = s.readers b := by
  refine (congrArg Set.encard (Set.ext fun q => ?_)).trans (h.counted b)
  by_cases hq : q = p
  · rw [hq, State.mem_readersOf, s.goto_self, hreads, State.mem_readersOf]
  · rw [State.mem_readersOf, s.goto_of_ne hq, State.mem_readersOf]

/-- A processor goes on to read a mapped bus, and to evict what it evicted or what nobody
evicts. -/
theorem goto {readers : Bus → Nat} {lastUsed : Bus → UInt64} {clock : UInt64}
    (hreads : ∀ b, pc.reads = some b → s.state b = .mapped)
    (hevicts : ∀ b, pc.evicts = some b → (s.pc p).evicts = some b ∨
      s.state b = .evicting ∧ ∀ q, (s.pc q).evicts ≠ some b)
    (hfits : pc.Fits start) (hcounted : ∀ b, ((s.goto p pc).readersOf b).encard = readers b)
    (hbyte : ∀ b, readers b < 256) :
    Inv start (State.goto { s with readers, lastUsed, clock } p pc) where
  evicting q b hq := by
    rcases State.of_goto Pc.evicts hq with ⟨-, hd⟩ | ⟨-, hd⟩
    · exact (hevicts b hd).elim (h.evicting p b) And.left
    · exact h.evicting q b hd
  alone q r b hq hr := by
    have hold : ∀ q, ((s.goto p pc).pc q).evicts = some b →
        (s.pc q).evicts = some b ∨ q = p ∧ ∀ r, (s.pc r).evicts ≠ some b := by
      intro q hq
      rcases State.of_goto Pc.evicts hq with ⟨rfl, hd⟩ | ⟨-, hd⟩
      · exact (hevicts b hd).imp_right fun hnew => ⟨rfl, hnew.2⟩
      · exact .inl hd
    rcases hold q hq with hq' | ⟨hqp, hnone⟩ <;> rcases hold r hr with hr' | ⟨hrp, hnone'⟩
    · exact h.alone q r b hq' hr'
    · exact absurd hq' (hnone' q)
    · exact absurd hr' (hnone r)
    · exact hqp.trans hrp.symm
  reads q b hq := by
    rcases State.of_goto Pc.reads hq with ⟨-, hd⟩ | ⟨-, hd⟩
    · exact hreads b hd
    · exact h.reads q b hd
  counted := hcounted
  byte := hbyte
  mapped := h.mapped
  covered := h.covered
  fits := (forall_update_iff s.pc fun _ pc => pc.Fits start).mpr ⟨hfits, fun q _ => h.fits q⟩

/-- A processor goes on with what it reads. -/
theorem resume (hreads : pc.reads = (s.pc p).reads)
    (hevicts : ∀ b, pc.evicts = some b → (s.pc p).evicts = some b ∨
      s.state b = .evicting ∧ ∀ q, (s.pc q).evicts ≠ some b)
    (hfits : pc.Fits start) : Inv start (s.goto p pc) :=
  h.goto (fun b hb => h.reads p b (hreads ▸ hb)) hevicts hfits (h.counted_goto hreads) h.byte

/-- A bus that nobody reads or evicts may be marked `Evicting`. -/
theorem evict (hread : ∀ q, (s.pc q).reads ≠ some b)
    (hevict : ∀ q, (s.pc q).evicts ≠ some b) (hstart : start ≤ b)
    (hpc : pc.evicts = some b) (hreads : pc.reads = (s.pc p).reads)
    (hfits : pc.Fits start) : Inv start ((s.setState b .evicting).goto p pc) := by
  refine (h.setState hread hevict (by simp) fun _ => hstart).resume hreads (fun d hd => ?_) hfits
  obtain rfl := some.inj (hpc.symm.trans hd)
  exact .inr ⟨update_self .., hevict⟩

/-- The readers of the other buses are those they were. -/
theorem counted_of_ne {d : Bus} (hd : d ≠ b) (hp : ∀ d ≠ b, (s.pc p).reads ≠ some d)
    (hpc : ∀ d ≠ b, pc.reads ≠ some d) : ((s.goto p pc).readersOf d).encard = s.readers d := by
  rw [← h.counted d]
  refine congrArg Set.encard (Set.ext fun q => ?_)
  by_cases hq : q = p
  · rw [hq, State.mem_readersOf, s.goto_self, State.mem_readersOf]
    exact iff_of_false (hpc d hd) (hp d hd)
  · rw [State.mem_readersOf, s.goto_of_ne hq, State.mem_readersOf]

/-- An access begins on a mapped bus whose count has room. -/
theorem begin {c : Call} (hb : s.state c.bus = .mapped) (hroom : s.readers c.bus < 255)
    (hreads : (s.pc p).reads = none) : Inv start ((s.begin c.bus).goto p (.accessing c none)) := by
  refine h.goto ?_ (by simp [Pc.evicts]) trivial (fun d => ?_)
    (h.byte_update (Nat.mod_lt _ (by decide)))
  · rintro _ ⟨⟩
    exact hb
  change _ = ((update s.readers c.bus _ d : Nat) : ℕ∞)
  by_cases hd : d = c.bus
  · have hset : (s.goto p (.accessing c none)).readersOf d = insert p (s.readersOf d) := by
      ext q
      by_cases hq : q = p
      · simp [State.mem_readersOf, hq, State.goto_self, Pc.reads, hd]
      · simp [State.mem_readersOf, State.goto_of_ne _ hq, hq]
    rw [hset, Set.encard_insert_of_notMem (by simp [State.mem_readersOf, hreads]), h.counted, hd,
      update_self, Nat.mod_eq_of_lt (by omega)]
    rfl
  · rw [update_of_ne hd]
    apply h.counted_of_ne hd
    · simp [hreads]
    · simp [Pc.reads, eq_comm]

/-- An access ends, and its processor goes on to what it picked. -/
theorem finish {c : Call} {evict : Option Bus} (hp : s.pc p = .accessing c evict)
    (hreads : pc.reads = none) (hevicts : pc.evicts = evict) (hfits : pc.Fits start) :
    Inv start ((s.setReaders c.bus ((s.readers c.bus + 255) % 256)).goto p pc) := by
  refine h.goto (by simp [hreads]) (fun b hb => .inl (by rw [hp, ← hb, hevicts]; rfl)) hfits
    (fun d => ?_) (h.byte_update (Nat.mod_lt _ (by decide)))
  by_cases hd : d = c.bus
  · subst hd
    have hmem : p ∈ s.readersOf c.bus := by simp [State.mem_readersOf, hp, Pc.reads]
    have hset : (s.goto p pc).readersOf c.bus = s.readersOf c.bus \ {p} := by
      ext q
      by_cases hq : q = p
      · simp [State.mem_readersOf, hq, State.goto_self, hreads]
      · simp [State.mem_readersOf, State.goto_of_ne _ hq, hq]
    have hpos : s.readers c.bus ≠ 0 := fun hzero => h.readers_eq_zero.mp hzero p hmem
    have hlt := h.byte c.bus
    rw [hset, Set.encard_sdiff_singleton_of_mem hmem, h.counted, update_self,
      show (s.readers c.bus + 255) % 256 = s.readers c.bus - 1 by omega]
    rfl
  · rw [update_of_ne hd]
    apply h.counted_of_ne hd
    · simp [hp, Pc.reads, eq_comm]
    · simp [hreads]

/-- The bus may be mapped again. -/
theorem mark (hp : (s.pc p).evicts = some b) (hreads : pc.reads = (s.pc p).reads)
    (hevicts : pc.evicts = none) (hfits : pc.Fits start) :
    Inv start ((s.setState b .unmapped).goto p pc) := by
  have hgone : Inv start (s.goto p pc) := h.resume hreads (by simp [hevicts]) hfits
  refine hgone.setState (hgone.not_read ?_) (fun q hq => ?_) (by simp) (by simp)
  · simp [State.goto, h.evicting p b hp]
  · rcases State.of_goto Pc.evicts hq with ⟨-, hd⟩ | ⟨hqp, hd⟩
    · simp [hevicts] at hd
    · exact hqp (h.alone q p b hd hp)

end Inv

/-! ## Steps -/

variable {s : State P}

theorem oldest_mem {l : List Bus} (h : s.oldest l = some b) : b ∈ l := by
  cases l with
  | nil => cases h
  | cons first rest =>
    obtain rfl := some.inj h
    clear h
    induction rest generalizing first with
    | nil => exact mem_cons_self
    | cons next rest ih =>
      have hmem := ih (if s.lastUsed next < s.lastUsed first then next else first)
      rw [foldl_cons]
      rcases mem_cons.mp hmem with heq | hrest
      · rw [heq]
        split <;> simp
      · exact mem_cons_of_mem _ (mem_cons_of_mem _ hrest)

/-- The bus picked is mapped and has no readers. -/
theorem victim_spec (h : s.victim = some b) : s.state b = .mapped ∧ s.readers b = 0 := by
  rw [State.victim] at h
  split at h
  · cases h
  · simpa using oldest_mem h

namespace Inv
variable [DecidableEq P] {s : State P} {p : P} (h : Inv start s)
include h

theorem hold {c : Call} (hb : s.state c.bus = .mapped) (hroom : s.readers c.bus < 255)
    (hreads : (s.pc p).reads = none) : Inv start (s.hold p c) := by
  have hbegin := h.begin hb hroom hreads
  rw [State.hold]
  cases hv : (s.begin c.bus).victim with
  | none => exact hbegin
  | some victim =>
    obtain ⟨hmapped, hzero⟩ := victim_spec hv
    have hevict : Inv start ((((s.begin c.bus).goto p (.accessing c none)).setState victim
        .evicting).goto p (.accessing c (some victim))) := by
      apply hbegin.evict (hbegin.readers_eq_zero.mp hzero)
      · intro q hq
        cases hmapped.symm.trans (hbegin.evicting q victim hq)
      · exact hbegin.covered victim (by simp [State.goto, hmapped])
      · rfl
      · rw [State.goto_self]
        rfl
      · trivial
    rwa [State.goto, State.setState, State.goto, update_idem] at hevict

theorem claim {c : Call} {fails : Nat → Bool} (hp : s.pc p = .claiming c)
    (hroom : s.readers c.bus < 255) : Inv start (s.claim start p c fails) := by
  have hreads : (s.pc p).reads = none := by rw [hp]; rfl
  have hevicts : (s.pc p).evicts = none := by rw [hp]; rfl
  have hout : Inv start (s.goto p .outside) :=
    h.resume hreads.symm (by simp [Pc.evicts, Pc.unmaps]) trivial
  have hstart : start ≤ c.bus := by
    have hfits := h.fits p
    rwa [hp] at hfits
  rw [State.claim]
  cases hb : s.state c.bus with
  | mapped => exact h.hold hb hroom hreads
  | evicting =>
    dsimp only
    split
    · exact h
    · exact hout
  | unmapped =>
    dsimp only
    split
    · exact hout
    cases hfind : (range pagesPerBus).find? fails with
    | none =>
      exact (h.map hb hstart).hold (update_self ..) hroom hreads
    | some count =>
      cases count with
      | zero => exact hout
      | succ n =>
        refine (h.window_mono (setRange s.window _ (n + 1) true) ?_).evict (fun q hq => ?_)
          (fun q hq => ?_) hstart rfl hreads.symm (mem_range.mp (mem_of_find?_eq_some hfind)).le
        · intro page hpage
          simp [setRange, hpage]
        · cases hb.symm.trans (h.reads q _ hq)
        · cases hb.symm.trans (h.evicting q _ hq)

end Inv

/-- `MAX_CPUS`, which boot and idle on stacks of their own, and `MAX_STACKS`. -/
def maxCallers : Nat := 16 + 128

abbrev Caller := Fin maxCallers

/-- While a caller is still to begin its access, the others' do not fill a byte. -/
theorem Inv.room {s : State Caller} {p : Caller} (h : Inv start s) (hp : (s.pc p).reads = none)
    (b : Bus) : s.readers b < 255 := by
  have hnot : p ∉ s.readersOf b := by simp [State.mem_readersOf, hp]
  have hcard : (insert p (s.readersOf b)).encard ≤ ENat.card Caller := Set.encard_le_card
  rw [Set.encard_insert_of_notMem hnot, h.counted, ENat.card_eq_coe_fintype_card,
    Fintype.card_fin] at hcard
  have hle : s.readers b + 1 ≤ maxCallers := by exact_mod_cast hcard
  rw [maxCallers] at hle
  omega

theorem inv_step {s t : State Caller} {l : Caller × Act} (h : Inv start s)
    (hs : step start stop s l = some t) : Inv start t := by
  rw [step] at hs
  split at hs
  next c hp ha =>
    obtain ⟨hcovered, rfl⟩ := Machine.of_guard hs
    exact h.resume (by rw [hp]; rfl) (by simp [Pc.evicts, Pc.unmaps]) hcovered.1
  next c fails hp ha =>
    cases hs
    exact h.claim hp (h.room (by rw [hp]; rfl) c.bus)
  next c evict hp ha =>
    cases hs
    cases evict with
    | none => exact h.finish hp rfl rfl trivial
    | some => exact h.finish hp rfl rfl (le_rfl)
  next bus count hp ha =>
    cases hs
    have hfits := h.fits l.1
    rw [hp] at hfits
    have hunmap := h.unmap count hfits (h.evicting l.1 bus (by rw [hp]; rfl))
    exact hunmap.resume (by simp [hp, Pc.reads]) (by simp [hp, Pc.evicts, Pc.unmaps]) trivial
  next bus hp ha =>
    cases hs
    exact h.mark (by rw [hp]; rfl) (by rw [hp]; rfl) rfl trivial
  next => cases hs

/-! ## Runs -/

theorem inv_of_reachable {s : State Caller} (h : (machine start stop Caller).Reachable s) :
    Inv start s := h.invariant_from inv_initial fun hinv _ hs => inv_step hinv hs

variable [DecidableEq P] {t : State P} {l : P × Act} {i : Nat}

/-- A bus is reached for through all of its window, and unmapped by one processor when nobody
reaches for it. -/
structure Held (start stop : Bus) (s : State P) : Prop where
  access : ∀ p c evict, s.pc p = .accessing c evict →
    s.state c.bus = .mapped ∧ ∀ i < pagesPerBus, s.window (busPage start c.bus + i) = true
  /-- Whoever unmaps a bus is alone with it, until it is marked `Unmapped`. -/
  unmapping : ∀ p b, (s.pc p).unmaps = some b → s.state b = .evicting ∧ s.readers b = 0 ∧
    (∀ q c evict, s.pc q = .accessing c evict → c.bus ≠ b) ∧ ∀ q, (s.pc q).unmaps = some b → q = p
  /-- A page of a bus goes in no other way. -/
  unmaps : ∀ l t, step start stop s l = some t → ∀ b i, start ≤ b → i < pagesPerBus →
    s.window (busPage start b + i) = true → t.window (busPage start b + i) = false →
    (s.pc l.1).unmaps = some b
  /-- A page of a bus comes only while nobody unmaps it. -/
  maps : ∀ l t, step start stop s l = some t → ∀ b i, start ≤ b → i < pagesPerBus →
    s.window (busPage start b + i) = false → t.window (busPage start b + i) = true →
    ∀ q, (s.pc q).unmaps ≠ some b

theorem hold_window (s : State P) (p : P) (c : Call) : (s.hold p c).window = s.window := by
  rw [State.hold]
  split <;> rfl

/-- The window changes when an unmapped bus is mapped and when one is unmapped. -/
theorem window_step (h : Inv start s) (hs : step start stop s l = some t) : t.window = s.window ∨
    (∃ b count, start ≤ b ∧ count ≤ pagesPerBus ∧ s.state b = .unmapped ∧
      t.window = setRange s.window (busPage start b) count true) ∨
    ∃ b count, (s.pc l.1).unmaps = some b ∧ count ≤ pagesPerBus ∧
      t.window = setRange s.window (busPage start b) count false := by
  have hfits := h.fits l.1
  rw [step] at hs
  split at hs
  next c hp ha =>
    obtain ⟨-, rfl⟩ := Machine.of_guard hs
    exact .inl rfl
  next c fails hp ha =>
    cases hs
    rw [hp] at hfits
    rw [State.claim]
    cases hb : s.state c.bus with
    | mapped => exact .inl (hold_window ..)
    | evicting =>
      dsimp only
      split <;> exact .inl rfl
    | unmapped =>
      dsimp only
      split
      · exact .inl rfl
      cases hfind : (range pagesPerBus).find? fails with
      | none =>
        exact .inr (.inl ⟨c.bus, pagesPerBus, hfits, le_rfl, hb, hold_window ..⟩)
      | some count =>
        cases count with
        | zero => exact .inl rfl
        | succ n =>
          have hn := mem_range.mp (mem_of_find?_eq_some hfind)
          exact .inr (.inl ⟨c.bus, n + 1, hfits, hn.le, hb, rfl⟩)
  next c evict hp ha =>
    cases hs
    exact .inl rfl
  next bus count hp ha =>
    cases hs
    rw [hp] at hfits
    exact .inr (.inr ⟨bus, count, by rw [hp]; rfl, hfits, rfl⟩)
  next bus hp ha =>
    cases hs
    exact .inl rfl
  next => cases hs

/-- A page of a bus that changed belongs to the bus that was mapped or unmapped. -/
theorem bus_of_setRange {w : Nat → Bool} {count : Nat} {present : Bool}
    (hb : start ≤ b) (hd : start ≤ d) (hi : i < pagesPerBus) (hcount : count ≤ pagesPerBus)
    (h : setRange w (busPage start b) count present (busPage start d + i) ≠
      w (busPage start d + i)) : b = d ∧ present ≠ w (busPage start d + i) := by
  rw [setRange] at h
  split at h
  · rename_i hin
    exact ⟨busPage_disjoint (j := i) (i := busPage start d + i - busPage start b) hb hd (by omega)
      hi (by omega), h⟩
  · exact absurd rfl h

/-- A page of a bus comes when the bus is mapped and goes when it is unmapped. -/
theorem page_step (h : Inv start s) (hs : step start stop s l = some t) (hb : start ≤ b)
    (hi : i < pagesPerBus)
    (hne : t.window (busPage start b + i) ≠ s.window (busPage start b + i)) :
    s.window (busPage start b + i) = false ∧ s.state b = .unmapped ∨
      s.window (busPage start b + i) = true ∧ (s.pc l.1).unmaps = some b := by
  rcases window_step h hs with hw | ⟨d, count, hd, hcount, hstate, hw⟩ | ⟨d, count, hp, hcount, hw⟩
  · exact absurd (congrFun hw _) hne
  · rw [hw] at hne
    obtain ⟨rfl, hold⟩ := bus_of_setRange hd hb hi hcount hne
    exact .inl ⟨eq_false_of_ne_true hold.symm, hstate⟩
  · rw [hw] at hne
    have hd := h.covered d (by rw [h.evicting l.1 d (Pc.evicts_of_unmaps hp)]; decide)
    obtain ⟨rfl, hold⟩ := bus_of_setRange hd hb hi hcount hne
    exact .inr ⟨eq_true_of_ne_false hold.symm, hp⟩

/-- **Configuration-space windows are never pulled from under a reader**: while an access runs
its bus is mapped with all of its pages, a bus is unmapped by one processor while nobody reads
it, and it is not mapped again before that has finished. -/
theorem held_of_reaches {s : State Caller} (h : (machine start stop Caller).Reachable s) :
    Held start stop s := by
  have hinv := inv_of_reachable h
  refine ⟨fun p c evict hp => ?_, fun p b hp => ?_, fun l t hs b i hb hi hbefore hafter => ?_,
    fun l t hs b i hb hi hbefore hafter q hq => ?_⟩
  · have hstate := hinv.reads p c.bus (by rw [hp]; rfl)
    exact ⟨hstate, hinv.mapped _ hstate⟩
  · have hevicts := Pc.evicts_of_unmaps hp
    have hread := hinv.not_read_of_evicts hevicts
    refine ⟨hinv.evicting p b hevicts, hinv.readers_eq_zero.mpr hread, fun q c evict hq hc => ?_,
      fun q hq => hinv.alone q p b (Pc.evicts_of_unmaps hq) hevicts⟩
    exact hread q (by rw [hq, ← hc]; rfl)
  · rcases page_step hinv hs hb hi (by rw [hafter, hbefore]; decide) with ⟨hout, -⟩ | ⟨-, hp⟩
    · cases hbefore.symm.trans hout
    · exact hp
  · rcases page_step hinv hs hb hi (by rw [hafter, hbefore]; decide) with ⟨-, hstate⟩ | ⟨hin, -⟩
    · cases hstate.symm.trans (hinv.evicting q b (Pc.evicts_of_unmaps hq))
    · cases hbefore.symm.trans hin

/-- The caller reaches past the ports' limit on the bus of its own number. -/
def reaching (p : Caller) : List (Caller × Act) :=
  [(p, .call ⟨p.castLE (by decide), true⟩), (p, .claim fun _ => false), (p, .finish)]

/-- Eight buses in turn: the last evicts the one used longest ago, which is not read. -/
theorem held_evicting : ∃ s, (machine 0 255 Caller).Reachable s ∧
    (∃ p, (s.pc p).unmaps = some 0) ∧ Held 0 255 s := by
  obtain ⟨s, hs, hp⟩ := (machine 0 255 Caller).exists_reachable
    (((finRange maxCallers).take 8).flatMap reaching) (fun s => ∃ p, (s.pc p).unmaps = some 0) rfl
    (by decide +kernel)
  exact ⟨s, hs, hp, held_of_reaches hs⟩

end Panda.ConfigSpace
