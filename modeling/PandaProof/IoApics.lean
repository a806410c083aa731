import Mathlib.Data.List.Nodup

/-!
# Which I/O APIC an interrupt belongs to

`pin_for_gsi` of `acpi.rs` with the `inputs_of` of `ioapic.rs`.  The firmware says where the
inputs of a chip start, and only the chip how many it has.  The search ends at the first chip
that starts at or below the interrupt and is not mapped, whether it owns the interrupt or not;
and `saturating_add` leaves the last input of a chip of 256 to nobody.
-/
namespace Panda.IoApics

open List

structure IoApic where
  address : UInt64
  gsiBase : UInt32
  deriving DecidableEq

/-- `REGISTERS` and `PHYSICAL`, and the version registers of the chips, by where they are. -/
structure Chips where
  registers : Nat → UInt64
  physical : Nat → UInt64
  version : UInt64 → UInt32

def slotOf (m : Chips) (c : IoApic) : Option Nat :=
  (range 4).find? fun i => m.registers i ≠ 0 && m.physical i = c.address

/-- The highest input of a chip. -/
def highest (m : Chips) (c : IoApic) : Nat := (m.version c.address).toNat / 65536 % 256

def inputsOf (m : Chips) (c : IoApic) : Option Nat :=
  (slotOf m c).map fun _ => min (highest m c + 1) 255

def offset (gsi : UInt32) (c : IoApic) : Nat := gsi.toNat - c.gsiBase.toNat

def pinForGsi (m : Chips) (gsi : UInt32) : List IoApic → Option (IoApic × Nat)
  | [] => none
  | c :: rest =>
    if gsi < c.gsiBase then pinForGsi m gsi rest
    else match inputsOf m c with
      | none => none
      | some inputs =>
        if offset gsi c < inputs then if offset gsi c < 256 then some (c, offset gsi c) else none
        else pinForGsi m gsi rest

/-- The interrupt arrives at a pin of this chip. -/
def Owns (m : Chips) (gsi : UInt32) (c : IoApic) : Prop :=
  ¬ gsi < c.gsiBase ∧ offset gsi c ≤ highest m c

instance (m : Chips) (gsi : UInt32) (c : IoApic) : Decidable (Owns m gsi c) :=
  inferInstanceAs (Decidable (_ ∧ _))

/-- The interrupts of two chips do not overlap. -/
def Apart (m : Chips) (c d : IoApic) : Prop :=
  c.gsiBase.toNat + highest m c < d.gsiBase.toNat ∨ d.gsiBase.toNat + highest m d < c.gsiBase.toNat

instance (m : Chips) (c d : IoApic) : Decidable (Apart m c d) :=
  inferInstanceAs (Decidable (_ ∨ _))

/-- The chips ahead of the owner that start at or below the interrupt answer, and the pin is
not the last of 256. -/
def Clear (m : Chips) (gsi : UInt32) : List IoApic → Bool
  | [] => true
  | c :: rest =>
    if Owns m gsi c then offset gsi c < 255
    else (gsi < c.gsiBase || (inputsOf m c).isSome) && Clear m gsi rest

variable {m : Chips} {gsi : UInt32} {chips : List IoApic} {c d : IoApic} {pin : Nat}

theorem not_owns_of_apart (h : Apart m c d) (hc : Owns m gsi c) : ¬ Owns m gsi d := by
  simp only [Owns, offset, UInt32.lt_iff_toNat_lt] at hc ⊢
  rcases h with h | h <;> omega

theorem inputsOf_of_isSome (h : (inputsOf m c).isSome = true) :
    inputsOf m c = some (min (highest m c + 1) 255) := by
  obtain ⟨inputs, hin⟩ := Option.isSome_iff_exists.mp h
  obtain ⟨-, -, rfl⟩ := Option.map_eq_some_iff.mp hin
  exact hin

/-- What the search finds owns the interrupt, and answered. -/
theorem owns_of_found (h : pinForGsi m gsi chips = some (c, pin)) :
    c ∈ chips ∧ Owns m gsi c ∧ (inputsOf m c).isSome = true := by
  fun_induction pinForGsi m gsi chips with
  | case1 | case3 | case5 => cases h
  | case2 d rest hlt ih | case6 d rest hlt inputs hin hoff ih =>
    exact ⟨mem_cons_of_mem d (ih h).1, (ih h).2⟩
  | case4 d rest hlt inputs hin hoff hpin =>
    cases h
    obtain ⟨-, -, rfl⟩ := Option.map_eq_some_iff.mp hin
    exact ⟨mem_cons_self, ⟨hlt, by omega⟩, by rw [hin]; rfl⟩

theorem found_of_owns (hap : chips.Pairwise (Apart m)) (hclear : Clear m gsi chips = true)
    (hc : c ∈ chips) (hown : Owns m gsi c) (hin : (inputsOf m c).isSome = true) :
    pinForGsi m gsi chips = some (c, offset gsi c) := by
  induction chips with
  | nil => cases hc
  | cons d rest ih =>
    obtain ⟨hhead, hrest⟩ := pairwise_cons.mp hap
    rw [Clear] at hclear
    rw [pinForGsi]
    by_cases hd : Owns m gsi d
    · obtain rfl : c = d := (mem_cons.mp hc).resolve_right fun hc =>
        not_owns_of_apart (hhead c hc) hd hown
      rw [if_pos hd, decide_eq_true_iff] at hclear
      obtain ⟨hle, hhigh⟩ := hd
      rw [if_neg hle, inputsOf_of_isSome hin]
      dsimp only
      rw [if_pos (by omega), if_pos (by omega)]
    have hmem : c ∈ rest := (mem_cons.mp hc).resolve_left fun hcd => hd (hcd ▸ hown)
    simp only [if_neg hd, Bool.and_eq_true, Bool.or_eq_true, decide_eq_true_eq] at hclear
    have hih := ih hrest hclear.2 hmem
    split
    · exact hih
    rename_i hle
    rw [inputsOf_of_isSome (hclear.1.resolve_left hle)]
    dsimp only
    rw [if_neg, hih]
    exact fun hlt => hd ⟨hle, by omega⟩

/-- Where the search finds the owner, nothing was in its way. -/
theorem clear_of_found (hap : chips.Pairwise (Apart m))
    (h : pinForGsi m gsi chips = some (c, pin)) : Clear m gsi chips = true := by
  fun_induction pinForGsi m gsi chips with
  | case1 | case3 | case5 => cases h
  | case2 d rest hlt ih =>
    rw [Clear, if_neg fun hown => hown.1 hlt, ih (pairwise_cons.mp hap).2 h]
    simp [hlt]
  | case4 d rest hlt inputs hin hoff hpin =>
    cases h
    obtain ⟨-, -, rfl⟩ := Option.map_eq_some_iff.mp hin
    rw [Clear, if_pos ⟨hlt, by omega⟩]
    exact decide_eq_true (by omega)
  | case6 d rest hlt inputs hin hoff ih =>
    obtain ⟨hhead, hrest⟩ := pairwise_cons.mp hap
    obtain ⟨hc, hown, -⟩ := owns_of_found h
    rw [Clear, if_neg fun hd => not_owns_of_apart (hhead c hc) hd hown, ih hrest h]
    simp [hin]

/-- **An interrupt finds the chip and the pin that own it** when the owner can answer, and
nothing otherwise, exactly if the chips listed ahead of an owner that can answer do so too and
its pin is not the last of 256. -/
theorem interrupt_finds_owner (hap : chips.Pairwise (Apart m)) :
    ((∀ c ∈ chips, Owns m gsi c → (inputsOf m c).isSome = true →
        pinForGsi m gsi chips = some (c, offset gsi c)) ∧
      ((∀ c ∈ chips, Owns m gsi c → inputsOf m c = none) → pinForGsi m gsi chips = none)) ↔
    ((∃ c ∈ chips, Owns m gsi c ∧ (inputsOf m c).isSome = true) → Clear m gsi chips = true) := by
  constructor
  · rintro ⟨hfinds, -⟩ ⟨c, hc, hown, hin⟩
    exact clear_of_found hap (hfinds c hc hown hin)
  intro hclear
  refine ⟨fun c hc hown hin => found_of_owns hap (hclear ⟨c, hc, hown, hin⟩) hc hown hin, ?_⟩
  intro hnone
  by_contra hsome
  obtain ⟨⟨c, pin⟩, hfound⟩ := Option.ne_none_iff_exists'.mp hsome
  obtain ⟨hc, hown, hin⟩ := owns_of_found hfound
  simp [hnone c hc hown] at hin

/-- Two chips of one input each, the second mapped and the first if `first` is not zero. -/
def pair (first : UInt64) : Chips :=
  ⟨fun i => if i = 0 then first else 1, fun i => UInt64.ofNat i, fun _ => 0⟩

theorem interrupt_finds_owner_second :
    pinForGsi (pair 1) 1 [⟨0, 0⟩, ⟨1, 1⟩] = some (⟨1, 1⟩, 0) :=
  ((interrupt_finds_owner (by decide)).mpr fun _ => rfl).1 ⟨1, 1⟩ (by decide) (by decide) rfl

/-- The owner is mapped, and the chip ahead of it is not. -/
theorem owner_not_found : [⟨0, 0⟩, ⟨1, 1⟩].Pairwise (Apart (pair 0)) ∧ Owns (pair 0) 1 ⟨1, 1⟩ ∧
    inputsOf (pair 0) ⟨1, 1⟩ = some 1 ∧ pinForGsi (pair 0) 1 [⟨0, 0⟩, ⟨1, 1⟩] = none := by
  decide

end Panda.IoApics
