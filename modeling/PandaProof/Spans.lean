import Mathlib.Data.List.Basic

/-!
# Lists of address ranges

Ranges of addresses kept in order of address, with a gap between any two: where two of
them meet they are joined into one.  `insert` adds a range to such a list and joins it
with what it touches on either side; the list then covers exactly the addresses it
covered before and those of the new range (`covers_insert`), and it is in order again
(`Gapped.insert`).
-/
namespace Panda

open List

/-- The `size` addresses from `start` on. -/
structure Span where
  start : Nat
  size : Nat
  deriving DecidableEq

namespace Span

/-- One past the last address. -/
def stop (a : Span) : Nat := a.start + a.size

def Has (a : Span) (x : Nat) : Prop := a.start ≤ x ∧ x < a.stop

/-- No address in common. -/
def Disjoint (a b : Span) : Prop := ∀ x, a.Has x → ¬ b.Has x

/-- In order, with a gap between the two. -/
def Before (a b : Span) : Prop := a.stop < b.start

/-- `b` right after `a`, as one range. -/
def join (a b : Span) : Span := ⟨a.start, a.size + b.size⟩

instance (a b : Span) : Decidable (a.Before b) := inferInstanceAs (Decidable (_ < _))

theorem Disjoint.symm {a b : Span} (h : a.Disjoint b) : b.Disjoint a := fun x hb ha => h x ha hb

theorem has_join {a b : Span} (h : a.stop = b.start) {x : Nat} :
    (a.join b).Has x ↔ a.Has x ∨ b.Has x := by
  unfold Has stop join at *
  dsimp only
  omega

/-- Of two disjoint ranges, the one that starts first ends before the other starts. -/
theorem Disjoint.stop_le {a b : Span} (h : a.Disjoint b) (hb : 0 < b.size)
    (hlt : a.start ≤ b.start) : a.stop ≤ b.start := by
  by_contra hcontra
  exact h b.start ⟨hlt, Nat.lt_of_not_le hcontra⟩ ⟨Nat.le_refl _, Nat.lt_add_of_pos_right hb⟩

end Span

namespace Spans

/-- Some range of the list has the address. -/
def Covers (l : List Span) (x : Nat) : Prop := ∃ a ∈ l, a.Has x

/-- In order of address, no two of them touching. -/
abbrev Gapped (l : List Span) : Prop := l.Pairwise Span.Before

/-- A range put in front of the list, joined with the first one where they meet. -/
def joinNext (a : Span) : List Span → List Span
  | [] => [a]
  | b :: rest => if a.stop = b.start then a.join b :: rest else a :: b :: rest

/-- A range put in its place. -/
def insert (a : Span) : List Span → List Span
  | [] => [a]
  | b :: rest => if b.start < a.start then joinNext b (insert a rest) else joinNext a (b :: rest)

variable {a b : Span} {l : List Span}

@[simp] theorem covers_nil {x : Nat} : ¬ Covers [] x := by
  simp [Covers]

@[simp] theorem covers_cons {x : Nat} : Covers (a :: l) x ↔ a.Has x ∨ Covers l x := by
  simp [Covers]

@[simp] theorem covers_joinNext {x : Nat} : Covers (joinNext a l) x ↔ a.Has x ∨ Covers l x := by
  cases l with
  | nil => simp [joinNext]
  | cons b rest =>
    rw [joinNext]
    split
    · rename_i h
      rw [covers_cons, covers_cons, Span.has_join h, or_assoc]
    · rw [covers_cons]

/-- **Nothing is lost and nothing is added** but the new range. -/
@[simp] theorem covers_insert {x : Nat} : Covers (insert a l) x ↔ a.Has x ∨ Covers l x := by
  induction l with
  | nil => simp [insert]
  | cons b rest ih =>
    unfold insert
    split
    · rw [covers_joinNext, ih, covers_cons, or_left_comm]
    · rw [covers_joinNext]

/-- What joining keeps holds of every range of the list. -/
theorem forall_mem_joinNext {P : Span → Prop}
    (hjoin : ∀ a b : Span, P a → P b → a.stop = b.start → P (a.join b)) (ha : P a)
    (hl : ∀ b ∈ l, P b) : ∀ c ∈ joinNext a l, P c := by
  cases l with
  | nil => simpa [joinNext] using ha
  | cons b rest =>
    have hb : P b := hl b mem_cons_self
    have hrest : ∀ c ∈ rest, P c := fun c hc => hl c (mem_cons_of_mem _ hc)
    rw [joinNext]
    split
    · rename_i hmeet
      exact forall_mem_cons.mpr ⟨hjoin a b ha hb hmeet, hrest⟩
    · exact forall_mem_cons.mpr ⟨ha, forall_mem_cons.mpr ⟨hb, hrest⟩⟩

theorem forall_mem_insert {P : Span → Prop}
    (hjoin : ∀ a b : Span, P a → P b → a.stop = b.start → P (a.join b)) (ha : P a)
    (hl : ∀ b ∈ l, P b) : ∀ c ∈ insert a l, P c := by
  induction l with
  | nil => simpa [insert] using ha
  | cons b rest ih =>
    unfold insert
    split
    · exact forall_mem_joinNext hjoin (hl b mem_cons_self)
        (ih fun c hc => hl c (mem_cons_of_mem _ hc))
    · exact forall_mem_joinNext hjoin ha hl

theorem Gapped.joinNext (hl : Gapped l) (h : ∀ b ∈ l, a.stop ≤ b.start) :
    Gapped (joinNext a l) := by
  cases l with
  | nil => exact pairwise_singleton ..
  | cons b rest =>
    obtain ⟨hb, hrest⟩ := pairwise_cons.mp hl
    have hab := h b mem_cons_self
    rw [Spans.joinNext]
    split
    · rename_i hmeet
      refine pairwise_cons.mpr ⟨fun c hc => ?_, hrest⟩
      have hbc := hb c hc
      unfold Span.Before Span.stop Span.join at *
      dsimp only
      omega
    · refine pairwise_cons.mpr ⟨fun c hc => ?_, hl⟩
      rcases mem_cons.mp hc with rfl | hc
      · unfold Span.Before
        omega
      · have hbc := hb c hc
        unfold Span.Before Span.stop at *
        omega

/-- **The list is in order again.** -/
theorem Gapped.insert (hl : Gapped l) (hsize : 0 < a.size) (hpos : ∀ b ∈ l, 0 < b.size)
    (hdisjoint : ∀ b ∈ l, a.Disjoint b) : Gapped (insert a l) := by
  induction l with
  | nil => exact pairwise_singleton ..
  | cons b rest ih =>
    obtain ⟨hb, hrest⟩ := pairwise_cons.mp hl
    obtain ⟨hposb, hpos⟩ := forall_mem_cons.mp hpos
    obtain ⟨hdisb, hdisjoint⟩ := forall_mem_cons.mp hdisjoint
    unfold Spans.insert
    split
    · rename_i hlt
      refine (ih hrest hpos hdisjoint).joinNext ?_
      -- Everything from here on starts with the new range or where it started before.
      refine forall_mem_insert (P := fun c => b.stop ≤ c.start) (fun _ _ hc _ _ => hc) ?_ ?_
      · exact hdisb.symm.stop_le hsize (Nat.le_of_lt hlt)
      · exact fun c hc => Nat.le_of_lt (hb c hc)
    · rename_i hge
      have hab : a.stop ≤ b.start := hdisb.stop_le hposb (Nat.le_of_not_lt hge)
      refine hl.joinNext (forall_mem_cons.mpr ⟨hab, fun c hc => ?_⟩)
      have hbc := hb c hc
      unfold Span.Before Span.stop at *
      omega

/-- The parts of a list in order are in order. -/
theorem Gapped.of_append_cons {l' : List Span} (h : Gapped (l ++ a :: l')) : Gapped (l ++ l') :=
  h.sublist (Sublist.append_left (sublist_cons_self a l') l)

/-- No two ranges of a list in order have an address in common. -/
theorem Gapped.not_covers {l' : List Span} (h : Gapped (l ++ a :: l')) {x : Nat} (hx : a.Has x) :
    ¬ Covers (l ++ l') x := by
  obtain ⟨-, hafter, hbefore⟩ := pairwise_append.mp h
  rintro ⟨b, hb, _⟩
  rcases mem_append.mp hb with hb | hb
  · have hba := hbefore b hb a mem_cons_self
    unfold Span.Before Span.Has Span.stop at *
    omega
  · have hab := (pairwise_cons.mp hafter).1 b hb
    unfold Span.Before Span.Has Span.stop at *
    omega

/-- **A list in order that covers a whole range** and stays inside it is that range. -/
theorem Gapped.eq_singleton (h : Gapped l) (hin : ∀ b ∈ l, a.start ≤ b.start ∧ b.stop ≤ a.stop)
    (hsize : 0 < a.size) (hall : ∀ x, a.Has x → Covers l x) : l = [a] := by
  have hfirst : Covers l a.start := hall _ ⟨Nat.le_refl _, Nat.lt_add_of_pos_right hsize⟩
  cases l with
  | nil => exact absurd hfirst covers_nil
  | cons b rest =>
    obtain ⟨hbefore, -⟩ := pairwise_cons.mp h
    obtain ⟨hb, hrest⟩ := forall_mem_cons.mp hin
    have hnone : ∀ x ≤ b.stop, ¬ Covers rest x := by
      rintro x hx ⟨c, hc, hcx⟩
      exact Nat.not_lt.mpr (Nat.le_trans hcx.1 hx) (hbefore c hc)
    have hstart : b.start = a.start := by
      have hle : a.start ≤ b.stop := Nat.le_trans hb.1 (Nat.le_add_right ..)
      have hhas := (covers_cons.mp hfirst).resolve_right (hnone _ hle)
      exact Nat.le_antisymm hhas.1 hb.1
    have hstop : b.stop = a.stop := by
      by_contra hne
      have hlt : b.stop < a.stop := Nat.lt_of_le_of_ne hb.2 hne
      rcases covers_cons.mp (hall b.stop ⟨Nat.le_trans hb.1 (Nat.le_add_right ..), hlt⟩)
        with hx | hx
      · exact Nat.lt_irrefl _ hx.2
      · exact hnone _ (Nat.le_refl _) hx
    cases rest with
    | nil =>
      obtain ⟨start, size⟩ := a
      obtain ⟨start', size'⟩ := b
      obtain rfl : start' = start := hstart
      obtain rfl : size' = size := Nat.add_left_cancel hstop
      rfl
    | cons c =>
      have hbc := hbefore c mem_cons_self
      have hc := hrest c mem_cons_self
      unfold Span.Before Span.stop at *
      omega

end Spans
end Panda
