import PandaProof.Bytes
import Mathlib.Data.Nat.Bitwise

/-!
# Cyclic redundancy checks, least significant bit first

A checksum shifts its register down one place at a time and exclusive-ors in a polynomial
whenever a one falls out.  Nothing depends on the register having a width: it may hold the
whole message, and then the checksum is that many shifts of it.  Shifting is linear, and
never turns a burst no longer than the polynomial into nothing.
-/
namespace Panda.Crc

open Bytes Function

/-- One place down. -/
def shift (poly x : Nat) : Nat := (x >>> 1) ^^^ (if x.testBit 0 then poly else 0)

variable {poly x y : Nat}

theorem testBit_shift (j : Nat) : (shift poly x).testBit j =
    (x.testBit (j + 1) ^^ (x.testBit 0 && poly.testBit j)) := by
  rw [shift, Nat.testBit_xor, Nat.testBit_shiftRight, Nat.add_comm 1 j]
  cases x.testBit 0 <;> simp

theorem shift_xor : shift poly (x ^^^ y) = shift poly x ^^^ shift poly y := by
  refine Nat.eq_of_testBit_eq fun j => ?_
  simp only [testBit_shift, Nat.testBit_xor]
  cases x.testBit 0 <;> cases y.testBit 0 <;> cases poly.testBit j <;> simp

theorem shifts_xor (n : Nat) :
    (shift poly)^[n] (x ^^^ y) = (shift poly)^[n] x ^^^ (shift poly)^[n] y := by
  induction n generalizing x y with
  | zero => rfl
  | succ n ih => rw [iterate_succ_apply, shift_xor, ih, ← iterate_succ_apply, ← iterate_succ_apply]

/-- What is above the places shifted out comes down as it is. -/
theorem shifts_shiftLeft (n : Nat) : (shift poly)^[n] (x <<< n) = x := by
  induction n with
  | zero => rfl
  | succ n ih =>
    have hshift : shift poly (x <<< (n + 1)) = x <<< n := by
      refine Nat.eq_of_testBit_eq fun j => ?_
      simp [testBit_shift]
    rw [iterate_succ_apply, hshift, ih]

/-- The highest place of the polynomial. -/
structure Top (poly d : Nat) : Prop where
  bit : poly.testBit d = true
  le : ∀ j, poly.testBit j = true → j ≤ d

/-- Some ones, the last no more than `d` places after the first. -/
structure Burst (d x : Nat) : Prop where
  some : ∃ j, x.testBit j = true
  within : ∃ p, ∀ j, x.testBit j = true → p ≤ j ∧ j ≤ p + d

variable {d : Nat}

/-- **A burst no longer than the polynomial never dies out.** -/
theorem Burst.shift (h : Burst d x) (ht : Top poly d) : Burst d (shift poly x) := by
  obtain ⟨⟨i, hi⟩, p, hp⟩ := h
  cases hzero : x.testBit 0 with
  | false =>
    have hbit : ∀ j, (Crc.shift poly x).testBit j = x.testBit (j + 1) := fun j => by
      simp [testBit_shift, hzero]
    cases i with
    | zero => simp [hzero] at hi
    | succ i =>
      refine ⟨⟨i, (hbit i).trans hi⟩, p - 1, fun j hj => ?_⟩
      have := hp (j + 1) (hbit j ▸ hj)
      omega
  | true =>
    -- The polynomial comes in, and its top bit meets nothing.
    have hfirst := hp 0 hzero
    refine ⟨⟨d, ?_⟩, 0, fun j hj => ⟨Nat.zero_le j, ?_⟩⟩
    · have hout : x.testBit (d + 1) = false := by
        by_contra hin
        have := hp _ (by simpa using hin)
        omega
      simp [testBit_shift, hout, hzero, ht.bit]
    · rw [testBit_shift, hzero, Bool.true_and] at hj
      cases hin : x.testBit (j + 1) with
      | true =>
        have := hp _ hin
        omega
      | false => simpa using ht.le j (by simpa [hin] using hj)

theorem Burst.shifts (h : Burst d x) (ht : Top poly d) (n : Nat) : (Crc.shift poly)^[n] x ≠ 0 := by
  induction n generalizing x with
  | zero =>
    obtain ⟨i, hi⟩ := h.some
    rintro rfl
    simp at hi
  | succ n ih => exact ih (h.shift ht)

/-! ## Messages -/

variable {row e : Row}

theorem testBit_le (n pos j : Nat) : (le row n pos).testBit j =
    (decide (j < 8 * n) && (row (pos + j / 8)).getLsbD (j % 8)) := by
  induction n generalizing pos j with
  | zero => simp [le]
  | succ n ih =>
    rw [le, Nat.add_comm, Nat.testBit_two_pow_mul_add _ (i := 8) (row pos).isLt]
    split
    · rename_i hj
      rw [Nat.div_eq_of_lt hj, Nat.mod_eq_of_lt hj, decide_eq_true (by omega), Bool.true_and]
      rfl
    · rw [ih, show pos + 1 + (j - 8) / 8 = pos + j / 8 by omega, show (j - 8) % 8 = j % 8 by omega]
      congr 1
      exact decide_eq_decide.mpr (by omega)

theorem le_xor (n pos : Nat) : le (fun i => row i ^^^ e i) n pos = le row n pos ^^^ le e n pos := by
  refine Nat.eq_of_testBit_eq fun j => ?_
  rw [Nat.testBit_xor, testBit_le, testBit_le, testBit_le, BitVec.getLsbD_xor]
  cases decide (j < 8 * n) <;> rfl

theorem le_succ_eq_xor (n pos : Nat) :
    le row (n + 1) pos = (row pos).toNat ^^^ (le row n (pos + 1)) <<< 8 := by
  refine Nat.eq_of_testBit_eq fun j => ?_
  rw [le, Nat.add_comm, Nat.testBit_two_pow_mul_add _ (i := 8) (row pos).isLt, Nat.testBit_xor,
    Nat.testBit_shiftLeft]
  split
  · rename_i hj
    simp [Nat.not_le.mpr hj]
  · rename_i hj
    have hout : (row pos).toNat.testBit j = false := (row pos).getLsbD_of_ge j (by omega)
    simp [hout, Nat.not_lt.mp hj]

/-- One byte of the message. -/
def feed (poly c : Nat) (byte : BitVec 8) : Nat := (shift poly)^[8] (c ^^^ byte.toNat)

/-- **A checksum is shifts of the message**, eight for every byte. -/
theorem feed_all (n pos c : Nat) : ((List.range' pos n).map row).foldl (feed poly) c =
    (shift poly)^[8 * n] (c ^^^ le row n pos) := by
  induction n generalizing pos c with
  | zero => simp [le]
  | succ n ih =>
    rw [List.range'_succ, List.map_cons, List.foldl_cons, ih, feed]
    conv_lhs => rw [← @shifts_shiftLeft poly (le row n (pos + 1)) 8]
    rw [← shifts_xor, Nat.xor_assoc, ← le_succ_eq_xor, ← iterate_add_apply]
    rfl

/-- **A burst is noticed.** -/
theorem feed_ne {n pos c : Nat} (h : Burst d (le e n pos)) (ht : Top poly d) :
    ((List.range' pos n).map fun i => row i ^^^ e i).foldl (feed poly) c ≠
      ((List.range' pos n).map row).foldl (feed poly) c := by
  rw [feed_all, feed_all, le_xor, ← Nat.xor_assoc, shifts_xor]
  intro heq
  refine h.shifts ht (8 * n) ?_
  exact Nat.xor_right_injective (heq.trans (Nat.xor_zero _).symm)

end Panda.Crc
