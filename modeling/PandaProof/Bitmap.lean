import Mathlib.Logic.Function.Basic

/-!
# Bitmaps

A set of numbers kept as one bit each in a row of bytes, least significant bit first,
with the byte masks that kernels test and change it by.  `test_set` is the whole theory:
a write changes one member and nothing else.
-/
namespace Panda.Bitmap

/-- The bit of number `i` inside its byte. -/
def mask (i : Nat) : BitVec 8 := 1#8 <<< (i % 8)

def test (bytes : Nat → BitVec 8) (i : Nat) : Bool := bytes (i / 8) &&& mask i != 0

def set (bytes : Nat → BitVec 8) (i : Nat) (member : Bool) : Nat → BitVec 8 :=
  Function.update bytes (i / 8)
    (if member then bytes (i / 8) ||| mask i else bytes (i / 8) &&& ~~~mask i)

theorem mask_eq_twoPow (i : Nat) : mask i = BitVec.twoPow 8 (i % 8) := by
  rw [BitVec.twoPow_eq, mask]

theorem getLsbD_mask (i k : Nat) : (mask i).getLsbD k = decide (k = i % 8) := by
  have hlt : i % 8 < 8 := Nat.mod_lt _ (by decide)
  rw [mask_eq_twoPow, BitVec.getLsbD_twoPow]
  simp [hlt, eq_comm]

theorem test_eq_getLsbD (bytes : Nat → BitVec 8) (i : Nat) :
    test bytes i = (bytes (i / 8)).getLsbD (i % 8) := by
  have hlt : i % 8 < 8 := Nat.mod_lt _ (by decide)
  rw [test, mask_eq_twoPow, BitVec.and_twoPow]
  cases h : (bytes (i / 8)).getLsbD (i % 8) with
  | false => simp
  | true =>
    simp only [↓reduceIte, bne_iff_ne]
    intro hzero
    have := congrArg (fun x => BitVec.getLsbD x (i % 8)) hzero
    simp [hlt] at this

/-- The changed byte holds the new member at its own bit and the old ones elsewhere. -/
theorem getLsbD_changed (byte : BitVec 8) (i : Nat) (member : Bool) {k : Nat} (hk : k < 8) :
    (if member then byte ||| mask i else byte &&& ~~~mask i).getLsbD k =
      if k = i % 8 then member else byte.getLsbD k := by
  cases member with
  | true =>
    rw [if_pos rfl, BitVec.getLsbD_or, getLsbD_mask]
    split <;> simp [*]
  | false =>
    rw [if_neg (by decide), BitVec.getLsbD_and, BitVec.getLsbD_not, getLsbD_mask]
    split <;> simp [*]

/-- **A write changes one member and nothing else.** -/
theorem test_set (bytes : Nat → BitVec 8) (i : Nat) (member : Bool) (j : Nat) :
    test (set bytes i member) j = if j = i then member else test bytes j := by
  have hlt : j % 8 < 8 := Nat.mod_lt _ (by decide)
  rw [test_eq_getLsbD, test_eq_getLsbD, set]
  by_cases hdiv : j / 8 = i / 8
  · rw [hdiv, Function.update_self, getLsbD_changed _ _ _ hlt]
    by_cases hmod : j % 8 = i % 8
    · have hji : j = i := by omega
      simp [hji]
    · have hji : j ≠ i := fun h => hmod (congrArg (· % 8) h)
      simp [hmod, hji]
  · have hji : j ≠ i := fun h => hdiv (congrArg (· / 8) h)
    rw [Function.update_of_ne hdiv, if_neg hji]

end Panda.Bitmap
