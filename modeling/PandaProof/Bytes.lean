import Mathlib.Data.List.Basic

/-!
# Little-endian fields in a row of bytes

Numbers are stored least significant byte first at fixed positions of a row of bytes.
`le` reads such a field, `put` overwrites one; a reader sees what the last write of its
own field stored, and writes to other fields are invisible to it.
-/
namespace Panda

/-- One past the largest machine word. -/
def wordLimit : Nat := 0x10000000000000000

namespace Bytes

/-- A row of bytes, by position. -/
abbrev Row := Nat → BitVec 8

/-- Byte `k` of the number `v`. -/
def byteOf (v k : Nat) : BitVec 8 := BitVec.ofNat 8 (v >>> (8 * k))

/-- The number stored in the `width` bytes from `pos`. -/
def le (row : Row) : (width pos : Nat) → Nat
  | 0, _ => 0
  | width + 1, pos => (row pos).toNat + 256 * le row width (pos + 1)

/-- Store the number `v` in the `width` bytes from `pos`. -/
def put (row : Row) (pos width v : Nat) : Row := fun i =>
  if pos ≤ i ∧ i < pos + width then byteOf v (i - pos) else row i

theorem byteOf_zero_toNat (v : Nat) : (byteOf v 0).toNat = v % 256 := by
  simp [byteOf]

theorem byteOf_succ (v k : Nat) : byteOf v (k + 1) = byteOf (v / 256) k := by
  have hshift : v >>> (8 * (k + 1)) = (v / 256) >>> (8 * k) := by
    rw [show 8 * (k + 1) = 8 + 8 * k by omega, Nat.shiftRight_add, Nat.shiftRight_eq_div_pow v 8]
  rw [byteOf, byteOf, hshift]

variable {row : Row} {width pos : Nat}

theorem le_congr {row' : Row} (h : ∀ i, pos ≤ i → i < pos + width → row i = row' i) :
    le row width pos = le row' width pos := by
  induction width generalizing pos with
  | zero => rfl
  | succ width ih =>
    rw [le, le, h pos (by omega) (by omega), ih fun i hi hlt => h i (by omega) (by omega)]

theorem le_lt (row : Row) (width pos : Nat) : le row width pos < 1 <<< (8 * width) := by
  induction width generalizing pos with
  | zero => exact Nat.one_pos
  | succ width ih =>
    have hrest := ih (pos + 1)
    have hbyte := (row pos).isLt
    rw [show 8 * (width + 1) = 8 * width + 8 by omega, Nat.shiftLeft_add, Nat.shiftLeft_eq _ 8]
    rw [le]
    omega

variable {v : Nat}

/-- A field that holds the bytes of `v` reads as `v`. -/
theorem le_of_bytes (h : ∀ k, k < width → row (pos + k) = byteOf v k) (hv : v < 1 <<< (8 * width)) :
    le row width pos = v := by
  induction width generalizing pos v with
  | zero =>
    have : v = 0 := by simpa using hv
    rw [le, this]
  | succ width ih =>
    have hrest : v / 256 < 1 <<< (8 * width) := by
      rw [show 8 * (width + 1) = 8 * width + 8 by omega, Nat.shiftLeft_add] at hv
      rw [Nat.shiftLeft_eq _ 8] at hv
      exact Nat.div_lt_of_lt_mul (by rw [Nat.mul_comm]; exact hv)
    have htail : le row width (pos + 1) = v / 256 := by
      refine ih (fun k hk => ?_) hrest
      rw [← byteOf_succ, ← h (k + 1) (by omega)]
      congr 1
      omega
    have hhead : row pos = byteOf v 0 := h 0 (by omega)
    rw [le, htail, hhead, byteOf_zero_toNat]
    omega

/-- **A field reads as what was stored in it.** -/
theorem le_put_self (hv : v < 1 <<< (8 * width)) : le (put row pos width v) width pos = v := by
  refine le_of_bytes (fun k hk => ?_) hv
  rw [put, if_pos ⟨by omega, by omega⟩]
  congr 1
  omega

variable {pos' : Nat}

/-- **Storing another field leaves a field as it was.** -/
theorem le_put_of_disjoint {width' : Nat} (h : pos' + width' ≤ pos ∨ pos + width ≤ pos') :
    le (put row pos width v) width' pos' = le row width' pos' := by
  refine le_congr fun i hi hlt => ?_
  rw [put, if_neg (by omega)]

theorem put_of_outside {i : Nat} (h : i < pos ∨ pos + width ≤ i) :
    put row pos width v i = row i := by
  rw [put, if_neg (by omega)]

/-! ## Rows of eight-byte numbers -/

/-- Store the numbers one after another from `pos`, eight bytes each. -/
def putWords (row : Row) (pos : Nat) (words : List Nat) : Row := fun i =>
  if pos ≤ i ∧ i < pos + 8 * words.length then
    byteOf (words.getD ((i - pos) / 8) 0) ((i - pos) % 8)
  else row i

/-- The `count` eight-byte numbers from `pos`. -/
def words (row : Row) (pos count : Nat) : List Nat :=
  (List.range count).map fun k => le row 8 (pos + 8 * k)

@[simp] theorem length_words (row : Row) (pos count : Nat) :
    (words row pos count).length = count := by
  simp [words]

theorem words_lt {count w : Nat} (h : w ∈ words row pos count) : w < 1 <<< 64 := by
  obtain ⟨k, -, rfl⟩ := List.mem_map.mp h
  exact le_lt row 8 _

variable {ws : List Nat}

/-- **Numbers stored in a row are read back in order.** -/
theorem words_putWords
    (h : ∀ w ∈ ws, w < 1 <<< 64) : words (putWords row pos ws) pos ws.length = ws := by
  refine List.ext_getElem (length_words _ _ _) fun k _ hk => ?_
  simp only [words, List.getElem_map, List.getElem_range]
  refine le_of_bytes (fun j hj => ?_) (h _ (List.getElem_mem hk))
  have hindex : (pos + 8 * k + j - pos) / 8 = k := by omega
  have hbyte : (pos + 8 * k + j - pos) % 8 = j := by omega
  rw [putWords, if_pos ⟨by omega, by omega⟩, hindex, hbyte]
  simp [hk]

theorem le_putWords_of_disjoint (h : pos' + width ≤ pos ∨ pos + 8 * ws.length ≤ pos') :
    le (putWords row pos ws) width pos' = le row width pos' := by
  refine le_congr fun i hi hlt => ?_
  rw [putWords, if_neg (by omega)]

end Bytes
end Panda
