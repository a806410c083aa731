import PandaProof.Elf

/-!
# Pointers handed in by user space

A pointer from Ring 3 is a number the program chose.  `validate_user_buffer` is what stands
between it and the kernel: the range must lie inside the user region, and every page of it
must be mapped with the permissions the access needs.
-/
namespace Panda.Memory

variable {M : Mapper}

def userRegionEnd : Nat := userBase + 16 * slotSize

/-- `flags`: the page flags of an address in the space that is loaded. -/
def flagsAt (address : Nat) : Code M Unit (Option UInt64) := do
  let b ← book
  flagsIn b.active (address / 4096)

/-- The loop over the pages from `address` to `stop`. -/
def validatePages (needWrite : Bool) (stop address : Nat) : Code M Unit Bool :=
  if address < stop then do
    match ← flagsAt address with
    | none => pure false
    | some flags =>
      if !has flags (present ||| userAccessible) then pure false
      else if needWrite && !has flags writable then pure false
      else validatePages needWrite stop (address + 4096)
  else pure true
termination_by stop - address
decreasing_by omega

/-- Check that a user-supplied buffer is one the kernel may safely touch. -/
def validateUserBuffer (pointer length : Nat) (needWrite : Bool) : Code M Unit Bool :=
  if length = 0 then pure true
  -- Wrapping past the top of the address space.
  else if wordLimit ≤ pointer + length then pure false
  else if pointer < userBase ∨ userRegionEnd < pointer + length then pure false
  else validatePages needWrite (pointer + length) (pointer / 4096 * 4096)

/-- What `translate` reports of the page in the loaded space has the permissions the access
needs. -/
def Permits (k : Paged M) (needWrite : Bool) (page : Nat) : Prop :=
  ∃ frame flags, M.translate k.active page k.tables = .mapped frame flags ∧
    has flags (present ||| userAccessible) = true ∧ (needWrite = true → has flags writable = true)

variable {k : Paged M} {needWrite : Bool}

theorem pure_false : (pure false : Code M Unit Bool) k ≠ (.ok true, k) := fun h => by cases h

/-- What one round of the loop does. -/
theorem validatePages_step {stop address : Nat} (h : address < stop) :
    validatePages needWrite stop address k = (.ok true, k) ↔ Permits k needWrite (address / 4096) ∧
        validatePages needWrite stop (address + 4096) k = (.ok true, k) := by
  rw [validatePages, if_pos h]
  have hflags : (flagsAt address : Code M Unit _) k =
      (.ok (M.translate k.active (address / 4096) k.tables).flags, k) := rfl
  rw [Prog.bind_of_ok hflags]
  unfold Permits
  cases M.translate k.active (address / 4096) k.tables with
  | notMapped | invalidFrameAddress => simp [TranslateResult.flags, pure_false]
  | mapped frame flags =>
    dsimp only [TranslateResult.flags]
    by_cases hreach : has flags (present ||| userAccessible) = true
    · by_cases hwrite : (needWrite && !has flags writable) = true
      · rw [if_neg (by simp [hreach]), if_pos hwrite]
        simp_all [pure_false]
      · rw [if_neg (by simp [hreach]), if_neg hwrite]
        simp_all
    · simp [hreach, pure_false]

/-- The loop visits every page up to `stop`. -/
theorem validatePages_iff (pages : Nat) {stop page : Nat} (h : stop ≤ 4096 * (page + pages)) :
    validatePages needWrite stop (4096 * page) k = (.ok true, k) ↔
      ∀ p, page ≤ p → 4096 * p < stop → Permits k needWrite p := by
  have hdone : ∀ {page}, ¬ 4096 * page < stop →
      (validatePages needWrite stop (4096 * page) k = (.ok true, k) ↔
        ∀ p, page ≤ p → 4096 * p < stop → Permits k needWrite p) := by
    intro page hge
    rw [validatePages, if_neg hge]
    exact ⟨fun _ p hp hlt => absurd hlt (by omega), fun _ => rfl⟩
  induction pages generalizing page with
  | zero => exact hdone (by omega)
  | succ pages ih =>
    by_cases hlt : 4096 * page < stop
    case neg => exact hdone hlt
    rw [validatePages_step hlt, Nat.mul_div_cancel_left page (by decide)]
    refine (and_congr_right fun _ => @ih (page + 1) (by omega)).trans ?_
    constructor
    · rintro ⟨hfirst, hrest⟩ p hp hlt
      rcases Nat.eq_or_lt_of_le hp with rfl | hp
      · exact hfirst
      · exact hrest p hp hlt
    · exact fun hall => ⟨hall page le_rfl hlt, fun p hp => hall p (Nat.le_of_lt hp)⟩

/-- **User pointers are validated exactly**, whatever the page tables are. -/
theorem validateUserBuffer_iff (pointer length : Nat) (needWrite : Bool) (k : Paged M) :
    validateUserBuffer pointer length needWrite k = (.ok true, k) ↔ length = 0 ∨
      pointer + length < wordLimit ∧ userBase ≤ pointer ∧ pointer + length ≤ userRegionEnd ∧
        ∀ address, pointer ≤ address → address < pointer + length →
          Permits k needWrite (address / 4096) := by
  rw [validateUserBuffer]
  by_cases hzero : length = 0
  · simp only [hzero, if_true, true_or, iff_true]
    rfl
  by_cases hwrap : wordLimit ≤ pointer + length
  · simp [hzero, hwrap, pure_false, not_lt.mpr hwrap]
  by_cases hregion : pointer < userBase ∨ userRegionEnd < pointer + length
  · simp only [hzero, hwrap, hregion, if_true, if_false, pure_false, false_or, false_iff]
    omega
  rw [if_neg hzero, if_neg hwrap, if_neg hregion, Nat.mul_comm,
    validatePages_iff (pointer + length) (by omega)]
  rw [or_iff_right hzero, and_iff_right (by omega), and_iff_right (by omega),
    and_iff_right (by omega)]
  constructor
  · exact fun h address hlow hhigh => h _ (Nat.div_le_div_right hlow) (by omega)
  intro h p hp hlt
  -- The first byte of the page that is in the range.
  have hin := h (max pointer (4096 * p)) (by omega) (by omega)
  rwa [show max pointer (4096 * p) / 4096 = p by omega] at hin

end Panda.Memory
