import PandaProof.FsShape

/-!
# What an operation does before it commits

Until the new root is switched to, an operation only claims free blocks, writes to the
blocks it claimed, and puts blocks on the retired list.  `Grew` says so of a whole
stretch of code, whatever the device does; everything that was in use keeps its contents.
-/
namespace Panda.Fs

open Block List

/-! ## Layout -/

/-- The superblock in memory and the shape of the state are those `format` lays out. -/
structure Layout (env : Env) (s : State) : Prop where
  fits : s.superblock.Fits
  version : s.superblock.version = version
  bitmapStart : s.superblock.bitmapStart = 2
  bitmapBlocks : 0 < s.superblock.bitmapBlocks
  firstData : s.superblock.firstDataBlock = s.superblock.bitmapBlocks + 3
  covers : s.superblock.totalBlocks ≤ s.superblock.bitmapBlocks * 4096
  total : s.superblock.totalBlocks = env.sectorCount
  room : s.superblock.firstDataBlock < s.superblock.totalBlocks
  length : s.bitmapLength = s.superblock.bitmapBlocks * 512
  memory : s.superblock.bitmapBlocks * 512 < allocationLimit
  slot : s.liveSlot ≤ 1

/-- A block number that a tree may use: past the bitmap and on the device. -/
def State.InArea (s : State) (b : Nat) : Prop :=
  s.superblock.firstDataBlock ≤ b + 1 ∧ b < s.superblock.totalBlocks

/-! ## Bits -/

variable {b : Nat}

theorem isAllocated_mark {s : State} {allocated : Bool}
    (hkeep : allocated = true ∨ s.superblock.firstDataBlock ≤ b) (hlen : b / 8 < s.bitmapLength)
    (x : Nat) :
    (s.mark b allocated).isAllocated x = if x = b then allocated else s.isAllocated x := by
  have hmeta : ¬((!allocated) = true ∧ b < s.superblock.firstDataBlock) := by
    rintro ⟨hfree, _⟩
    rcases hkeep with hset | hdata
    · simp [hset] at hfree
    · omega
  rw [State.mark, if_neg hmeta, if_pos hlen]
  simp only [State.isAllocated, Bitmap.test_set]
  by_cases hx : x = b
  · simp [hx, hlen]
  · simp [hx]

/-! ## Growth -/

/-- The block was free in `w`, could hold data, and is in use in `w'`. -/
structure Fresh (w w' : World) (b : Nat) : Prop where
  free : w.state.isAllocated b = false
  used : w'.state.isAllocated b = true
  low : w.state.superblock.firstDataBlock ≤ b
  high : b < w.state.superblock.totalBlocks

/-- Nothing but free blocks changed from `w` to `w'`, and the blocks `retired` were put on
the retired list. -/
structure Grew (w w' : World) (retired : List Nat) : Prop where
  superblock : w'.state.superblock = w.state.superblock
  liveSlot : w'.state.liveSlot = w.state.liveSlot
  length : w'.state.bitmapLength = w.state.bitmapLength
  kept : ∀ b, w.state.isAllocated b = true → w'.state.isAllocated b = true
  added : ∀ b, w'.state.isAllocated b = true → w.state.isAllocated b = true ∨ Fresh w w' b
  written : ∃ new, w'.device.log = w.device.log ++ new ∧ w'.disk = replay w.disk new ∧
    ∀ e ∈ new, ∃ b data, e = .write b data ∧ Fresh w w' b
  retired : w'.state.retired = w.state.retired ++ retired

/-- The same state, and the same record on the device. -/
structure Quiet (w w' : World) : Prop where
  state : w'.state = w.state
  disk : w'.disk = w.disk
  log : w'.device.log = w.device.log

theorem Quiet.refl (w : World) : Quiet w w := ⟨rfl, rfl, rfl⟩

variable {w w' w'' : World}

theorem Quiet.trans (h : Quiet w w') (h' : Quiet w' w'') : Quiet w w'' :=
  ⟨h'.state.trans h.state, h'.disk.trans h.disk, h'.log.trans h.log⟩

theorem Quiet.grew (h : Quiet w w') : Grew w w' [] where
  superblock := by rw [h.state]
  liveSlot := by rw [h.state]
  length := by rw [h.state]
  kept := fun b hb => by rw [h.state]; exact hb
  added := fun b hb => .inl (by rw [← h.state]; exact hb)
  written := ⟨[], by rw [h.log, append_nil], h.disk, by simp⟩
  retired := by rw [h.state, append_nil]

theorem Fresh.of_quiet (hq : Quiet w w') (h : Fresh w' w'' b) : Fresh w w'' b := by
  obtain ⟨h₁, h₂, h₃, h₄⟩ := h
  rw [hq.state] at h₁ h₃ h₄
  exact ⟨h₁, h₂, h₃, h₄⟩

/-- Replaying writes to some blocks leaves the others alone. -/
theorem replay_of_not_mem {P : Nat → Prop} {events : List Event}
    (h : ∀ e ∈ events, ∃ b data, e = .write b data ∧ P b) (d : Disk) (hb : ¬P b) :
    replay d events b = d b := by
  induction events generalizing d with
  | nil => rfl
  | cons e events ih =>
    obtain ⟨x, data, rfl, hx⟩ := h e mem_cons_self
    have hne : b ≠ x := fun he => hb (he ▸ hx)
    rw [replay, ih (fun e he => h e (mem_cons_of_mem _ he)), Function.update_of_ne hne]

namespace Grew

variable {w w' w'' : World} {r r' : List Nat}

theorem refl (w : World) : Grew w w [] := (Quiet.refl w).grew

variable {b : Nat}

theorem disk (h : Grew w w' r) (hb : ¬Fresh w w' b) : w'.disk b = w.disk b := by
  obtain ⟨_, -, hdisk, hnew⟩ := h.written
  rw [hdisk]
  exact replay_of_not_mem hnew _ hb

theorem disk_of_used (h : Grew w w' r) (hb : w.state.isAllocated b = true) : w'.disk b = w.disk b :=
  h.disk fun hfresh => by simp [hfresh.free] at hb

theorem fresh_left (h' : Grew w' w'' r') (hb : Fresh w w' b) : Fresh w w'' b :=
  ⟨hb.free, h'.kept b hb.used, hb.low, hb.high⟩

theorem fresh_right (h : Grew w w' r) (hb : Fresh w' w'' b) : Fresh w w'' b where
  free := by
    cases hw : w.state.isAllocated b with
    | false => rfl
    | true => simpa [h.kept b hw] using hb.free
  used := hb.used
  low := by rw [← h.superblock]; exact hb.low
  high := by rw [← h.superblock]; exact hb.high

/-- What is fresh after two stretches became so in one of them. -/
theorem fresh_cases (h : Grew w w' r) (hb : Fresh w w'' b) : Fresh w w' b ∨ Fresh w' w'' b := by
  cases hw : w'.state.isAllocated b with
  | true => exact .inl ⟨hb.free, hw, hb.low, hb.high⟩
  | false =>
    refine .inr ⟨hw, hb.used, ?_, ?_⟩
    · rw [h.superblock]
      exact hb.low
    · rw [h.superblock]
      exact hb.high

/-- **Growth over two stretches of code.** -/
theorem trans (h : Grew w w' r) (h' : Grew w' w'' r') : Grew w w'' (r ++ r') where
  superblock := h'.superblock.trans h.superblock
  liveSlot := h'.liveSlot.trans h.liveSlot
  length := h'.length.trans h.length
  kept := fun b hb => h'.kept b (h.kept b hb)
  added := by
    intro b hb
    rcases h'.added b hb with hb | hb
    · rcases h.added b hb with hb | hb
      · exact .inl hb
      · exact .inr (h'.fresh_left hb)
    · exact .inr (h.fresh_right hb)
  written := by
    obtain ⟨new, hlog, hdisk, hnew⟩ := h.written
    obtain ⟨new', hlog', hdisk', hnew'⟩ := h'.written
    refine ⟨new ++ new', by rw [hlog', hlog, append_assoc], ?_, ?_⟩
    · rw [hdisk', hdisk, replay_append]
    intro e he
    rcases mem_append.mp he with he | he
    · obtain ⟨b, data, rfl, hb⟩ := hnew e he
      exact ⟨b, data, rfl, h'.fresh_left hb⟩
    · obtain ⟨b, data, rfl, hb⟩ := hnew' e he
      exact ⟨b, data, rfl, h.fresh_right hb⟩
  retired := by rw [h'.retired, h.retired, append_assoc]

theorem trans_nil (h : Grew w w' r) (h' : Grew w' w'' []) : Grew w w'' r := by
  simpa using h.trans h'

theorem nil_trans (h : Grew w w' []) (h' : Grew w' w'' r) : Grew w w'' r := h.trans h'

theorem layout {env : Env} (h : Grew w w' r) (hl : Layout env w.state) : Layout env w'.state := by
  obtain ⟨h₁, h₂, h₃, h₄, h₅, h₆, h₇, h₈, h₉, h₁₀, h₁₁⟩ := hl
  rw [← h.superblock] at h₁ h₂ h₃ h₄ h₅ h₆ h₇ h₈ h₉ h₁₀
  rw [← h.length] at h₉
  rw [← h.liveSlot] at h₁₁
  exact ⟨h₁, h₂, h₃, h₄, h₅, h₆, h₇, h₈, h₉, h₁₀, h₁₁⟩

end Grew

/-! ## Trees in use -/

/-- The tree below an inode block, no block of it referred to twice, all of them in use. -/
structure Owned (w : World) (b : Nat) (t : Tree) (blocks : List Nat) : Prop where
  shows : Shows w.disk b t blocks
  nodup : blocks.Nodup
  used : ∀ x ∈ blocks, w.state.isAllocated x = true
  area : ∀ x ∈ blocks, w.state.InArea x

theorem Owned.grew {t : Tree} {blocks r : List Nat}
    (h : Owned w b t blocks) (hg : Grew w w' r) : Owned w' b t blocks where
  shows := h.shows.frame fun x hx => hg.disk_of_used (h.used x hx)
  nodup := h.nodup
  used := fun x hx => hg.kept x (h.used x hx)
  area := fun x hx => by
    rw [State.InArea, hg.superblock]
    exact h.area x hx

end Panda.Fs
