import PandaProof.FsRefinement

/-!
# Free space

Which blocks are marked in use, against which blocks the tree is in.  Within one mount the two
agree after every operation that returns: what a change claims is in the new tree, and what the
new tree does not use any more is given back.

On the disk they do not.  The bitmap is written by the commit, before the blocks of the old tree
are given back, so what the last change gave back is still marked on the disk and is lost to
whoever mounts it next.
-/
namespace Panda.Fs

open Block List State

variable {env : Env} {w w₁ w₂ : World} {t t' : Tree} {blocks blocks' retired garbage : List Nat}
  {root : Nat}

/-! ## What a release clears -/

theorem isAllocated_mark_false (s : State) (block b : Nat) :
    (s.mark block false).isAllocated b = true ↔
      s.isAllocated b = true ∧ (s.superblock.firstDataBlock ≤ b → b ≠ block) := by
  by_cases hlow : block < s.superblock.firstDataBlock
  · rw [mark, if_pos ⟨rfl, hlow⟩]
    exact ⟨fun h => ⟨h, fun hb => by omega⟩, fun h => h.1⟩
  by_cases hlen : block / 8 < s.bitmapLength
  · rw [isAllocated_mark (.inr (not_lt.mp hlow)) hlen]
    by_cases hb : b = block
    · simp [hb, not_lt.mp hlow]
    · simp [hb]
  · rw [mark, if_neg (by simp [hlow]), if_neg hlen]
    refine ⟨fun h => ⟨h, ?_⟩, fun h => h.1⟩
    rintro - rfl
    simp [isAllocated, hlen] at h

theorem isAllocated_foldl_mark (l : List Nat) (s : State) (b : Nat) :
    (l.foldl (fun s block => s.mark block false) s).isAllocated b = true ↔
      s.isAllocated b = true ∧ (s.superblock.firstDataBlock ≤ b → b ∉ l) := by
  induction l generalizing s with
  | nil => simp
  | cons block l ih =>
    rw [foldl_cons, ih, mark_superblock, isAllocated_mark_false, mem_cons, not_or]
    tauto

/-- Of the blocks given back, those that can hold data are free. -/
theorem isAllocated_release (s : State) (garbage : List Nat) (b : Nat) :
    (s.release garbage).isAllocated b = true ↔
      s.isAllocated b = true ∧ (s.superblock.firstDataBlock ≤ b → b ∉ garbage ++ s.retired) :=
  isAllocated_foldl_mark _ _ b

/-! ## Within one mount -/

/-- Of the blocks that can hold data, those in use are the ones the tree is in. -/
def Exact (w : World) (blocks : List Nat) : Prop :=
  ∀ b, w.state.superblock.firstDataBlock ≤ b → b < w.state.superblock.totalBlocks →
    (w.state.isAllocated b = true ↔ b ∈ blocks)

section Finished

variable (hs : Sound env w t blocks) (hc : Copied w w₁ t t' blocks blocks' root retired garbage)
  (hcommit : Committed (w₁.switch root) w₂)
include hc hcommit

theorem superblock_finished : (w₂.state.release garbage).superblock =
    { w.state.superblock with
      rootInode := root, generation := w.state.superblock.generation + 1 } := by
  obtain ⟨_, hrelease, -⟩ := release_eq w₂.state garbage
  rw [hrelease, hcommit.state, ← hc.grew.superblock]
  rfl

include hs

/-- What is marked after a change: what was marked before, and what is new, without what was
given back. -/
theorem isAllocated_finished (b : Nat) : (w₂.state.release garbage).isAllocated b = true ↔
    w₁.state.isAllocated b = true ∧
      (w.state.superblock.firstDataBlock ≤ b → b ∉ retired ++ garbage) := by
  have hretired : w₁.state.retired = retired := by
    rw [hc.grew.retired, hs.retired, nil_append]
  rw [isAllocated_release, hcommit.state]
  show w₁.state.isAllocated b = true ∧
    (w₁.state.superblock.firstDataBlock ≤ b → b ∉ garbage ++ w₁.state.retired) ↔ _
  rw [hretired, hc.grew.superblock, mem_append, mem_append, or_comm]

/-- **A change keeps the marks exact.** -/
theorem Exact.finished (h : Exact w blocks) (hunique : t.Unique) :
    Exact { w₂ with state := w₂.state.release garbage } blocks' := by
  intro b hlow hhigh
  change (w₂.state.release garbage).superblock.firstDataBlock ≤ b at hlow
  change b < (w₂.state.release garbage).superblock.totalBlocks at hhigh
  rw [superblock_finished hc hcommit] at hlow hhigh
  change (w₂.state.release garbage).isAllocated b = true ↔ _
  rw [isAllocated_finished hs hc hcommit]
  constructor
  · rintro ⟨hused, hkept⟩
    rcases hc.grew.added b hused with hold | hfresh
    · exact (hc.moves.complete hunique b ((h b hlow hhigh).mp hold)).resolve_right (hkept hlow)
    · exact hc.moves.claimed b hfresh
  · intro hb
    exact ⟨hc.used hs.owned.used b hb, fun _ hmem => (hc.moves.gone b hmem).2 hb⟩

end Finished

/-- A fresh format uses none of the blocks that can hold data. -/
theorem Blank.exact {d : Device} {n : Nat} (h : Blank n d.disk) (hn : Formattable n) :
    Exact ⟨d, mountedFrom d.disk (blankSuperBlock n) 0⟩ [(blankSuperBlock n).rootInode] := by
  intro b hlow hhigh
  change (blankSuperBlock n).firstDataBlock ≤ b at hlow
  change b < n at hhigh
  have hroot : (blankSuperBlock n).rootInode + 1 = (blankSuperBlock n).firstDataBlock := rfl
  obtain ⟨-, _, -, -, -⟩ := blank_sizes n hn.1
  refine iff_of_false ?_ (by simp; omega)
  rw [isAllocated, Bool.and_eq_true, not_and]
  rintro -
  change ¬Bitmap.test (bitmapOnDisk d.disk (blankSuperBlock n)) b = true
  rw [test_bitmapOnDisk (by omega) h.bitmap, blankBitmap, test_foldl_set]
  have hmem : b ∉ range (blankSuperBlock n).firstDataBlock ++ range' (blankSuperBlock n).totalBlocks
      ((blankSuperBlock n).bitmapBlocks * blockSize * 8 - (blankSuperBlock n).totalBlocks) := by
    rw [mem_append, mem_range, mem_range'_1]
    rintro (hlt | ⟨hge, -⟩)
    · omega
    · exact not_lt.mpr hge hhigh
  simp [hmem, Bitmap.test]

/-- No remount and no power cut. -/
def Happening.Operation : Happening → Prop
  | .operate _ => True
  | _ => False

instance : (x : Happening) → Decidable x.Operation
  | .operate _ => isTrue trivial
  | .remount => isFalse id
  | .crash .. => isFalse id

theorem exact_of_reaches (hr : env.Reliable) {v : Volume}
    (h : (volumes env).Reaches (fun _ x => x.Operation) v) :
    ∃ t blocks, Sound env v.world t blocks ∧ t.WellNamed ∧ Exact v.world blocks := by
  refine h.invariant (I := fun v => ∃ t blocks, Sound env v.world t blocks ∧ t.WellNamed ∧
    Exact v.world blocks) ?_ ?_
  · intro v hinit
    obtain ⟨-, hformat, hsound, hblank, hstate⟩ := (format_spec hr ⟨v.base, 0, []⟩).of_ok hinit
    have hexact := hblank.exact hformat
    rw [← hstate] at hexact
    exact ⟨_, _, hsound, Tree.emptyTree_wellNamed, hexact⟩
  rintro v happening v' ⟨t, blocks, hs, hnamed, hexact⟩ hop hstep
  cases happening with
  | operate op =>
    obtain ⟨a, _, hrun, rfl⟩ := perform_of_operate hstep
    have hreturned := (perform_spec op hs.layout hs.owned).of_ok hrun
    cases hreads : op.reads with
    | true =>
      have hquiet := hreturned.read hreads
      refine ⟨t, blocks, hs.quiet hquiet, hnamed, ?_⟩
      rw [Exact, hquiet.state]
      exact hexact
    | false =>
      obtain ⟨_, _, t', blocks', _, _, _, hout, hc, hcommit, rfl⟩ := hreturned.change hreads
      exact ⟨t', blocks', (finished_sound hs hc hcommit).1, hnamed.change hout,
        hexact.finished hs hc hcommit hnamed.unique⟩
  | remount | crash => exact hop.elim

/-- **The free count is exact within one mount**: after a format and any operations that return,
on a device where nothing fails, the data blocks in use are those the tree is in, and
`free_blocks` counts the others. -/
theorem free_blocks_exact (sectorCount : Nat) {v : Volume}
    (h : (volumes (Env.reliable sectorCount)).Reaches (fun _ x => x.Operation) v) :
    ∃ t blocks, v.world.Carries t blocks ∧ Exact v.world blocks ∧
      v.world.state.freeBlocks = (v.world.state.dataBlocks.filter (· ∉ blocks)).length := by
  obtain ⟨t, blocks, hs, -, hexact⟩ := exact_of_reaches (Env.reliable_reliable sectorCount) h
  refine ⟨t, blocks, hs.owned.shows, hexact, congrArg length (filter_congr fun b hb => ?_)⟩
  have hroom := hs.layout.room
  obtain ⟨hlow, _⟩ := mem_range'_1.mp hb
  have hiff := hexact b hlow (by omega)
  cases hused : v.world.state.isAllocated b with
  | true => simp [hiff.mp hused]
  | false => simp [show b ∉ blocks from fun hmem => by simp [hiff.mpr hmem] at hused]

/-- A file is created and removed again. -/
theorem free_blocks_exact_removed : ∃ (v : Volume) (t : Tree) (blocks : List Nat),
    v.world.state.superblock.generation = 3 ∧ v.world.Carries t blocks ∧ Exact v.world blocks ∧
    v.world.state.freeBlocks = (v.world.state.dataBlocks.filter (· ∉ blocks)).length := by
  obtain ⟨v, hreach, hgen⟩ := (volumes (Env.reliable 64)).exists_reaches
    (fun _ x => x.Operation) [.operate (.create pathF .file none), .operate (.remove pathF none)]
    (fun v => v.world.state.superblock.generation = 3) (blankVolume_init formattable_64)
    (by decide +kernel)
  obtain ⟨t, blocks, h⟩ := free_blocks_exact 64 hreach
  exact ⟨v, t, blocks, hgen, h⟩

/-- **Every volume is consistent**, after any operations, remounts and power cuts: the superblock
in memory is the newest on the disk, and the blocks of the tree are distinct, in the data area,
and marked in memory and on the disk. -/
theorem consistent_of_reachable (hr : env.Reliable) {v : Volume}
    (h : (volumes env).Reachable v) : ∃ t blocks, Sound env v.world t blocks := by
  obtain ⟨t, blocks, -, hs⟩ := calm_of_reachable hr h
  exact ⟨t, blocks, hs⟩

/-- `/f` is created, the device is mounted again, and the power goes while `/g` is created, with
the last write that was not flushed lost. -/
theorem consistent_after_cut : ∃ (v : Volume) (t : Tree) (blocks : List Nat),
    v.world.state.superblock.generation = 2 ∧ Sound (Env.reliable 64) v.world t blocks := by
  obtain ⟨v, hreach, hgen⟩ := (volumes (Env.reliable 64)).exists_reachable
    [.operate (.create pathF .file none), .remount,
      .crash (.create pathG .file none) 3 fun n => if n = 2 then .lost else .landed]
    (fun v => v.world.state.superblock.generation = 2) (blankVolume_init formattable_64)
    (by decide +kernel)
  obtain ⟨t, blocks, hs⟩ := consistent_of_reachable (Env.reliable_reliable 64) hreach
  exact ⟨v, t, blocks, hgen, hs⟩

/-! ## Across a remount -/

/-- Mounting the device again gives back the blocks that are free in memory, and no others. -/
def Remounts (env : Env) (w : World) : Prop :=
  ∃ s d, mount env w.device = (.ok s, d) ∧ s.freeBlocks = w.state.freeBlocks ∧
    ∀ b, s.isAllocated b = w.state.isAllocated b

/-- What is marked in memory is marked on the disk. -/
def Saved (w : World) : Prop :=
  ∀ b, (mountedFrom w.disk w.state.superblock w.state.liveSlot).isAllocated b =
    w.state.isAllocated b

theorem Saved.remounts (h : Saved w) (hr : env.Reliable) (hs : Sound env w t blocks) :
    Remounts env w := by
  obtain ⟨d, hmount, -⟩ := hs.mountable.mount hr
  refine ⟨_, d, hmount, congrArg length (filter_congr fun b _ => ?_), h⟩
  rw [h b]

/-- The step changes nothing, or no data block is in use yet: a change is the first since the
format. -/
def GivesNothingBack (v : Volume) : Happening → Prop
  | .operate op => op.reads = true ∨
      ∀ b ∈ v.world.state.dataBlocks, v.world.state.isAllocated b = false
  | .remount => True
  | .crash .. => False

instance (v : Volume) : (x : Happening) → Decidable (GivesNothingBack v x)
  | .operate _ => inferInstanceAs (Decidable (_ ∨ _))
  | .remount => isTrue trivial
  | .crash .. => isFalse id

/-- A commit that is not followed by giving anything back leaves the bitmap on the disk. -/
theorem saved_finished (hs : Sound env w t blocks)
    (hc : Copied w w₁ t t' blocks blocks' root retired garbage)
    (hcommit : Committed (w₁.switch root) w₂)
    (hempty : ∀ b ∈ w.state.dataBlocks, w.state.isAllocated b = false) :
    Saved { w₂ with state := w₂.state.release garbage } := by
  have hrenewed := renewed_of_committed hs hc hcommit
  have hlength : w₁.state.bitmapLength = w.state.superblock.bitmapBlocks * 512 := by
    rw [hc.grew.length, hs.layout.length]
  intro b
  change (mountedFrom w₂.disk (w₂.state.release garbage).superblock _).isAllocated b =
    (w₂.state.release garbage).isAllocated b
  have hmemory : (w₂.state.release garbage).isAllocated b = w₁.state.isAllocated b := by
    rw [Bool.eq_iff_iff, isAllocated_finished hs hc hcommit]
    refine ⟨fun h => h.1, fun h => ⟨h, fun hlow hmem => ?_⟩⟩
    have hold := (hc.moves.gone b hmem).1
    have hdata : b ∈ w.state.dataBlocks := by
      have := (hs.owned.area b hold).2
      exact mem_range'_1.mpr ⟨hlow, by omega⟩
    cases (hempty b hdata).symm.trans (hs.owned.used b hold)
  rw [hmemory, superblock_finished hc hcommit, isAllocated, isAllocated, hlength]
  change (decide (b / 8 < w.state.superblock.bitmapBlocks * 512) &&
    Bitmap.test (bitmapOnDisk w₂.disk _) b) = _
  by_cases hb : b / 8 < w.state.superblock.bitmapBlocks * 512
  · rw [decide_eq_true hb, Bool.true_and, Bool.true_and]
    refine test_bitmapOnDisk (show b < w.state.superblock.bitmapBlocks * 4096 by omega)
      fun k hk => ?_
    rw [← hrenewed.sectors k hk]
    exact congrArg (fun start => w₂.disk (start + k)) hs.layout.bitmapStart
  · rw [decide_eq_false hb, Bool.false_and, Bool.false_and]

/-- What gives nothing back leaves the bitmap on disk true. -/
theorem saved_step (hr : env.Reliable) {v v' : Volume} {x : Happening}
    (hs : Sound env v.world t blocks) (hsaved : Saved v.world) (hok : GivesNothingBack v x)
    (hstep : (volumes env).step v x = some v') :
    ∃ t' blocks', Sound env v'.world t' blocks' ∧ Saved v'.world := by
  cases x with
  | operate op =>
    obtain ⟨a, _, hrun, rfl⟩ := perform_of_operate hstep
    have hreturned := (perform_spec op hs.layout hs.owned).of_ok hrun
    cases hreads : op.reads with
    | true =>
      have hquiet := hreturned.read hreads
      refine ⟨t, blocks, hs.quiet hquiet, fun b => ?_⟩
      rw [hquiet.state, hquiet.disk]
      exact hsaved b
    | false =>
      have hempty := hok.resolve_left (by simp [hreads])
      obtain ⟨_, _, t', blocks', root, _, _, _, hc, hcommit, rfl⟩ := hreturned.change hreads
      exact ⟨t', blocks', (finished_sound hs hc hcommit).1, saved_finished hs hc hcommit hempty⟩
  | remount =>
    obtain ⟨d, hmount, hdisk, -, hsound⟩ := hs.mountable.mount hr
    simp only [volumes, Volume.mounted, hmount, Option.some.injEq] at hstep
    subst hstep
    refine ⟨t, blocks, hsound, fun b => ?_⟩
    change (mountedFrom d.disk _ _).isAllocated b = _
    rw [hdisk]
    rfl
  | crash => exact hok.elim

/-- **Remounting loses no space** while nothing but the first change since the format has been
made, on a device where nothing fails. -/
theorem remounts_of_reaches (sectorCount : Nat) {v : Volume}
    (h : (volumes (Env.reliable sectorCount)).Reaches GivesNothingBack v) :
    Remounts (Env.reliable sectorCount) v.world := by
  have hr := Env.reliable_reliable sectorCount
  have hinv : ∃ t blocks, Sound (Env.reliable sectorCount) v.world t blocks ∧ Saved v.world := by
    refine h.invariant (I := fun v => ∃ t blocks,
      Sound (Env.reliable sectorCount) v.world t blocks ∧ Saved v.world) ?_ ?_
    · intro v hinit
      obtain ⟨-, _, hsound, _, hstate⟩ := (format_spec hr ⟨v.base, 0, []⟩).of_ok hinit
      refine ⟨_, _, hsound, fun b => ?_⟩
      rw [hstate]
      rfl
    rintro v happening v' ⟨t, blocks, hs, hsaved⟩ hok hstep
    exact saved_step hr hs hsaved hok hstep
  obtain ⟨t, blocks, hs, hsaved⟩ := hinv
  exact hsaved.remounts hr hs

/-- `/f` is created on a fresh format, mounted again and read. -/
theorem remounts_after_first : ∃ v, (volumes (Env.reliable 16)).Reaches GivesNothingBack v ∧
    v.world.state.superblock.generation = 2 ∧ Remounts (Env.reliable 16) v.world := by
  obtain ⟨v, hreach, hgen⟩ := (volumes (Env.reliable 16)).exists_reaches GivesNothingBack
    [.operate (.create pathF .file none), .remount, .operate (.readFile pathF none)]
    (fun v => v.world.state.superblock.generation = 2) (blankVolume_init ⟨by decide, by decide⟩)
    (by decide +kernel)
  exact ⟨v, hreach, hgen, remounts_of_reaches 16 hreach⟩

/-- After the second change the disk still has the old root and its directory block marked. -/
theorem remount_loses_space : ∃ v : Volume,
    (volumes (Env.reliable 64)).Reaches (fun _ x => x.Operation) v ∧
      ¬Remounts (Env.reliable 64) v.world := by
  have hr := Env.reliable_reliable 64
  obtain ⟨v, hreach, hdisk, hmemory⟩ := (volumes (Env.reliable 64)).exists_reaches
    (fun _ x => x.Operation)
    [.operate (.create pathF .file none), .operate (.create pathG .file none)]
    (fun v => Bitmap.test (bitmapOnDisk v.world.disk v.world.state.superblock) 6 = true ∧
      v.world.state.isAllocated 6 = false) (blankVolume_init formattable_64) (by decide +kernel)
  refine ⟨v, hreach, fun ⟨s, d, hmount, _, hsame⟩ => ?_⟩
  obtain ⟨t, _, hs, -⟩ := exact_of_reaches hr hreach
  obtain ⟨_, hmount', -⟩ := hs.mountable.mount hr
  obtain rfl := Except.ok.inj (congrArg Prod.fst (hmount.symm.trans hmount'))
  have hsame := hsame 6
  rw [hmemory, isAllocated, Bool.and_eq_false_iff] at hsame
  rcases hsame with hshort | hfree
  · have hpos := hs.layout.bitmapBlocks
    exact of_decide_eq_false hshort
      (show 6 / 8 < v.world.state.superblock.bitmapBlocks * 512 by omega)
  · cases hdisk.symm.trans hfree

end Panda.Fs
