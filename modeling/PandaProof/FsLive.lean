import PandaProof.FsCrash

/-!
# Blocks in use through failures

A mounted filesystem goes through any operations while any request of the device may fail,
so that operations return errors part-way and later ones go on.  The retired list outlives
an operation that gives up between retiring a block and switching to the new root, and the
next change that succeeds gives the block back while the tree still uses it.  As long as no
change is made over such a list, a block the tree uses stays marked in memory.
-/
namespace Panda.Fs

open Block List

theorem Layout.of_size {env env' : Env} {s : State} (h : Layout env s)
    (he : env'.sectorCount = env.sectorCount) : Layout env' s :=
  { h with total := h.total.trans he.symm }

/-! ## What is retired -/

/-- The tree is in use, and so is what is retired. -/
structure Tidy (env : Env) (w : World) (t : Tree) (blocks : List Nat) : Prop where
  layout : Layout env w.state
  owned : Owned w w.state.superblock.rootInode t blocks
  retired : ∀ b ∈ w.state.retired, w.state.isAllocated b = true

section Steps

variable {env : Env} {w w₁ : World} {t t' : Tree} {blocks blocks' r garbage : List Nat} {root : Nat}

/-- Only blocks of the tree were retired. -/
theorem Tidy.grew (h : Tidy env w t blocks) (hg : Grew w w₁ r) (hr : r ⊆ blocks) :
    Tidy env w₁ t blocks := by
  refine ⟨hg.layout h.layout, ?_, fun b hb => hg.kept b ?_⟩
  · rw [hg.superblock]
    exact h.owned.grew hg
  · rw [hg.retired] at hb
    exact (mem_append.mp hb).elim (h.retired b) fun hb => h.owned.used b (hr hb)

theorem Tidy.copied (h : Tidy env w t blocks)
    (hc : Copied w w₁ t t' blocks blocks' root r garbage) : Tidy env w₁ t blocks :=
  h.grew hc.grew fun b hb => (hc.moves.gone b (mem_append_left _ hb)).1

/-- A change that stopped inside its commit: the new root is in memory. -/
theorem Tidy.halted (h : Tidy env w t blocks)
    (hc : Copied w w₁ t t' blocks blocks' root r garbage) {e : Stop} {w' : World}
    (hhalted : Halted env (w₁.switch root) e w') : Tidy env w' t' blocks' := by
  have hl := hc.layout h.layout h.owned
  have ho := hc.owned h.owned
  have hretired := (h.copied hc).retired
  have hshows : Shows w'.disk root t' blocks' :=
    ho.shows.frame fun b hb => hhalted.disk b (ho.area b hb)
  obtain ⟨_, state⟩ := w'
  rcases hhalted.state with hstate | ⟨hgen, hstate⟩
  · obtain rfl : state = (w₁.switch root).state := hstate
    exact ⟨hl, ⟨hshows, ho.nodup, ho.used, ho.area⟩, hretired⟩
  obtain rfl : state = { (w₁.switch root).state with
    superblock := (w₁.switch root).state.nextSuperBlock } := hstate
  exact ⟨{ hl with fits := { hl.fits with generation := hgen } },
    ⟨hshows, ho.nodup, ho.used, ho.area⟩, hretired⟩

/-- A change that went through, over a list that names no block of the tree. -/
theorem Tidy.finished (h : Tidy env w t blocks) (hapart : ∀ b ∈ w.state.retired, b ∉ blocks)
    (hc : Copied w w₁ t t' blocks blocks' root r garbage) {w₂ : World}
    (hcommit : Committed (w₁.switch root) w₂) :
    Tidy env { w₂ with state := w₂.state.release garbage } t' blocks' := by
  have hl := hc.layout h.layout h.owned
  have ho := hc.owned h.owned
  obtain ⟨bitmap, hrelease, htest⟩ := release_eq w₂.state garbage
  have hshows : Shows w₂.disk root t' blocks' :=
    ho.shows.frame fun b hb => hcommit.disk_inArea hl (ho.area b hb)
  have hkept : ∀ b ∈ blocks', b ∉ garbage ++ w₂.state.retired := by
    intro b hb hmem
    rw [hcommit.state] at hmem
    change b ∈ garbage ++ w₁.state.retired at hmem
    rw [hc.grew.retired, mem_append, mem_append] at hmem
    rcases hmem with hmem | hmem | hmem
    · exact (hc.moves.gone b (mem_append_right _ hmem)).2 hb
    · -- A block of the new tree is one of the old, or was free when the change began.
      rcases hc.moves.source b hb with hold | hfresh
      · exact hapart b hmem hold
      · have hused := h.retired b hmem
        rw [hfresh.free] at hused
        contradiction
    · exact (hc.moves.gone b (mem_append_left _ hmem)).2 hb
  rw [hrelease]
  refine ⟨?_, ⟨?_, ho.nodup, fun b hb => ?_, fun b hb => ?_⟩, fun b hb => nomatch hb⟩
  · rw [hcommit.state]
    exact hl.next hcommit.generation _ _
  · show Shows w₂.disk w₂.state.superblock.rootInode t' blocks'
    rw [hcommit.state]
    exact hshows
  · show (decide (b / 8 < w₂.state.bitmapLength) && Bitmap.test bitmap b) = true
    rw [htest b (hkept b hb), hcommit.state]
    exact ho.used b hb
  · show w₂.state.superblock.firstDataBlock ≤ b + 1 ∧ b < w₂.state.superblock.totalBlocks
    rw [hcommit.state]
    exact ho.area b hb

end Steps

/-! ## Sessions -/

/-- A call of a session: which requests of the device fail during it, and the operation. -/
structure Call where
  faults : Faults
  op : Op

/-- The device during a call. -/
def Call.env (call : Call) (sectorCount : Nat) : Env := ⟨sectorCount, call.faults⟩

/-- Operations on a mounted filesystem, one after the other, whatever they return. -/
def sessions (sectorCount : Nat) : Machine World Call where
  Init w := ∃ t blocks, Layout (Env.reliable sectorCount) w.state ∧
    Owned w w.state.superblock.rootInode t blocks ∧ w.state.retired = []
  step w call := match perform (call.env sectorCount) call.op w with
    | (.ok _, w') => some w'
    | (.error (.error _), w') => some w'
    | (.error .panic, _) => none

/-- The call only reads, or what earlier failures left on the retired list is no part of the
tree. -/
def Untangled (w : World) (call : Call) : Prop :=
  call.op.reads = true ∨ ∀ t blocks, w.Carries t blocks → ∀ b ∈ w.state.retired, b ∉ blocks

/-- Every block reachable from the root in memory is marked in memory, none is referred to
twice, and none is handed out. -/
def LiveBlocksUsed (w : World) : Prop :=
  ∃ t blocks, w.Carries t blocks ∧ blocks.Nodup ∧
    (∀ b ∈ blocks, w.state.isAllocated b = true) ∧ ∀ b, w.state.findFree = some b → b ∉ blocks

theorem not_mem_of_findFree {s : State} {b : Nat} (h : s.findFree = some b) :
    s.isAllocated b = false := by
  have := find?_some h
  simpa using this

/-- **One call**, whatever it returns. -/
theorem Tidy.step {env : Env} {w w' : World} {t : Tree} {blocks : List Nat} {op : Op}
    {result : Except Stop Answer} (h : Tidy env w t blocks)
    (hok : op.reads = true ∨ ∀ b ∈ w.state.retired, b ∉ blocks)
    (hrun : perform env op w = (result, w')) : ∃ t' blocks', Tidy env w' t' blocks' := by
  have hspec := perform_spec op h.layout h.owned
  cases result with
  | ok =>
    have hreturned := hspec.of_ok hrun
    cases hop : op.reads with
    | true => exact ⟨t, blocks, h.grew (hreturned.read hop).grew (nil_subset _)⟩
    | false =>
      obtain ⟨w₁, _, t', blocks', root, r, garbage, -, hc, hcommit, rfl⟩ := hreturned.change hop
      exact ⟨t', blocks', h.finished (hok.resolve_left (by simp [hop])) hc hcommit⟩
  | error e =>
    have hstopped := hspec.of_error hrun
    cases hop : op.reads with
    | true => exact ⟨t, blocks, h.grew (hstopped.read hop).1.grew (nil_subset _)⟩
    | false =>
      rcases hstopped.change hop with
        ⟨r, hg, hr, -⟩ | ⟨w₁, t', blocks', root, r, garbage, -, hc, hhalted⟩
      · exact ⟨t, blocks, h.grew hg hr⟩
      · exact ⟨t', blocks', h.halted hc hhalted⟩

theorem tidy_of_reaches {sectorCount : Nat} {w : World}
    (h : (sessions sectorCount).Reaches Untangled w) :
    ∃ t blocks, Tidy (Env.reliable sectorCount) w t blocks := by
  refine h.invariant (I := fun w => ∃ t blocks, Tidy (Env.reliable sectorCount) w t blocks) ?_ ?_
  · rintro w ⟨t, blocks, hl, ho, hretired⟩
    exact ⟨t, blocks, hl, ho, fun b hb => by simp [hretired] at hb⟩
  rintro w call w' ⟨t, blocks, hl, ho, hretired⟩ hok hstep
  have htidy : Tidy (call.env sectorCount) w t blocks := ⟨hl.of_size rfl, ho, hretired⟩
  rcases hrun : perform (call.env sectorCount) call.op w with ⟨result, w''⟩
  obtain ⟨t', blocks', htidy'⟩ := htidy.step (hok.imp_right fun h => h t blocks ho.shows) hrun
  obtain rfl : w'' = w' := by
    simp only [sessions, hrun] at hstep
    rcases result with (e | _) | a
    · exact Option.some.inj hstep
    · contradiction
    · exact Option.some.inj hstep
  exact ⟨t', blocks', htidy'.layout.of_size rfl, htidy'.owned, htidy'.retired⟩

/-- **Live blocks are never free**, in every session that makes no change while a block of the
tree is on the retired list. -/
theorem live_blocks_never_free (sectorCount : Nat) {w : World}
    (h : (sessions sectorCount).Reaches Untangled w) : LiveBlocksUsed w := by
  obtain ⟨t, blocks, htidy⟩ := tidy_of_reaches h
  refine ⟨t, blocks, htidy.owned.shows, htidy.owned.nodup, htidy.owned.used, fun b hb hmem => ?_⟩
  have hfree := not_mem_of_findFree hb
  rw [htidy.owned.used b hmem] at hfree
  contradiction

/-! ## A session that frees a live block -/

/-- What `format` leaves on a device. -/
def freshDisk (sectorCount : Nat) : Disk := fun b =>
  if b = 0 then (blankSuperBlock sectorCount).encode
  else if b = 1 then { blankSuperBlock sectorCount with generation := 0 }.encode
  else if b < (blankSuperBlock sectorCount).rootInode then
    bitmapSectors (blankBitmap (blankSuperBlock sectorCount)) (b - 2)
  else (emptyInode .directory systemUser).encode

/-- A freshly formatted device, mounted. -/
def freshWorld (sectorCount : Nat) : World :=
  ⟨⟨freshDisk sectorCount, 0, []⟩,
    mountedFrom (freshDisk sectorCount) (blankSuperBlock sectorCount) 0⟩

theorem freshDisk_blank (sectorCount : Nat) : Blank sectorCount (freshDisk sectorCount) := by
  have hroot : (blankSuperBlock sectorCount).rootInode =
      2 + (blankSuperBlock sectorCount).bitmapBlocks := rfl
  refine ⟨rfl, rfl, fun k hk => ?_, ?_⟩
  · rw [freshDisk, if_neg (by omega), if_neg (by omega), if_pos (by omega), Nat.add_sub_cancel_left]
  · rw [freshDisk, if_neg (by omega), if_neg (by omega), if_neg (by omega)]

theorem freshWorld_sound {sectorCount : Nat} (h : Formattable sectorCount) :
    Sound (Env.reliable sectorCount) (freshWorld sectorCount) emptyTree
      [(blankSuperBlock sectorCount).rootInode] :=
  (@Blank.mountable (Env.reliable sectorCount) _ h (freshDisk_blank sectorCount)).sound rfl

theorem freshWorld_init {sectorCount : Nat} (h : Formattable sectorCount) :
    (sessions sectorCount).Init (freshWorld sectorCount) :=
  ⟨_, _, (freshWorld_sound h).layout, (freshWorld_sound h).owned, rfl⟩

theorem formattable_4096 : Formattable 4096 := ⟨by decide, by decide⟩

/-- The file `/f`. -/
def pathF : Str := ⟨[0x2F, 0x66], by decide⟩

/-- The file `/g`. -/
def pathG : Str := ⟨[0x2F, 0x67], by decide⟩

/-- No request fails. -/
def noFaults : Faults := (Env.reliable 0).faults

/-- The write with this number fails. -/
def writeFault (call : Nat) : Faults :=
  { noFaults with write := fun n => if n = call then some (.deviceFault, fun _ _ => 0) else none }

/-- `Untangled` of a tree at most three deep. -/
def untangled (w : World) (call : Call) : Bool :=
  call.op.reads || (treeAt w.disk 3 w.state.superblock.rootInode).any
    fun tree => w.state.retired.all fun b => !tree.2.contains b

theorem untangled_spec {w : World} {call : Call} (h : untangled w call = true) :
    Untangled w call := by
  rcases (Bool.or_eq_true _ _).mp h with hreads | hany
  · exact .inl hreads
  obtain ⟨⟨t', blocks'⟩, htree, hall⟩ := (Option.any_eq_true _ _).mp hany
  refine .inr fun t blocks hcarries b hb => ?_
  have hshows : Shows w.disk w.state.superblock.rootInode t' blocks' := ⟨3, htree⟩
  obtain ⟨rfl, rfl⟩ := hcarries.unique hshows
  simpa using all_eq_true.mp hall b hb

/-- A removal fails at the commit with the inode of `/f` retired and gone from the tree, so `/g`
may be created; another fails while its inode is still in the tree, and only a read follows. -/
theorem live_blocks_never_free_session : ∃ w, (sessions 4096).Reaches Untangled w ∧
    w.state.superblock.generation = 3 ∧ w.state.retired ≠ [] ∧ LiveBlocksUsed w := by
  obtain ⟨w, hreach, hgen, hretired⟩ := (sessions 4096).exists_reaches
    (fun w call => untangled w call = true)
    [⟨noFaults, .create pathF .file none⟩, ⟨writeFault 14, .remove pathF none⟩,
      ⟨noFaults, .create pathG .file none⟩, ⟨writeFault 29, .remove pathG none⟩,
      ⟨noFaults, .readFile pathG none⟩]
    (fun w => w.state.superblock.generation = 3 ∧ w.state.retired ≠ [])
    (freshWorld_init formattable_4096) (by decide +kernel)
  have hreach := hreach.mono fun _ _ => untangled_spec
  exact ⟨w, hreach, hgen, hretired, live_blocks_never_free 4096 hreach⟩

/-- Some block of the tree below the root is not marked. -/
def FreesLive (w : World) : Prop :=
  (treeAt w.disk 3 w.state.superblock.rootInode).any
    (fun tree => tree.2.any fun b => !w.state.isAllocated b) = true

instance (w : World) : Decidable (FreesLive w) := inferInstanceAs (Decidable (_ = true))

theorem not_liveBlocksUsed {w : World} (h : FreesLive w) : ¬LiveBlocksUsed w := by
  rintro ⟨t, _, hcarries, -, hused, -⟩
  obtain ⟨⟨t', blocks'⟩, htree, hany⟩ := (Option.any_eq_true _ _).mp h
  obtain ⟨b, hb, hfree⟩ := any_eq_true.mp hany
  have hshows : Shows w.disk w.state.superblock.rootInode t' blocks' := ⟨3, htree⟩
  obtain ⟨rfl, rfl⟩ := hcarries.unique hshows
  rw [hused b hb] at hfree
  contradiction

/-- **A failed removal frees a live file**: the removal of `/f` fails at its first write,
and creating `/g` then gives back the inode of `/f`, which is still in the tree. -/
theorem live_block_freed : ∃ w, (sessions 4096).Reachable w ∧ ¬LiveBlocksUsed w := by
  obtain ⟨w, hreach, hfrees⟩ := (sessions 4096).exists_reachable
    [⟨noFaults, .create pathF .file none⟩, ⟨writeFault 12, .remove pathF none⟩,
      ⟨noFaults, .create pathG .file none⟩] FreesLive
    (freshWorld_init formattable_4096) (by decide +kernel)
  exact ⟨w, hreach, not_liveBlocksUsed hfrees⟩

end Panda.Fs
