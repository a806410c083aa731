import PandaProof.FsMount
import PandaProof.FsChange
import PandaProof.Machine

/-!
# Crash atomicity

A volume goes through operations, remounts and power cuts.  An operation writes to free
blocks, then to the bitmap, and only then, after a flush, to the superblock slot that is
not live.  So a power cut leaves the old superblock live over blocks nobody wrote to, or
the new one over blocks that were flushed before it was sent.  In between, every bitmap
sector is the old one or the new one, and both mark the tree that will be mounted.
-/
namespace Panda.Fs

open Block Function List

variable {env : Env} {w : World}

/-! ## Disks that mount -/

theorem bitmapOnDisk_apply (d : Disk) (sb : SuperBlock) (i : Nat) :
    bitmapOnDisk d sb i = d (sb.bitmapStart + i / blockSize) (i % blockSize) := rfl

/-- The bit of a block lies in one sector. -/
theorem test_bitmapOnDisk_congr {d d' : Disk} {sb : SuperBlock} {b : Nat}
    (h : d' (sb.bitmapStart + b / 8 / blockSize) = d (sb.bitmapStart + b / 8 / blockSize)) :
    Bitmap.test (bitmapOnDisk d' sb) b = Bitmap.test (bitmapOnDisk d sb) b := by
  rw [Bitmap.test, Bitmap.test, bitmapOnDisk_apply, bitmapOnDisk_apply, h]

theorem Layout.sector_of_block {s : State} (hl : Layout env s) {b : Nat}
    (hb : b < s.superblock.totalBlocks) : b / 8 / blockSize < s.superblock.bitmapBlocks := by
  have hcovers := hl.covers
  show b / 8 / 512 < _
  omega

/-- A disk on which the tree of `w` is still the one to mount: some bitmap sectors may
already be those of `bitmap`. -/
structure Untouched (w : World) (blocks : List Nat) (bitmap : Nat → Byte) (d : Disk) : Prop where
  tree : ∀ b ∈ blocks, d b = w.disk b
  live : d w.state.liveSlot = w.disk w.state.liveSlot
  other : d (1 - w.state.liveSlot) = w.disk (1 - w.state.liveSlot) ∨
    SuperBlock.decode (d (1 - w.state.liveSlot)) = none
  sectors : ∀ k, k < w.state.superblock.bitmapBlocks →
    d (2 + k) = w.disk (2 + k) ∨ d (2 + k) = bitmapSectors bitmap k

/-- **The old tree mounts.** -/
theorem Untouched.mountable {t : Tree} {blocks : List Nat} {bitmap : Nat → Byte} {d : Disk}
    (h : Untouched w blocks bitmap d) (hs : Sound env w t blocks)
    (hmarked : ∀ b ∈ blocks, Bitmap.test bitmap b = true) :
    Mountable env d w.state.superblock w.state.liveSlot t blocks := by
  refine ⟨{ hs.layout with length := rfl }, ⟨hs.layout.slot, ?_, ?_⟩,
    hs.owned.shows.frame h.tree, hs.owned.nodup, ?_, hs.owned.area⟩
  · rw [h.live]
    exact hs.live.decodes
  · intro other hother
    rcases h.other with hold | hnone
    · rw [hold] at hother
      exact hs.live.older other hother
    · rw [hnone] at hother
      contradiction
  intro b hb
  have hk := hs.layout.sector_of_block (hs.owned.area b hb).2
  rcases h.sectors _ hk with hold | hnew
  · rw [test_bitmapOnDisk_congr (d := w.disk) (by rw [hs.layout.bitmapStart, hold])]
    exact hs.durable b hb
  have hbyte : bitmapOnDisk d w.state.superblock (b / 8) = bitmap (b / 8) := by
    rw [bitmapOnDisk_apply, hs.layout.bitmapStart, hnew]
    exact congrFun (bitmapOf_bitmapSectors bitmap) (b / 8)
  rw [Bitmap.test, hbyte]
  exact hmarked b hb

section Change

variable {w₁ : World} {t t' : Tree} {blocks blocks' retired garbage : List Nat} {root : Nat}

/-- A disk with the whole change on it. -/
structure Renewed (w w₁ : World) (root : Nat) (d : Disk) : Prop where
  area : ∀ b, w.state.InArea b → d b = w₁.disk b
  live : d w.state.liveSlot = w.disk w.state.liveSlot
  other : d (1 - w.state.liveSlot) = (w₁.switch root).state.nextSuperBlock.encode
  sectors : ∀ k, k < w.state.superblock.bitmapBlocks → d (2 + k) = bitmapSectors w₁.state.bitmap k

variable {d : Disk}

/-- **The new tree mounts.** -/
theorem Renewed.mountable (h : Renewed w w₁ root d) (hs : Sound env w t blocks)
    (hc : Copied w w₁ t t' blocks blocks' root retired garbage)
    (hgen : w.state.superblock.generation + 1 < wordLimit) :
    Mountable env d (w₁.switch root).state.nextSuperBlock (1 - w.state.liveSlot) t' blocks' := by
  have hl := hc.layout hs.layout hs.owned
  have hsb : w₁.state.superblock = w.state.superblock := hc.grew.superblock
  have hslot : w₁.state.liveSlot = w.state.liveSlot := hc.grew.liveSlot
  have hgen' : (w₁.switch root).state.superblock.generation + 1 < wordLimit := by
    show w₁.state.superblock.generation + 1 < _
    rw [hsb]
    exact hgen
  have harea := hc.inArea hs.owned.area
  have hnext := hl.next hgen'
    (bitmapOf fun k => d ((w₁.switch root).state.superblock.bitmapStart + k)) []
  rw [show (w₁.switch root).state.liveSlot = w.state.liveSlot from hslot] at hnext
  refine ⟨{ hnext with length := rfl }, ⟨Nat.sub_le 1 _, ?_, ?_⟩,
    hc.shows.frame fun b hb => h.area b (harea b hb), hc.moves.nodup, ?_, ?_⟩
  · rw [h.other]
    exact SuperBlock.decode_encode hnext.fits
  · intro other hother
    have hback : 1 - (1 - w.state.liveSlot) = w.state.liveSlot := by
      have := hs.layout.slot
      omega
    rw [hback, h.live, hs.live.decodes] at hother
    rw [← Option.some.inj hother]
    show w.state.superblock.generation < w₁.state.superblock.generation + 1
    rw [hsb]
    exact Nat.lt_succ_self _
  · intro b hb
    have hstart : (w₁.switch root).state.nextSuperBlock.bitmapStart = 2 := hl.bitmapStart
    have hblocks : (w₁.switch root).state.nextSuperBlock.bitmapBlocks =
        w.state.superblock.bitmapBlocks := by
      show w₁.state.superblock.bitmapBlocks = _
      rw [hsb]
    have hin := (harea b hb).2
    have hcovers := hs.layout.covers
    rw [@test_bitmapOnDisk d _ w₁.state.bitmap b (by rw [hblocks]; omega)]
    · have hused := hc.used hs.owned.used b hb
      rw [State.isAllocated, Bool.and_eq_true] at hused
      exact hused.2
    · intro k hk
      rw [hstart]
      exact h.sectors k (hblocks ▸ hk)
  · intro b hb
    obtain ⟨hlow, hhigh⟩ := harea b hb
    refine ⟨?_, ?_⟩
    · show w₁.state.superblock.firstDataBlock ≤ _
      rw [hsb]
      exact hlow
    · show b < w₁.state.superblock.totalBlocks
      rw [hsb]
      exact hhigh

/-! ## Power cuts in a change -/

/-- A sector that fails its checksum, where a superblock was being written. -/
def garbledSuperBlock (lba : Nat) (left : Sector) : Bool :=
  decide (lba < 2) && (SuperBlock.decode left).isNone

/-- What a change sends before its superblock: blocks it claimed, and the bitmap. -/
inductive Harmless (w w₁ : World) : Event → Prop
  | data {b : Nat} {data : Sector} (h : Fresh w w₁ b) : Harmless w w₁ (.write b data)
  | bitmap {k : Nat} (h : k < w.state.superblock.bitmapBlocks) :
      Harmless w w₁ (.write (2 + k) (bitmapSectors w₁.state.bitmap k))

theorem Harmless.place {b : Nat} {data : Sector} (h : Harmless w w₁ (.write b data)) :
    Fresh w w₁ b ∨ ∃ k, k < w.state.superblock.bitmapBlocks ∧ b = 2 + k ∧
      data = bitmapSectors w₁.state.bitmap k := by
  cases h with
  | data h => exact .inl h
  | bitmap h => exact .inr ⟨_, h, rfl, rfl⟩

variable {events : List Event}

/-- **Losing any of the writes before the superblock** leaves the old tree to mount. -/
theorem untouched_survive (hs : Sound env w t blocks)
    (h : ∀ e ∈ events, Harmless w w₁ e) (fates : Nat → Fate) :
    Untouched w blocks w₁.state.bitmap (survive garbledSuperBlock w.disk events fates) := by
  have hfirst := hs.layout.firstData
  have hslot := hs.layout.slot
  -- Sectors below the bitmap, and those of the tree, are not among the ones written.
  have hkept : ∀ b, (b < 2 ∨ w.state.InArea b ∧ w.state.isAllocated b = true) →
      survive garbledSuperBlock w.disk events fates b = w.disk b := by
    intro b hb
    refine survive_of_not_written _ fun data hmem => ?_
    rcases (h _ hmem).place with hfresh | ⟨k, hk, rfl, -⟩
    · have hlow := hfresh.low
      rcases hb with hb | ⟨-, hused⟩
      · omega
      · rw [hfresh.free] at hused
        contradiction
    · rcases hb with hb | ⟨⟨hlow, -⟩, -⟩ <;> omega
  refine ⟨fun b hb => hkept b (.inr ⟨hs.owned.area b hb, hs.owned.used b hb⟩),
    hkept _ (.inl (by omega)), .inl (hkept _ (.inl (by omega))), fun k hk => ?_⟩
  rcases survive_cases garbledSuperBlock w.disk events fates (2 + k) with hold | ⟨data, hmem, hdata⟩
  · exact .inl hold
  refine .inr ?_
  rcases hdata with hdata | hgarbled
  · rcases (h _ hmem).place with hfresh | ⟨k', -, _, rfl⟩
    · have hlow := hfresh.low
      omega
    · obtain rfl : k = k' := by omega
      exact hdata
  · rw [garbledSuperBlock, decide_eq_false (by omega), Bool.false_and] at hgarbled
    contradiction

/-- The superblock slot that is not live may hold anything that does not decode. -/
theorem Untouched.garbled {bitmap : Nat → Byte} (h : Untouched w blocks bitmap d)
    (hs : Sound env w t blocks) {left : Sector} (hleft : SuperBlock.decode left = none) :
    Untouched w blocks bitmap (update d (1 - w.state.liveSlot) left) := by
  have hfirst := hs.layout.firstData
  have hslot := hs.layout.slot
  have hkept : ∀ b, b ≠ 1 - w.state.liveSlot →
      update d (1 - w.state.liveSlot) left b = d b := fun b hb =>
    update_of_ne hb _ _
  refine ⟨fun b hb => ?_, ?_, .inr ?_, fun k hk => ?_⟩
  · have hlow := (hs.owned.area b hb).1
    rw [hkept b (by omega)]
    exact h.tree b hb
  · rw [hkept _ (by omega)]
    exact h.live
  · rw [update_self]
    exact hleft
  · rw [hkept _ (by omega)]
    exact h.sectors k hk

/-- What a change sends before its superblock. -/
def earlyEvents (w₁ : World) (new : List Event) : List Event :=
  new ++ writes w₁.state.superblock.bitmapStart (w₁.state.bitmapLength / blockSize)
    (bitmapSectors w₁.state.bitmap)

theorem commitEvents_switch (w₁ : World) (new : List Event) (root : Nat) :
    new ++ (w₁.switch root).state.commitEvents = earlyEvents w₁ new ++ .flush ::
      [.write (1 - w₁.state.liveSlot) (w₁.switch root).state.nextSuperBlock.encode, .flush] := by
  simp only [State.commitEvents, State.bitmapEvents, earlyEvents, append_assoc]
  rfl

theorem bitmapEvents_switch (w₁ : World) (new : List Event) (root : Nat) :
    new ++ (w₁.switch root).state.bitmapEvents = earlyEvents w₁ new ++ .flush :: [] := by
  simp only [State.bitmapEvents, earlyEvents, append_assoc]
  rfl

theorem Grew.sectors {retired : List Nat} (hg : Grew w w₁ retired) (hl : Layout env w.state) :
    w₁.state.superblock.bitmapStart = 2 ∧
      w₁.state.bitmapLength / blockSize = w.state.superblock.bitmapBlocks := by
  have hl₁ := hg.layout hl
  refine ⟨hl₁.bitmapStart, ?_⟩
  rw [hl₁.sectors, hg.superblock]

variable {new : List Event}

theorem harmless_early {retired : List Nat} (hg : Grew w w₁ retired) (hl : Layout env w.state)
    (hnew : ∀ e ∈ new, ∃ b data, e = .write b data ∧ Fresh w w₁ b) :
    ∀ e ∈ earlyEvents w₁ new, Harmless w w₁ e := by
  obtain ⟨hstart, hsectors⟩ := hg.sectors hl
  intro e he
  rcases mem_append.mp he with he | he
  · obtain ⟨b, data, rfl, hb⟩ := hnew e he
    exact .data hb
  · obtain ⟨k, hk, rfl⟩ := mem_writes he
    rw [hstart]
    exact .bitmap (hsectors ▸ hk)

theorem not_flush_of_harmless (h : ∀ e ∈ events, Harmless w w₁ e) :
    .flush ∉ events := fun hmem => nomatch h _ hmem

/-- The disk once everything before the superblock is on it, and then the superblock. -/
theorem renewed_replay {retired : List Nat} (hg : Grew w w₁ retired) (hl : Layout env w.state)
    (hdisk : w₁.disk = replay w.disk new) (root : Nat) :
    Renewed w w₁ root (update (replay w.disk (earlyEvents w₁ new)) (1 - w.state.liveSlot)
      (w₁.switch root).state.nextSuperBlock.encode) := by
  obtain ⟨hstart, hsectors⟩ := hg.sectors hl
  have hfirst := hl.firstData
  have hslot := hl.slot
  have hearly : ∀ b, replay w.disk (earlyEvents w₁ new) b =
      if 2 ≤ b ∧ b < 2 + w.state.superblock.bitmapBlocks then bitmapSectors w₁.state.bitmap (b - 2)
      else w₁.disk b := by
    intro b
    rw [earlyEvents, replay_append, replay_writes, hstart, hsectors, ← hdisk]
  refine ⟨fun b hb => ?_, ?_, update_self _ _ _, fun k hk => ?_⟩
  · have hlow := hb.1
    rw [update_of_ne (by omega), hearly, if_neg (by omega)]
  · rw [update_of_ne (by omega), hearly, if_neg (by omega)]
    refine hg.disk fun hfresh => ?_
    have hlow := hfresh.low
    omega
  · rw [update_of_ne (by omega), hearly, if_pos (by omega), Nat.add_sub_cancel_left]

/-- **A power cut in a change** leaves the old tree or the new one to mount. -/
theorem cut_change (hs : Sound env w t blocks) {retired : List Nat} (hg : Grew w w₁ retired)
    (hdisk : w₁.disk = replay w.disk new)
    (hnew : ∀ e ∈ new, ∃ b data, e = .write b data ∧ Fresh w w₁ b) (root k : Nat)
    (fates : Nat → Fate) (hd : d = powerCut garbledSuperBlock w.disk
      ((new ++ (w₁.switch root).state.commitEvents).take k) fates) :
    Untouched w blocks w₁.state.bitmap d ∨ Renewed w w₁ root d := by
  have hharmless := harmless_early hg hs.layout hnew
  have hnext := renewed_replay hg hs.layout hdisk root
  have hall : Untouched w blocks w₁.state.bitmap (replay w.disk (earlyEvents w₁ new)) := by
    rw [← survive_landed garbledSuperBlock]
    exact untouched_survive hs hharmless _
  rw [commitEvents_switch, hg.liveSlot] at hd
  rcases powerCut_take garbledSuperBlock (not_flush_of_harmless hharmless) w.disk _ k fates with
    hcut | ⟨j, hcut⟩
  · rw [hd, hcut]
    exact .inl (untouched_survive hs (fun e he => hharmless e (mem_of_mem_take he)) fates)
  -- The flush is over; what is left is the superblock and its flush.
  generalize hsb : (w₁.switch root).state.nextSuperBlock.encode = sb at hd hcut hnext
  have hsingle : Event.flush ∉ [Event.write (1 - w.state.liveSlot) sb] := by simp
  rw [hd, hcut]
  rcases powerCut_take garbledSuperBlock hsingle (replay w.disk (earlyEvents w₁ new)) [] j
    fates with
    hlast | ⟨j', hlast⟩
  · rw [cons_append, nil_append] at hlast
    rw [hlast]
    cases j with
    | zero => exact .inl hall
    | succ j =>
      rw [take_succ_cons, take_nil, survive, survive]
      cases fates 0 with
      | lost =>
        rw [Fate.leaves, update_eq_self]
        exact .inl hall
      | landed => exact .inr hnext
      | torn left =>
        rw [Fate.leaves]
        split
        · rename_i hgarbled
          rw [garbledSuperBlock, Bool.and_eq_true] at hgarbled
          exact .inl (hall.garbled hs (Option.isNone_iff_eq_none.mp hgarbled.2))
        · rw [update_eq_self]
          exact .inl hall
  · rw [cons_append, nil_append] at hlast
    rw [hlast, take_nil]
    exact .inr hnext

/-! ## What an operation leaves on a device where nothing fails -/

/-- How an operation on a sound filesystem ends; `returned` says that it returned. -/
inductive Outcome (w : World) (t : Tree) (blocks : List Nat) (returned : Prop) (w' : World) : Prop
  /-- Nothing but free blocks changed. -/
  | grew {retired : List Nat} (h : Grew w w' retired)
  /-- It panicked between the bitmap and the superblock. -/
  | halted {w₁ : World} {t' : Tree} {blocks' retired garbage : List Nat} {root : Nat}
      (h : Copied w w₁ t t' blocks blocks' root retired garbage)
      (hlog : w'.device.log = w₁.device.log ++ (w₁.switch root).state.bitmapEvents)
  /-- It went through. -/
  | finished {w₁ w₂ : World} {t' : Tree} {blocks' retired garbage : List Nat} {root : Nat}
      (h : Copied w w₁ t t' blocks blocks' root retired garbage)
      (hcommit : Committed (w₁.switch root) w₂)
      (hw' : w' = { w₂ with state := w₂.state.release garbage }) (hreturned : returned)

variable {returned : Prop} {w' : World}

theorem Returned.outcome (hreturned : returned) {op : Op} {a : Answer}
    (h : Returned w t blocks op a w') : Outcome w t blocks returned w' := by
  cases hop : op.reads with
  | true => exact .grew (h.read hop).grew
  | false =>
    obtain ⟨_, _, _, _, _, r, _, -, hc, hcommit, hw'⟩ := h.change hop
    exact .finished hc hcommit hw' hreturned

theorem Stopped.outcome (hr : env.Reliable) {op : Op} {e : Stop}
    (h : Stopped env w t blocks op e w') : Outcome w t blocks returned w' := by
  cases hop : op.reads with
  | true => exact .grew (h.read hop).1.grew
  | false =>
    rcases h.change hop with ⟨r, hg, -⟩ | ⟨_, _, _, _, r, _, -, hc, hhalted⟩
    · exact .grew hg
    · rcases hhalted.reason with ⟨hbroken, -⟩ | ⟨-, -, hlog⟩
      · exact absurd hr hbroken
      · exact .halted hc hlog

variable {w₂ : World}

/-- The disk after a commit. -/
theorem renewed_of_committed (hs : Sound env w t blocks)
    (hc : Copied w w₁ t t' blocks blocks' root retired garbage)
    (hcommit : Committed (w₁.switch root) w₂) : Renewed w w₁ root w₂.disk := by
  obtain ⟨new, -, hdisk, -⟩ := hc.grew.written
  have hnext := renewed_replay hc.grew hs.layout hdisk root
  have hdisk₂ : w₂.disk = replay w.disk (new ++ (w₁.switch root).state.commitEvents) := by
    rw [hcommit.disk, replay_append, ← hdisk]
    rfl
  rw [hdisk₂, commitEvents_switch, replay_append, hc.grew.liveSlot]
  exact hnext

/-- A change that went through left a sound filesystem, nothing of it unflushed. -/
theorem finished_sound (hs : Sound env w t blocks)
    (hc : Copied w w₁ t t' blocks blocks' root retired garbage)
    (hcommit : Committed (w₁.switch root) w₂) :
    Sound env { w₂ with state := w₂.state.release garbage } t' blocks' ∧
      ∀ base, AtRest base w.device → AtRest base w₂.device := by
  have hrenewed := renewed_of_committed hs hc hcommit
  obtain ⟨new, hlog, hdisk, _⟩ := hc.grew.written
  have hgen : w.state.superblock.generation + 1 < wordLimit := by
    rw [← hc.grew.superblock]
    exact hcommit.generation
  have hevents : new ++ (w₁.switch root).state.commitEvents =
      (earlyEvents w₁ new ++ [.flush, .write (1 - w₁.state.liveSlot)
        (w₁.switch root).state.nextSuperBlock.encode]) ++ [.flush] := by
    rw [commitEvents_switch, append_assoc]
    rfl
  have hlog₂ : w₂.device.log = w.device.log ++ (new ++ (w₁.switch root).state.commitEvents) := by
    rw [hcommit.log, ← append_assoc, ← hlog]
    rfl
  have hdisk₂ : w₂.disk = replay w.disk (new ++ (w₁.switch root).state.commitEvents) := by
    rw [hcommit.disk, replay_append, ← hdisk]
    rfl
  have hm := hrenewed.mountable hs hc hgen
  have hl : Layout env w₂.state := by
    rw [hcommit.state]
    exact (hc.layout hs.layout hs.owned).next hcommit.generation _ _
  have hretired : w₂.state.retired = retired := by
    rw [hcommit.state]
    show w₁.state.retired = retired
    rw [hc.grew.retired, hs.retired, nil_append]
  have hsb : w₂.state.superblock = (w₁.switch root).state.nextSuperBlock := by rw [hcommit.state]
  have hslot : w₂.state.liveSlot = 1 - w.state.liveSlot := by
    rw [hcommit.state, ← hc.grew.liveSlot]
    rfl
  obtain ⟨bitmap, hrelease, htest⟩ := release_eq w₂.state garbage
  rw [hrelease]
  refine ⟨⟨{ hl with }, ?_, ⟨?_, hm.nodup, fun b hb => ?_, fun b hb => ?_⟩, ?_, rfl⟩,
    fun base hrest => ?_⟩
  · show Live w₂.disk w₂.state.superblock w₂.state.liveSlot
    rw [hsb, hslot]
    exact hm.live
  · show Shows w₂.disk w₂.state.superblock.rootInode t' blocks'
    rw [hsb]
    exact hm.shows
  · -- What is given back is not in the new tree.
    have hkept : b ∉ garbage ++ w₂.state.retired := fun hmem => by
      rw [hretired] at hmem
      exact (hc.moves.gone b (mem_append.mpr (mem_append.mp hmem).symm)).2 hb
    have hused := hc.used hs.owned.used b hb
    show (decide (b / 8 < w₂.state.bitmapLength) && Bitmap.test bitmap b) = true
    rw [htest b hkept, hcommit.state]
    exact hused
  · show w₂.state.superblock.firstDataBlock ≤ b + 1 ∧ b < w₂.state.superblock.totalBlocks
    rw [hsb]
    exact hm.area b hb
  · show ∀ b ∈ blocks', Bitmap.test (bitmapOnDisk w₂.disk w₂.state.superblock) b = true
    rw [hsb]
    exact hm.durable
  · rw [hevents] at hlog₂ hdisk₂
    refine hrest.append hlog₂ ?_
    rw [show w₂.device.disk = w₂.disk from rfl, hdisk₂, replay_append]
    rfl

/-- Before a commit nothing is flushed. -/
theorem cut_of_fresh (hs : Sound env w t blocks)
    (hnew : ∀ e ∈ new, ∃ b data, e = .write b data ∧ Fresh w w' b) (k : Nat) (fates : Nat → Fate) :
    Untouched w blocks w'.state.bitmap (powerCut garbledSuperBlock w.disk (new.take k) fates) := by
  have hharmless : ∀ e ∈ new, Harmless w w' e := fun e he => by
    obtain ⟨b, data, rfl, hb⟩ := hnew e he
    exact .data hb
  rw [powerCut_of_writes _ (not_flush_of_harmless hharmless)]
  exact untouched_survive hs (fun e he => hharmless e (mem_of_mem_take he)) fates

/-- Blocks in use are marked in memory. -/
theorem Grew.marked {retired : List Nat} (hg : Grew w w' retired)
    (hs : Sound env w t blocks) : ∀ b ∈ blocks, Bitmap.test w'.state.bitmap b = true := by
  intro b hb
  have hused := hg.kept b (hs.owned.used b hb)
  rw [State.isAllocated, Bool.and_eq_true] at hused
  exact hused.2

end Change

/-! ## Volumes -/

/-- The tree a mounted filesystem shows, and the blocks it is in. -/
def World.Carries (w : World) (t : Tree) (blocks : List Nat) : Prop :=
  Shows w.disk w.state.superblock.rootInode t blocks

/-- A mounted filesystem, and what its device held when the power came on. -/
structure Volume where
  base : Disk
  world : World

/-- What the medium holds after a power cut inside an operation, once `k` of its events
have reached the device. -/
def Volume.cut (env : Env) (v : Volume) (op : Op) (k : Nat) (fates : Nat → Fate) : Disk :=
  powerCut garbledSuperBlock v.base
    ((perform env op v.world).2.device.log.take (v.world.device.log.length + k)) fates

/-- Mount what is on the device. -/
def Volume.mounted (env : Env) (base : Disk) (d : Device) : Option Volume :=
  match mount env d with
  | (.ok s, d') => some ⟨base, d', s⟩
  | (.error _, _) => none

inductive Happening
  /-- An operation that returns. -/
  | operate (op : Op)
  | remount
  /-- The power goes inside an operation, and the device is mounted again. -/
  | crash (op : Op) (k : Nat) (fates : Nat → Fate)

/-- A volume through operations, remounts and power cuts, from a fresh format. -/
def volumes (env : Env) : Machine Volume Happening where
  Init v := format env ⟨v.base, 0, []⟩ = (.ok v.world.state, v.world.device)
  step v
    | .operate op =>
      match perform env op v.world with
      | (.ok _, w) => some ⟨v.base, w⟩
      | (.error _, _) => none
    | .remount => Volume.mounted env v.base v.world.device
    | .crash op k fates =>
      Volume.mounted env (v.cut env op k fates) ⟨v.cut env op k fates, 0, []⟩

/-- Nothing is unflushed, and the filesystem is sound. -/
structure Volume.Calm (env : Env) (v : Volume) (t : Tree) (blocks : List Nat) : Prop where
  rest : AtRest v.base v.world.device
  sound : Sound env v.world t blocks

section Runs

variable {v : Volume} {t : Tree} {blocks : List Nat}

variable {d : Device}

theorem take_log {log new : List Event} {k : Nat} (h : log = d.log ++ new) :
    log.take (d.log.length + k) = d.log ++ new.take k := by
  rw [h, take_append, take_of_length_le (by omega), Nat.add_sub_cancel_left]

/-- **A power cut anywhere in an operation** leaves a disk that mounts, with the tree
before the operation or the one the operation leaves. -/
theorem Volume.Calm.cut (hr : env.Reliable) (h : v.Calm env t blocks) (op : Op) (k : Nat)
    (fates : Nat → Fate) : ∃ sb slot t' blocks',
      Mountable env (v.cut env op k fates) sb slot t' blocks' ∧
      (t' = t ∨ ∃ a w' blocks'', perform env op v.world = (.ok a, w') ∧
        w'.Carries t' blocks'') := by
  obtain ⟨hrest, hs⟩ := h
  have hspec := perform_spec op hs.layout hs.owned
  rcases hrun : perform env op v.world with ⟨result, w'⟩
  have houtcome : Outcome v.world t blocks (∃ a, result = .ok a) w' := by
    cases result with
    | ok a => exact (hspec.of_ok hrun).outcome ⟨a, rfl⟩
    | error => exact (hspec.of_error hrun).outcome hr
  have hcut : ∀ new, w'.device.log = v.world.device.log ++ new → v.cut env op k fates =
      powerCut garbledSuperBlock v.world.disk (new.take k) fates := by
    intro new hlog
    rw [Volume.cut, hrun, take_log hlog, powerCut_of_atRest _ hrest]
  have hbefore : ∀ w₁ retired, Grew v.world w₁ retired →
      Untouched v.world blocks w₁.state.bitmap (v.cut env op k fates) →
      ∃ sb slot t' blocks', Mountable env (v.cut env op k fates) sb slot t' blocks' ∧
        (t' = t ∨ ∃ a w'' blocks'', (result, w') = (.ok a, w'') ∧ w''.Carries t' blocks'') :=
    fun w₁ retired hg hold => ⟨_, _, t, blocks, hold.mountable hs (hg.marked hs), .inl rfl⟩
  cases houtcome with
  | grew hg =>
    obtain ⟨new, hlog, -, hnew⟩ := hg.written
    refine hbefore w' _ hg ?_
    rw [hcut new hlog]
    exact cut_of_fresh hs hnew k fates
  | @halted w₁ t' blocks' retired garbage root hc hhalted =>
    obtain ⟨new, hlog, hdisk, hnew⟩ := hc.grew.written
    have hharmless := harmless_early hc.grew hs.layout hnew
    refine hbefore w₁ _ hc.grew ?_
    rw [hcut (new ++ (w₁.switch root).state.bitmapEvents) (by
      rw [hhalted, hlog, append_assoc]), bitmapEvents_switch]
    rcases powerCut_take garbledSuperBlock (not_flush_of_harmless hharmless) v.world.disk [] k fates
      with hcut | ⟨j, hcut⟩
    · rw [hcut]
      exact untouched_survive hs (fun e he => hharmless e (mem_of_mem_take he)) fates
    rw [hcut, take_nil]
    show Untouched v.world blocks _ (replay v.world.disk (earlyEvents w₁ new))
    rw [← survive_landed garbledSuperBlock]
    exact untouched_survive hs hharmless _
  | @finished w₁ w₂ t' blocks' retired garbage root hc hcommit hw' hreturned =>
    obtain ⟨new, hlog, hdisk, hnew⟩ := hc.grew.written
    have hlog' : w'.device.log =
        v.world.device.log ++ (new ++ (w₁.switch root).state.commitEvents) := by
      rw [hw', ← append_assoc, ← hlog]
      exact hcommit.log
    rcases cut_change hs hc.grew hdisk hnew root k fates (hcut _ hlog') with hold | hnew
    · exact hbefore w₁ _ hc.grew hold
    have hgen : v.world.state.superblock.generation + 1 < wordLimit := by
      rw [← hc.grew.superblock]
      exact hcommit.generation
    obtain ⟨a, rfl⟩ := hreturned
    have hafter := (finished_sound hs hc hcommit).1.owned.shows
    rw [← hw'] at hafter
    exact ⟨_, _, t', blocks', hnew.mountable hs hc hgen, .inr ⟨a, w', blocks', rfl, hafter⟩⟩

/-- A disk that mounts is a calm volume once it is mounted. -/
theorem calm_of_mountable (hr : env.Reliable) {base : Disk} (hrest : AtRest base d)
    {sb : SuperBlock} {slot : Nat} (h : Mountable env d.disk sb slot t blocks) :
    ∃ v, Volume.mounted env base d = some v ∧ v.Calm env t blocks := by
  obtain ⟨d', hmount, hdisk, hlog, hsound⟩ := h.mount hr
  refine ⟨⟨base, d', mountedFrom d.disk sb slot⟩, ?_, hrest.of_eq hlog hdisk, hsound⟩
  rw [Volume.mounted, hmount]

theorem atRest_fresh (base : Disk) : AtRest base ⟨base, 0, []⟩ := ⟨rfl, .inl rfl⟩

/-- A read keeps a filesystem sound. -/
theorem Sound.quiet {w w' : World} (hs : Sound env w t blocks) (hq : Quiet w w') :
    Sound env w' t blocks := by
  obtain ⟨h₁, h₂, h₃, h₄, h₅⟩ := hs
  obtain ⟨_, state⟩ := w'
  obtain rfl : state = w.state := hq.state
  refine ⟨h₁, ?_, ⟨?_, h₃.nodup, h₃.used, h₃.area⟩, ?_, h₅⟩
  · rw [hq.disk]
    exact h₂
  · rw [hq.disk]
    exact h₃.shows
  · rw [hq.disk]
    exact h₄

/-- **An operation that returns** keeps a filesystem sound, with the tree it makes of the
old one, and leaves nothing unflushed. -/
theorem Sound.operate {w w' : World} (hs : Sound env w t blocks) {op : Op} {a : Answer}
    (hrun : perform env op w = (.ok a, w')) :
    ∃ t' blocks', t.change op = .ok t' ∧ Sound env w' t' blocks' ∧
      ∀ base, AtRest base w.device → AtRest base w'.device := by
  have hreturned := (perform_spec op hs.layout hs.owned).of_ok hrun
  cases hop : op.reads with
  | true =>
    have hquiet := hreturned.read hop
    exact ⟨t, blocks, Tree.change_of_reads hop, hs.quiet hquiet, fun base hrest =>
      hrest.of_eq hquiet.log hquiet.disk⟩
  | false =>
    obtain ⟨_, _, t', blocks', _, r, _, hout, hc, hcommit, rfl⟩ := hreturned.change hop
    obtain ⟨hsound, hkeeps⟩ := finished_sound hs hc hcommit
    exact ⟨t', blocks', hout, hsound, hkeeps⟩

/-- An operation of a volume is one that returns. -/
theorem perform_of_operate {v' : Volume} {op : Op}
    (h : (volumes env).step v (.operate op) = some v') :
    ∃ a w, perform env op v.world = (.ok a, w) ∧ v' = ⟨v.base, w⟩ := by
  rcases hrun : perform env op v.world with ⟨e | a, w⟩
  · simp [volumes, hrun] at h
  · simp only [volumes, hrun, Option.some.injEq] at h
    exact ⟨a, w, rfl, h.symm⟩

/-- **Volumes stay calm** through operations, remounts and power cuts. -/
theorem calm_of_reachable (hr : env.Reliable) (h : (volumes env).Reachable v) :
    ∃ t blocks, v.Calm env t blocks := by
  refine h.invariant (I := fun v => ∃ t blocks, v.Calm env t blocks) ?_ ?_
  · intro v hinit
    have hspec := (format_spec hr ⟨v.base, 0, []⟩).of_ok hinit
    exact ⟨_, _, hspec.1 v.base (atRest_fresh v.base), hspec.2.2.1⟩
  rintro v happening v' ⟨t, blocks, hcalm⟩ - hstep
  cases happening with
  | operate op =>
    obtain ⟨a, _, hrun, rfl⟩ := perform_of_operate hstep
    obtain ⟨t', blocks', -, hsound, hkeeps⟩ := hcalm.sound.operate hrun
    exact ⟨t', blocks', hkeeps v.base hcalm.rest, hsound⟩
  | remount =>
    obtain ⟨v₁, hmounted, hcalm'⟩ := calm_of_mountable hr hcalm.rest hcalm.sound.mountable
    cases hmounted.symm.trans hstep
    exact ⟨t, blocks, hcalm'⟩
  | crash op k fates =>
    obtain ⟨_, _, t', blocks', hm, -⟩ := hcalm.cut hr op k fates
    obtain ⟨v₁, hmounted, hcalm'⟩ := calm_of_mountable hr (atRest_fresh (v.cut env op k fates)) hm
    cases hmounted.symm.trans hstep
    exact ⟨t', blocks', hcalm'⟩

/-- Whatever the point at which the power goes, the device mounts with the tree before the
operation or the one the operation leaves, and every block of it is marked. -/
def CrashAtomic (env : Env) (v : Volume) (t : Tree) (op : Op) : Prop :=
  ∀ k fates, ∃ v' t' blocks', Volume.mounted env (v.cut env op k fates)
      ⟨v.cut env op k fates, 0, []⟩ = some v' ∧ v'.world.Carries t' blocks' ∧
    (t' = t ∨ ∃ a w' blocks'', perform env op v.world = (.ok a, w') ∧ w'.Carries t' blocks'') ∧
    ∀ b ∈ blocks', v'.world.state.isAllocated b = true

/-- **Crash atomicity**: from every volume reached from a format by operations that return,
remounts and power cuts, on a device of any size. -/
theorem crash_atomicity (sectorCount : Nat) {v : Volume}
    (h : (volumes (Env.reliable sectorCount)).Reachable v) : ∃ t blocks, v.world.Carries t blocks ∧
      ∀ op, CrashAtomic (Env.reliable sectorCount) v t op := by
  have hr := Env.reliable_reliable sectorCount
  obtain ⟨t, blocks, hcalm⟩ := calm_of_reachable hr h
  refine ⟨t, blocks, hcalm.sound.owned.shows, fun op k fates => ?_⟩
  obtain ⟨_, _, t', blocks', hm, ht'⟩ := hcalm.cut hr op k fates
  obtain ⟨v', hmounted, hcalm'⟩ :=
    calm_of_mountable hr (atRest_fresh (v.cut (Env.reliable sectorCount) op k fates)) hm
  exact ⟨v', t', blocks', hmounted, hcalm'.sound.owned.shows, ht', hcalm'.sound.owned.used⟩

/-- A freshly formatted device that held zeroes. -/
def blankVolume (n : Nat) : Volume :=
  let d := (format (Env.reliable n) ⟨fun _ _ => 0, 0, []⟩).2
  ⟨fun _ _ => 0, d, mountedFrom d.disk (blankSuperBlock n) 0⟩

theorem blankVolume_init {n : Nat} (hn : Formattable n) :
    (volumes (Env.reliable n)).Init (blankVolume n) := by
  have hspec := format_spec (Env.reliable_reliable n) ⟨fun _ _ => 0, 0, []⟩
  rcases hrun : format (Env.reliable n) ⟨fun _ _ => 0, 0, []⟩ with ⟨e | s, d⟩
  · exact absurd hn (hspec.of_error hrun)
  · obtain ⟨-, -, -, -, rfl⟩ := hspec.of_ok hrun
    simp only [volumes, blankVolume, hrun]
    rfl

theorem formattable_64 : Formattable 64 := ⟨by decide, by decide⟩

/-- Formatting a device of 64 sectors gives such a volume. -/
theorem crash_atomicity_formatted : ∃ v t blocks,
    (volumes (Env.reliable 64)).Reachable v ∧ v.world.Carries t blocks ∧
      ∀ op, CrashAtomic (Env.reliable 64) v t op := by
  have hreach : (volumes (Env.reliable 64)).Reachable (blankVolume 64) :=
    .init (blankVolume_init formattable_64)
  obtain ⟨t, blocks, hcarries, hatomic⟩ := crash_atomicity 64 hreach
  exact ⟨_, t, blocks, hreach, hcarries, hatomic⟩

end Runs

end Panda.Fs
