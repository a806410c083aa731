import PandaProof.FsGrowth

/-!
# What each step of an operation does

One lemma per helper the operations are built from: what it returns, and how far the
world has grown, on success and on every early stop.  Reads leave the world alone;
`allocate` and a write to the block it returned are the only ways to change it.
-/
namespace Panda.Fs

open Block List Prog

variable {env : Env} {w : World}

/-- The device failed a request that was in range. -/
def Broken (env : Env) (e : Stop) : Prop := ¬env.Reliable ∧ ∃ error, e = deviceError error

/-! ## Reads -/

variable {A : Type} {Q : A → World → Prop} {R : Stop → World → Prop}

/-- A request that may change the device and nothing else. -/
theorem wp_onDevice {p : Requests A} : Wp (onDevice p) w Q R ↔
      Wp p w.device (fun a d => Q a { w with device := d })
        fun e d => R (deviceError e) { w with device := d } := by
  simp [onDevice, ask, wp_zoom, wp_mapError]

theorem wp_mounted {Q : State → World → Prop} : Wp mounted w Q R ↔ Q w.state w := by
  simp [mounted, wp_gets]

theorem wp_modifyState {f : State → State} {Q : Unit → World → Prop} :
    Wp (modifyState f) w Q R ↔ Q () { w with state := f w.state } := by
  simp [modifyState, wp_modify]

theorem wp_fail {e : FsError} : Wp (fail e) w Q R ↔ R (.error e) w := by
  simp [fail, wp_throw]

theorem wp_panicking : Wp panicking w Q R ↔ R .panic w := by
  simp [panicking, wp_throw]

variable {b : Nat}

theorem readBlock_spec (hb : b < env.sectorCount) :
    Wp (readBlock env b) w (fun data w' => data = w.disk b ∧ Quiet w w')
      (fun e w' => Quiet w w' ∧ Broken env e) := by
  rw [readBlock, wp_bind, wp_onDevice]
  refine (read_spec env w.device b 1).mono ?_ ?_
  · rintro data d ⟨rfl, rfl⟩
    rw [wp_pure]
    exact ⟨rfl, ⟨rfl, rfl, rfl⟩⟩
  · rintro e d ⟨rfl, hfail⟩
    exact ⟨⟨rfl, rfl, rfl⟩, fun h => hfail ⟨h, Nat.one_pos, hb⟩, e, rfl⟩

variable {inode : Inode}

theorem readInode_spec (hb : b < env.sectorCount) (hdecode : Inode.decode (w.disk b) = .ok inode) :
    Wp (readInode env b) w (fun i w' => i = inode ∧ Quiet w w')
      (fun e w' => Quiet w w' ∧ Broken env e) := by
  rw [readInode, wp_bind]
  refine (readBlock_spec hb).mono ?_ fun _ _ h => h
  rintro data w' ⟨rfl, hq⟩
  simp only [hdecode, wp_pure]
  exact ⟨trivial, hq⟩

/-- Why a directory is not walked through. -/
inductive Closed (inode : Inode) (user : Option UserId) : Stop → Prop
  | wrongType (h : inode.nodeKind = .file) : Closed inode user (.error .wrongType)
  | denied (h : inode.nodeKind = .directory) (hread : inode.permits user false = false) :
    Closed inode user (.error .denied)

theorem openDirectory_spec {user : Option UserId}
    (hb : b < env.sectorCount) (hdecode : Inode.decode (w.disk b) = .ok inode) :
    Wp (openDirectory env user b) w
      (fun i w' => i = inode ∧ Quiet w w' ∧ inode.nodeKind = .directory ∧
        inode.permits user false = true)
      (fun e w' => Quiet w w' ∧ (Broken env e ∨ Closed inode user e)) := by
  rw [openDirectory, wp_bind]
  refine (readInode_spec hb hdecode).mono ?_ fun _ _ h => ⟨h.1, .inl h.2⟩
  rintro i w' ⟨rfl, hq⟩
  cases hkind : i.nodeKind with
  | file =>
    simp only [ne_eq, reduceCtorEq, not_false_eq_true, if_true, wp_fail]
    exact ⟨hq, .inr (.wrongType hkind)⟩
  | directory =>
    simp only [ne_eq, not_true_eq_false, if_false]
    cases hread : i.permits user false with
    | false =>
      simp only [Bool.not_false, if_true, wp_fail]
      exact ⟨hq, .inr (.denied hkind hread)⟩
    | true =>
      simp only [Bool.not_true, Bool.false_eq_true, if_false, wp_pure]
      exact ⟨trivial, hq, trivial, trivial⟩

variable {name : Name}

theorem nameStr_eq_some_iff (hvalid : validUtf8 name = true) (e : DirEntry) :
    e.nameStr = some name ↔ e.rawName = name := by
  unfold DirEntry.nameStr
  constructor
  · intro h
    split at h
    · exact Option.some.inj h
    · contradiction
  · rintro rfl
    rw [if_pos hvalid]

theorem entriesIn_cons (d : Disk) (b : Nat) (blocks : List Nat) :
    entriesIn d (b :: blocks) = liveEntries (d b) ++ entriesIn d blocks := by
  rw [entriesIn, flatMap_cons, entriesIn]

theorem inodeNamed_append (name : Name) (es es' : List DirEntry) :
    inodeNamed name (es ++ es') = (inodeNamed name es).or (inodeNamed name es') := by
  rw [inodeNamed, inodeNamed, inodeNamed, find?_append]
  cases es.find? fun e => e.rawName = name <;> rfl

variable {blocks : List Nat}

theorem findEntry_spec (hvalid : validUtf8 name = true)
    (hzero : 0 ∉ blocks) (hin : ∀ b ∈ blocks, b < env.sectorCount) :
    Wp (findEntry env name (blocks.map some)) w
      (fun found w' => found = inodeNamed name (entriesIn w.disk blocks) ∧ Quiet w w')
      (fun e w' => Quiet w w' ∧ Broken env e) := by
  induction blocks generalizing w with
  | nil =>
    simp only [map_nil, findEntry, wp_pure]
    exact ⟨rfl, .refl w⟩
  | cons b blocks ih =>
    have hne : b ≠ 0 := fun h => hzero (h ▸ mem_cons_self)
    rw [map_cons, findEntry, if_neg hne, wp_bind]
    refine (readBlock_spec (hin b mem_cons_self)).mono ?_ fun _ _ h => h
    rintro data w' ⟨rfl, hq⟩
    have hfind : ((liveEntries (w.disk b)).find? fun e => decide (e.nameStr = some name)) =
        (liveEntries (w.disk b)).find? fun e => decide (e.rawName = name) := by
      congr 1
      funext e
      rw [decide_eq_decide]
      exact nameStr_eq_some_iff hvalid e
    rw [hfind, entriesIn_cons, inodeNamed_append, inodeNamed]
    cases (liveEntries (w.disk b)).find? fun e => decide (e.rawName = name) with
    | some =>
      simp only [wp_pure]
      exact ⟨rfl, hq⟩
    | none =>
      simp only [Option.map_none, Option.none_or]
      refine (ih (fun h => hzero (mem_cons_of_mem _ h))
        fun x hx => hin x (mem_cons_of_mem _ hx)).mono ?_ ?_
      · rintro found w'' ⟨rfl, hq'⟩
        exact ⟨by rw [hq.disk], hq.trans hq'⟩
      · rintro e w'' ⟨hq', he⟩
        exact ⟨hq.trans hq', he⟩

theorem readEach_spec (hin : ∀ b ∈ blocks, b < env.sectorCount) :
    Wp (readEach env (blocks.map some)) w
      (fun read w' => read = blocks.map (fun b => (b, w.disk b)) ∧ Quiet w w')
      (fun e w' => Quiet w w' ∧ Broken env e) := by
  induction blocks generalizing w with
  | nil =>
    simp only [map_nil, readEach, wp_pure]
    exact ⟨trivial, .refl w⟩
  | cons b blocks ih =>
    rw [map_cons, readEach, wp_bind]
    refine (readBlock_spec (hin b mem_cons_self)).mono ?_ fun _ _ h => h
    rintro data w' ⟨rfl, hq⟩
    rw [wp_bind]
    refine (ih fun x hx => hin x (mem_cons_of_mem _ hx)).mono ?_ ?_
    · rintro read w'' ⟨rfl, hq'⟩
      rw [wp_pure, hq.disk]
      exact ⟨rfl, hq.trans hq'⟩
    · rintro e w'' ⟨hq', he⟩
      exact ⟨hq.trans hq', he⟩

/-! ## Claiming blocks -/

variable {s : State}

theorem Layout.byte_in_bitmap (h : Layout env s)
    (hb : b < s.superblock.totalBlocks) : b / 8 < s.bitmapLength := by
  have := h.covers
  have := h.length
  omega

theorem mem_dataBlocks : b ∈ s.dataBlocks ↔
    s.superblock.firstDataBlock ≤ b ∧ b < s.superblock.totalBlocks := by
  rw [State.dataBlocks, mem_range'_1]
  omega

/-- A free block is claimed, and nothing else changes. -/
theorem claim_grew (hl : Layout env w.state) (hfree : w.state.findFree = some b) :
    Grew w { w with state := w.state.mark b true } [] ∧
      ∀ x, Fresh w { w with state := w.state.mark b true } x ↔ x = b := by
  have hmem := mem_dataBlocks.mp (mem_of_find?_eq_some hfree)
  have hunused : w.state.isAllocated b = false := by simpa using find?_some hfree
  have hlen := hl.byte_in_bitmap hmem.2
  have hmark := isAllocated_mark (.inl rfl) hlen (s := w.state)
  have hstate : w.state.mark b true =
      { w.state with bitmap := Bitmap.set w.state.bitmap b true } := by
    simp [State.mark, hlen]
  have hfresh : ∀ x, Fresh w { w with state := w.state.mark b true } x ↔ x = b := by
    intro x
    constructor
    · intro h
      have hused := h.used
      rw [hmark] at hused
      split at hused
      · assumption
      · simp [h.free] at hused
    · rintro rfl
      exact ⟨hunused, by rw [hmark, if_pos rfl], hmem.1, hmem.2⟩
  refine ⟨⟨by rw [hstate], by rw [hstate], by rw [hstate], ?_, ?_, ⟨[], by simp, rfl, by simp⟩,
    by rw [hstate, append_nil]⟩, hfresh⟩
  · intro x hx
    rw [hmark]
    split
    · rfl
    · exact hx
  · intro x hx
    by_cases he : x = b
    · exact .inr ((hfresh x).mpr he)
    · rw [hmark, if_neg he] at hx
      exact .inl hx

/-- The operation ran out of blocks, or the device failed. -/
def Exhausted (env : Env) (e : Stop) : Prop := Broken env e ∨ e = .error .full

theorem allocate_spec (hl : Layout env w.state) : Wp allocate w
      (fun b w' => Grew w w' [] ∧ (∀ x, Fresh w w' x ↔ x = b) ∧ w'.device = w.device)
      (fun e w' => w' = w ∧ e = .error .full) := by
  rw [allocate, wp_bind, wp_mounted]
  cases hfree : w.state.findFree with
  | none =>
    simp only [wp_fail]
    exact ⟨trivial, trivial⟩
  | some =>
    simp only [wp_bind, wp_modifyState, wp_pure]
    obtain ⟨hgrew, hfresh⟩ := claim_grew hl hfree
    exact ⟨hgrew, hfresh, trivial⟩

/-- Writing to a fresh block keeps growth. -/
theorem writeBlock_fresh {w₀ : World} {r : List Nat} (hl : Layout env w₀.state)
    (hg : Grew w₀ w r) (hb : Fresh w₀ w b) (data : Sector) : Wp (writeBlock env b data) w
      (fun _ w' => Grew w₀ w' r ∧ w'.state = w.state ∧ w'.disk = Function.update w.disk b data)
      (fun e w' => Grew w₀ w' r ∧ w'.state = w.state ∧ Broken env e) := by
  have hin : b < env.sectorCount := by
    rw [← hl.total]
    exact hb.high
  -- Whatever lands in the block, the world has still only grown.
  have hstore : ∀ left : Disk, Grew w₀ { w with device := w.device.asked.store b 1 left } r := by
    intro left
    obtain ⟨new, hlog, hdisk, hnew⟩ := hg.written
    refine ⟨hg.superblock, hg.liveSlot, hg.length, hg.kept, ?_, ?_, hg.retired⟩
    · intro x hx
      exact (hg.added x hx).imp id fun h => { h with }
    refine ⟨new ++ writes b 1 left, ?_, ?_, ?_⟩
    · show w.device.log ++ writes b 1 left = _
      rw [hlog, append_assoc]
    · show (w.device.asked.store b 1 left).disk = _
      rw [store_disk, asked_disk, replay_append, ← hdisk]
    intro e he
    rcases mem_append.mp he with he | he
    · obtain ⟨x, d, rfl, hx⟩ := hnew e he
      exact ⟨x, d, rfl, hx.free, hx.used, hx.low, hx.high⟩
    · obtain ⟨k, _, rfl⟩ := mem_writes he
      obtain rfl : k = 0 := by omega
      exact ⟨b, _, rfl, hb.free, hb.used, hb.low, hb.high⟩
  have hasked : Grew w₀ { w with device := w.device.asked } r := by
    have hquiet : Quiet w { w with device := w.device.asked } := ⟨rfl, rfl, rfl⟩
    exact hg.trans_nil hquiet.grew
  rw [writeBlock, wp_onDevice]
  refine (write_spec env w.device b 1 fun _ => data).mono ?_ ?_
  · rintro _ d rfl
    refine ⟨hstore _, rfl, ?_⟩
    funext x
    show (w.device.asked.store b 1 fun _ => data).disk x = _
    by_cases hx : x = b
    · subst hx
      rw [Function.update_self]
      exact store_inside (by omega)
    · rw [Function.update_of_ne hx]
      exact store_outside (by omega)
  · rintro e d ⟨hd, hfail⟩
    refine ⟨?_, rfl, fun h => hfail ⟨h, Nat.one_pos, hin⟩, e, rfl⟩
    rcases hd with rfl | ⟨left, rfl⟩
    · exact hasked
    · exact hstore left

/-- **A block claimed and written**, in front of whatever comes next. -/
theorem place_spec (hl : Layout env w.state) (data : Sector) {Q : Nat → World → Prop}
    (hok : ∀ b w', Grew w w' [] → (∀ x, Fresh w w' x ↔ x = b) → w'.disk b = data → Q b w')
    (hstop : ∀ e w', Grew w w' [] → Exhausted env e → R e w') :
    Wp allocate w (fun b w' => Wp (writeBlock env b data) w' (fun _ w'' => Q b w'') R) R := by
  refine (allocate_spec hl).mono ?_ ?_
  · rintro b w' ⟨hg, hfresh, -⟩
    refine (writeBlock_fresh hl hg ((hfresh b).mpr rfl) data).mono ?_ ?_
    · rintro _ w'' ⟨hg', hstate, hdisk⟩
      refine hok b w'' hg' (fun x => ?_) (by rw [hdisk, Function.update_self])
      rw [← hfresh x]
      exact ⟨fun h => ⟨h.free, by rw [← hstate]; exact h.used, h.low, h.high⟩,
        fun h => ⟨h.free, by rw [hstate]; exact h.used, h.low, h.high⟩⟩
    · rintro e w'' ⟨hg', -, he⟩
      exact hstop e w'' hg' (.inl he)
  · rintro e w' ⟨rfl, he⟩
    exact hstop e w' (.refl w') (.inr he)

/-- **Several blocks claimed and written**: they are distinct, and hold what they were
given. -/
theorem writeFresh_spec (hl : Layout env w.state) (sectors : List Sector) :
    Wp (writeFresh env sectors) w
      (fun blocks w' => Grew w w' [] ∧ blocks.Nodup ∧ (∀ x, Fresh w w' x ↔ x ∈ blocks) ∧
        blocks.map w'.disk = sectors) (fun e w' => Grew w w' [] ∧ Exhausted env e) := by
  induction sectors generalizing w with
  | nil =>
    rw [writeFresh, wp_pure]
    refine ⟨.refl w, nodup_nil, fun x => ?_, rfl⟩
    simp only [not_mem_nil, iff_false]
    intro h
    simpa [h.free] using h.used
  | cons data sectors ih =>
    rw [writeFresh, wp_bind]
    simp only [wp_bind, wp_pure]
    refine place_spec hl data ?_ fun e w' hg he => ⟨hg, he⟩
    intro b w' hg hfresh hdata
    refine (ih (hg.layout hl)).mono ?_ fun e w'' h => ⟨hg.trans_nil h.1, h.2⟩
    rintro blocks w'' ⟨hg', hnodup, hfresh', hmap⟩
    have hb : Fresh w w' b := (hfresh b).mpr rfl
    refine ⟨hg.trans_nil hg', nodup_cons.mpr ⟨?_, hnodup⟩, fun x => ?_, ?_⟩
    · intro hmem
      have := ((hfresh' b).mpr hmem).free
      simp [hb.used] at this
    · rw [mem_cons, ← hfresh x, ← hfresh' x]
      exact ⟨hg.fresh_cases, fun h => h.elim hg'.fresh_left hg.fresh_right⟩
    · rw [map_cons, hmap, hg'.disk_of_used hb.used, hdata]

/-! ## Retiring blocks -/

theorem retire_grew (w : World) (b : Nat) : Grew w { w with state := w.state.retire b } [b] where
  superblock := rfl
  liveSlot := rfl
  length := rfl
  kept := fun _ h => h
  added := fun _ h => .inl h
  written := ⟨[], by simp, rfl, by simp⟩
  retired := rfl

/-- Retiring blocks claims nothing and writes nothing. -/
theorem retireSlots_spec (hzero : 0 ∉ blocks) : Wp (retireSlots (blocks.map some)) w
      (fun _ w' => Grew w w' blocks ∧ w'.device = w.device ∧ w'.state.bitmap = w.state.bitmap)
      (fun _ _ => False) := by
  induction blocks generalizing w with
  | nil =>
    rw [map_nil, retireSlots, wp_pure]
    exact ⟨.refl w, rfl, rfl⟩
  | cons b blocks ih =>
    have hne : b ≠ 0 := fun h => hzero (h ▸ mem_cons_self)
    rw [map_cons, retireSlots, if_pos hne, wp_bind, wp_modifyState]
    refine (ih fun h => hzero (mem_cons_of_mem _ h)).mono ?_ fun _ _ h => h
    rintro _ w' ⟨hg, hdevice, hbits⟩
    exact ⟨(retire_grew w b).trans hg, hdevice, hbits⟩

end Panda.Fs
