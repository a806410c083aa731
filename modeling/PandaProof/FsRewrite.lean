import PandaProof.FsSteps
import Mathlib.Data.List.Nodup

/-!
# Copying a path

`rewrite` copies every directory from the root to the change into fresh blocks.  Here it
is shown to do to the disk what `Tree.rewrite` does to the tree: the new inode block
shows the new tree, in blocks that are the old tree's or freshly claimed, none of them
twice; and what was given up belongs to the old tree alone.
-/
namespace Panda.Fs

open Block List Prog

/-! ## Chunks -/

section Chunks

variable {α : Type} {size : Nat}

variable {fuel : Nat} {l : List α}

theorem chunks_succ (h : l ≠ []) :
    chunks size (fuel + 1) l = l.take size :: chunks size fuel (l.drop size) := by
  rw [chunks, if_neg (by simpa using h)]

theorem chunks_nil (fuel : Nat) : chunks size fuel ([] : List α) = [] := by
  cases fuel <;> simp [chunks]

/-- A property of every list cut into chunks, from the empty list and one more chunk. -/
theorem chunks_induction (hsize : 0 < size) {P : Nat → List α → Prop} (nil : ∀ fuel, P fuel [])
    (cons : ∀ fuel l, l ≠ [] → (l.drop size).length ≤ fuel → P fuel (l.drop size) → P (fuel + 1) l)
    (h : l.length ≤ fuel) : P fuel l := by
  induction fuel generalizing l with
  | zero =>
    obtain rfl : l = [] := length_eq_zero_iff.mp (by omega)
    exact nil 0
  | succ fuel ih =>
    by_cases hl : l = []
    · rw [hl]
      exact nil _
    have hpos := length_pos_of_ne_nil hl
    have hrest : (l.drop size).length ≤ fuel := by
      rw [length_drop]
      omega
    exact cons fuel l hl hrest (ih hrest)

theorem flatten_chunks (hsize : 0 < size) (h : l.length ≤ fuel) :
    (chunks size fuel l).flatten = l := by
  refine chunks_induction hsize (P := fun fuel l => (chunks size fuel l).flatten = l) ?_ ?_ h
  · intro fuel
    rw [chunks_nil]
    rfl
  · intro fuel l hl _ ih
    rw [chunks_succ hl, flatten_cons, ih, take_append_drop]

theorem length_of_mem_chunks (hsize : 0 < size) (h : l.length ≤ fuel) :
    ∀ c ∈ chunks size fuel l, c.length ≤ size := by
  refine chunks_induction hsize (P := fun fuel l => ∀ c ∈ chunks size fuel l, c.length ≤ size)
    ?_ ?_ h
  · intro fuel c hc
    simp [chunks_nil] at hc
  intro fuel l hl _ ih c hc
  rw [chunks_succ hl] at hc
  rcases mem_cons.mp hc with rfl | hc
  · exact length_take_le _ _
  · exact ih c hc

/-- As many chunks as are needed, and no more. -/
theorem length_chunks (hsize : 0 < size) (h : l.length ≤ fuel) :
    l.length ≤ size * (chunks size fuel l).length ∧
      size * (chunks size fuel l).length < l.length + size := by
  refine chunks_induction hsize (P := fun fuel l => l.length ≤ size * (chunks size fuel l).length ∧
      size * (chunks size fuel l).length < l.length + size) ?_ ?_ h
  · intro fuel
    simp [chunks_nil, hsize]
  intro fuel l hl _ ih
  have hpos := length_pos_of_ne_nil hl
  rw [chunks_succ hl, length_cons, Nat.mul_succ]
  by_cases hlast : l.length ≤ size
  · rw [drop_eq_nil_of_le hlast, chunks_nil, length_nil]
    omega
  · rw [length_drop] at ih
    omega

end Chunks

/-- **A file's blocks give its contents back.** -/
theorem collect_dataSectors (data : List Byte) : collect data.length (dataSectors data) = data := by
  have hsize : 0 < blockSize := by decide
  have hstep : ∀ {fuel : Nat} {l : List Byte}, l.length ≤ fuel →
      collect l.length ((chunks blockSize fuel l).map dataBlock) = l := by
    intro fuel l h
    refine chunks_induction hsize
      (P := fun fuel l => collect l.length ((chunks blockSize fuel l).map dataBlock) = l) ?_ ?_ h
    · intro fuel
      simp [chunks_nil, collect]
    intro fuel l hl _ ih
    rw [chunks_succ hl, map_cons, collect]
    have hhead : (range (min l.length blockSize)).map (dataBlock (l.take blockSize)) =
        l.take blockSize := by
      refine ext_getElem (by simp [Nat.min_comm]) fun k _ hk => ?_
      simp only [getElem_map, getElem_range, dataBlock]
      rw [getD_eq_getElem?_getD, getElem?_eq_getElem hk, Option.getD_some]
    have hrest : l.length - min l.length blockSize = (l.drop blockSize).length := by
      rw [length_drop]
      omega
    rw [hhead, hrest, ih, take_append_drop]
  exact hstep (le_rfl)

/-! ## Inodes of new nodes -/

theorem liveEntries_zeroed : liveEntries zeroed = [] := by
  have hzero : zeroed = entriesBlock [] := by
    funext i
    rw [entriesBlock, getElem?_nil]
    rfl
  rw [hzero]
  exact liveEntries_entriesBlock (by decide) (by simp)

variable {es : List DirEntry}

/-- **A directory's blocks give its entries back.** -/
theorem entries_directorySectors (h : ∀ e ∈ es, e.inode ≠ 0 ∧ e.inode < wordLimit) :
    (directorySectors es).flatMap liveEntries = es := by
  rw [directorySectors]
  split
  · rename_i hempty
    obtain rfl := isEmpty_iff.mp hempty
    simp [liveEntries_zeroed]
  have hchunks : (chunks entriesPerBlock es.length es).flatten = es :=
    flatten_chunks (by decide) (le_rfl)
  have hlen : ∀ c ∈ chunks entriesPerBlock es.length es, c.length ≤ entriesPerBlock :=
    length_of_mem_chunks (by decide) (le_rfl)
  have hlive : ∀ c ∈ chunks entriesPerBlock es.length es, liveEntries (entriesBlock c) = c := by
    intro c hc
    refine liveEntries_entriesBlock (hlen c hc) fun e he => h e ?_
    rw [← hchunks]
    exact mem_flatten_of_mem hc he
  have hmap : (chunks entriesPerBlock es.length es).map (fun c => liveEntries (entriesBlock c)) =
      (chunks entriesPerBlock es.length es).map id := map_congr_left hlive
  rw [flatMap_map, flatMap_def, hmap, map_id, hchunks]

theorem length_directorySectors (h : es.length ≤ directBlocks * entriesPerBlock) :
    (directorySectors es).length ≤ directBlocks := by
  have hlen : es.length ≤ 480 := h
  rw [directorySectors]
  split
  · show 1 ≤ 60
    omega
  have hcount : 8 * (chunks entriesPerBlock es.length es).length < es.length + 8 :=
    (length_chunks (by decide) (le_rfl)).2
  rw [length_map]
  show _ ≤ 60
  omega

variable {blocks : List Nat}

theorem entriesIn_of_map {d : Disk} {sectors : List Sector}
    (h : blocks.map d = sectors) : entriesIn d blocks = sectors.flatMap liveEntries := by
  rw [← h, flatMap_map, entriesIn]

namespace Inode

variable {inode : Inode} {blocks : List Nat} {n : Nat}

theorem pointers_holding (h : blocks.length ≤ directBlocks) :
    (inode.holding blocks n).pointers = blocks := by
  show (directTo blocks).take blocks.length = blocks
  rw [directTo, take_take, Nat.min_eq_left h, take_left]

theorem sane_holding (h : blocks.length ≤ directBlocks) (hzero : 0 ∉ blocks) :
    (inode.holding blocks n).Sane := ⟨h, by rw [pointers_holding h]; exact hzero⟩

theorem fits_holding (hf : inode.Fits) (h : blocks.length ≤ directBlocks) (hn : n < wordLimit)
    (hblocks : ∀ b ∈ blocks, b < wordLimit) : (inode.holding blocks n).Fits := by
  refine ⟨hf.kind, hf.mode, hn, h, fun p hp => ?_⟩
  rcases mem_append.mp (mem_of_mem_take hp) with hp | hp
  · exact hblocks p hp
  · rw [eq_of_mem_replicate hp]
    decide

end Inode

/-! ## Blocks changing hands -/

/-- How the blocks of a tree changed between two worlds: `new` are the old ones or freshly
claimed, and `dropped` are old ones no longer referred to.  Under `whole`, every old block
is accounted for. -/
structure Moves (whole : Prop) (w w' : World) (old new dropped : List Nat) : Prop where
  nodup : new.Nodup
  source : ∀ x ∈ new, x ∈ old ∨ Fresh w w' x
  claimed : ∀ x, Fresh w w' x → x ∈ new
  gone : ∀ x ∈ dropped, x ∈ old ∧ x ∉ new
  complete : whole → ∀ x ∈ old, x ∈ new ∨ x ∈ dropped

theorem Moves.mono {whole whole' : Prop} {w w' : World} {old new dropped dropped' : List Nat}
    (h : Moves whole w w' old new dropped) (hwhole : whole' → whole)
    (hdropped : ∀ x, x ∈ dropped' ↔ x ∈ dropped) : Moves whole' w w' old new dropped' where
  nodup := h.nodup
  source := h.source
  claimed := h.claimed
  gone := fun x hx => h.gone x ((hdropped x).mp hx)
  complete := fun hw x hx => (h.complete (hwhole hw) x hx).imp id (hdropped x).mpr

/-- A tree that may be there, as `Owned` has it. -/
structure Held (w : World) (b : Option Nat) (t : Option Tree) (blocks : List Nat) : Prop where
  pictures : Pictures w.disk b t blocks
  nodup : blocks.Nodup
  used : ∀ x ∈ blocks, w.state.isAllocated x = true
  area : ∀ x ∈ blocks, w.state.InArea x

theorem Held.owned {w : World} {b : Nat} {t : Option Tree}
    (h : Held w (some b) t blocks) : ∃ t', t = some t' ∧ Owned w b t' blocks := by
  obtain ⟨hp, h₁, h₂, h₃⟩ := h
  cases hp with
  | present hp => exact ⟨_, rfl, hp, h₁, h₂, h₃⟩

/-- Why an operation may stop, given what it does to the tree. -/
inductive Excuse (env : Env) {α : Type} (out : Except FsError α) : Stop → Prop
  | refused {e : FsError} (h : out = .error e) : Excuse env out (.error e)
  | broken {e : BlockError} (h : ¬env.Reliable) : Excuse env out (deviceError e)
  | full (h : ∀ e, out = .error e → e = .tooLarge) : Excuse env out (.error .full)

variable {env : Env} {α : Type} {out : Except FsError α}

theorem Broken.excuse {e : Stop} (h : Broken env e) : Excuse env out e := by
  obtain ⟨hfaulty, _, rfl⟩ := h
  exact .broken hfaulty

theorem Exhausted.excuse {e : Stop}
    (h : Exhausted env e) (hout : ∀ e, out = .error e → e = .tooLarge) : Excuse env out e := by
  rcases h with h | rfl
  · exact h.excuse
  · exact .full hout

/-! ## One directory -/

section Directory

variable {env : Env} {w₀ w : World} {b : Nat} {inode : Inode} {kids : List (Name × Tree)}
  {below : List Nat} {name : Name}

/-- A directory in use, with its inode at hand. -/
structure DirectoryAt (w : World) (b : Nat) (inode : Inode) (kids : List (Name × Tree))
    (below : List Nat) : Prop where
  decode : Inode.decode (w.disk b) = .ok inode
  sane : inode.Sane
  kind : inode.nodeKind = .directory
  kids : Kids w.disk (entriesIn w.disk inode.pointers) kids below
  nodup : (b :: inode.pointers ++ below).Nodup
  used : ∀ x ∈ b :: inode.pointers ++ below, w.state.isAllocated x = true
  area : ∀ x ∈ b :: inode.pointers ++ below, w.state.InArea x

variable {blocks : List Nat}

theorem Owned.directoryAt {t : Tree} (h : Owned w b t blocks)
    (hdecode : Inode.decode (w.disk b) = .ok inode) (hkind : inode.nodeKind = .directory) :
    ∃ kids below, t = .directory inode.owner inode.mode kids ∧
      blocks = b :: inode.pointers ++ below ∧ DirectoryAt w b inode kids below := by
  obtain ⟨inode', hdecode', hsane, hshape⟩ := h.shows.shape
  cases hdecode'.symm.trans hdecode
  cases hshape with
  | file hfile => simp [hkind] at hfile
  | directory _ _ hkids =>
    exact ⟨_, _, rfl, rfl, hdecode, hsane, hkind, hkids, h.nodup, h.used, h.area⟩

variable {x : Nat}

theorem Layout.word_of_inArea (hl : Layout env w.state) (h : w.state.InArea x) :
    x ≠ 0 ∧ x < wordLimit := by
  have hfirst := hl.firstData
  have htotal := hl.fits.totalBlocks
  have hlow := h.1
  have hhigh := h.2
  exact ⟨by omega, by omega⟩

theorem Layout.inDevice_of_inArea (hl : Layout env w.state) (h : w.state.InArea x) :
    x < env.sectorCount := by
  rw [← hl.total]
  exact h.2

/-- An inode placed over fresh blocks holds them. -/
theorem decode_holding {fresh : List Nat} {n : Nat} {data : Sector}
    (hdata : data = (inode.holding fresh n).encode) (hfits : inode.Fits) (hn : n < wordLimit)
    (hcount : fresh.length ≤ directBlocks) (hl : Layout env w.state)
    (harea : ∀ x ∈ fresh, w.state.InArea x) :
    Inode.decode data = .ok (inode.holding fresh n) ∧ (inode.holding fresh n).Sane := by
  have hword : ∀ x ∈ fresh, x ≠ 0 ∧ x < wordLimit := fun x hx => hl.word_of_inArea (harea x hx)
  refine ⟨?_, Inode.sane_holding hcount fun h => (hword 0 h).1 rfl⟩
  rw [hdata]
  exact Inode.decode_encode (Inode.fits_holding hfits hcount hn fun x hx => (hword x hx).2)

theorem Fresh.inArea {w' : World} (h : Fresh w w' x) : w.state.InArea x :=
  ⟨Nat.le_succ_of_le h.low, h.high⟩

theorem Kids.inode_mem {d : Disk} {es : List DirEntry} {ks : List (Name × Tree)}
    (h : Kids d es ks blocks) : ∀ e ∈ es, e.inode ∈ blocks := by
  induction es generalizing ks blocks with
  | nil => simp
  | cons e es ih =>
    obtain ⟨t, _, _, _, ht, hrest, rfl, rfl⟩ := Kids.cons_iff.mp h
    intro x hx
    rcases mem_cons.mp hx with rfl | hx
    · exact mem_append_left _ ht.mem_self
    · exact mem_append_right _ (ih hrest x hx)

/-- The children of a directory once one of them is taken out: its blocks, and the rest's. -/
structure Parted (below own rest : List Nat) (whole : Prop) : Prop where
  counts : ∀ x, own.count x + rest.count x ≤ below.count x
  exact : whole → ∀ x, own.count x + rest.count x = below.count x

namespace Parted

variable {own rest : List Nat} {whole : Prop}

variable {x : Nat}

section

variable (h : Parted below own rest whole)
include h

theorem own_mem (hx : x ∈ own) : x ∈ below := by
  have hcount := h.counts x
  have := count_pos_iff.mpr hx
  exact count_pos_iff.mp (by omega)

theorem rest_mem (hx : x ∈ rest) : x ∈ below := by
  have hcount := h.counts x
  have := count_pos_iff.mpr hx
  exact count_pos_iff.mp (by omega)

theorem own_nodup (hn : below.Nodup) : own.Nodup := by
  refine nodup_iff_count_le_one.mpr fun x => ?_
  have := h.counts x
  have := nodup_iff_count_le_one.mp hn x
  omega

theorem rest_nodup (hn : below.Nodup) : rest.Nodup := by
  refine nodup_iff_count_le_one.mpr fun x => ?_
  have := h.counts x
  have := nodup_iff_count_le_one.mp hn x
  omega

theorem disjoint (hn : below.Nodup) (hx : x ∈ own) : x ∉ rest := by
  intro hrest
  have := h.counts x
  have := nodup_iff_count_le_one.mp hn x
  have := count_pos_iff.mpr hx
  have := count_pos_iff.mpr hrest
  omega

theorem mem_or (hw : whole) (hx : x ∈ below) : x ∈ own ∨ x ∈ rest := by
  have heq := h.exact hw x
  have hpos := count_pos_iff.mpr hx
  rcases Nat.eq_zero_or_pos (own.count x) with hzero | hown
  · exact .inr (count_pos_iff.mp (by omega))
  · exact .inl (count_pos_iff.mp hown)

end

end Parted

variable {own rest dropped r : List Nat} {whole unique : Prop}

/-- The blocks of a rebuilt directory's children were the directory's, or were claimed for the
child that was replaced. -/
theorem stayed_or_fresh (hpart : Parted below own rest unique)
    (hm : Moves whole w₀ w own blocks dropped) (hx : x ∈ rest ++ blocks) :
    x ∈ b :: inode.pointers ++ below ∨ Fresh w₀ w x := by
  rcases mem_append.mp hx with hx | hx
  · exact .inl (mem_append_right _ (hpart.rest_mem hx))
  · exact (hm.source x hx).imp (fun h => mem_append_right _ (hpart.own_mem h)) id

/-- The blocks of a rebuilt directory: `fresh` for its entries and `new` for its inode,
claimed one after the other, over the children that stayed and the one that was replaced. -/
theorem moves_rebuilt {w₁ w₂ : World} {fresh : List Nat} {new : Nat}
    (hdir : DirectoryAt w₀ b inode kids below)
    (hpart : Parted below own rest unique) (hm : Moves whole w₀ w own blocks dropped)
    (hg : Grew w₀ w r) (hg₁ : Grew w w₁ []) (hfresh : ∀ x, Fresh w w₁ x ↔ x ∈ fresh)
    (hnodup : fresh.Nodup) (hg₂ : Grew w₁ w₂ []) (hnew : ∀ x, Fresh w₁ w₂ x ↔ x = new) :
    Moves (whole ∧ unique) w₀ w₂ (b :: inode.pointers ++ below)
      (new :: fresh ++ (rest ++ blocks)) (dropped ++ (inode.pointers ++ [b])) := by
  have hbelow : ∀ x ∈ below, x ∈ b :: inode.pointers ++ below := fun x hx =>
    mem_append_right _ hx
  have hsplit := nodup_append.mp hdir.nodup
  -- The blocks of the children are in use before any block of the copy is claimed.
  have hused : ∀ x ∈ rest ++ blocks, w.state.isAllocated x = true := fun x hx =>
    (stayed_or_fresh hpart hm hx).elim (fun h => hg.kept x (hdir.used x h)) Fresh.used
  have hold : ∀ x ∈ b :: inode.pointers ++ below, x ∉ new :: fresh := by
    intro x hx hmem
    have hx₀ := hg.kept x (hdir.used x hx)
    rcases mem_cons.mp hmem with rfl | hmem
    · have := ((hnew x).mpr rfl).free
      simp [hg₁.kept x hx₀] at this
    · have := ((hfresh x).mpr hmem).free
      simp [hx₀] at this
  -- A block of the replaced child's copy is the child's own, or new.
  have hcopy : ∀ x ∈ b :: inode.pointers ++ below, x ∉ own → x ∉ blocks := by
    intro x hx hown hblocks
    rcases hm.source x hblocks with hmem | hmem
    · exact hown hmem
    · have := hmem.free
      simp [hdir.used x hx] at this
  have hapart : ∀ x ∈ rest, x ∉ blocks := by
    intro x hx
    exact hcopy x (hbelow x (hpart.rest_mem hx)) fun h => hpart.disjoint hsplit.2.1 h hx
  refine ⟨?_, ?_, ?_, ?_, ?_⟩
  · rw [cons_append, nodup_cons, nodup_append, nodup_append]
    refine ⟨?_, hnodup, ⟨hpart.rest_nodup hsplit.2.1, hm.nodup, ?_⟩, ?_⟩
    · have hfree := ((hnew new).mpr rfl).free
      intro hmem
      rcases mem_append.mp hmem with hmem | hmem
      · simp [((hfresh new).mpr hmem).used] at hfree
      · simp [hg₁.kept new (hused new hmem)] at hfree
    · exact fun x hx y hy he => hapart x hx (he ▸ hy)
    intro x hx y hy he
    subst he
    have := ((hfresh x).mpr hx).free
    simp [hused x hy] at this
  · intro x hx
    rcases mem_append.mp hx with hx | hx
    · rcases mem_cons.mp hx with rfl | hx
      · exact .inr (hg.fresh_right (hg₁.fresh_right ((hnew x).mpr rfl)))
      · exact .inr (hg.fresh_right (hg₂.fresh_left ((hfresh x).mpr hx)))
    exact (stayed_or_fresh hpart hm hx).imp id fun h => hg₂.fresh_left (hg₁.fresh_left h)
  · intro x hx
    rcases hg.fresh_cases hx with hx | hx
    · exact mem_append_right _ (mem_append_right _ (hm.claimed x hx))
    rcases hg₁.fresh_cases hx with hx | hx
    · exact mem_append_left _ (mem_cons_of_mem _ ((hfresh x).mp hx))
    · rw [(hnew x).mp hx]
      simp
  · intro x hx
    have hmem : x ∈ b :: inode.pointers ++ below ∧ x ∉ rest ∧ x ∉ blocks := by
      rcases mem_append.mp hx with hx | hx
      · obtain ⟨hown, hblocks⟩ := hm.gone x hx
        exact ⟨hbelow x (hpart.own_mem hown), hpart.disjoint hsplit.2.1 hown, hblocks⟩
      have hhead : x ∈ b :: inode.pointers := by
        rcases mem_append.mp hx with hx | hx
        · exact mem_cons_of_mem _ hx
        · rw [mem_singleton.mp hx]
          exact mem_cons_self
      have hnot : x ∉ below := fun h => hsplit.2.2 x hhead x h rfl
      have hx' : x ∈ b :: inode.pointers ++ below := mem_append_left _ hhead
      exact ⟨hx', fun h => hnot (hpart.rest_mem h), hcopy x hx' fun h => hnot (hpart.own_mem h)⟩
    refine ⟨hmem.1, fun h => ?_⟩
    rcases mem_append.mp h with h | h
    · exact hold x hmem.1 h
    · exact (mem_append.mp h).elim hmem.2.1 hmem.2.2
  · rintro ⟨hw, hu⟩ x hx
    rcases mem_append.mp hx with hx | hx
    · refine .inr (mem_append_right _ ?_)
      rcases mem_cons.mp hx with rfl | hx
      · simp
      · exact mem_append_left _ hx
    · rcases hpart.mem_or hu hx with hx | hx
      · rcases hm.complete hw x hx with hx | hx
        · exact .inl (mem_append_right _ (mem_append_right _ hx))
        · exact .inr (mem_append_left _ hx)
      · exact .inl (mem_append_right _ (mem_append_left _ hx))

/-- The new entry of a rebuilt directory, if there is one. -/
def added (name : Name) (replacement : Option Nat) : List DirEntry :=
  (replacement.map (DirEntry.naming name)).toList

variable {replacement : Option Nat} {rep : Option Tree}

theorem Pictures.kids_added {d : Disk} (h : Pictures d replacement rep blocks)
    (hlen : ∀ target, replacement = some target → name.length ≤ maxName) :
    Kids d (added name replacement) (rep.map fun t => (name, t)).toList blocks := by
  cases h with
  | absent => exact Kids.nil
  | present h =>
    have hkids := Kids.singleton (e := DirEntry.naming name _) h
    rwa [DirEntry.rawName_naming (hlen _ rfl)] at hkids

theorem others_eq_filter (hvalid : validUtf8 name = true) (es : List DirEntry) :
    (es.filter fun e => decide (e.nameStr ≠ some name)) = others name es := by
  refine filter_congr fun e _ => ?_
  rw [decide_eq_decide]
  exact not_congr (nameStr_eq_some_iff hvalid e)

/-- The check on a directory's size, in entries. -/
theorem needed_iff (n : Nat) :
    directBlocks < max ((n + (entriesPerBlock - 1)) / entriesPerBlock) 1 ↔
    directBlocks * entriesPerBlock < n := by
  show 60 < max ((n + 7) / 8) 1 ↔ 480 < n
  omega

theorem pushEntry_spec {kept : List DirEntry}
    (hlen : ∀ target, replacement = some target → name.length ≤ maxName) :
    Wp (pushEntry kept name replacement) w
      (fun es w' => es = kept ++ added name replacement ∧ w' = w) (fun _ _ => False) := by
  cases replacement with
  | none =>
    simp only [pushEntry, wp_pure, added, Option.map_none, Option.toList_none, append_nil]
    exact ⟨trivial, trivial⟩
  | some target =>
    simp only [pushEntry, not_lt.mpr (hlen target rfl), if_false, wp_pure, added]
    exact ⟨rfl, trivial⟩

/-- **One directory is copied with its entry updated.** -/
theorem rebuild_spec (hl : Layout env w₀.state)
    (hdir : DirectoryAt w₀ b inode kids below) (hvalid : validUtf8 name = true)
    (hrest : Kids w₀.disk (others name (entriesIn w₀.disk inode.pointers))
      (kids.filter fun e => e.1 ≠ name) rest)
    (hpart : Parted below own rest unique) (hg : Grew w₀ w r)
    (hpic : Pictures w.disk replacement rep blocks) (hm : Moves whole w₀ w own blocks dropped)
    (hlen : ∀ target, replacement = some target → name.length ≤ maxName) :
    Wp (rebuild env b inode name replacement) w
      (fun out w' => ∃ t' bs', Tree.replaced inode.owner inode.mode kids name rep = .ok t' ∧
        Grew w₀ w' r ∧ Shows w'.disk out.1 t' bs' ∧ Fresh w₀ w' out.1 ∧
        Moves (whole ∧ unique) w₀ w' (b :: inode.pointers ++ below) bs' (dropped ++ out.2))
      (fun e w' => Grew w₀ w' r ∧ (Exhausted env e ∨
        Tree.replaced inode.owner inode.mode kids name rep = .error .tooLarge ∧
          e = .error .tooLarge)) := by
  have hpointers : ∀ x ∈ inode.pointers, x ∈ b :: inode.pointers ++ below := fun x hx =>
    mem_append_left _ (mem_cons_of_mem _ hx)
  have hbelow : ∀ x ∈ below, x ∈ b :: inode.pointers ++ below := fun x hx =>
    mem_append_right _ hx
  have hentries : entriesIn w.disk inode.pointers = entriesIn w₀.disk inode.pointers :=
    entriesIn_congr fun x hx => hg.disk_of_used (hdir.used x (hpointers x hx))
  rw [rebuild, Inode.slots_eq hdir.sane.used, wp_bind]
  refine (readEach_spec fun x hx =>
    hl.inDevice_of_inArea (hdir.area x (hpointers x hx))).mono ?_ ?_
  case refine_2 => exact fun e w' h => ⟨hg.trans_nil h.1.grew, .inl (.inl h.2)⟩
  rintro _ w₁ ⟨rfl, hq⟩
  have hkept : ((inode.pointers.map fun x => (x, w.disk x)).flatMap fun x => liveEntries x.2) =
      entriesIn w₀.disk inode.pointers := by
    rw [flatMap_map, ← hentries, entriesIn]
  have hfst : (inode.pointers.map fun x => (x, w.disk x)).map Prod.fst = inode.pointers := by
    rw [map_map]
    exact map_id _
  simp only [hkept, hfst, others_eq_filter hvalid]
  -- The entries of the copy, and the trees below them.
  have hrest₁ : Kids w₁.disk (others name (entriesIn w₀.disk inode.pointers))
      (kids.filter fun e => e.1 ≠ name) rest := by
    rw [hq.disk]
    exact hrest.frame fun x hx => hg.disk_of_used (hdir.used x (hbelow x (hpart.rest_mem hx)))
  have hadded : Kids w₁.disk (added name replacement) (rep.map fun t => (name, t)).toList
      blocks := by
    rw [hq.disk]
    exact hpic.kids_added hlen
  have hkids := hrest₁.append hadded
  rw [wp_bind]
  refine (pushEntry_spec hlen).mono ?_ fun _ _ h => h.elim
  rintro es w' ⟨hes, rfl⟩
  rw [← hes] at hkids
  have hlength := hkids.length
  have hsize : Tree.replaced inode.owner inode.mode kids name rep =
      if directBlocks * entriesPerBlock < es.length then .error .tooLarge
      else .ok (.directory inode.owner inode.mode ((kids.filter fun e => e.1 ≠ name) ++
        (rep.map fun t => (name, t)).toList)) := by
    rw [Tree.replaced, hlength]
  by_cases hbig : directBlocks * entriesPerBlock < es.length
  · rw [if_pos ((needed_iff _).mpr hbig), wp_fail]
    rw [if_pos hbig] at hsize
    exact ⟨hg.trans_nil hq.grew, .inr ⟨hsize, rfl⟩⟩
  rw [if_neg (mt (needed_iff _).mp hbig)]
  rw [if_neg hbig] at hsize
  have hg₁ : Grew w₀ w' r := hg.trans_nil hq.grew
  have hl₁ := hg₁.layout hl
  have hm₁ : Moves whole w₀ w' own blocks dropped := by
    refine ⟨hm.nodup, fun x hx => (hm.source x hx).imp id hq.grew.fresh_left, fun x hx => ?_,
      hm.gone, hm.complete⟩
    exact hm.claimed x ⟨hx.free, by rw [← hq.state]; exact hx.used, hx.low, hx.high⟩
  have hword : ∀ x ∈ rest ++ blocks, x ≠ 0 ∧ x < wordLimit := fun x hx =>
    hl.word_of_inArea ((stayed_or_fresh hpart hm hx).elim (hdir.area x) Fresh.inArea)
  -- The directory's blocks, then its inode.
  rw [wp_bind]
  refine (writeFresh_spec hl₁ (directorySectors es)).mono ?_ fun e w'' h =>
    ⟨hg₁.trans_nil h.1, .inl h.2⟩
  rintro fresh w₂ ⟨hg₂, hnodup, hfresh, hdata⟩
  have hcount : fresh.length ≤ directBlocks := by
    have : (fresh.map w₂.disk).length = _ := congrArg length hdata
    rw [length_map] at this
    rw [this]
    exact length_directorySectors (not_lt.mp hbig)
  simp only [wp_bind, wp_pure]
  refine place_spec (hg₂.layout hl₁) _ ?_ fun e w'' hg₃ he =>
    ⟨hg₁.trans_nil (hg₂.trans_nil hg₃), .inl he⟩
  intro new w₃ hg₃ hnew hinode
  refine ⟨_, new :: fresh ++ (rest ++ blocks), hsize, hg₁.trans_nil (hg₂.trans_nil hg₃), ?_,
    hg₁.fresh_right (hg₂.fresh_right ((hnew new).mpr rfl)),
    moves_rebuilt hdir hpart hm₁ hg₁ hg₂ hfresh hnodup hg₃ hnew⟩
  have hsmall : directBlocks * entriesPerBlock < wordLimit := by decide
  obtain ⟨hdecode, hsane⟩ := decode_holding hinode
    (Inode.fits_of_decode hdir.decode hdir.sane.used) (by omega) hcount hl₁
    fun x hx => ((hfresh x).mpr hx).inArea
  have hfresh₃ : ∀ x ∈ fresh, w₃.disk x = w₂.disk x := fun x hx =>
    hg₃.disk_of_used ((hfresh x).mpr hx).used
  have hread : entriesIn w₃.disk fresh = es := by
    rw [entriesIn_congr hfresh₃, entriesIn_of_map hdata]
    exact entries_directorySectors fun e he => hword _ (hkids.inode_mem e he)
  have hchildren : Kids w₃.disk es ((kids.filter fun e => e.1 ≠ name) ++
      (rep.map fun t => (name, t)).toList) (rest ++ blocks) := by
    refine hkids.frame fun x hx => (hg₂.trans_nil hg₃).disk_of_used ?_
    exact (stayed_or_fresh hpart hm₁ hx).elim (fun h => hg₁.kept x (hdir.used x h)) Fresh.used
  have hp : (inode.holding fresh es.length).pointers = fresh := Inode.pointers_holding hcount
  have hshape : Shape w₃.disk new (inode.holding fresh es.length)
      (.directory inode.owner inode.mode ((kids.filter fun e => e.1 ≠ name) ++
        (rep.map fun t => (name, t)).toList))
      (new :: (inode.holding fresh es.length).pointers ++ (rest ++ blocks)) :=
    Shape.directory hdir.kind (by rw [hp, hread]; rfl) (by rw [hp, hread]; exact hchildren)
  rw [hp] at hshape
  exact Shows.of_shape hdecode hsane hshape

end Directory

end Panda.Fs
