import PandaProof.CompositorPixels

/-!
# What is on the screen

Only what is damaged is drawn again.  It is enough: whatever changes a pixel of the screen has
damaged its tile, so that in the tiles drawn at least once the display is what drawing the
whole screen afresh would make of it (`composed_of_reaches`).

The grid rounds out to tiles, and its rows are masks of 128 bits.  A pixel is marked when the
bit of its tile is set, and what is drained are exactly the marked pixels.
-/
namespace Panda.Compositor

open List Option UInt64 State

/-! ## Tiles -/

/-- A run of set bits. -/
theorem getLsbD_span {n start i : Nat} (hn : n ≤ 128) :
    ((BitVec.allOnes 128 >>> (128 - n)) <<< start).getLsbD i = true ↔
      i < 128 ∧ start ≤ i ∧ i < start + n := by
  simp only [BitVec.getLsbD_shiftLeft, BitVec.getLsbD_ushiftRight, BitVec.getLsbD_allOnes,
    Bool.and_eq_true, decide_eq_true_eq, Bool.not_eq_true', decide_eq_false_iff_not]
  omega

/-- The bit of the tile that the pixel is in is set. -/
def Marked (rows : Fin tileRows → BitVec 128) (tile x y : UInt64) : Prop :=
  ∃ row : Fin tileRows, row.val = y.toNat / tile.toNat ∧
    (rows row).getLsbD (x.toNat / tile.toNat) = true

theorem trailingZeros_spec {bits : BitVec 128} (h : bits ≠ 0) :
    bits.getLsbD (trailingZeros bits) = true ∧
      ∀ i < trailingZeros bits, bits.getLsbD i = false := by
  cases hfind : (range 128).find? bits.getLsbD with
  | none =>
    refine absurd (BitVec.eq_of_getLsbD_eq fun i hi => ?_) h
    simpa using find?_eq_none.mp hfind i (mem_range.mpr hi)
  | some =>
    obtain ⟨hbit, -, hlow⟩ := find?_range_eq_some.mp hfind
    rw [trailingZeros, hfind, getD_some]
    exact ⟨hbit, fun i hi => by simpa using hlow i hi⟩

theorem trailingOnes_spec (bits : BitVec 128) : (∀ i < trailingOnes bits, bits.getLsbD i = true) ∧
      bits.getLsbD (trailingOnes bits) = false := by
  cases hfind : (range 128).find? fun i => !bits.getLsbD i with
  | none =>
    rw [trailingOnes, hfind, getD_none]
    refine ⟨fun i hi => ?_, bits.getLsbD_of_ge 128 (le_refl _)⟩
    simpa using find?_eq_none.mp hfind i (mem_range.mpr hi)
  | some =>
    obtain ⟨hbit, -, hlow⟩ := find?_range_eq_some.mp hfind
    rw [trailingOnes, hfind, getD_some]
    exact ⟨fun i hi => by simpa using hlow i hi, by simpa using hbit⟩

section Tiles

variable {tile x y : UInt64} (hpos : 0 < tile.toNat) (hsmall : tile.toNat * 128 < size)
include hpos hsmall

/-- A run of tiles holds the pixels of its tiles. -/
theorem run_contains {row start stop : Nat} (hstart : start ≤ 128) (hstop : stop ≤ 128)
    (hrow : row < 127) : (Rect.mk (.ofNat start * tile) (.ofNat row * tile) (.ofNat stop * tile)
        ((.ofNat row + 1) * tile)).contains x y = true ↔
      (start ≤ x.toNat / tile.toNat ∧ x.toNat / tile.toNat < stop) ∧
        row = y.toNat / tile.toNat := by
  have hscale : ∀ n ≤ 128, (ofNat n * tile).toNat = n * tile.toNat := by
    intro n hn
    have hle : n * tile.toNat ≤ 128 * tile.toNat := Nat.mul_le_mul_right _ hn
    rw [UInt64.toNat_mul, UInt64.toNat_ofNat_of_lt' (by show n < 2 ^ 64; omega)]
    exact Nat.mod_eq_of_lt (by show n * tile.toNat < size; omega)
  have hnext : ofNat row + 1 = ofNat (row + 1) := by
    rw [ofNat_add]
    rfl
  rw [contains_iff, hnext, hscale start hstart, hscale row (by omega), hscale stop hstop,
    hscale (row + 1) (by omega), Nat.le_div_iff_mul_le hpos, Nat.div_lt_iff_lt_mul hpos,
    eq_comm, Nat.div_eq_iff hpos]
  rw [Nat.add_mul]
  omega

/-- The runs of a row hold the pixels of its marked tiles. -/
theorem runs_contains {row : Nat} (hrow : row < 127) (turns : Nat) {remaining : BitVec 128}
    (hlow : ∀ i, i + turns < 128 → remaining.getLsbD i = false) :
    (∃ r ∈ runs tile (.ofNat row) turns remaining, r.contains x y = true) ↔
      remaining.getLsbD (x.toNat / tile.toNat) = true ∧ row = y.toNat / tile.toNat := by
  induction turns generalizing remaining with
  | zero =>
    have hzero : ∀ i, remaining.getLsbD i = false := fun i => by
      rcases Nat.lt_or_ge i 128 with hi | hi
      · exact hlow i hi
      · exact remaining.getLsbD_of_ge i hi
    simp [runs, hzero]
  | succ turns ih =>
    rw [runs]
    split_ifs with hempty
    · simp [hempty]
    obtain ⟨hbit, hbelow⟩ := trailingZeros_spec hempty
    obtain ⟨hones, hend⟩ := trailingOnes_spec (remaining >>> trailingZeros remaining)
    simp only [BitVec.getLsbD_ushiftRight] at hones hend
    dsimp only
    generalize trailingZeros remaining = start at *
    generalize trailingOnes (remaining >>> start) = length at *
    have hstart : start < 128 := by
      by_contra hge
      rw [remaining.getLsbD_of_ge start (by omega)] at hbit
      cases hbit
    have hroom : start + length ≤ 128 := by
      by_contra hover
      have hlast := hones (128 - start) (by omega)
      rw [remaining.getLsbD_of_ge _ (by omega)] at hlast
      cases hlast
    have hlength : 0 < length := by
      by_contra hzero
      obtain rfl : length = 0 := by omega
      rw [Nat.add_zero, hbit] at hend
      cases hend
    have hmask : ∀ i,
        (remaining &&& ~~~((BitVec.allOnes 128 >>> (128 - length)) <<< start)).getLsbD i
        = true ↔ remaining.getLsbD i = true ∧ ¬(start ≤ i ∧ i < start + length) := by
      intro i
      rw [BitVec.getLsbD_and, BitVec.getLsbD_not, Bool.and_eq_true, Bool.and_eq_true,
        decide_eq_true_eq, Bool.not_eq_true', ← Bool.not_eq_true, getLsbD_span (by omega)]
      have hbound : remaining.getLsbD i = true → i < 128 := BitVec.lt_of_getLsbD
      tauto
    have hrest := @ih (remaining &&& ~~~((BitVec.allOnes 128 >>> (128 - length)) <<< start)) ?_
    · rw [exists_mem_cons_iff, run_contains hpos hsmall (by omega) hroom hrow, hrest, hmask]
      generalize x.toNat / tile.toNat = column
      have hset : start ≤ column → column < start + length → remaining.getLsbD column = true := by
        intro hle hlt
        have hone := hones (column - start) (by omega)
        rwa [Nat.add_sub_cancel' hle] at hone
      tauto
    · intro i hi
      rw [← Bool.not_eq_true, hmask]
      rintro ⟨hset, _⟩
      rcases Nat.lt_or_ge i start with hlt | hge
      · rw [hbelow i hlt] at hset
        cases hset
      · have hfirst := mt (hlow start) (by rw [hbit]; exact Bool.noConfusion)
        omega

/-- **What is drained are the marked pixels.** -/
theorem drain_contains {d : Damage} (htile : d.tile = tile) :
    (∃ r ∈ d.drain, r.contains x y = true) ↔ Marked d.rows tile x y := by
  have hrow : ∀ row : Fin tileRows,
      (∃ r ∈ runs tile (.ofNat row.val) 128 (d.rows row), r.contains x y = true) ↔ _ := fun row =>
    runs_contains hpos hsmall (row.isLt.trans (by decide)) 128 fun i hi => by omega
  rw [Damage.drain, htile]
  constructor
  · rintro ⟨r, hr, hcontains⟩
    obtain ⟨row, -, hr⟩ := mem_flatMap.mp hr
    obtain ⟨hbit, hy⟩ := (hrow row).mp ⟨r, hr, hcontains⟩
    exact ⟨row, hy, hbit⟩
  · rintro ⟨row, hy, hbit⟩
    obtain ⟨r, hr, hcontains⟩ := (hrow row).mpr ⟨hbit, hy⟩
    exact ⟨r, mem_flatMap.mpr ⟨row, mem_finRange row, hr⟩, hcontains⟩

end Tiles

/-! ## Adding damage -/

theorem tile_add (d : Damage) (area : Rect) : (d.add area).tile = d.tile := by
  rw [Damage.add]
  split <;> rfl

variable {d : Damage} {tile x y : UInt64}

/-- What is damaged stays so. -/
theorem Marked.add (h : Marked d.rows tile x y) (area : Rect) :
    Marked (d.add area).rows tile x y := by
  obtain ⟨row, hrow, hbit⟩ := h
  refine ⟨row, hrow, ?_⟩
  rw [Damage.add]
  dsimp only
  split_ifs
  · exact hbit
  dsimp only
  split_ifs
  · rw [BitVec.getLsbD_or, hbit, Bool.true_or]
  · exact hbit

/-- **Damage covers its area**: every pixel of it that has a tile. -/
theorem marked_add {area : Rect}
    (hcolumn : x.toNat / d.tile.toNat < 128) (hrow : y.toNat / d.tile.toNat < tileRows)
    (h : area.contains x y = true) : Marked (d.add area).rows d.tile x y := by
  refine ⟨⟨_, hrow⟩, rfl, ?_⟩
  obtain ⟨⟨hleft, hright⟩, htop, hbottom⟩ := contains_iff.mp h
  have hlast : ∀ {stop : UInt64} {n : Nat}, n < stop.toNat →
      n / d.tile.toNat ≤ ((stop - 1) / d.tile).toNat := by
    intro stop n hn
    rw [UInt64.toNat_div, UInt64.toNat_sub_of_le _ _ (UInt64.le_iff_toNat_le.mpr (by
      show 1 ≤ stop.toNat; omega))]
    exact Nat.div_le_div_right (by show n ≤ stop.toNat - 1; omega)
  have hfirst : ∀ {start : UInt64} {n : Nat}, start.toNat ≤ n →
      (start / d.tile).toNat ≤ n / d.tile.toNat := by
    intro start n hn
    rw [UInt64.toNat_div]
    exact Nat.div_le_div_right hn
  have hrows := And.intro (hfirst htop) (hlast hbottom)
  have hcolumns := And.intro (hfirst hleft) (hlast hright)
  rw [Damage.add, if_neg fun hempty => not_contains_of_isEmpty hempty x y h]
  dsimp only
  rw [if_pos (by omega), BitVec.getLsbD_or, Bool.or_eq_true]
  right
  have hend : (tileColumns - 1).toNat = 127 := rfl
  have hstart := toNat_min (area.left / d.tile) (tileColumns - 1)
  have hstop := toNat_min ((area.right - 1) / d.tile) (tileColumns - 1)
  generalize min (area.left / d.tile) (tileColumns - 1) = first at *
  generalize min ((area.right - 1) / d.tile) (tileColumns - 1) = last at *
  have hwidth : (last - first).toNat = last.toNat - first.toNat :=
    UInt64.toNat_sub_of_le _ _ (UInt64.le_iff_toNat_le.mpr (by omega))
  rw [UInt64.toNat_sub_of_le _ _ (UInt64.le_iff_toNat_le.mpr (by omega)), hwidth, hend,
    show 127 - (last.toNat - first.toNat) = 128 - (last.toNat - first.toNat + 1) by omega]
  exact (getLsbD_span (by omega)).mpr ⟨hcolumn, by omega, by omega⟩

theorem divCeil_spec (a : UInt32) {b : UInt64} (hb : 0 < b.toNat) :
    a.toNat ≤ b.toNat * (Damage.divCeil a.toUInt64 b).toNat ∧
      (Damage.divCeil a.toUInt64 b).toNat ≤ a.toNat + 1 := by
  have hquotient := Nat.div_le_self a.toNat b.toNat
  have hsplit := Nat.div_add_mod a.toNat b.toNat
  have hrest := Nat.mod_lt a.toNat hb
  have hsmall := a.toNat_lt
  rw [Damage.divCeil, UInt64.toNat_add, UInt64.toNat_div, UInt32.toNat_toUInt64]
  split_ifs with hexact
  · rw [← UInt64.toNat_inj, UInt64.toNat_mod, UInt32.toNat_toUInt64] at hexact
    rw [UInt64.toNat_zero, Nat.mod_eq_of_lt (by omega), Nat.add_zero]
    rw [UInt64.toNat_zero] at hexact
    omega
  · rw [UInt64.toNat_one, Nat.mod_eq_of_lt (by omega), Nat.mul_succ]
    omega

/-- The tiles of a screen: enough to hold it, and not too large to count in. -/
theorem tile_spec (width height : UInt32) :
    let tile := (Damage.new width.toUInt64 height.toUInt64).tile.toNat
    0 < tile ∧ tile * 128 < size ∧ width.toNat ≤ 128 * tile ∧ height.toNat ≤ 80 * tile := by
  have hwidth := divCeil_spec width (b := tileColumns) (by decide)
  have hheight := divCeil_spec height (b := 80) (by decide)
  rw [show tileColumns.toNat = 128 from rfl] at hwidth
  rw [show (80 : UInt64).toNat = 80 from rfl] at hheight
  have hleast : (32 : UInt64).toNat = 32 := rfl
  have hsize : size = 2 ^ 64 := rfl
  have := width.toNat_lt
  have := height.toNat_lt
  dsimp only [Damage.new]
  rw [toNat_max, toNat_max]
  omega

/-! ## What a message damages -/

/-- The tile of the pixel is damaged. -/
def State.Dirty (s : State) (x y : UInt64) : Prop := Marked s.damage.rows s.damage.tile x y

/-- The tiles are those of the screen. -/
def State.Tiled (s : State) : Prop :=
  s.damage.tile = (Damage.new s.screen.width.toUInt64 s.screen.height.toUInt64).tile

def Covers (surface : Surface) (x y : UInt64) : Prop :=
  surface.buffer ≠ 0 ∧ (boundsOf surface).contains x y = true

/-- A full redraw puts the same there, as far as the compositor's own state goes. -/
structure Unchanged (s t : State) (x y : UInt64) : Prop where
  cursor : t.cursorAt x y = s.cursorAt x y
  surfaces : ∀ i, Covers (t.surfaces i) x y ∨ Covers (s.surfaces i) x y →
    t.surfaces i = s.surfaces i

/-- A change of state that damages what it changes. -/
structure Damages (s t : State) : Prop where
  screen : t.screen = s.screen
  tile : t.damage.tile = s.damage.tile
  grows : ∀ x y, s.Dirty x y → t.Dirty x y
  changed : ∀ x y, OnScreen s.screen x y → ¬t.Dirty x y → Unchanged s t x y

variable {s t : State}

/-- Nothing a redraw depends on has changed. -/
theorem Damages.of_eq (hscreen : t.screen = s.screen) (hdamage : t.damage = s.damage)
    (hsurfaces : t.surfaces = s.surfaces) (hcursor : ∀ x y, t.cursorAt x y = s.cursorAt x y) :
    Damages s t where
  screen := hscreen
  tile := by rw [hdamage]
  grows x y h := by
    rw [Dirty, hdamage]
    exact h
  changed x y _ _ := ⟨hcursor x y, fun i _ => congrFun hsurfaces i⟩

theorem Damages.trans {u : State} (hst : Damages s t) (htu : Damages t u) : Damages s u where
  screen := htu.screen.trans hst.screen
  tile := htu.tile.trans hst.tile
  grows x y h := htu.grows x y (hst.grows x y h)
  changed x y hon hclean := by
    obtain ⟨hcursor, hsurfaces⟩ := hst.changed x y hon fun h => hclean (htu.grows x y h)
    obtain ⟨hcursor', hsurfaces'⟩ := htu.changed x y (hst.screen ▸ hon) hclean
    refine ⟨hcursor'.trans hcursor, fun i hi => ?_⟩
    rcases hi with hi | hi
    · have hlater := hsurfaces' i (.inl hi)
      exact hlater.trans (hsurfaces i (.inl (hlater ▸ hi)))
    · have hfirst := hsurfaces i (.inr hi)
      exact (hsurfaces' i (.inr (hfirst.symm ▸ hi))).trans hfirst

theorem Damages.tiled (h : Damages s t) (htiled : s.Tiled) : t.Tiled := by
  rw [Tiled, h.tile, h.screen]
  exact htiled

section Messages

variable {s : State} (htiled : s.Tiled)
include htiled

variable {d : Damage} {x y : UInt64}

theorem marked_of_contains {area : Rect} (hd : d.tile = s.damage.tile)
    (hon : OnScreen s.screen x y) (h : area.contains x y = true) :
    Marked (d.add area).rows s.damage.tile x y := by
  obtain ⟨hpos, -, hwidth, hheight⟩ := tile_spec s.screen.width s.screen.height
  rw [← htiled, ← hd] at hpos hwidth hheight
  rw [← hd]
  exact marked_add ((Nat.div_lt_iff_lt_mul hpos).mpr (hon.1.trans_le hwidth))
    ((Nat.div_lt_iff_lt_mul hpos).mpr (hon.2.trans_le hheight)) h

variable {t : State} {index : Fin maxSurfaces} {surface : Surface}

/-- A changed entry of the table, whose bounds before and after are damaged. -/
theorem Damages.of_update
    (hscreen : t.screen = s.screen) (hcursor : ∀ x y, t.cursorAt x y = s.cursorAt x y)
    (hsurfaces : t.surfaces = Function.update s.surfaces index surface)
    (hdamage : t.damage = d.add (boundsOf surface)) (htile : d.tile = s.damage.tile)
    (hgrows : ∀ x y, s.Dirty x y → Marked d.rows s.damage.tile x y)
    (hold : ∀ x y, OnScreen s.screen x y → Covers (s.surfaces index) x y → t.Dirty x y) :
    Damages s t := by
  have htile' : t.damage.tile = s.damage.tile := by rw [hdamage, tile_add, htile]
  refine ⟨hscreen, htile', fun x y h => ?_, fun x y hon hclean => ⟨hcursor x y, fun i hi => ?_⟩⟩
  · rw [Dirty, htile', hdamage]
    exact (hgrows x y h).add _
  rw [hsurfaces] at hi ⊢
  rcases eq_or_ne i index with rfl | hne
  · rw [Function.update_self] at hi ⊢
    rcases hi with hi | hi
    · refine absurd ?_ hclean
      rw [Dirty, htile', hdamage]
      exact marked_of_contains htiled htile hon hi.2
    · exact absurd (hold x y hon hi) hclean
  · rw [Function.update_of_ne hne]

/-- The entry that `track` replaces is damaged. -/
theorem track_dirty
    (hslot : slotFor s.surfaces surface.buffer = some index) (hon : OnScreen s.screen x y)
    (h : Covers (s.surfaces index) x y) : (track s surface).Dirty x y := by
  rw [Dirty, track, hslot]
  dsimp only
  rw [if_pos h.1, tile_add, tile_add]
  exact (marked_of_contains htiled rfl hon h.2).add _

theorem track_damages (surface : Surface) : Damages s (track s surface) := by
  cases hslot : slotFor s.surfaces surface.buffer with
  | none =>
    rw [track, hslot]
    exact .of_eq rfl rfl rfl fun _ _ => rfl
  | some index =>
    have htrack : track s surface = { s with
        damage := (if (s.surfaces index).buffer ≠ 0 then s.damage.add (boundsOf (s.surfaces index))
          else s.damage).add (boundsOf surface)
        surfaces := Function.update s.surfaces index surface } := by
      rw [track, hslot]
    refine Damages.of_update htiled (by rw [htrack]) (fun _ _ => by rw [htrack]; rfl)
      (by rw [htrack]) (by rw [htrack]) ?_ (fun x y h => ?_)
      fun x y hon h => track_dirty htiled hslot hon h
    · split
      · exact tile_add _ _
      · rfl
    · split
      · exact h.add _
      · exact h

theorem Damages.raiseAt (h : Damages s t) (x y : UInt64) : Damages s (raiseAt t x y) := by
  refine h.trans ?_
  have ht := h.tiled htiled
  rw [Compositor.raiseAt]
  dsimp only
  split
  · split_ifs
    · refine Damages.of_update ht rfl (fun _ _ => rfl) rfl rfl rfl (fun _ _ h => h)
        fun x y hon h => ?_
      rw [Dirty, tile_add]
      exact marked_of_contains ht rfl hon h.2
    · exact .of_eq rfl rfl rfl fun _ _ => rfl
  · exact .of_eq rfl rfl rfl fun _ _ => rfl

/-- The cursor has moved, and where it was and where it is are damaged. -/
theorem Damages.of_cursor (hscreen : t.screen = s.screen)
    (hsurfaces : t.surfaces = s.surfaces) (hdamage : t.damage = d.add (cursorRect t))
    (hd : d = s.damage ∧ s.cursorVisible = false ∨ d = s.damage.add (cursorRect s)) :
    Damages s t := by
  have htile : d.tile = s.damage.tile := by
    rcases hd with ⟨rfl, -⟩ | rfl
    · rfl
    · exact tile_add _ _
  have htile' : t.damage.tile = s.damage.tile := by rw [hdamage, tile_add, htile]
  refine ⟨hscreen, htile', fun x y h => ?_,
    fun x y hon hclean => ⟨?_, fun i _ => congrFun hsurfaces i⟩⟩
  all_goals rw [Dirty, htile', hdamage] at *
  · rcases hd with ⟨rfl, -⟩ | rfl
    · exact Marked.add h _
    · exact (Marked.add h _).add _
  rw [cursorAt, if_neg fun h => hclean (marked_of_contains htiled htile hon h.2), cursorAt]
  rcases hd with ⟨rfl, hhidden⟩ | rfl
  · rw [if_neg fun h => Bool.noConfusion (hhidden.symm.trans h.1)]
  · rw [if_neg fun h => hclean ((marked_of_contains htiled rfl hon h.2).add _)]

theorem pointer_damages {dx dy buttons : UInt64}
    (h : pointer s dx dy buttons = some t) : Damages s t := by
  rw [pointer] at h
  dsimp only at h
  split at h
  · cases h
  cases h
  have hmoved : ∀ t : State, t.screen = s.screen → t.surfaces = s.surfaces →
      t.damage = (if s.cursorVisible then s.damage.add (cursorRect s) else s.damage).add
        (cursorRect t) → Damages s t := by
    intro t hscreen hsurfaces hdamage
    refine Damages.of_cursor htiled hscreen hsurfaces hdamage ?_
    cases s.cursorVisible
    · exact .inl ⟨rfl, rfl⟩
    · exact .inr rfl
  cases hvisible : s.cursorVisible <;>
    simp only [hvisible, if_true, if_false, Bool.false_eq_true] at hmoved ⊢
  all_goals
    split
    · apply Damages.raiseAt htiled
      exact hmoved _ rfl rfl (by dsimp only [cursorRect])
    · exact hmoved _ rfl rfl (by dsimp only [cursorRect])

/-- **A message damages what it changes.** -/
theorem beforeCompose_damages {kernel : Kernel} {m : Message}
    (h : beforeCompose kernel s m = some t) : Damages s t := by
  rw [beforeCompose] at h
  split_ifs at h
  · exact pointer_damages htiled h
  · obtain ⟨surface, -, rfl⟩ := map_eq_some_iff.mp h
    exact track_damages htiled surface

end Messages

/-! ## Composing a frame -/

/-- What drawing a frame has done. -/
structure Recomposed (f f' : Frame) : Prop where
  state : f'.state = compose f.state
  memory : f'.memory = f.memory
  drawn : ∀ x y, Marked f'.drawn f.state.damage.tile x y →
    Marked f.drawn f.state.damage.tile x y ∨ f.state.Dirty x y
  inside : ∀ x y, OnScreen f.state.screen x y → f.state.Dirty x y →
    ∀ k < f.state.screen.depth, Redraw f.state f.memory x y k
      (f'.display (f.state.screen.offset x.toNat y.toNat + k))
  outside : ∀ o, (∀ x y, OnScreen f.state.screen x y → f.state.Dirty x y →
    ∀ k < f.state.screen.depth, o ≠ f.state.screen.offset x.toNat y.toNat + k) →
    f'.display o = f.display o

theorem rows_of_isEmpty (h : d.isEmpty = true) : d.rows = fun _ => 0 :=
  funext fun row => by simpa using all_eq_true.mp h row (mem_finRange row)

theorem compose_damage (s : State) : (compose s).damage = s.damage.clear := by
  rw [compose, Damage.clear]
  split_ifs with hempty
  · rw [← rows_of_isEmpty hempty]
  · rfl

theorem not_marked_zero : ¬Marked (fun _ => 0) tile x y := by
  rintro ⟨_, -, hbit⟩
  simp at hbit

theorem composeFrame_spec {f : Frame} (htiled : f.state.Tiled) (hflat : Flat f.state.screen)
    (hsize : f.state.screen.size.toNat ≠ 3) : ∃ f', composeFrame f = some f' ∧ Recomposed f f' := by
  obtain ⟨hpos, hsmall, -⟩ := tile_spec f.state.screen.width f.state.screen.height
  rw [← htiled] at hpos hsmall
  have hdrain : ∀ x y, (∃ r ∈ f.state.damage.drain, r.contains x y = true) ↔ f.state.Dirty x y :=
    fun x y => drain_contains hpos hsmall rfl
  rw [composeFrame]
  split_ifs with hempty
  · have hclean : ∀ x y, ¬f.state.Dirty x y := by
      intro x y
      rw [Dirty, rows_of_isEmpty hempty]
      exact not_marked_zero
    exact ⟨f, rfl, by rw [compose, if_pos hempty], rfl, fun _ _ h => .inl h,
      fun x y _ h => absurd h (hclean x y), fun _ _ => rfl⟩
  obtain ⟨f', hrun, _, hmemory, _, hinside, houtside⟩ :=
    composeRegions_spec hflat hsize f.state.damage.drain
  simp only [hdrain] at hinside houtside
  rw [hrun]
  refine ⟨_, rfl, rfl, hmemory, ?_, hinside, houtside⟩
  rintro x y ⟨row, hrow, hbit⟩
  rw [BitVec.getLsbD_or, Bool.or_eq_true] at hbit
  exact hbit.imp (fun h => ⟨row, hrow, h⟩) fun h => ⟨row, hrow, h⟩

/-! ## Any number of messages -/

variable {kernel : Kernel} {m : Message}

/-- `compose` ends the message's turn in the loop of `main`. -/
theorem handle_of_beforeCompose
    (h : beforeCompose kernel s m = some t) : handle kernel s m = some (compose t) := by
  rw [beforeCompose] at h
  split_ifs at h with hpointer hpresent
  · rw [handle, if_neg fun hsource => absurd (hpointer.1.symm.trans hsource.1) (by decide),
      if_neg fun hshutdown => absurd (hpointer.1.symm.trans hshutdown.1) (by decide),
      if_pos hpointer]
    exact congrArg (Option.map compose) h
  · obtain ⟨_, hadopt, rfl⟩ := map_eq_some_iff.mp h
    simp only [handle, hpresent]
    simp [tagPresent, tagInputSource, tagShutdown, tagPointer, tagListen, hadopt]

/-- The other messages change nothing that a redraw depends on. -/
theorem damages_of_not_compose
    (h : beforeCompose kernel s m = none) (ht : handle kernel s m = some t) :
    Damages s t ∧ t.damage = s.damage ∧ ∀ buffer, ¬Presents kernel m buffer := by
  have hpresents : ∀ buffer, ¬Presents kernel m buffer := by
    rintro buffer ⟨htag, -, hadopt⟩
    rw [beforeCompose, if_neg fun hpointer => absurd (htag.symm.trans hpointer.1) (by decide),
      if_pos htag, map_eq_none_iff] at h
    rw [h] at hadopt
    cases hadopt
  cases handled_of_handle ht with
  | source | ignored => exact ⟨.of_eq rfl rfl rfl fun _ _ => rfl, rfl, hpresents⟩
  | pointer htag hinput hmoved =>
    rw [beforeCompose, if_pos ⟨htag, hinput⟩, hmoved] at h
    cases h
  | listen =>
    obtain ⟨listeners, hlisten⟩ :
      ∃ listeners, listen s m.sender m.first = { s with listeners } := by
      rw [listen]
      split
      · exact ⟨_, rfl⟩
      · exact ⟨s.listeners, rfl⟩
    rw [hlisten]
    exact ⟨.of_eq rfl rfl rfl fun _ _ => rfl, rfl, hpresents⟩
  | present htag hadopt => exact absurd ⟨htag, rfl, by rw [hadopt]; rfl⟩ (hpresents m.first)

/-- Surfaces that agree wherever one covers the point have the same on top. -/
theorem OnTop.of_agree {surfaces surfaces' : Fin maxSurfaces → Surface} {i : Fin maxSurfaces}
    (hagree : ∀ i, Covers (surfaces' i) x y ∨ Covers (surfaces i) x y →
      surfaces' i = surfaces i) (h : OnTop surfaces i x y) : OnTop surfaces' i x y := by
  have hi := hagree i (.inr h.1)
  refine ⟨hi.symm ▸ h.1, fun j hlive hin => ?_⟩
  have hj := hagree j (.inl ⟨hlive, hin⟩)
  rw [hj, hi]
  exact h.2 j (hj ▸ hlive) (hj ▸ hin)

/-- Where nothing it depends on has changed, a redraw shows the same. -/
theorem Redraw.of_unchanged {memory memory' : Nat → Byte} {k : Nat}
    {byte : Byte} (h : Redraw s memory x y k byte) (hscreen : t.screen = s.screen)
    (hsame : Unchanged s t x y) (hmemory : ∀ i, Covers (s.surfaces i) x y →
      memory' ((s.surfaces i).address s.screen.depth x.toNat y.toNat + k) =
        memory ((s.surfaces i).address s.screen.depth x.toNat y.toNat + k)) :
    Redraw t memory' x y k byte := by
  have honTop : ∀ i, OnTop t.surfaces i x y ↔ OnTop s.surfaces i x y := fun i =>
    ⟨.of_agree fun i hi => (hsame.surfaces i hi.symm).symm, .of_agree hsame.surfaces⟩
  refine ⟨fun value hvalue => h.cursor value (hsame.cursor ▸ hvalue), fun hnone i hi => ?_,
    fun hnone hno => h.ground (hsame.cursor ▸ hnone) fun i hi => hno i ((honTop i).mpr hi)⟩
  have hi' := (honTop i).mp hi
  rw [h.surface (hsame.cursor ▸ hnone) i hi', hsame.surfaces i (.inr hi'.1), hscreen,
    hmemory i hi'.1]

theorem compose_unchanged (s : State) :
    (compose s).screen = s.screen ∧ ∀ x y, Unchanged s (compose s) x y := by
  rw [compose]
  split_ifs <;> exact ⟨rfl, fun _ _ => ⟨rfl, fun _ _ => rfl⟩⟩

/-- The tile of the pixel has been damaged at some time. -/
def Frame.Drawn (f : Frame) (x y : UInt64) : Prop := Marked f.drawn f.state.damage.tile x y

/-- What holds between messages. -/
structure Settled (screen : BufferInfo) (f : Frame) : Prop where
  same : f.state.screen = screen
  damage : f.state.damage = Damage.new screen.width.toUInt64 screen.height.toUInt64
  distinct : Distinct f.state
  pixels : ∀ x y, OnScreen screen x y → f.Drawn x y →
    ∀ k < screen.depth, Redraw f.state f.memory x y k
      (f.display (screen.offset x.toNat y.toNat + k))

namespace Settled

variable {screen : BufferInfo} {f f' : Frame} {a : Arrival}

theorem tiled (h : Settled screen f) : f.state.Tiled := by
  rw [Tiled, h.damage, h.same]

variable {t : State}

/-- A presented buffer's old pixels are damaged. -/
theorem not_presents (h : Settled screen f)
    (ht : beforeCompose a.kernel f.state a.message = some t) {x y : UInt64}
    (hon : OnScreen screen x y) (hclean : ¬t.Dirty x y) {i : Fin maxSurfaces}
    (hi : Covers (f.state.surfaces i) x y) :
    ¬Presents a.kernel a.message (f.state.surfaces i).buffer := by
  rintro ⟨htag, hbuffer, hadopt⟩
  obtain ⟨surface, hsurface⟩ := isSome_iff_exists.mp hadopt
  rw [beforeCompose, if_neg fun hpointer => absurd (htag.symm.trans hpointer.1) (by decide),
    if_pos htag, hsurface] at ht
  cases ht
  have hsame := hbuffer.symm.trans (adopt_eq_some hsurface).1.symm
  have hslot : slotFor f.state.surfaces surface.buffer = some i := by
    rcases scanSlots_spec f.state.surfaces surface.buffer none (finRange maxSurfaces) with
      ⟨j, -, hj, hslot⟩ | ⟨hno, -⟩
    · rw [h.distinct i j hi.1 (hsame.trans hj.symm)]
      exact hslot
    · exact absurd hsame (hno i (mem_finRange i))
  exact hclean (track_dirty h.tiled hslot (h.same.symm ▸ hon) hi)

variable (hflat : Flat screen) (hsize : screen.size.toNat ≠ 3)
include hflat hsize

theorem recomposed (h : Settled screen f) (ht : beforeCompose a.kernel f.state a.message = some t) :
    ∃ f', f.handle a = some f' ∧ Recomposed { f with state := t, memory := a.memory } f' := by
  have hdamages := beforeCompose_damages h.tiled ht
  have hscreen := hdamages.screen.trans h.same
  rw [Frame.handle, ht]
  exact composeFrame_spec (hdamages.tiled h.tiled) (hscreen.symm ▸ hflat) (hscreen.symm ▸ hsize)

theorem step (h : Settled screen f) (hsteady : Steady f a) (hstep : f.handle a = some f') :
    Settled screen f' := by
  cases hbefore : beforeCompose a.kernel f.state a.message with
  | none =>
    rw [Frame.handle, hbefore] at hstep
    obtain ⟨t, ht, rfl⟩ := map_eq_some_iff.mp hstep
    obtain ⟨hdamages, hdamage, hpresents⟩ := damages_of_not_compose hbefore ht
    refine ⟨hdamages.screen.trans h.same, hdamage.trans h.damage, distinct_handle h.distinct ht,
      fun x y hon hmarked k hk => ?_⟩
    rw [Frame.Drawn] at hmarked
    dsimp only at hmarked
    rw [hdamage] at hmarked
    refine (h.pixels x y hon hmarked k hk).of_unchanged hdamages.screen
      (hdamages.changed x y (h.same.symm ▸ hon) ?_)
      fun i hi => hsteady i hi.1 (hpresents _) x y hi.2 k (h.same.symm ▸ hk)
    rw [Dirty, hdamage, h.damage]
    exact not_marked_zero
  | some t =>
    obtain ⟨_, hrun, hstate, hmemory, hdrawn, hinside, houtside⟩ := h.recomposed hflat hsize hbefore
    cases hrun.symm.trans hstep
    have hdamages := beforeCompose_damages h.tiled hbefore
    obtain ⟨hscreen, hsame⟩ := compose_unchanged t
    have ht := hdamages.screen.trans h.same
    dsimp only at hstate hmemory hdrawn hinside houtside
    rw [ht] at hinside houtside
    refine ⟨?_, ?_, ?_, fun x y hon hmarked k hk => ?_⟩
    · rw [hstate, hscreen, ht]
    · rw [hstate, compose_damage, Damage.clear, hdamages.tile, h.damage]
      rfl
    · rw [hstate]
      exact distinct_handle h.distinct (handle_of_beforeCompose hbefore)
    rw [Frame.Drawn, hstate, compose_damage] at hmarked
    rw [hstate, hmemory]
    refine Redraw.of_unchanged (s := t) ?_ hscreen (hsame x y) fun _ _ => rfl
    by_cases hdirty : t.Dirty x y
    · exact hinside x y hon hdirty k hk
    have hbefore' := (hdrawn x y hmarked).resolve_right hdirty
    rw [hdamages.tile] at hbefore'
    rw [houtside _ fun x' y' hon' hdirty' k' hk' heq => hdirty ?_]
    · exact (h.pixels x y hon hbefore' k hk).of_unchanged hdamages.screen
        (hdamages.changed x y (h.same.symm ▸ hon) hdirty) fun i hi =>
          hsteady i hi.1 (h.not_presents hbefore hon hdirty hi) x y hi.2 k (h.same.symm ▸ hk)
    · obtain ⟨rfl, rfl⟩ := offset_inj hflat hon.1 hk hon'.1 hk' heq
      exact hdirty'

end Settled

/-- **Composing what is damaged is a full redraw.**  On a display that is more than one pixel of
three bytes, whatever the messages, wherever a tile has ever been damaged the display shows what
a full redraw would.  A message that gets to `compose` is drawn, and changes no byte outside the
tiles damaged since the last one; the others change no byte at all. -/
theorem composed_of_reaches {screen : BufferInfo} (hflat : Flat screen)
    (hsize : screen.size.toNat ≠ 3) {f : Frame} (h : (frames screen).Reaches Steady f) :
    (∀ x y, OnScreen screen x y → f.Drawn x y → ∀ k < screen.depth,
      Redraw f.state f.memory x y k (f.display (screen.offset x.toNat y.toNat + k))) ∧
    (∀ a t, beforeCompose a.kernel f.state a.message = some t → ∃ f', f.handle a = some f' ∧
      ∀ o, (∀ x y, OnScreen screen x y → t.Dirty x y →
        ∀ k < screen.depth, o ≠ screen.offset x.toNat y.toNat + k) → f'.display o = f.display o) ∧
    (∀ x y, ¬f.state.Dirty x y) ∧
    ∀ a f', beforeCompose a.kernel f.state a.message = none → f.handle a = some f' →
      f'.display = f.display := by
  have hsettled : Settled screen f := by
    refine h.invariant (I := Settled screen) (fun f hf => ?_)
      fun hf hsteady hstep => hf.step hflat hsize hsteady hstep
    obtain ⟨hstate, hdrawn⟩ := hf
    refine ⟨by rw [hstate]; rfl, by rw [hstate]; rfl, ?_, fun x y _ hmarked => ?_⟩
    · rw [hstate]
      exact distinct_of_reachable (.init rfl)
    · rw [Frame.Drawn, hdrawn] at hmarked
      exact absurd hmarked not_marked_zero
  refine ⟨hsettled.pixels, fun a t ht => ?_, fun x y => ?_, fun a f' hbefore hstep => ?_⟩
  · obtain ⟨f', hstep, -, -, -, -, houtside⟩ := hsettled.recomposed hflat hsize ht
    dsimp only at houtside
    rw [(beforeCompose_damages hsettled.tiled ht).screen, hsettled.same] at houtside
    exact ⟨f', hstep, houtside⟩
  · rw [Dirty, hsettled.damage]
    exact not_marked_zero
  · rw [Frame.handle, hbefore] at hstep
    obtain ⟨t, -, rfl⟩ := map_eq_some_iff.mp hstep
    rfl

/-- A display of a row of pixels, three bytes each. -/
def rowScreen (width : UInt32) : BufferInfo :=
  ⟨width, 1, 3 * width, 3, (3 * width).toUInt64⟩

/-- Before the first message. -/
def blankFrame (screen : BufferInfo) : Frame :=
  ⟨initial screen, fun _ => 0xAA, fun _ => 0xBB, fun _ => 0, fun _ => 0⟩

/-- A `PRESENT` of one pixel in the corner of the screen. -/
def presentPixel : Arrival :=
  ⟨⟨fun _ => some 0x1000, fun _ => some ⟨1, 1, 3, 3, 3⟩⟩, present 7 3 0 0 0, fun _ => 7⟩

theorem steady_blankFrame (screen : BufferInfo) (a : Arrival) : Steady (blankFrame screen) a :=
  fun _ hlive => absurd rfl hlive

theorem flat_rowScreen {width : UInt32} (hwidth : width = 1 ∨ width = 2) :
    Flat (rowScreen width) := by
  rcases hwidth with rfl | rfl <;> exact ⟨.inl (by decide), by decide, by decide⟩

/-- On a display of two pixels, the first is drawn. -/
theorem composed_of_reaches_two : ∃ f, (frames (rowScreen 2)).Reaches Steady f ∧
    f.display 0 = 7 ∧ Redraw f.state f.memory 0 0 0 (f.display 0) := by
  have hrun : ((blankFrame (rowScreen 2)).handle presentPixel).any (fun f => decide
      (f.display 0 = 7 ∧ ∃ row, row.val = 0 / f.state.damage.tile.toNat ∧
        (f.drawn row).getLsbD (0 / f.state.damage.tile.toNat) = true)) = true := by
    decide +kernel
  obtain ⟨f, hf, hp⟩ := (any_eq_true _ _).mp hrun
  obtain ⟨hdisplay, hmarked⟩ := of_decide_eq_true hp
  have hfirst : (frames (rowScreen 2)).Reaches Steady (blankFrame (rowScreen 2)) := .init ⟨rfl, rfl⟩
  have hreaches := hfirst.step (steady_blankFrame _ presentPixel) hf
  refine ⟨f, hreaches, hdisplay, ?_⟩
  exact (composed_of_reaches (flat_rowScreen (.inr rfl)) (by decide) hreaches).1 0 0
    ⟨by decide, by decide⟩ hmarked 0 (by decide)

/-- **A display of one pixel is not drawn**: at three bytes, the store that ends with the pixel
begins before the display. -/
theorem one_pixel_not_composed : Flat (rowScreen 1) ∧
    ∃ f, (frames (rowScreen 1)).Reaches Steady f ∧ Steady f presentPixel ∧
      (beforeCompose presentPixel.kernel f.state presentPixel.message).isSome ∧
      f.handle presentPixel = none :=
  ⟨flat_rowScreen (.inl rfl), blankFrame (rowScreen 1), .init ⟨rfl, rfl⟩, steady_blankFrame _ _,
    rfl, isNone_iff_eq_none.mp (by decide +kernel)⟩

end Panda.Compositor
