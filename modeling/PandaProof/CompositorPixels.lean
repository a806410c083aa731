import Mathlib.Tactic.IntervalCases
import PandaProof.CompositorKeys

/-!
# What the compositor puts on the screen

The pixels of `compose`: the damaged tiles are drained as runs, each is cleared, drawn back to
front with the cursor over it, and copied to the display.  At three bytes a pixel the copy is
made in stores of four, which carry back the neighbouring byte they overlap.

Drawing a region leaves in it the pixels of a full redraw, and leaves every other byte of the
display alone (`composeRegions_spec`).
-/
namespace Panda.Compositor

open List UInt64

abbrev Byte := BitVec 8

/-! ## Bytes -/

/-- Write `count` bytes from `start`. -/
def fill (buffer : Nat → Byte) (start count : Nat) (value : Nat → Byte) : Nat → Byte := fun o =>
  if start ≤ o ∧ o < start + count then value (o - start) else buffer o

/-- `u32::from_le_bytes`. -/
def ofLeBytes (b₀ b₁ b₂ b₃ : Byte) : BitVec 32 :=
  b₀.setWidth 32 ||| b₁.setWidth 32 <<< 8 ||| b₂.setWidth 32 <<< 16 ||| b₃.setWidth 32 <<< 24

/-- `read_unaligned` of a `u32`. -/
def readU32 (buffer : Nat → Byte) (o : Nat) : BitVec 32 :=
  ofLeBytes (buffer o) (buffer (o + 1)) (buffer (o + 2)) (buffer (o + 3))

/-- `write_unaligned` of a `u32`. -/
def writeU32 (buffer : Nat → Byte) (o : Nat) (value : BitVec 32) : Nat → Byte :=
  fill buffer o 4 fun j => value.extractLsb' (8 * j) 8

/-! ## The cursor -/

inductive Ink
  | outline
  | inside
  | blank

open Ink in
/-- The pointer, 11 by 16. -/
def cursor : List (List Ink) :=
  let x := outline
  let f := inside
  let o := blank
  [[x, o, o, o, o, o, o, o, o, o, o], [x, x, o, o, o, o, o, o, o, o, o],
    [x, f, x, o, o, o, o, o, o, o, o], [x, f, f, x, o, o, o, o, o, o, o],
    [x, f, f, f, x, o, o, o, o, o, o], [x, f, f, f, f, x, o, o, o, o, o],
    [x, f, f, f, f, f, x, o, o, o, o], [x, f, f, f, f, f, f, x, o, o, o],
    [x, f, f, f, f, f, f, f, x, o, o], [x, f, f, f, f, f, f, f, f, x, o],
    [x, f, f, f, f, f, x, x, x, x, x], [x, f, f, x, f, f, x, o, o, o, o],
    [x, f, x, o, x, f, f, x, o, o, o], [x, x, o, o, x, f, f, x, o, o, o],
    [x, o, o, o, o, x, f, f, x, o, o], [o, o, o, o, o, x, x, x, x, o, o]]

/-- What the pointer puts at a point of itself, if anything. -/
def cursorByte (dx dy : Nat) : Option Byte :=
  match (cursor.getD dy []).getD dx .blank with
  | .outline => some 0x00
  | .inside => some 0xFF
  | .blank => none

/-! ## Drawing -/

namespace Rect

def intersect (r other : Rect) : Rect :=
  ⟨max r.left other.left, max r.top other.top, min r.right other.right, min r.bottom other.bottom⟩

def rows (r : Rect) : List Nat := range' r.top.toNat (r.bottom.toNat - r.top.toNat)

def columns (r : Rect) : List Nat := range' r.left.toNat (r.right.toNat - r.left.toNat)

end Rect

namespace BufferInfo

def depth (screen : BufferInfo) : Nat := screen.bytesPerPixel.toNat

/-- Where a pixel of the screen begins, in the display and in the back buffer. -/
def offset (screen : BufferInfo) (x y : Nat) : Nat := y * screen.stride.toNat + x * screen.depth

def rect (screen : BufferInfo) : Rect := ⟨0, 0, screen.width.toUInt64, screen.height.toUInt64⟩

end BufferInfo

/-- Where a surface keeps the pixel it shows at a point. -/
def Surface.address (surface : Surface) (depth x y : Nat) : Nat :=
  surface.base.toNat + (y - surface.y.toNat) * surface.stride.toNat + (x - surface.x.toNat) * depth

/-- Each row of a rectangle in one go. -/
def fillRows (screen : BufferInfo) (r : Rect) (value : Nat → Nat → Byte) (back : Nat → Byte) :
    Nat → Byte :=
  r.rows.foldl (fun back row => fill back (screen.offset r.left.toNat row)
    ((r.right.toNat - r.left.toNat) * screen.depth) (value row)) back

def clear (screen : BufferInfo) (area : Rect) (back : Nat → Byte) : Nat → Byte :=
  fillRows screen area (fun _ _ => 0) back

/-- Draw the part of `surface` that falls inside `area` into the back buffer. -/
def blit (screen : BufferInfo) (memory : Nat → Byte) (surface : Surface) (area : Rect)
    (back : Nat → Byte) : Nat → Byte := let visible := (boundsOf surface).intersect area
  if visible.isEmpty then back
  else
    fillRows screen visible
      (fun row j => memory (surface.address screen.depth visible.left.toNat row + j)) back

def drawCursor (s : State) (area : Rect) (back : Nat → Byte) : Nat → Byte :=
  if !s.cursorVisible then back
  else
    let visible := (cursorRect s).intersect area
    visible.rows.foldl (fun back y => visible.columns.foldl (fun back x =>
      match cursorByte (x - s.cursorX.toNat) (y - s.cursorY.toNat) with
      | some value => fill back (s.screen.offset x y) s.screen.depth fun _ => value
      | none => back) back) back

/-- One pixel of `flush`, in a single store; none if that reaches in front of the display. -/
def flushPixel (screen : BufferInfo) (back : Nat → Byte) (x y : Nat) (display : Nat → Byte) :
    Option (Nat → Byte) := let offset := screen.offset x y
  if screen.depth ≠ 3 then some (fill display offset screen.depth fun j => back (offset + j))
  else
    let pixel := ofLeBytes (back offset) (back (offset + 1)) (back (offset + 2)) 0
    if offset + 4 ≤ screen.size.toNat then
      let after := readU32 display offset &&& 0xFF000000#32
      some (writeU32 display offset (pixel ||| after))
    else if offset = 0 then none
    else
      let before := readU32 display (offset - 1) &&& 0xFF#32
      some (writeU32 display (offset - 1) (pixel <<< 8 ||| before))

def flush (screen : BufferInfo) (back : Nat → Byte) (area : Rect) (display : Nat → Byte) :
    Option (Nat → Byte) := area.rows.foldlM (fun display y => area.columns.foldlM (fun display x =>
    flushPixel screen back x y display) display) display

/-! ## The damage -/

def trailingZeros (bits : BitVec 128) : Nat := ((range 128).find? bits.getLsbD).getD 128

def trailingOnes (bits : BitVec 128) : Nat :=
  ((range 128).find? fun i => !bits.getLsbD i).getD 128

/-- The loop of `drain` over one row: each run of damaged tiles as one rectangle.  A turn clears
the lowest bits, so there are no more turns than bits. -/
def runs (tile row : UInt64) : Nat → BitVec 128 → List Rect
  | 0, _ => []
  | turns + 1, remaining =>
    if remaining = 0 then []
    else
      let start := trailingZeros remaining
      let length := trailingOnes (remaining >>> start)
      ⟨.ofNat start * tile, row * tile, .ofNat (start + length) * tile, (row + 1) * tile⟩ ::
        runs tile row turns (remaining &&& ~~~((BitVec.allOnes 128 >>> (128 - length)) <<< start))

def Damage.drain (d : Damage) : List Rect :=
  (finRange tileRows).flatMap fun row => runs d.tile (.ofNat row.val) 128 (d.rows row)

/-! ## Frames -/

/-- The compositor with what it draws on. -/
structure Frame where
  state : State
  /-- The display, by offset. -/
  display : Nat → Byte
  back : Nat → Byte
  /-- The clients' buffers, by address. -/
  memory : Nat → Byte
  /-- The tiles damaged so far; no code reads it. -/
  drawn : Fin tileRows → BitVec 128

/-- Draw one damaged region, and copy it out. -/
def composeRegion (f : Frame) (region : Rect) : Option Frame :=
  let screen := f.state.screen
  let area := region.intersect screen.rect
  if area.isEmpty then some f
  else do
    let back := clear screen area f.back
    let back := (sortedByDepth f.state.surfaces).reverse.foldl
      (fun back index => blit screen f.memory (f.state.surfaces index) area back) back
    let back := drawCursor f.state area back
    let display ← flush screen back area f.display
    some { f with display, back }

/-- `compose`, with its pixels. -/
def composeFrame (f : Frame) : Option Frame :=
  if f.state.damage.isEmpty then some f
  else do
    let f' ← f.state.damage.drain.foldlM composeRegion f
    some { f' with
      state := compose f.state
      drawn := fun row => f.drawn row ||| f.state.damage.rows row }

/-- The state a message leaves right before `compose`, if it gets there. -/
def beforeCompose (kernel : Kernel) (s : State) (m : Message) : Option State :=
  if m.tag = tagPointer ∧ fromInput s m then pointer s m.first m.second m.third
  else if m.tag = tagPresent then
    (adopt kernel m.first m.second m.third m.fourth m.sender).map (track s)
  else none

/-- A message, what the kernel says meanwhile, and what the clients' buffers hold by then. -/
structure Arrival where
  kernel : Kernel
  message : Message
  memory : Nat → Byte

def Frame.handle (f : Frame) (a : Arrival) : Option Frame :=
  match beforeCompose a.kernel f.state a.message with
  | some s => composeFrame { f with state := s, memory := a.memory }
  | none => (Compositor.handle a.kernel f.state a.message).map fun s =>
    { f with state := s, memory := a.memory }

/-- Any messages in any order, from any pixels. -/
def frames (screen : BufferInfo) : Machine Frame Arrival where
  Init f := f.state = initial screen ∧ f.drawn = fun _ => 0
  step f a := f.handle a

/-- A client's pixels change only together with a `PRESENT` of that buffer. -/
def Steady (f : Frame) (a : Arrival) : Prop :=
  ∀ i, (f.state.surfaces i).buffer ≠ 0 → ¬Presents a.kernel a.message (f.state.surfaces i).buffer →
    ∀ x y : UInt64, (boundsOf (f.state.surfaces i)).contains x y = true →
    ∀ k < f.state.screen.depth,
      a.memory ((f.state.surfaces i).address f.state.screen.depth x.toNat y.toNat + k) =
        f.memory ((f.state.surfaces i).address f.state.screen.depth x.toNat y.toNat + k)

/-! ## What a full redraw shows -/

/-- What the cursor puts at a point of the screen, if anything. -/
def State.cursorAt (s : State) (x y : UInt64) : Option Byte :=
  if s.cursorVisible ∧ (cursorRect s).contains x y then
    cursorByte (x.toNat - s.cursorX.toNat) (y.toNat - s.cursorY.toNat)
  else none

/-- **A pixel of a full redraw**: the cursor where it is opaque, else the surface on top, else
zero. -/
structure Redraw (s : State) (memory : Nat → Byte) (x y : UInt64) (k : Nat) (byte : Byte) :
    Prop where
  cursor : ∀ value, s.cursorAt x y = some value → byte = value
  surface : s.cursorAt x y = none → ∀ i, OnTop s.surfaces i x y →
    byte = memory ((s.surfaces i).address s.screen.depth x.toNat y.toNat + k)
  ground : s.cursorAt x y = none → (∀ i, ¬OnTop s.surfaces i x y) → byte = 0

/-! ## Bytes of a store -/

theorem byte_ofLeBytes (b₀ b₁ b₂ b₃ : Byte) {j : Nat} (hj : j < 4) :
    (ofLeBytes b₀ b₁ b₂ b₃).extractLsb' (8 * j) 8 = [b₀, b₁, b₂, b₃].getD j 0 := by
  apply BitVec.eq_of_getLsbD_eq
  intro i hi
  interval_cases j <;> interval_cases i <;> simp [ofLeBytes]

theorem pixel_or_after (p₀ p₁ p₂ b₀ b₁ b₂ b₃ : Byte) :
    ofLeBytes p₀ p₁ p₂ 0 ||| (ofLeBytes b₀ b₁ b₂ b₃ &&& 0xFF000000#32) = ofLeBytes p₀ p₁ p₂ b₃ := by
  apply BitVec.eq_of_getLsbD_eq
  intro i hi
  interval_cases i <;> simp [ofLeBytes]

theorem pixel_or_before (p₀ p₁ p₂ b₀ b₁ b₂ b₃ : Byte) :
    ofLeBytes p₀ p₁ p₂ 0 <<< 8 ||| (ofLeBytes b₀ b₁ b₂ b₃ &&& 0xFF#32) = ofLeBytes b₀ p₀ p₁ p₂ := by
  apply BitVec.eq_of_getLsbD_eq
  intro i hi
  interval_cases i <;> simp [ofLeBytes]

/-- A display without row padding, whose pixels are three or four bytes long. -/
structure Flat (screen : BufferInfo) : Prop where
  depth : screen.depth = 3 ∨ screen.depth = 4
  stride : screen.stride.toNat = screen.width.toNat * screen.depth
  size : screen.size.toNat = screen.width.toNat * screen.height.toNat * screen.depth

section Screen

variable {screen : BufferInfo} {back display : Nat → Byte}

/-- **One store is one pixel**: the byte it overlaps keeps its value. -/
theorem flushPixel_eq {x y : Nat} (hdepth : screen.depth = 3 ∨ screen.depth = 4)
    (hsize : screen.size.toNat ≠ 3) (hin : screen.offset x y + screen.depth ≤ screen.size.toNat) :
    flushPixel screen back x y display = some (fill display (screen.offset x y) screen.depth
      fun j => back (screen.offset x y + j)) := by
  rw [flushPixel]
  generalize screen.offset x y = offset at hin ⊢
  rcases hdepth with hdepth | hdepth
  · rw [hdepth] at hin ⊢
    simp only [ne_eq, not_true_eq_false, if_false]
    split_ifs with hroom hzero
    · refine congrArg some (funext fun o => ?_)
      rw [readU32, pixel_or_after, writeU32, fill, fill]
      split_ifs with h₁ h₂ h₂
      · rw [byte_ofLeBytes _ _ _ _ (by omega)]
        obtain ⟨j, rfl⟩ := Nat.exists_eq_add_of_le h₁.1
        rw [Nat.add_sub_cancel_left]
        have hj : j < 3 := by omega
        interval_cases j <;> rfl
      · obtain rfl : o = offset + 3 := by omega
        rw [byte_ofLeBytes _ _ _ _ (by omega), Nat.add_sub_cancel_left]
        rfl
      · omega
      · rfl
    · omega
    · refine congrArg some (funext fun o => ?_)
      rw [readU32, pixel_or_before, writeU32, fill, fill]
      split_ifs with h₁ h₂ h₂
      · rw [byte_ofLeBytes _ _ _ _ (by omega)]
        obtain ⟨j, rfl⟩ := Nat.exists_eq_add_of_le h₂.1
        rw [Nat.add_sub_cancel_left, show offset + j - (offset - 1) = j + 1 by omega]
        have hj : j < 3 := by omega
        interval_cases j <;> rfl
      · obtain rfl : o = offset - 1 := by omega
        rw [byte_ofLeBytes _ _ _ _ (by omega), Nat.sub_self]
        rfl
      · omega
      · rfl
  · rw [hdepth]
    rfl

/-! ## Loops of stores -/

/-- At one byte, a change that puts `value` there if `M`, and nothing otherwise. -/
def Puts (before after : Nat → Byte) (o : Nat) (M : Prop) (value : Byte) : Prop :=
  (M → after o = value) ∧ (¬M → after o = before o)

theorem puts_fill (buffer : Nat → Byte) (start count : Nat) (value : Nat → Byte) (o : Nat) :
    Puts buffer (fill buffer start count value) o (start ≤ o ∧ o < start + count)
      (value (o - start)) := ⟨fun h => if_pos h, fun h => if_neg h⟩

variable {o : Nat}

theorem Puts.congr {before after : Nat → Byte} {M M' : Prop} {value value' : Byte}
    (h : Puts before after o M value) (hM : M' ↔ M) (hvalue : M' → value = value') :
    Puts before after o M' value' :=
  ⟨fun hM' => (h.1 (hM.mp hM')).trans (hvalue hM'), fun hM' => h.2 fun hm => hM' (hM.mpr hm)⟩

theorem Puts.foldl {α : Type} {put : (Nat → Byte) → α → Nat → Byte} {M : α → Prop} {value : Byte}
    (l : List α) (h : ∀ a ∈ l, ∀ b, Puts b (put b a) o (M a) value) (b : Nat → Byte) :
    Puts b (l.foldl put b) o (∃ a ∈ l, M a) value := by
  induction l generalizing b with
  | nil => exact ⟨by simp, fun _ => rfl⟩
  | cons a l ih =>
    have hfirst := h a mem_cons_self b
    have hrest := ih (fun c hc => h c (mem_cons_of_mem _ hc)) (put b a)
    rw [foldl_cons]
    by_cases hl : ∃ c ∈ l, M c
    · refine ⟨fun _ => hrest.1 hl, fun hn => absurd ?_ hn⟩
      obtain ⟨c, hc, hM⟩ := hl
      exact ⟨c, mem_cons_of_mem _ hc, hM⟩
    refine ⟨fun hM => (hrest.2 hl).trans (hfirst.1 ?_), fun hM => (hrest.2 hl).trans
      (hfirst.2 fun ha => hM ⟨a, mem_cons_self, ha⟩)⟩
    obtain ⟨c, hc, hMc⟩ := hM
    rcases mem_cons.mp hc with rfl | hc
    · exact hMc
    · exact absurd ⟨c, hc, hMc⟩ hl

theorem foldlM_some {α β : Type} {f : β → α → Option β} {g : β → α → β} {l : List α}
    (h : ∀ b, ∀ a ∈ l, f b a = some (g b a)) (b : β) : l.foldlM f b = some (l.foldl g b) := by
  induction l generalizing b with
  | nil => rfl
  | cons a l ih =>
    rw [foldlM_cons, h b a mem_cons_self, foldl_cons]
    exact ih (fun b c hc => h b c (mem_cons_of_mem _ hc)) (g b a)

/-! ## Pixels -/

variable {x y : UInt64} {r : Rect}

theorem contains_iff : r.contains x y = true ↔ (r.left.toNat ≤ x.toNat ∧ x.toNat < r.right.toNat) ∧
      r.top.toNat ≤ y.toNat ∧ y.toNat < r.bottom.toNat := by
  simp [Rect.contains, le_iff_toNat_le, lt_iff_toNat_lt]

theorem toNat_max (a b : UInt64) : (max a b).toNat = max a.toNat b.toNat := by
  show (if a ≤ b then b else a).toNat = _
  split
  · rename_i h
    rw [max_eq_right (le_iff_toNat_le.mp h)]
  · rename_i h
    rw [max_eq_left (Nat.le_of_not_le (le_iff_toNat_le.not.mp h))]

theorem toNat_min (a b : UInt64) : (min a b).toNat = min a.toNat b.toNat := by
  show (if a ≤ b then a else b).toNat = _
  split
  · rename_i h
    rw [min_eq_left (le_iff_toNat_le.mp h)]
  · rename_i h
    rw [min_eq_right (Nat.le_of_not_le (le_iff_toNat_le.not.mp h))]

theorem contains_intersect {q : Rect} : (r.intersect q).contains x y = true ↔
    r.contains x y = true ∧ q.contains x y = true := by
  simp only [contains_iff, Rect.intersect, toNat_max, toNat_min]
  omega

theorem mem_rows {y : Nat} : y ∈ r.rows ↔ r.top.toNat ≤ y ∧ y < r.bottom.toNat := by
  rw [Rect.rows, mem_range'_1]
  omega

theorem mem_columns {x : Nat} : x ∈ r.columns ↔ r.left.toNat ≤ x ∧ x < r.right.toNat := by
  rw [Rect.columns, mem_range'_1]
  omega

theorem not_contains_of_isEmpty (h : r.isEmpty = true) (x y : UInt64) : ¬r.contains x y = true := by
  simp only [Rect.isEmpty, Bool.or_eq_true, decide_eq_true_eq, le_iff_toNat_le] at h
  rw [contains_iff]
  omega

variable (hflat : Flat screen)
include hflat

theorem depth_pos : 0 < screen.depth := by
  rcases hflat.depth with h | h <;> omega

variable {k : Nat}

/-- The bytes of a row of pixels are the bytes of its pixels. -/
theorem span_iff {x y l r row : Nat} (hx : x < screen.width.toNat) (hk : k < screen.depth)
    (hr : r ≤ screen.width.toNat) : screen.offset l row ≤ screen.offset x y + k ∧
        screen.offset x y + k < screen.offset l row + (r - l) * screen.depth ↔
      y = row ∧ l ≤ x ∧ x < r := by
  have hd := depth_pos hflat
  have hxd := Nat.mul_le_mul_right screen.depth hx
  have hrd : r * screen.depth ≤ screen.width.toNat * screen.depth := Nat.mul_le_mul_right _ hr
  have hlr : l ≤ r ∧ l * screen.depth + (r - l) * screen.depth = r * screen.depth ∨
      r < l ∧ (r - l) * screen.depth = 0 := by
    rcases Nat.lt_or_ge r l with h | h
    · exact .inr ⟨h, by rw [Nat.sub_eq_zero_of_le h.le, Nat.zero_mul]⟩
    · exact .inl ⟨h, by rw [← Nat.add_mul, Nat.add_sub_cancel' h]⟩
  simp only [BufferInfo.offset, hflat.stride]
  rw [Nat.succ_mul] at hxd
  generalize screen.width.toNat * screen.depth = stride at hxd hrd ⊢
  rcases Nat.lt_trichotomy y row with hy | rfl | hy
  · have hrow := Nat.mul_le_mul_right stride hy
    rw [Nat.succ_mul] at hrow
    omega
  · have hleft : l ≤ x ↔ l * screen.depth ≤ x * screen.depth + k := by
      constructor
      · intro h
        exact Nat.le_add_right_of_le (Nat.mul_le_mul_right _ h)
      intro h
      by_contra hlt
      have hnext := Nat.mul_le_mul_right screen.depth (Nat.lt_of_not_le hlt)
      rw [Nat.succ_mul] at hnext
      omega
    have hright : x < r ↔ x * screen.depth + k < r * screen.depth := by
      constructor
      · intro h
        have hnext := Nat.mul_le_mul_right screen.depth h
        rw [Nat.succ_mul] at hnext
        omega
      · intro h
        by_contra hle
        have hback := Nat.mul_le_mul_right screen.depth (Nat.le_of_not_lt hle)
        omega
    omega
  · have hrow := Nat.mul_le_mul_right stride hy
    rw [Nat.succ_mul] at hrow
    omega

/-- The bytes of a pixel are its own. -/
theorem pixel_iff {x y x' y' : Nat} (hx : x < screen.width.toNat) (hk : k < screen.depth)
    (hx' : x' < screen.width.toNat) : (screen.offset x' y' ≤ screen.offset x y + k ∧
      screen.offset x y + k < screen.offset x' y' + screen.depth) ↔ y = y' ∧ x = x' := by
  have h : _ ↔ y = y' ∧ x' ≤ x ∧ x < x' + 1 := span_iff hflat hx hk hx'
  rw [Nat.add_sub_cancel_left, Nat.one_mul] at h
  rw [h]
  omega

theorem offset_inj {x' y' : UInt64} {k' : Nat} (hx : x.toNat < screen.width.toNat)
    (hk : k < screen.depth) (hx' : x'.toNat < screen.width.toNat) (hk' : k' < screen.depth)
    (h : screen.offset x.toNat y.toNat + k = screen.offset x'.toNat y'.toNat + k') :
    x = x' ∧ y = y' := by
  obtain ⟨hy, hx⟩ := (pixel_iff hflat hx hk hx').mp ⟨Nat.le.intro h.symm, by omega⟩
  exact ⟨UInt64.toNat_inj.mp hx, UInt64.toNat_inj.mp hy⟩

variable {area : Rect}

theorem offset_le {x y : Nat} (hx : x < screen.width.toNat) (hy : y < screen.height.toNat) :
    screen.offset x y + screen.depth ≤ screen.size.toNat := by
  have hrow := Nat.mul_le_mul_right screen.depth hx
  have hall := Nat.mul_le_mul_right (screen.width.toNat * screen.depth) hy
  rw [Nat.succ_mul] at hrow hall
  rw [BufferInfo.offset, hflat.stride, hflat.size, Nat.mul_right_comm,
    Nat.mul_comm _ screen.height.toNat]
  omega

/-- `flush` copies the area, and the rest of the display stays. -/
theorem flush_spec (hsize : screen.size.toNat ≠ 3) (hright : area.right.toNat ≤ screen.width.toNat)
    (hbottom : area.bottom.toNat ≤ screen.height.toNat) :
    ∃ display', flush screen back area display = some display' ∧
      ∀ o, Puts display display' o (∃ y ∈ area.rows, ∃ x ∈ area.columns,
        screen.offset x y ≤ o ∧ o < screen.offset x y + screen.depth) (back o) := by
  have hflush : flush screen back area display = some (area.rows.foldl (fun display y =>
      area.columns.foldl (fun display x => fill display (screen.offset x y) screen.depth
        fun j => back (screen.offset x y + j)) display) display) := by
    refine foldlM_some (fun display y hy => foldlM_some (fun display x hx => ?_) display) display
    have hxw := (mem_columns.mp hx).2
    have hyh := (mem_rows.mp hy).2
    exact flushPixel_eq hflat.depth hsize (offset_le hflat (by omega) (by omega))
  refine ⟨_, hflush, fun o => Puts.foldl _ (fun y hy b => Puts.foldl _ (fun x hx b => ?_) b) _⟩
  refine (puts_fill b _ _ _ o).congr Iff.rfl fun h => ?_
  rw [Nat.add_sub_cancel' h.1]

variable (hx : x.toNat < screen.width.toNat) (hk : k < screen.depth)
  (hright : area.right.toNat ≤ screen.width.toNat)
include hx hk hright

/-- A loop of stores over the rows of a rectangle of the screen. -/
theorem puts_rows {value : Nat → Nat → Byte} {byte : Byte} (hbyte : area.contains x y = true →
      value y.toNat ((x.toNat - area.left.toNat) * screen.depth + k) = byte) :
    Puts back (fillRows screen area value back) (screen.offset x.toNat y.toNat + k)
      (area.contains x y = true) byte := by
  have hcontains : area.contains x y = true ↔ ∃ row ∈ area.rows, y.toNat = row ∧
      area.left.toNat ≤ x.toNat ∧ x.toNat < area.right.toNat := by
    rw [contains_iff]
    constructor
    · rintro ⟨hx, hy⟩
      exact ⟨y.toNat, mem_rows.mpr hy, rfl, hx⟩
    · rintro ⟨_, hy, rfl, hx⟩
      exact ⟨hx, mem_rows.mp hy⟩
  refine Puts.congr (Puts.foldl _ (fun row hrow b => ?_) back) hcontains fun _ => rfl
  refine (puts_fill b _ _ _ _).congr (span_iff hflat hx hk hright).symm ?_
  rintro ⟨rfl, hleft, hlt⟩
  rw [← hbyte (hcontains.mpr ⟨_, hrow, rfl, hleft, hlt⟩)]
  congr 1
  rw [BufferInfo.offset, BufferInfo.offset, Nat.sub_mul]
  have := Nat.mul_le_mul_right screen.depth hleft
  omega

theorem clear_puts : Puts back (clear screen area back) (screen.offset x.toNat y.toNat + k)
      (area.contains x y = true) 0 := puts_rows hflat hx hk hright fun _ => rfl

variable {memory : Nat → Byte}

theorem blit_puts {surface : Surface} :
    Puts back (blit screen memory surface area back) (screen.offset x.toNat y.toNat + k)
      ((boundsOf surface).contains x y = true ∧ area.contains x y = true)
      (memory (surface.address screen.depth x.toNat y.toNat + k)) := by
  rw [blit, ← contains_intersect]
  split_ifs with hempty
  · exact ⟨fun h => absurd h (not_contains_of_isEmpty hempty x y), fun _ => rfl⟩
  refine puts_rows hflat hx hk ?_ fun hin => congrArg memory ?_
  · rw [Rect.intersect, toNat_min]
    omega
  have hleft : surface.x.toNat ≤ ((boundsOf surface).intersect area).left.toNat := by
    rw [Rect.intersect, toNat_max]
    exact Nat.le_max_left _ _
  have hlx := (contains_iff.mp hin).1.1
  generalize ((boundsOf surface).intersect area).left.toNat = left at hleft hlx ⊢
  have hsum : (left - surface.x.toNat) * screen.depth + (x.toNat - left) * screen.depth =
      (x.toNat - surface.x.toNat) * screen.depth := by
    rw [← Nat.add_mul]
    congr 1
    omega
  rw [Surface.address, Surface.address]
  omega

theorem drawCursor_puts {s : State} (hscreen : s.screen = screen) :
    Puts back (drawCursor s area back) (screen.offset x.toNat y.toNat + k)
      (area.contains x y = true ∧ (s.cursorAt x y).isSome = true) ((s.cursorAt x y).getD 0) := by
  cases hvisible : s.cursorVisible with
  | false => simp [drawCursor, State.cursorAt, hvisible, Puts]
  | true =>
    have hat : (cursorRect s).contains x y = true →
        s.cursorAt x y = cursorByte (x.toNat - s.cursorX.toNat) (y.toNat - s.cursorY.toNat) :=
      fun h => if_pos ⟨hvisible, h⟩
    have hout : ¬(cursorRect s).contains x y = true → s.cursorAt x y = none := fun h =>
      if_neg fun hand => h hand.2
    have hmem : ((cursorRect s).intersect area).contains x y = true ↔
        y.toNat ∈ ((cursorRect s).intersect area).rows ∧
          x.toNat ∈ ((cursorRect s).intersect area).columns := by
      rw [contains_iff, mem_rows, mem_columns, and_comm]
    have hcolumns : ∀ x' ∈ ((cursorRect s).intersect area).columns, x' < screen.width.toNat := by
      intro x' hx'
      have hlt := (mem_columns.mp hx').2
      rw [Rect.intersect, toNat_min] at hlt
      omega
    rw [contains_intersect] at hmem
    rw [drawCursor, hvisible, hscreen]
    simp only [Bool.not_true, Bool.false_eq_true, if_false]
    refine (Puts.foldl (M := fun y' => ∃ x' ∈ ((cursorRect s).intersect area).columns,
      (y.toNat = y' ∧ x.toNat = x') ∧ (s.cursorAt x y).isSome = true) _ (fun y' hy' b =>
        Puts.foldl _ (fun x' hx' b => ?_) b) back).congr ?_ fun _ => rfl
    · have hpixel : _ ↔ y.toNat = y' ∧ x.toNat = x' := pixel_iff hflat hx hk (hcolumns x' hx')
      by_cases hhere : y.toNat = y' ∧ x.toNat = x'
      · obtain ⟨rfl, rfl⟩ := hhere
        rw [← hat (hmem.mpr ⟨hy', hx'⟩).1]
        cases s.cursorAt x y with
        | none => exact ⟨fun h => absurd h.2 (by simp), fun _ => rfl⟩
        | some =>
          exact (puts_fill b _ _ _ _).congr (by rw [hpixel]; simp) fun _ => rfl
      · refine ⟨fun h => absurd h.1 hhere, fun _ => ?_⟩
        cases cursorByte (x' - s.cursorX.toNat) (y' - s.cursorY.toNat) with
        | none => rfl
        | some => exact if_neg fun h => hhere (hpixel.mp h)
    · constructor
      · rintro ⟨harea, hsome⟩
        have hcursor : (cursorRect s).contains x y = true := by
          by_contra hno
          rw [hout hno] at hsome
          contradiction
        obtain ⟨hrow, hcolumn⟩ := hmem.mp ⟨hcursor, harea⟩
        exact ⟨_, hrow, _, hcolumn, ⟨rfl, rfl⟩, hsome⟩
      · rintro ⟨_, hrow, _, hcolumn, ⟨rfl, rfl⟩, hsome⟩
        exact ⟨(hmem.mpr ⟨hrow, hcolumn⟩).2, hsome⟩

/-! ## Regions -/

/-- Back to front, the surface in front is the one that stays. -/
theorem blits_spec {surfaces : Fin maxSurfaces → Surface} (harea : area.contains x y = true)
    (order : List (Fin maxSurfaces)) :
    order.reverse.foldl (fun back index => blit screen memory (surfaces index) area back) back
        (screen.offset x.toNat y.toNat + k) =
      match order.find? fun index => (boundsOf (surfaces index)).contains x y with
      | some index => memory ((surfaces index).address screen.depth x.toNat y.toNat + k)
      | none => back (screen.offset x.toNat y.toNat + k) := by
  rw [foldl_reverse]
  induction order with
  | nil => rfl
  | cons index order ih =>
    rw [foldr_cons, find?_cons]
    cases hhit : (boundsOf (surfaces index)).contains x y with
    | true => exact (blit_puts hflat hx hk hright).1 ⟨hhit, harea⟩
    | false =>
      exact ((blit_puts hflat hx hk hright).2 fun h => by simp [hhit] at h).trans ih

end Screen

/-- The pixel is on the screen. -/
def OnScreen (screen : BufferInfo) (x y : UInt64) : Prop :=
  x.toNat < screen.width.toNat ∧ y.toNat < screen.height.toNat

variable {x y : UInt64}

theorem rect_contains {screen : BufferInfo} :
    screen.rect.contains x y = true ↔ OnScreen screen x y := by
  rw [contains_iff, BufferInfo.rect, OnScreen]
  simp

/-- What drawing these regions has done: their pixels are those of a full redraw, and no other
byte of the display has changed. -/
structure Composed (f f' : Frame) (regions : List Rect) : Prop where
  state : f'.state = f.state
  memory : f'.memory = f.memory
  drawn : f'.drawn = f.drawn
  inside : ∀ x y, OnScreen f.state.screen x y → (∃ r ∈ regions, r.contains x y = true) →
    ∀ k < f.state.screen.depth, Redraw f.state f.memory x y k
      (f'.display (f.state.screen.offset x.toNat y.toNat + k))
  outside : ∀ o, (∀ x y, OnScreen f.state.screen x y → (∃ r ∈ regions, r.contains x y = true) →
    ∀ k < f.state.screen.depth, o ≠ f.state.screen.offset x.toNat y.toNat + k) →
    f'.display o = f.display o

variable {surfaces : Fin maxSurfaces → Surface}

theorem toNat_ofNat_of_lt {n : Nat} {bound : UInt32} (h : n < bound.toNat) :
    (ofNat n).toNat = n := by
  have hbound := bound.toNat_lt
  exact toNat_ofNat_of_lt' (h.trans (Nat.lt_trans hbound (by decide)))

variable {f : Frame}

theorem composeRegion_spec (hflat : Flat f.state.screen)
    (hsize : f.state.screen.size.toNat ≠ 3) (region : Rect) :
    ∃ f', composeRegion f region = some f' ∧ Composed f f' [region] := by
  have harea : ∀ x y, OnScreen f.state.screen x y → (∃ r ∈ [region], r.contains x y = true) →
      (region.intersect f.state.screen.rect).contains x y = true := by
    rintro x y hon ⟨r, hr, hcontains⟩
    rw [mem_singleton.mp hr] at hcontains
    exact contains_intersect.mpr ⟨hcontains, rect_contains.mpr hon⟩
  have hright : (region.intersect f.state.screen.rect).right.toNat ≤
      f.state.screen.width.toNat := by
    rw [Rect.intersect, toNat_min, BufferInfo.rect]
    simp
  have hbottom : (region.intersect f.state.screen.rect).bottom.toNat ≤
      f.state.screen.height.toNat := by
    rw [Rect.intersect, toNat_min, BufferInfo.rect]
    simp
  rw [composeRegion]
  dsimp only
  split_ifs with hempty
  · refine ⟨f, rfl, rfl, rfl, rfl, fun x y hon hin => ?_, fun _ _ => rfl⟩
    exact absurd (harea x y hon hin) (not_contains_of_isEmpty hempty x y)
  generalize hback : drawCursor f.state (region.intersect f.state.screen.rect) _ = back
  obtain ⟨display', hflush, hputs⟩ := flush_spec hflat hsize hright hbottom
  rw [hflush]
  refine ⟨_, rfl, rfl, rfl, rfl, fun x y hon hin k hk => ?_, fun o hother => ?_⟩
  · have hcontains := harea x y hon hin
    obtain ⟨hcolumn, hrow⟩ := contains_iff.mp hcontains
    have hdisplay : display' (f.state.screen.offset x.toNat y.toNat + k) =
        back (f.state.screen.offset x.toNat y.toNat + k) :=
      (hputs _).1 ⟨y.toNat, mem_rows.mpr hrow, x.toNat, mem_columns.mpr hcolumn, by omega, by omega⟩
    dsimp only
    rw [hdisplay, ← hback]
    refine ⟨fun value hvalue => ?_, fun hnone i hi => ?_, fun hnone hno => ?_⟩
    · rw [(drawCursor_puts hflat hon.1 hk hright rfl).1 ⟨hcontains, by rw [hvalue]; rfl⟩, hvalue]
      rfl
    · rw [(drawCursor_puts hflat hon.1 hk hright rfl).2 fun h => by simp [hnone] at h,
        blits_spec hflat hon.1 hk hright hcontains, find_eq_some_iff.mpr hi]
    rw [(drawCursor_puts hflat hon.1 hk hright rfl).2 fun h => by simp [hnone] at h,
      blits_spec hflat hon.1 hk hright hcontains]
    split
    · rename_i i hi
      exact absurd (find_eq_some_iff.mp hi) (hno i)
    · exact (clear_puts hflat hon.1 hk hright).1 hcontains
  · refine (hputs o).2 ?_
    rintro ⟨y, hy, x, hx, _, _⟩
    obtain ⟨hleft, hxr⟩ := mem_columns.mp hx
    obtain ⟨htop, hyb⟩ := mem_rows.mp hy
    have hxn : (ofNat x).toNat = x := toNat_ofNat_of_lt (hxr.trans_le hright)
    have hyn : (ofNat y).toNat = y := toNat_ofNat_of_lt (hyb.trans_le hbottom)
    have hcontains : (region.intersect f.state.screen.rect).contains (.ofNat x) (.ofNat y)
        = true := by
      rw [contains_iff, hxn, hyn]
      exact ⟨⟨hleft, hxr⟩, htop, hyb⟩
    obtain ⟨hregion, hscreen⟩ := contains_intersect.mp hcontains
    refine hother _ _ (rect_contains.mp hscreen) ⟨region, mem_singleton_self _, hregion⟩
      (o - f.state.screen.offset x y) (by omega) ?_
    rw [hxn, hyn]
    omega

/-- One region after the other. -/
theorem composeRegions_spec (hflat : Flat f.state.screen)
    (hsize : f.state.screen.size.toNat ≠ 3) (regions : List Rect) :
    ∃ f', regions.foldlM composeRegion f = some f' ∧ Composed f f' regions := by
  induction regions generalizing f with
  | nil =>
    refine ⟨f, rfl, rfl, rfl, rfl, fun x y _ hin => ?_, fun _ _ => rfl⟩
    obtain ⟨r, hr, -⟩ := hin
    contradiction
  | cons region regions ih =>
    obtain ⟨_, hrun₁, h₁⟩ := composeRegion_spec hflat hsize region
    obtain ⟨f₂, hrun₂, h₂⟩ := ih (h₁.state ▸ hflat) (h₁.state ▸ hsize)
    obtain ⟨hstate, hmemory, hdrawn, hinside, houtside⟩ := h₂
    rw [h₁.state, h₁.memory] at hinside
    rw [h₁.state] at hstate houtside
    refine ⟨f₂, by rw [foldlM_cons, hrun₁]; exact hrun₂, hstate, hmemory.trans h₁.memory,
      hdrawn.trans h₁.drawn, fun x y hon hin k hk => ?_, fun o hother => ?_⟩
    · by_cases hlater : ∃ r ∈ regions, r.contains x y = true
      · exact hinside x y hon hlater k hk
      rw [houtside _ fun x' y' hon' hin' k' hk' heq => hlater ?_]
      · refine h₁.inside x y hon ?_ k hk
        obtain ⟨r, hr, hcontains⟩ := hin
        rcases mem_cons.mp hr with rfl | hr
        · exact ⟨r, mem_singleton_self _, hcontains⟩
        · exact absurd ⟨r, hr, hcontains⟩ hlater
      · obtain ⟨rfl, rfl⟩ := offset_inj hflat hon.1 hk hon'.1 hk' heq
        exact hin'
    · rw [houtside o fun x y hon hin => hother x y hon ?_, h₁.outside o fun x y hon hin =>
        hother x y hon ?_]
      · obtain ⟨r, hr, hcontains⟩ := hin
        exact ⟨r, mem_cons.mpr (.inl (mem_singleton.mp hr)), hcontains⟩
      · obtain ⟨r, hr, hcontains⟩ := hin
        exact ⟨r, mem_cons_of_mem _ hr, hcontains⟩

/-! ## The size of the back buffer -/

/-- The size of the buffer `gbm::create` makes for the width and height of the screen, if they
are not too large for it; its rows have no padding. -/
def BufferInfo.created (screen : BufferInfo) : Nat :=
  screen.width.toNat * screen.depth * screen.height.toNat

/-- Nothing is stored at `size` or beyond. -/
def Within (size : Nat) (draw : (Nat → Byte) → Nat → Byte) : Prop :=
  ∀ back o, size ≤ o → draw back o = back o

/-- What is drawn for a region, and what of it is copied out, is in the first `size` bytes of the
back buffer. -/
structure Fits (screen : BufferInfo) (area : Rect) (size : Nat) : Prop where
  clear : Within size (clear screen area)
  blit : ∀ memory surface, Within size (blit screen memory surface area)
  cursor : ∀ s : State, s.screen = screen → Within size (drawCursor s area)
  flush : ∀ back back' display, (∀ o < size, back o = back' o) →
    flush screen back area display = flush screen back' area display

variable {screen : BufferInfo} {size : Nat}

theorem within_fill {start count : Nat} {value : Nat → Byte}
    (h : 0 < count → start + count ≤ size) :
    Within size fun back => fill back start count value := fun back o ho => if_neg (by omega)

theorem within_foldl {α : Type} {put : (Nat → Byte) → α → Nat → Byte} {l : List α}
    (h : ∀ a ∈ l, Within size fun back => put back a) :
    Within size fun back => l.foldl put back := by
  intro back o ho
  induction l generalizing back with
  | nil => rfl
  | cons a l ih =>
    rw [forall_mem_cons] at h
    exact (ih h.2 (put back a)).trans (h.1 back o ho)

theorem foldlM_congr {α β : Type} {f g : β → α → Option β} {l : List α}
    (h : ∀ a ∈ l, ∀ b, f b a = g b a) (b : β) : l.foldlM f b = l.foldlM g b := by
  induction l generalizing b with
  | nil => rfl
  | cons a l ih =>
    rw [forall_mem_cons] at h
    rw [foldlM_cons, foldlM_cons, h.1 b]
    exact congrArg _ (funext (ih h.2))

/-- The rows of the display are not padded, or there is no second row, or nothing in a row. -/
def BufferInfo.Unpadded (screen : BufferInfo) : Prop :=
  screen.stride.toNat = screen.width.toNat * screen.depth ∨ screen.height.toNat ≤ 1 ∨
    screen.width.toNat * screen.depth = 0

/-- Without padding, the bytes of pixels next to each other in a row are in the buffer. -/
theorem offset_add_le (h : screen.Unpadded) {x y n : Nat} (hx : x + n ≤ screen.width.toNat)
    (hy : y < screen.height.toNat) (hn : 0 < n * screen.depth) :
    screen.offset x y + n * screen.depth ≤ screen.created := by
  have hrow : (x + n) * screen.depth ≤ screen.width.toNat * screen.depth :=
    Nat.mul_le_mul_right _ hx
  rw [BufferInfo.offset, BufferInfo.created, Nat.add_assoc, ← Nat.add_mul]
  rcases h with hstride | hone | hnothing
  · rw [hstride]
    calc _ ≤ y * (screen.width.toNat * screen.depth) + screen.width.toNat * screen.depth :=
          Nat.add_le_add_left hrow _
      _ = (y + 1) * (screen.width.toNat * screen.depth) := (Nat.succ_mul ..).symm
      _ ≤ screen.height.toNat * (screen.width.toNat * screen.depth) := Nat.mul_le_mul_right _ hy
      _ = _ := Nat.mul_comm ..
  · obtain rfl : y = 0 := by omega
    rw [Nat.zero_mul, Nat.zero_add]
    exact hrow.trans (Nat.le_mul_of_pos_right _ hy)
  · have : n * screen.depth ≤ (x + n) * screen.depth := Nat.mul_le_mul_right _ (by omega)
    omega

theorem fits_of_unpadded {area : Rect} (hunpadded : screen.Unpadded)
    (hleft : area.left ≤ area.right) (hright : area.right.toNat ≤ screen.width.toNat)
    (hbottom : area.bottom.toNat ≤ screen.height.toNat) : Fits screen area screen.created := by
  have hrow : ∀ {y : Nat}, y ∈ area.rows → y < screen.height.toNat := fun hy =>
    (mem_rows.mp hy).2.trans_le hbottom
  -- A part of the region is drawn row by row, each row in one go.
  have hrows : ∀ (r : Rect) (value : Nat → Nat → Byte), r.left.toNat ≤ r.right.toNat →
      r.right.toNat ≤ area.right.toNat → r.bottom.toNat ≤ area.bottom.toNat →
      Within screen.created (fillRows screen r value) := by
    intro r value hlr hr hb
    refine within_foldl fun row hrow => within_fill (offset_add_le hunpadded (by omega) ?_)
    exact (mem_rows.mp hrow).2.trans_le (hb.trans hbottom)
  refine ⟨hrows area _ (le_iff_toNat_le.mp hleft) le_rfl le_rfl, fun memory surface => ?_,
    fun s hs => ?_, fun back back' display h => ?_⟩
  · intro back o ho
    rw [blit]
    split
    · rfl
    rename_i hvisible
    simp only [Rect.isEmpty, Bool.or_eq_true, decide_eq_true_eq, not_or, UInt64.not_le] at hvisible
    refine hrows ((boundsOf surface).intersect area) _
      (UInt64.lt_iff_toNat_lt.mp hvisible.1).le ?_ ?_ back o ho
    · rw [Rect.intersect, toNat_min]
      exact Nat.min_le_right ..
    · rw [Rect.intersect, toNat_min]
      exact Nat.min_le_right ..
  · intro back o ho
    subst hs
    rw [drawCursor]
    split
    · rfl
    refine within_foldl (fun y hy => within_foldl fun x hx => ?_) back o ho
    have hy := (mem_rows.mp hy).2
    have hx := (mem_columns.mp hx).2
    rw [Rect.intersect, toNat_min] at hx hy
    split
    · refine within_fill fun hdepth => ?_
      have := offset_add_le hunpadded (x := x) (y := y) (n := 1) (by omega) (by omega) (by omega)
      omega
    · exact fun _ _ _ => rfl
  · refine foldlM_congr (fun y hy display => foldlM_congr (fun x hx display => ?_) display) display
    have hx := (mem_columns.mp hx).2
    have hin := offset_add_le hunpadded (x := x) (y := y) (n := 1) (by omega) (hrow hy)
    rw [flushPixel, flushPixel]
    by_cases hdepth : screen.depth = 3
    · simp only [hdepth, ne_eq, not_true_eq_false, if_false] at hin ⊢
      rw [h _ (by omega), h _ (by omega), h _ (by omega)]
    rw [if_pos hdepth, if_pos hdepth]
    refine congrArg some (funext fun o => ?_)
    rw [fill, fill]
    split
    · exact h _ (by omega)
    · rfl

/-- The last row of a padded display ends beyond the buffer. -/
theorem not_fits_of_padded (hstride : screen.width.toNat * screen.depth ≤ screen.stride.toNat)
    (h : ¬ screen.Unpadded) : ¬ Fits screen
      ⟨0, screen.height.toUInt64 - 1, screen.width.toUInt64, screen.height.toUInt64⟩
      screen.created := by
  intro hfits
  simp only [BufferInfo.Unpadded, not_or] at h
  obtain ⟨hpadded, hrows, hnonempty⟩ := h
  obtain ⟨last, hheight⟩ : ∃ last, screen.height.toNat = last + 2 :=
    ⟨screen.height.toNat - 2, by omega⟩
  have hlast : (screen.height.toUInt64 - 1).toNat = last + 1 := by
    rw [UInt64.toNat_sub_of_le _ _ (by simp [le_iff_toNat_le]; omega)]
    simp [hheight]
  -- The last byte of the last row.
  have hbeyond : screen.created ≤
      (last + 1) * screen.stride.toNat + (screen.width.toNat * screen.depth - 1) := by
    have hlarge : (last + 1) * (screen.width.toNat * screen.depth + 1) ≤
        (last + 1) * screen.stride.toNat := Nat.mul_le_mul_left _ (by omega)
    have hcreated : screen.created =
        (last + 1) * (screen.width.toNat * screen.depth) + screen.width.toNat * screen.depth := by
      rw [BufferInfo.created, hheight, Nat.mul_comm, Nat.succ_mul]
    rw [Nat.mul_succ] at hlarge
    omega
  have hkept := hfits.clear (fun _ => 1) _ hbeyond
  simp only [clear, fillRows, Rect.rows, hlast, UInt32.toNat_toUInt64, hheight,
    Nat.add_sub_add_left, Nat.add_one_sub_one, range'_one, foldl_cons, foldl_nil, fill,
    BufferInfo.offset, UInt64.toNat_zero, Nat.zero_mul, Nat.sub_zero] at hkept
  rw [if_pos (by omega)] at hkept
  exact absurd hkept (by decide)

/-- **The back buffer holds every region of the screen** exactly if the display's rows are not
padded, or there is nothing to be put in a second one. -/
theorem fits_iff_unpadded (hstride : screen.width.toNat * screen.depth ≤ screen.stride.toNat) :
    (∀ area : Rect, area.left ≤ area.right → area.right.toNat ≤ screen.width.toNat →
      area.bottom.toNat ≤ screen.height.toNat → Fits screen area screen.created) ↔
    screen.Unpadded := by
  refine ⟨fun hfits => ?_, fun h area => fits_of_unpadded h⟩
  by_contra hpadded
  refine not_fits_of_padded hstride hpadded (hfits _ ?_ ?_ ?_)
  · simp [le_iff_toNat_le]
  · simp
  · simp

/-- All of a screen whose rows are not padded. -/
theorem fits_iff_unpadded_sample : Fits sampleScreen sampleScreen.rect sampleScreen.created :=
  (fits_iff_unpadded (by decide)).mpr (.inl (by decide)) _ (by decide) (by decide) (by decide)

/-- A display of 1366 by 768 pixels with rows of 1376. -/
def paddedScreen : BufferInfo := ⟨1366, 768, 5504, 4, 4227072⟩

/-- **A padded display runs out of the back buffer**: the first pixel of the last row is beyond
the last of its pages. -/
theorem padded_outside : (paddedScreen.created + 4095) / 4096 * 4096 ≤ 4221568 ∧
    clear paddedScreen ⟨0, 767, 1, 768⟩ (fun _ => 1) 4221568 = 0 := by
  decide +kernel

end Panda.Compositor
