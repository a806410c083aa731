import PandaProof.Bitmap
import PandaProof.Machine
import Mathlib.Data.Finset.Card
import Mathlib.Data.Finset.Range

/-!
# The physical frame allocator

A bitmap with one bit per 4 KiB frame, a set bit meaning that the frame is in use.
Frames are numbered: frame `f` is the 4096 bytes of physical memory from `4096 * f`.
A search for a free frame starts at a hint and wraps around; one for a run of frames
skips past the frame that blocks it.
-/
namespace Panda.Memory

open List

structure BitmapFrameAllocator where
  /-- One bit per frame; bit set means allocated. -/
  bitmap : Nat → BitVec 8
  /-- Number of frames the bitmap covers. -/
  totalFrames : Nat
  usedFrames : Nat
  /-- Where the next linear search starts. -/
  nextHint : Nat

namespace BitmapFrameAllocator

def isUsed (a : BitmapFrameAllocator) (frame : Nat) : Bool := Bitmap.test a.bitmap frame

def markUsed (a : BitmapFrameAllocator) (frame : Nat) : BitmapFrameAllocator :=
  if a.totalFrames ≤ frame ∨ a.isUsed frame then a
  else { a with
    bitmap := Bitmap.set a.bitmap frame true
    usedFrames := a.usedFrames + 1 }

def markFree (a : BitmapFrameAllocator) (frame : Nat) : BitmapFrameAllocator :=
  if a.totalFrames ≤ frame ∨ !a.isUsed frame then a
  else { a with
    bitmap := Bitmap.set a.bitmap frame false
    usedFrames := a.usedFrames - 1 }

def findFree (a : BitmapFrameAllocator) (start stop : Nat) : Option Nat :=
  (range' start (min stop a.totalFrames - start)).find? fun f => !a.isUsed f

/-- Allocate one frame, or `none` if physical memory is exhausted. -/
def allocate (a : BitmapFrameAllocator) : Option (Nat × BitmapFrameAllocator) :=
  -- Search from the hint first, then wrap and cover what was skipped.
  match (a.findFree a.nextHint a.totalFrames).or (a.findFree 0 a.nextHint) with
  | none => none
  | some found => some (found, { a.markUsed found with nextHint := found + 1 })

/-- The first run of `count` free frames at or after `start`. -/
def findRun (a : BitmapFrameAllocator) (count start : Nat) : Option Nat :=
  if start + count ≤ a.totalFrames then
    match h : (range' start count).find? a.isUsed with
    -- The next possible start is just past the used frame.
    | some blocked => a.findRun count (blocked + 1)
    | none => some start
  else none
termination_by a.totalFrames - start
decreasing_by
  have := mem_range'_1.mp (mem_of_find?_eq_some h)
  omega

/-- Allocate `count` physically contiguous frames. -/
def allocateContiguous (a : BitmapFrameAllocator) (count : Nat) :
    Option (Nat × BitmapFrameAllocator) := if count = 0 then none
  else
    match a.findRun count 0 with
    | none => none
    | some start => some (start, (range' start count).foldl markUsed a)

/-- Return a frame to the pool; `none` is the debug assertion against a double free. -/
def deallocate (a : BitmapFrameAllocator) (frame : Nat) : Option BitmapFrameAllocator :=
  if a.isUsed frame then
    some { a.markFree frame with nextHint := min a.nextHint frame }
  else none

/-- The allocator may hand this frame out. -/
def Free (a : BitmapFrameAllocator) (frame : Nat) : Prop :=
  frame < a.totalFrames ∧ a.isUsed frame = false

instance (a : BitmapFrameAllocator) (frame : Nat) : Decidable (a.Free frame) :=
  inferInstanceAs (Decidable (_ ∧ _))

/-- `usedFrames` is the number of frames in use. -/
def Counted (a : BitmapFrameAllocator) : Prop :=
  a.usedFrames = ((Finset.range a.totalFrames).filter fun f => a.isUsed f).card

instance (a : BitmapFrameAllocator) : Decidable a.Counted := inferInstanceAs (Decidable (_ = _))

/-! ## Marking frames -/

/-- `a'` is `a` with the frames of `p` marked as in use, or as free. -/
structure Marked (p : Nat → Prop) (used : Bool) (a a' : BitmapFrameAllocator) : Prop where
  total : a'.totalFrames = a.totalFrames
  hit : ∀ f, p f → f < a.totalFrames → a'.isUsed f = used
  miss : ∀ f, ¬ (p f ∧ f < a.totalFrames) → a'.isUsed f = a.isUsed f
  counted : a.Counted → a'.Counted

variable {a a' : BitmapFrameAllocator} {frame : Nat}

/-- The bit of one frame, changed, with the count brought up to date. -/
theorem marked_set {used : Bool} {u : Nat} (hlt : frame < a.totalFrames)
    (hold : a.isUsed frame = !used) (hu : u = if used then a.usedFrames + 1 else a.usedFrames - 1) :
    Marked (fun f => f = frame) used a
      ⟨Bitmap.set a.bitmap frame used, a.totalFrames, u, a.nextHint⟩ := by
  have hbits := Bitmap.test_set a.bitmap frame used
  refine ⟨rfl, fun f hf _ => (hbits f).trans (if_pos hf),
    fun f hf => (hbits f).trans (if_neg fun he => hf ⟨he, he ▸ hlt⟩), fun hcount => ?_⟩
  have hset : ((Finset.range a.totalFrames).filter fun f =>
      Bitmap.test (Bitmap.set a.bitmap frame used) f) =
      let old := (Finset.range a.totalFrames).filter fun f => Bitmap.test a.bitmap f
      if used then insert frame old else old.erase frame := by
    ext f
    by_cases he : f = frame <;> cases used <;> simp [hbits, he, hlt]
  refine Eq.trans ?_ (congrArg Finset.card hset).symm
  rw [hu, hcount]
  cases used with
  | true => exact (Finset.card_insert_of_notMem (a := frame) (by simpa using fun _ => hold)).symm
  | false => exact (Finset.card_erase_of_mem (a := frame) (by simpa [hlt] using hold)).symm

theorem marked_markUsed (a : BitmapFrameAllocator) (frame : Nat) :
    Marked (fun f => f = frame) true a (a.markUsed frame) := by
  by_cases h : a.totalFrames ≤ frame ∨ a.isUsed frame
  · rw [markUsed, if_pos h]
    refine ⟨rfl, ?_, fun _ _ => rfl, id⟩
    rintro f rfl hlt
    exact h.resolve_left (not_le.mpr hlt)
  · rw [markUsed, if_neg h]
    simp only [not_or, not_le, Bool.not_eq_true] at h
    exact marked_set h.1 h.2 rfl

theorem marked_markFree (a : BitmapFrameAllocator) (frame : Nat) :
    Marked (fun f => f = frame) false a (a.markFree frame) := by
  by_cases h : a.totalFrames ≤ frame ∨ !a.isUsed frame
  · rw [markFree, if_pos h]
    refine ⟨rfl, ?_, fun _ _ => rfl, id⟩
    rintro f rfl hlt
    simpa [not_le.mpr hlt] using h
  · rw [markFree, if_neg h]
    simp only [not_or, not_le, Bool.not_eq_true', Bool.not_eq_false] at h
    exact marked_set h.1 h.2 rfl

/-- A loop that marks marks what its rounds mark. -/
theorem marked_foldl {X : Type} {step : BitmapFrameAllocator → X → BitmapFrameAllocator}
    {p : X → Nat → Prop} {used : Bool} (hstep : ∀ a x, Marked (p x) used a (step a x))
    (xs : List X) (a : BitmapFrameAllocator) :
    Marked (fun f => ∃ x ∈ xs, p x f) used a (xs.foldl step a) := by
  induction xs generalizing a with
  | nil => exact ⟨rfl, by simp, fun _ _ => rfl, id⟩
  | cons x rest ih =>
    have hhead := hstep a x
    have htail := ih (step a x)
    rw [foldl_cons]
    refine ⟨htail.total.trans hhead.total, fun f hf hlt => ?_, fun f hf => ?_,
      htail.counted ∘ hhead.counted⟩
    · by_cases hrest : ∃ y ∈ rest, p y f
      · exact htail.hit f hrest (hhead.total ▸ hlt)
      rw [htail.miss f (hrest ·.1)]
      obtain ⟨y, hy, hp⟩ := hf
      rcases mem_cons.mp hy with rfl | hy
      · exact hhead.hit f hp hlt
      · exact absurd ⟨y, hy, hp⟩ hrest
    · rw [htail.miss f fun h => hf ⟨?_, hhead.total ▸ h.2⟩, hhead.miss f fun h => hf ⟨?_, h.2⟩]
      · exact ⟨x, mem_cons_self, h.1⟩
      · exact h.1.imp fun y hy => ⟨mem_cons_of_mem x hy.1, hy.2⟩

variable {p : Nat → Prop}

theorem Marked.free_of_used (h : Marked p true a a') (f : Nat) : a'.Free f ↔ a.Free f ∧ ¬ p f := by
  rw [Free, Free, h.total]
  by_cases hf : p f ∧ f < a.totalFrames
  · simp [h.hit f hf.1 hf.2, hf.1]
  · rw [h.miss f hf]
    exact ⟨fun hfree => ⟨hfree, fun hp => hf ⟨hp, hfree.1⟩⟩, And.left⟩

theorem Marked.free_of_unused (h : Marked p false a a') (f : Nat) :
    a'.Free f ↔ a.Free f ∨ p f ∧ f < a.totalFrames := by
  rw [Free, Free, h.total]
  by_cases hf : p f ∧ f < a.totalFrames
  · simp [h.hit f hf.1 hf.2, hf]
  · rw [h.miss f hf]
    exact ⟨Or.inl, fun hfree => hfree.resolve_right hf⟩

/-! ## What the operations do -/

theorem findFree_spec {start stop : Nat} {f : Nat}
    (h : a.findFree start stop = some f) : a.Free f := by
  have hused := find?_some h
  have hmem := mem_of_find?_eq_some h
  rw [mem_range'_1] at hmem
  simp only [Bool.not_eq_true'] at hused
  exact ⟨by omega, hused⟩

theorem marked_allocate (h : a.allocate = some (frame, a')) :
    a.Free frame ∧ Marked (fun f => f = frame) true a a' := by
  unfold allocate at h
  split at h
  · contradiction
  rename_i found hfound
  simp only [Option.some.injEq, Prod.mk.injEq] at h
  obtain ⟨rfl, rfl⟩ := h
  have hmarked := a.marked_markUsed found
  refine ⟨?_, hmarked.total, hmarked.hit, hmarked.miss, hmarked.counted⟩
  rcases Option.or_eq_some_iff.mp hfound with h | ⟨-, h⟩ <;> exact findFree_spec h

/-- **An allocated frame was free**, and nothing but that frame changes. -/
theorem allocate_spec
    (h : a.allocate = some (frame, a')) : a.Free frame ∧ a'.totalFrames = a.totalFrames ∧
      ∀ f, a'.Free f ↔ a.Free f ∧ f ≠ frame := have hmarked := marked_allocate h
  ⟨hmarked.1, hmarked.2.total, hmarked.2.free_of_used⟩

/-- **Memory is exhausted** only when no frame is free. -/
theorem not_free_of_allocate (h : a.allocate = none) (f : Nat) : ¬ a.Free f := by
  rintro ⟨hlt, hunused⟩
  have hnone : ∀ {start stop}, a.findFree start stop = none → start ≤ f → f < stop → False := by
    intro start stop hfind hstart hstop
    have hused := find?_eq_none.mp hfind f (mem_range'_1.mpr ⟨hstart, by omega⟩)
    simp [hunused] at hused
  unfold allocate at h
  split at h
  · rename_i hor
    rw [Option.or_eq_none_iff] at hor
    by_cases hhint : a.nextHint ≤ f
    · exact hnone hor.1 hhint hlt
    · exact hnone hor.2 (Nat.zero_le f) (Nat.lt_of_not_le hhint)
  · cases h

/-- A frame in use can be given back. -/
theorem marked_deallocate (h : a.deallocate frame = some a') :
    Marked (fun f => f = frame) false a a' := by
  obtain ⟨-, rfl⟩ := Machine.of_guard h
  have hmarked := a.marked_markFree frame
  exact { hmarked with }

/-- **A returned frame becomes free**, and nothing but that frame changes. -/
theorem deallocate_spec (h : a.deallocate frame = some a') : a'.totalFrames = a.totalFrames ∧
      ∀ f, a'.Free f ↔ a.Free f ∨ f = frame ∧ frame < a.totalFrames := by
  have hmarked := marked_deallocate h
  refine ⟨hmarked.total, fun f => (hmarked.free_of_unused f).trans (or_congr_right ?_)⟩
  exact and_congr_right fun hf => by rw [hf]

/-- `count` consecutive free frames. -/
def FreeRun (a : BitmapFrameAllocator) (start count : Nat) : Prop :=
  ∀ f, start ≤ f → f < start + count → a.Free f

/-- The search finds a run, and skips none: a run cannot start at or before the frame that
blocks the window. -/
theorem findRun_spec {count : Nat} (hcount : 0 < count) (start : Nat) :
    match a.findRun count start with
    | none => ∀ s, start ≤ s → ¬ a.FreeRun s count
    | some s => a.FreeRun s count ∧ s + count ≤ a.totalFrames := by
  fun_induction findRun a count start with
  | case1 start hle blocked hfind ih =>
    have hused : a.isUsed blocked = true := by simpa using find?_some hfind
    have hmem := mem_range'_1.mp (mem_of_find?_eq_some hfind)
    generalize a.findRun count (blocked + 1) = found at ih
    cases found with
    | some => exact ih
    | none =>
      intro s hs hrun
      by_cases hpast : blocked < s
      · exact ih s hpast hrun
      · have hfree := hrun blocked (Nat.le_of_not_lt hpast) (by omega)
        simp [hfree.2] at hused
  | case2 start hle hfind =>
    refine ⟨fun f hf hlt => ⟨by omega, ?_⟩, hle⟩
    simpa using find?_eq_none.mp hfind f (mem_range'_1.mpr ⟨hf, hlt⟩)
  | case3 =>
    intro s hs hrun
    have hlast := (hrun (s + count - 1) (by omega) (by omega)).1
    omega

theorem marked_run (a : BitmapFrameAllocator) (start count : Nat) :
    Marked (fun f => start ≤ f ∧ f < start + count) true a
      ((range' start count).foldl markUsed a) := by
  simpa [mem_range'_1] using marked_foldl marked_markUsed (range' start count) a

/-- **A run of frames is found whenever there is one**, and exactly its frames are marked. -/
theorem allocateContiguous_spec {count : Nat} (hcount : 0 < count) :
    match a.allocateContiguous count with
    | none => ∀ s, ¬ a.FreeRun s count
    | some (s, a') => a.FreeRun s count ∧ Marked (fun f => s ≤ f ∧ f < s + count) true a a' := by
  have hspec := a.findRun_spec hcount 0
  rw [allocateContiguous, if_neg hcount.ne']
  cases hfind : a.findRun count 0 with
  | none =>
    rw [hfind] at hspec
    exact fun s => hspec s s.zero_le
  | some s =>
    rw [hfind] at hspec
    exact ⟨hspec.1, a.marked_run s count⟩

/-! ## Sequences of calls -/

inductive Call
  | allocate
  | allocateContiguous (count : Nat)
  | deallocate (frame : Nat)

/-- The calls in any order; a frame that is not in use is not given back. -/
def calls : Machine BitmapFrameAllocator Call where
  Init := Counted
  step a
    | .allocate => some (a.allocate.elim a Prod.snd)
    | .allocateContiguous count => some ((a.allocateContiguous count).elim a Prod.snd)
    | .deallocate frame => a.deallocate frame

theorem counted_of_reachable (h : calls.Reachable a) : a.Counted := by
  refine h.invariant (fun _ h => h) @fun a call a' ha _ hs => ?_
  cases call with
  | allocate =>
    cases hs
    cases hr : a.allocate with
    | none => exact ha
    | some => exact (marked_allocate hr).2.counted ha
  | allocateContiguous count =>
    cases hs
    cases hr : a.allocateContiguous count with
    | none => exact ha
    | some =>
      have hcount : 0 < count := by
        apply Nat.pos_of_ne_zero
        rintro rfl
        cases hr
      have hspec := a.allocateContiguous_spec hcount
      rw [hr] at hspec
      exact hspec.2.counted ha
  | deallocate => exact (marked_deallocate hs).counted ha

/-- **What the frame allocator does**, after any calls. -/
theorem allocator_spec (h : calls.Reachable a) : a.Counted ∧ (match a.allocate with
      | none => ∀ f, ¬ a.Free f
      | some (frame, a') => a.Free frame ∧ Marked (fun f => f = frame) true a a') ∧
    (∀ count, 0 < count → match a.allocateContiguous count with
      | none => ∀ s, ¬ a.FreeRun s count
      | some (s, a') => a.FreeRun s count ∧ Marked (fun f => s ≤ f ∧ f < s + count) true a a') ∧
    ∀ frame, a.isUsed frame → ∃ a', a.deallocate frame = some a' ∧
      Marked (fun f => f = frame) false a a' := by
  refine ⟨counted_of_reachable h, ?_, fun count hcount => a.allocateContiguous_spec hcount,
    fun frame hused => ⟨_, if_pos hused, marked_deallocate (if_pos hused)⟩⟩
  cases hr : a.allocate with
  | none => exact not_free_of_allocate hr
  | some => exact marked_allocate hr

/-- Five of sixteen frames are taken and the third goes back: it is handed out next. -/
theorem allocator_spec_sixteen : ∃ a, calls.Reachable a ∧ a.usedFrames = 4 ∧
    ∃ a', a.allocate = some (2, a') ∧ a.Free 2 ∧ Marked (fun f => f = 2) true a a' := by
  obtain ⟨a, h, hused, hnext⟩ := calls.exists_reachable
    [.allocate, .allocateContiguous 3, .allocate, .deallocate 2]
    (fun a => a.usedFrames = 4 ∧ a.allocate.map Prod.fst = some 2)
    (show Counted ⟨fun _ => 0, 16, 0, 0⟩ by decide) (by decide +kernel)
  obtain ⟨⟨frame, a'⟩, ha, rfl⟩ := Option.map_eq_some_iff.mp hnext
  have hspec := (allocator_spec h).2.1
  rw [ha] at hspec
  exact ⟨a, h, hused, a', ha, hspec⟩

end BitmapFrameAllocator

/-! ## Building the map -/

/-- A region of the bootloader's memory map. -/
structure MemoryRegion where
  start : Nat
  stop : Nat
  usable : Bool
  ordered : start ≤ stop

namespace MemoryRegion

def size (r : MemoryRegion) : Nat := r.stop - r.start

/-- Frame lying entirely inside the region. -/
def Holds (r : MemoryRegion) (frame : Nat) : Prop :=
  r.start ≤ 4096 * frame ∧ 4096 * frame + 4096 ≤ r.stop

/-- `max_by_key` of the size: the last of the largest. -/
def largest : List MemoryRegion → Option MemoryRegion
  | [] => none
  | r :: rest => some (rest.foldl (fun best r => if r.size < best.size then best else r) r)

end MemoryRegion

namespace BitmapFrameAllocator
open MemoryRegion

variable (regions : List MemoryRegion)

def totalOf : Nat := ((regions.filter (·.usable)).map (·.stop)).max?.getD 0 / 4096

def bitmapBytes : Nat := (totalOf regions + 7) / 8

/-- The region that hosts the bitmap at its front. -/
def host : Option MemoryRegion :=
  largest ((regions.filter (·.usable)).filter fun r => bitmapBytes regions ≤ r.size)

/-- The frames lying entirely inside the region, released. -/
def release (a : BitmapFrameAllocator) (r : MemoryRegion) : BitmapFrameAllocator :=
  let first := (r.start + 4095) / 4096
  (range' first (r.stop / 4096 - first)).foldl markFree a

def lowMemoryFrames : Nat := 1024 * 1024 / 4096

/-- Everything is taken, but for what the bootloader reported as usable. -/
def released : BitmapFrameAllocator :=
  (regions.filter (·.usable)).foldl release
    { bitmap := fun _ => 0xFF#8
      totalFrames := totalOf regions
      usedFrames := totalOf regions
      nextHint := 0 }

/-- Reclaim nothing that the bitmap itself occupies. -/
def hosted (host : MemoryRegion) : BitmapFrameAllocator :=
  let first := host.start / 4096
  let last := (host.start + bitmapBytes regions + 4095) / 4096
  (range' first (last - first)).foldl markUsed (released regions)

/-- Build the bitmap from the bootloader's memory map; `none` is the panic when no usable
region is large enough to hold it. -/
def init : Option BitmapFrameAllocator := do
  let allocator := hosted regions (← host regions)
  -- Hold back the whole first megabyte.
  some ((range' 0 (min lowMemoryFrames allocator.totalFrames)).foldl markUsed allocator)

variable {regions}

theorem largest_spec {rs : List MemoryRegion} {r : MemoryRegion} (hr : r ∈ rs) :
    ∃ best ∈ rs, largest rs = some best := by
  obtain _ | ⟨r, rest⟩ := rs
  · cases hr
  refine ⟨_, ?_, rfl⟩
  clear hr
  induction rest generalizing r with
  | nil => exact mem_singleton_self r
  | cons next rest ih =>
    rw [foldl_cons]
    rcases mem_cons.mp (ih (if next.size < r.size then r else next)) with h | h
    · rw [h]
      split <;> simp
    · exact mem_cons_of_mem r (mem_cons_of_mem next h)

theorem marked_release (a : BitmapFrameAllocator) (r : MemoryRegion) :
    Marked r.Holds false a (a.release r) := by
  have h := marked_foldl marked_markFree (range' ((r.start + 4095) / 4096)
    (r.stop / 4096 - (r.start + 4095) / 4096)) a
  have hiff : ∀ f, (∃ x ∈ range' ((r.start + 4095) / 4096)
      (r.stop / 4096 - (r.start + 4095) / 4096), f = x) ↔ r.Holds f := by
    intro f
    simp only [exists_eq_right', mem_range'_1, Holds]
    omega
  simp only [hiff] at h
  exact h

/-- A frame of a usable region is covered by the map. -/
theorem lt_totalOf {r : MemoryRegion} {frame : Nat} (hr : r ∈ regions.filter (·.usable))
    (h : r.Holds frame) : frame < totalOf regions := by
  have := le_max?_getD_of_mem (k := 0) (mem_map_of_mem (f := (·.stop)) hr)
  have := h.2
  rw [totalOf]
  omega

theorem released_spec : (released regions).totalFrames = totalOf regions ∧
    (released regions).Counted ∧
    ∀ f, (released regions).Free f ↔ ∃ r ∈ regions, r.usable ∧ r.Holds f := by
  have htaken : ∀ f, isUsed ⟨fun _ => 0xFF#8, totalOf regions, totalOf regions, 0⟩ f = true := by
    have hbyte : ∀ k : Fin 8, (0xFF#8 &&& 1#8 <<< k.val != 0) = true := by decide
    exact fun f => hbyte ⟨f % 8, Nat.mod_lt f (by decide)⟩
  have h := marked_foldl marked_release (regions.filter (·.usable))
    ⟨fun _ => 0xFF#8, totalOf regions, totalOf regions, 0⟩
  refine ⟨h.total, h.counted (by simp [Counted, htaken]), fun f => (h.free_of_unused f).trans ?_⟩
  simp only [Free, htaken, mem_filter, Bool.true_eq_false, and_false, false_or]
  constructor
  · rintro ⟨⟨r, hr, hf⟩, -⟩
    exact ⟨r, hr.1, hr.2, hf⟩
  · rintro ⟨r, hr, husable, hf⟩
    exact ⟨⟨r, ⟨hr, husable⟩, hf⟩, lt_totalOf (mem_filter.mpr ⟨hr, husable⟩) hf⟩

/-- **Only real memory is handed out**: the frames inside a usable region, but for the first
megabyte and what the bitmap occupies. -/
theorem init_spec {r : MemoryRegion} (hr : r ∈ regions) (husable : r.usable = true)
    (hsize : bitmapBytes regions ≤ r.size) :
    ∃ a best, init regions = some a ∧ host regions = some best ∧ best ∈ regions ∧
      a.totalFrames = totalOf regions ∧ a.Counted ∧
      ∀ frame, a.Free frame ↔ (∃ r ∈ regions, r.usable ∧ r.Holds frame) ∧
        0x100000 ≤ 4096 * frame ∧
        (4096 * frame + 4096 ≤ best.start ∨ best.start + bitmapBytes regions ≤ 4096 * frame) := by
  obtain ⟨best, hbest, hhost⟩ := largest_spec (show r ∈ (regions.filter (·.usable)).filter
    (fun r => bitmapBytes regions ≤ r.size) by simp [hr, husable, hsize])
  simp only [mem_filter, decide_eq_true_eq] at hbest
  obtain ⟨htotal, hcounted, hfree⟩ := @released_spec regions
  have hhosted := marked_run (released regions) (best.start / 4096)
    ((best.start + bitmapBytes regions + 4095) / 4096 - best.start / 4096)
  have hlow := marked_run (hosted regions best) 0
    (min lowMemoryFrames (hosted regions best).totalFrames)
  refine ⟨_, best, by rw [init, host, hhost]; rfl, hhost, hbest.1.1,
    hlow.total.trans (hhosted.total.trans htotal), hlow.counted (hhosted.counted hcounted),
    fun frame => ?_⟩
  rw [hlow.free_of_used, hosted, hhosted.free_of_used, hfree, hhosted.total, htotal]
  -- A frame of a usable region has its bit in the map, so the map is not empty.
  have hlt : (∃ r ∈ regions, r.usable ∧ r.Holds frame) → frame < totalOf regions ∧
      0 < bitmapBytes regions := by
    rintro ⟨r, hr, husable, hf⟩
    have := lt_totalOf (mem_filter.mpr ⟨hr, husable⟩) hf
    exact ⟨this, by rw [bitmapBytes]; omega⟩
  rw [and_assoc]
  refine and_congr_right fun hr => ?_
  have := hlt hr
  rw [lowMemoryFrames]
  omega

/-- Two megabytes that end inside a frame, below a region in use. -/
def sampleMap : List MemoryRegion :=
  [⟨0x800, 0x200800, true, Nat.le_of_ble_eq_true rfl⟩,
    ⟨0x200800, 0x300000, false, Nat.le_of_ble_eq_true rfl⟩]

theorem init_spec_sample : ∃ a, init sampleMap = some a ∧ a.totalFrames = 512 ∧ a.Counted ∧
    a.Free 511 := by
  obtain ⟨a, _, ha, hhost, -, htotal, hcounted, hfree⟩ := @init_spec sampleMap _
    mem_cons_self rfl (by decide)
  cases hhost
  refine ⟨a, ha, htotal, hcounted, (hfree 511).mpr ⟨⟨_, mem_cons_self, rfl, ?_⟩, ?_⟩⟩
  · exact ⟨by decide, by decide⟩
  · decide

end BitmapFrameAllocator
end Panda.Memory
