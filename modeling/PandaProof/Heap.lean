import PandaProof.Bytes
import PandaProof.Machine
import PandaProof.Spans

/-!
# The kernel heap

The free-list allocator of `linked_list.rs`.  Its nodes live inside the free memory and
are nothing but the free blocks in order of address, so the list is modelled as the list
of those blocks.  Addresses and sizes are machine words and their arithmetic wraps, as it
does in the release build; a debug build stops where a sum overflows.

`Intact` is what the kernel relies on: live blocks apart from each other and from the free
ones, the free list sorted and merged, the counter right.  It holds in every run
(`intact_of_reachable`) on a heap that is at least one node long, does not start at the
null address and lies in the lower half of the address space, where rounding an address up
to an alignment cannot wrap.
-/
namespace Panda.Heap

open List Option Spans

/-! ## Words -/

/-- The result of an operation on words. -/
def word (n : Nat) : Nat := n % wordLimit

theorem word_of_lt {n : Nat} (h : n < wordLimit) : word n = n := Nat.mod_eq_of_lt h

/-- Round `addr` up to the next multiple of `align`, which must be a power of two. -/
def alignUp (addr align : Nat) : Nat := word (addr + align - 1) &&& (wordLimit - 1 - (align - 1))

variable {align : Nat}

/-- Clearing the low bits of a word. -/
theorem and_high_bits {x : Nat} (hx : x < wordLimit) (hpower : align.isPowerOfTwo)
    (halign : align ≤ wordLimit) : x &&& (wordLimit - 1 - (align - 1)) = x / align * align := by
  obtain ⟨k, rfl⟩ := hpower
  have hk : k ≤ 64 := (Nat.pow_le_pow_iff_right (a := 2) (by decide)).mp halign
  have hpow : 2 ^ k * 2 ^ (64 - k) = wordLimit := by
    rw [← Nat.pow_add, Nat.add_sub_cancel' hk]
    rfl
  have hone : 0 < 2 ^ k := Nat.two_pow_pos k
  have hmask : wordLimit - 1 - (2 ^ k - 1) = (2 ^ (64 - k) - 1) <<< k := by
    rw [Nat.shiftLeft_eq, Nat.sub_mul, Nat.mul_comm _ (2 ^ k), hpow]
    omega
  have hshift : x / 2 ^ k * 2 ^ k = (x >>> k) <<< k := by
    rw [Nat.shiftLeft_eq, Nat.shiftRight_eq_div_pow]
  have hbits : ∀ i, x.testBit i = (x.testBit i && decide (i < 64)) := by
    intro i
    by_cases hi : i < 64
    · simp [hi]
    · have hlt : x < 2 ^ i := Nat.lt_of_lt_of_le hx
          (show 2 ^ 64 ≤ 2 ^ i from Nat.pow_le_pow_right (by decide) (Nat.le_of_not_lt hi))
      simp [hi, Nat.testBit_lt_two_pow hlt]
  rw [hmask, hshift]
  refine Nat.eq_of_testBit_eq fun i => ?_
  rw [Nat.testBit_and, Nat.testBit_shiftLeft, Nat.testBit_shiftLeft, Nat.testBit_two_pow_sub_one,
    Nat.testBit_shiftRight]
  by_cases hik : k ≤ i
  · rw [Nat.add_sub_cancel' hik, hbits i]
    simp [hik]
    omega
  · simp [hik]

variable {addr : Nat}

/-- **Rounding up**, where it does not wrap. -/
theorem alignUp_spec (hpower : align.isPowerOfTwo) (halign : align ≤ wordLimit)
    (hfits : addr + align ≤ wordLimit) :
    addr ≤ alignUp addr align ∧ alignUp addr align < addr + align ∧ align ∣ alignUp addr align := by
  have hpos : 0 < align := by
    obtain ⟨k, rfl⟩ := hpower
    exact Nat.two_pow_pos k
  have hlt : addr + align - 1 < wordLimit := by omega
  rw [alignUp, word_of_lt hlt, and_high_bits hlt hpower halign]
  have hdiv := Nat.div_add_mod (addr + align - 1) align
  have hmod := Nat.mod_lt (addr + align - 1) hpos
  rw [Nat.mul_comm] at hdiv
  exact ⟨by omega, by omega, Nat.dvd_mul_left ..⟩

/-! ## Layouts -/

/-- `Layout`: the size rounded up to the alignment fits in `isize`. -/
structure Layout where
  size : Nat
  align : Nat
  power : align.isPowerOfTwo
  fits : size + align ≤ 0x8000000000000000

/-- `size_of::<ListNode>()`. -/
def nodeSize : Nat := 16

/-- `align_of::<ListNode>()`. -/
def nodeAlign : Nat := 8

/-- Normalise a layout so every block can be reused as a free-list node; `none` is the
panic when the larger alignment does not fit. -/
def adjustLayout (layout : Layout) : Option (Nat × Nat) :=
  let align := max layout.align nodeAlign
  if 0x8000000000000000 < layout.size + align then none
  else some (max ((layout.size + align - 1) / align * align) nodeSize, align)

/-- What `adjust_layout` makes sure of. -/
structure Adjusted (size align : Nat) : Prop where
  power : align.isPowerOfTwo
  large : 0x8000000000000000 ≥ align
  node : nodeAlign ∣ align
  whole : nodeAlign ∣ size
  room : nodeSize ≤ size

theorem node_dvd_of_power (h : align.isPowerOfTwo) (hle : nodeAlign ≤ align) :
    nodeAlign ∣ align := by
  obtain ⟨k, rfl⟩ := h
  have hk : 3 ≤ k := (Nat.pow_le_pow_iff_right (a := 2) (by decide)).mp hle
  exact Nat.pow_dvd_pow 2 hk

variable {layout : Layout} {size : Nat}

theorem adjustLayout_spec (h : adjustLayout layout = some (size, align)) :
    Adjusted size align ∧ layout.align ∣ align := by
  unfold adjustLayout at h
  dsimp only at h
  split at h
  · contradiction
  rename_i hfits
  simp only [some.injEq, Prod.mk.injEq] at h
  obtain ⟨rfl, rfl⟩ := h
  have hpower : (max layout.align nodeAlign).isPowerOfTwo := by
    rcases Nat.le_total layout.align nodeAlign with hle | hle
    · rw [Nat.max_eq_right hle]
      exact ⟨3, rfl⟩
    · rw [Nat.max_eq_left hle]
      exact layout.power
  have hnode := node_dvd_of_power hpower (Nat.le_max_right ..)
  refine ⟨⟨hpower, by omega, hnode, ?_, Nat.le_max_right ..⟩, ?_⟩
  · rcases Nat.le_total ((layout.size + max layout.align nodeAlign - 1) /
        max layout.align nodeAlign * max layout.align nodeAlign) nodeSize with hle | hle
    · rw [Nat.max_eq_right hle]
      exact ⟨2, rfl⟩
    · rw [Nat.max_eq_left hle]
      exact Nat.dvd_trans hnode (Nat.dvd_mul_left ..)
  · rcases Nat.le_total layout.align nodeAlign with hle | hle
    · rw [Nat.max_eq_right hle]
      obtain ⟨k, hk⟩ := layout.power
      have hk3 : k ≤ 3 := (Nat.pow_le_pow_iff_right (a := 2) (by decide)).mp (hk ▸ hle)
      rw [hk]
      exact Nat.pow_dvd_pow 2 hk3
    · exact ⟨1, by rw [Nat.max_eq_left hle, Nat.mul_one]⟩

/-! ## The allocator -/

/-- `end_addr`. -/
def endAddr (region : Span) : Nat := word (region.start + region.size)

structure LinkedListAllocator where
  /-- The free blocks behind the sentinel. -/
  free : List Span
  size : Nat
  allocated : Nat
  peak : Nat
  allocations : Nat

/-- Absorb the successor if it starts exactly where this block ends. -/
def mergeForward (addr size : Nat) : List Span → Span × List Span
  | [] => (⟨addr, size⟩, [])
  | region :: rest =>
    if word (addr + size) = region.start then (⟨addr, word (size + region.size)⟩, rest)
    else (⟨addr, size⟩, region :: rest)

/-- The block entered behind `current`, the last node below it, or merged into it. -/
def place (addr size : Nat) (current : Span) (following : List Span) : List Span :=
  let merged := mergeForward addr size following
  if endAddr current = addr then
    ⟨current.start, word (current.size + merged.1.size)⟩ :: merged.2
  else current :: merged.1 :: merged.2

/-- The search for the last node below `addr`, with `current` below it. -/
def addAfter (addr size : Nat) : Span → List Span → List Span
  | current, [] => place addr size current []
  | current, region :: rest =>
    if region.start < addr then current :: addAfter addr size region rest
    else place addr size current (region :: rest)

/-- Return `[addr, addr + size)` to the free list, merging it with any adjacent free
blocks, but never into the sentinel. -/
def addFreeRegion (addr size : Nat) : List Span → List Span
  | [] => [⟨addr, size⟩]
  | region :: rest =>
    if region.start < addr then addAfter addr size region rest
    else (mergeForward addr size (region :: rest)).1 :: (mergeForward addr size (region :: rest)).2

/-- Where an allocation would start inside `region`, or `none` if it does not fit
usefully. -/
def tryCarve (region : Span) (size align : Nat) : Option Nat :=
  let allocStart := alignUp region.start align
  if wordLimit ≤ allocStart + size then none
  else if endAddr region < allocStart + size then none
  else
    -- A tail too small for a node header could never be returned to the list.
    let excess := endAddr region - (allocStart + size)
    if 0 < excess ∧ excess < nodeSize then none else some allocStart

/-- The first block that can satisfy the request, with the address the allocation should
start at and the list without the block. -/
def findRegion (size align : Nat) : List Span → Option (Span × Nat × List Span)
  | [] => none
  | region :: rest =>
    match tryCarve region size align with
    | some allocStart => some (region, allocStart, rest)
    | none => (findRegion size align rest).map fun found =>
        (found.1, found.2.1, region :: found.2.2)

/-- The padding in front, when it is big enough to be a block in its own right, and the
rest behind, given back. -/
def giveBack (region : Span) (allocStart size : Nat) (free : List Span) : List Span :=
  let allocEnd := word (allocStart + size)
  let frontPadding := word (allocStart + wordLimit - region.start)
  let excess := word (endAddr region + wordLimit - allocEnd)
  let free := if nodeSize ≤ frontPadding then addFreeRegion region.start frontPadding free else free
  if 0 < excess then addFreeRegion allocEnd excess free else free

namespace LinkedListAllocator

def init (heapStart heapSize : Nat) : LinkedListAllocator :=
  ⟨addFreeRegion heapStart heapSize [], heapSize, 0, 0, 0⟩

/-- The pointer, null when there is no room; `none` is a panic. -/
def alloc (a : LinkedListAllocator) (layout : Layout) : Option (Nat × LinkedListAllocator) :=
  (adjustLayout layout).map fun (size, align) =>
    match findRegion size align a.free with
    | none => (0, a)
    | some (region, allocStart, rest) =>
      (allocStart, { a with
        free := giveBack region allocStart size rest
        allocated := a.allocated + size
        allocations := a.allocations + 1
        peak := max a.peak (a.allocated + size) })

def dealloc (a : LinkedListAllocator) (ptr : Nat) (layout : Layout) : Option LinkedListAllocator :=
  (adjustLayout layout).map fun (size, _) =>
    { a with
      free := addFreeRegion ptr size a.free
      allocated := a.allocated - size
      allocations := a.allocations - 1 }

end LinkedListAllocator

/-! ## Sequences of calls -/

/-- The range the heap was given. -/
structure Memory where
  start : Nat
  size : Nat
  startAligned : nodeAlign ∣ start
  sizeAligned : nodeAlign ∣ size

/-- A block somebody holds: what `alloc` returned, and the layout it was asked for. -/
structure Block where
  address : Nat
  layout : Layout

/-- The bytes of a block, by its adjusted size. -/
def Block.span (b : Block) : Span := ⟨b.address, ((adjustLayout b.layout).map Prod.fst).getD 0⟩

structure State where
  allocator : LinkedListAllocator
  /-- The blocks allocated and not yet given back. -/
  live : List Block

inductive Act
  | alloc (layout : Layout)
  /-- The live block with this number is given back. -/
  | dealloc (index : Nat)

/-- One call; a panic is no step. -/
def State.step (s : State) : Act → Option State
  | .alloc layout => (s.allocator.alloc layout).map fun (ptr, allocator) =>
      if ptr = 0 then ⟨allocator, s.live⟩ else ⟨allocator, ⟨ptr, layout⟩ :: s.live⟩
  | .dealloc index =>
    s.live[index]?.bind fun b => (s.allocator.dealloc b.address b.layout).map fun allocator =>
      ⟨allocator, s.live.eraseIdx index⟩

def calls (m : Memory) : Machine State Act where
  Init s := s = ⟨.init m.start m.size, []⟩
  step := State.step

/-- The bytes of some blocks. -/
def total : List Block → Nat
  | [] => 0
  | b :: rest => b.span.size + total rest

/-- **The heap is intact.** -/
structure Intact (m : Memory) (s : State) : Prop where
  /-- No two live blocks share a byte. -/
  apart : s.live.Pairwise fun b c => b.span.Disjoint c.span
  aligned : ∀ b ∈ s.live, b.layout.align ∣ b.address
  inside : ∀ b ∈ s.live, m.start ≤ b.address ∧ b.span.stop ≤ m.start + m.size
  /-- No live block shares a byte with a free one. -/
  unfree : ∀ b ∈ s.live, ∀ region ∈ s.allocator.free, b.span.Disjoint region
  /-- Sorted by address, and no two adjacent. -/
  sorted : Gapped s.allocator.free
  nodes : ∀ region ∈ s.allocator.free, nodeAlign ∣ region.start ∧ nodeSize ≤ region.size
  counted : s.allocator.allocated = total s.live

/-- A range a heap can be kept in: room for a node, not at the null address, and low
enough that rounding up to an alignment does not wrap. -/
structure Memory.Usable (m : Memory) : Prop where
  start : 0 < m.start
  size : nodeSize ≤ m.size
  low : m.start + m.size ≤ 0x8000000000000000

/-! ## The list stays in order -/

variable {l : List Span}

/-- Where no sum wraps, merging forward is joining with what comes next. -/
theorem mergeForward_eq (hsmall : ∀ r ∈ l, r.stop < wordLimit) (hfits : addr + size < wordLimit) :
    (mergeForward addr size l).1 :: (mergeForward addr size l).2 = joinNext ⟨addr, size⟩ l := by
  cases l with
  | nil => rfl
  | cons region rest =>
    have hregion := hsmall region mem_cons_self
    rw [mergeForward, joinNext, word_of_lt hfits, Span.stop]
    dsimp only
    split
    · rename_i hmeet
      have hlt : size + region.size < wordLimit := by
        unfold Span.stop at hregion
        omega
      rw [word_of_lt hlt]
      rfl
    · rfl

theorem start_mergeForward (addr size : Nat) (l : List Span) :
    (mergeForward addr size l).1.start = addr := by
  cases l with
  | nil => rfl
  | cons =>
    rw [mergeForward]
    split <;> rfl

theorem stop_mergeForward (hsmall : ∀ r ∈ l, r.stop < wordLimit) (hfits : addr + size < wordLimit) :
    (mergeForward addr size l).1.stop < wordLimit := by
  cases l with
  | nil => exact hfits
  | cons region =>
    have hregion := hsmall region mem_cons_self
    rw [mergeForward, word_of_lt hfits]
    split
    · unfold Span.stop word at *
      dsimp only
      have := Nat.mod_le (size + region.size) wordLimit
      omega
    · exact hfits

variable {current : Span}

theorem place_eq (hcurrent : current.stop < wordLimit) (hsmall : ∀ r ∈ l, r.stop < wordLimit)
    (hfits : addr + size < wordLimit) :
    place addr size current l = joinNext current (joinNext ⟨addr, size⟩ l) := by
  rw [← mergeForward_eq hsmall hfits, place, joinNext, endAddr]
  have hstart := start_mergeForward addr size l
  have hstop := stop_mergeForward hsmall hfits
  unfold Span.stop at hcurrent hstop
  rw [word_of_lt hcurrent, hstart, Span.stop]
  split
  · rename_i hmeet
    have hlt : current.size + (mergeForward addr size l).1.size < wordLimit := by omega
    rw [word_of_lt hlt]
    rfl
  · rfl

theorem start_head_joinNext (a : Span) (l : List Span) :
    ∃ b rest, joinNext a l = b :: rest ∧ b.start = a.start := by
  cases l with
  | nil => exact ⟨a, [], rfl, rfl⟩
  | cons =>
    rw [joinNext]
    split
    · exact ⟨_, _, rfl, rfl⟩
    · exact ⟨_, _, rfl, rfl⟩

theorem addAfter_eq
    (hgapped : Gapped (current :: l)) (hsmall : ∀ r ∈ current :: l, r.stop < wordLimit)
    (hfits : addr + size < wordLimit) :
    addAfter addr size current l = Spans.joinNext current (Spans.insert ⟨addr, size⟩ l) := by
  induction l generalizing current with
  | nil =>
    rw [addAfter, place_eq (hsmall current mem_cons_self) (by simp) hfits]
    rfl
  | cons region rest ih =>
    obtain ⟨hcurrent, hsmall⟩ := forall_mem_cons.mp hsmall
    obtain ⟨hbefore, hgapped⟩ := pairwise_cons.mp hgapped
    rw [addAfter, Spans.insert]
    split
    · rw [ih hgapped hsmall]
      -- The list was in order, so `current` does not meet what follows it.
      obtain ⟨b, _, heq, _⟩ := start_head_joinNext region (Spans.insert ⟨addr, size⟩ rest)
      rw [heq, joinNext, if_neg]
      have := hbefore region mem_cons_self
      unfold Span.Before at this
      omega
    · rw [place_eq hcurrent hsmall hfits]

/-- **Where no sum wraps, the free list is a list of ranges** and `add_free_region` puts
the block in its place. -/
theorem addFreeRegion_eq (hgapped : Gapped l)
    (hsmall : ∀ r ∈ l, r.stop < wordLimit) (hfits : addr + size < wordLimit) :
    addFreeRegion addr size l = Spans.insert ⟨addr, size⟩ l := by
  cases l with
  | nil => rfl
  | cons =>
    rw [addFreeRegion, Spans.insert]
    split
    · rw [addAfter_eq hgapped hsmall hfits]
    · rw [mergeForward_eq hsmall hfits]

/-! ## The invariant -/

/-- A block the heap can keep on its list. -/
structure Good (m : Memory) (a : Span) : Prop where
  start : nodeAlign ∣ a.start
  size : nodeAlign ∣ a.size
  room : nodeSize ≤ a.size
  low : m.start ≤ a.start
  high : a.stop ≤ m.start + m.size

variable {a : Span}

theorem Good.join {m : Memory} {b : Span} (ha : Good m a) (hb : Good m b)
    (hmeet : a.stop = b.start) : Good m (a.join b) := by
  refine ⟨ha.start, (Nat.dvd_add_iff_right ha.size).mp hb.size, ?_, ha.low, ?_⟩
  · exact Nat.le_trans ha.room (Nat.le_add_right ..)
  have := hb.high
  unfold Span.stop Span.join at *
  dsimp only
  omega

/-- A free list in order. -/
structure Tidy (m : Memory) (free : List Span) : Prop where
  gapped : Gapped free
  good : ∀ region ∈ free, Good m region

variable {m : Memory}

theorem Good.small (hm : m.Usable) (h : Good m a) : a.stop < wordLimit := by
  have := h.high
  have := hm.low
  unfold wordLimit
  omega

theorem Good.pos (h : Good m a) : 0 < a.size := by
  have := h.room
  unfold nodeSize at this
  omega

variable {free : List Span}

/-- **Giving a block back** keeps the list in order, and the list covers the block and
what it covered before. -/
theorem Tidy.addFreeRegion (hm : m.Usable) (h : Tidy m free)
    (ha : Good m a) (hapart : ∀ x, a.Has x → ¬ Covers free x) :
    Tidy m (addFreeRegion a.start a.size free) ∧
      ∀ x, Covers (Heap.addFreeRegion a.start a.size free) x ↔ a.Has x ∨ Covers free x := by
  have hsmall : ∀ r ∈ free, r.stop < wordLimit := fun r hr => (h.good r hr).small hm
  rw [addFreeRegion_eq h.gapped hsmall (ha.small hm)]
  refine ⟨⟨h.gapped.insert ha.pos (fun b hb => (h.good b hb).pos) ?_, ?_⟩, fun x =>
    covers_insert⟩
  · exact fun b hb x hx hbx => hapart x hx ⟨b, hb, hbx⟩
  · exact Spans.forall_mem_insert (fun _ _ ha hb hmeet => ha.join hb hmeet) ha h.good

/-! ## Carving -/

variable {region : Span} {allocStart : Nat}

theorem findRegion_spec {rest : List Span}
    (h : findRegion size align free = some (region, allocStart, rest)) :
    tryCarve region size align = some allocStart ∧
      ∃ before after, free = before ++ region :: after ∧ rest = before ++ after := by
  induction free generalizing rest with
  | nil => contradiction
  | cons first tail ih =>
    unfold findRegion at h
    split at h
    · rename_i start hcarve
      cases h
      exact ⟨hcarve, [], tail, rfl, rfl⟩
    obtain ⟨⟨_, _, _⟩, hfound, heq⟩ := map_eq_some_iff.mp h
    cases heq
    obtain ⟨hcarve, before, after, hfree, hrest⟩ := ih hfound
    refine ⟨hcarve, first :: before, after, ?_, ?_⟩
    · rw [hfree, cons_append]
    · rw [hrest, cons_append]

/-- What an allocation leaves of the region in front of it and behind it. -/
structure Carved (m : Memory) (region : Span) (allocStart size align : Nat) : Prop where
  aligned : align ∣ allocStart
  low : region.start ≤ allocStart
  high : allocStart + size ≤ region.stop
  excess : allocStart + size < region.stop → nodeSize ≤ region.stop - (allocStart + size)

theorem tryCarve_spec (hm : m.Usable) (hregion : Good m region) (hadjusted : Adjusted size align)
    (h : tryCarve region size align = some allocStart) : Carved m region allocStart size align := by
  have hend : endAddr region = region.stop := word_of_lt (hregion.small hm)
  have hlow : region.start + align ≤ wordLimit := by
    have := hregion.high
    have := hm.low
    have := hadjusted.large
    unfold Span.stop wordLimit at *
    omega
  obtain ⟨hle, -, hdvd⟩ := alignUp_spec hadjusted.power
    (Nat.le_trans (Nat.le_add_left ..) hlow) hlow
  unfold tryCarve at h
  dsimp only at h
  rw [hend] at h
  split at h
  · contradiction
  split at h
  · contradiction
  split at h
  · contradiction
  rename_i _ hroom hexcess
  cases h
  exact ⟨hdvd, hle, Nat.le_of_not_lt hroom, by omega⟩

/-- Giving back the bytes from `lo` to `hi`. -/
theorem Tidy.addPart {lo hi : Nat} (hm : m.Usable) (h : Tidy m free) (hlo : nodeAlign ∣ lo)
    (hhi : nodeAlign ∣ hi) (hroom : nodeSize ≤ hi - lo) (hlow : m.start ≤ lo)
    (hhigh : hi ≤ m.start + m.size) (hapart : ∀ x, lo ≤ x → x < hi → ¬ Covers free x) :
    Tidy m (Heap.addFreeRegion lo (hi - lo) free) ∧
      ∀ x, Covers (Heap.addFreeRegion lo (hi - lo) free) x ↔ Covers free x ∨ lo ≤ x ∧ x < hi := by
  have hle : lo + (hi - lo) = hi := by
    unfold nodeSize at hroom
    omega
  have hgood : Good m ⟨lo, hi - lo⟩ :=
    ⟨hlo, Nat.dvd_sub hhi hlo, hroom, hlow, Nat.le_trans (Nat.le_of_eq hle) hhigh⟩
  have hhas : ∀ x, (Span.mk lo (hi - lo)).Has x ↔ lo ≤ x ∧ x < hi := fun x => by
    rw [Span.Has, Span.stop, hle]
  obtain ⟨htidy, hcovers⟩ := h.addFreeRegion hm hgood fun x hx =>
    hapart x ((hhas x).mp hx).1 ((hhas x).mp hx).2
  exact ⟨htidy, fun x => (hcovers x).trans (or_comm.trans (or_congr_right (hhas x)))⟩

/-- **The pieces**: giving back what is left of a region leaves the list in order, and it
covers the rest of the list and parts of the region outside the allocation: all of them,
unless the padding in front is too small for a block. -/
theorem Tidy.giveBack (hm : m.Usable) (h : Tidy m free) (hregion : Good m region)
    (hapart : ∀ x, region.Has x → ¬ Covers free x) (hadjusted : Adjusted size align)
    (hcarved : Carved m region allocStart size align) :
    Tidy m (giveBack region allocStart size free) ∧
      (∀ x, Covers (Heap.giveBack region allocStart size free) x → Covers free x ∨
        region.Has x ∧ ¬ (Span.mk allocStart size).Has x) ∧
      (allocStart = region.start ∨ nodeSize ≤ allocStart - region.start → ∀ x,
        Covers free x ∨ region.Has x ∧ ¬ (Span.mk allocStart size).Has x →
          Covers (Heap.giveBack region allocStart size free) x) := by
  obtain ⟨halign, hlow, hfits, hexcess⟩ := hcarved
  have hsmall := hregion.small hm
  have hnode : nodeAlign ∣ allocStart := Nat.dvd_trans hadjusted.node halign
  have hend : endAddr region = region.stop := word_of_lt hsmall
  have hallocEnd : word (allocStart + size) = allocStart + size := word_of_lt (by omega)
  have hfront : word (allocStart + wordLimit - region.start) = allocStart - region.start := by
    unfold word wordLimit at *
    omega
  have hback : word (region.stop + wordLimit - (allocStart + size)) =
      region.stop - (allocStart + size) := by
    unfold word wordLimit at *
    omega
  have hstop : nodeAlign ∣ region.stop := (Nat.dvd_add_iff_right hregion.start).mp hregion.size
  have hin := hregion.low
  have hout := hregion.high
  rw [Heap.giveBack, hend, hallocEnd, hfront, hback]
  -- The padding in front.
  obtain ⟨padded, heq, htidy, hcovers, hpadded⟩ : ∃ padded,
      padded = (if nodeSize ≤ allocStart - region.start then
        Heap.addFreeRegion region.start (allocStart - region.start) free else free) ∧
      Tidy m padded ∧
      (∀ x, Covers padded x → Covers free x ∨ region.start ≤ x ∧ x < allocStart) ∧
      (allocStart = region.start ∨ nodeSize ≤ allocStart - region.start → ∀ x,
        Covers free x ∨ region.start ≤ x ∧ x < allocStart → Covers padded x) := by
    refine ⟨_, rfl, ?_⟩
    split
    · rename_i hroom
      obtain ⟨htidy, hcovers⟩ := h.addPart hm hregion.start hnode hroom hin (by omega)
        fun x hx hlt => hapart x ⟨hx, by omega⟩
      exact ⟨htidy, fun x => (hcovers x).mp, fun _ x => (hcovers x).mpr⟩
    · refine ⟨h, fun x hx => .inl hx, fun hsnug x hx => hx.resolve_right ?_⟩
      omega
  -- And the rest behind.
  obtain ⟨whole, heq', htidy', hcovers'⟩ : ∃ whole,
      whole = (if 0 < region.stop - (allocStart + size) then
        Heap.addFreeRegion (allocStart + size) (region.stop - (allocStart + size)) padded
        else padded) ∧ Tidy m whole ∧
      ∀ x, Covers whole x ↔ Covers padded x ∨ allocStart + size ≤ x ∧ x < region.stop := by
    refine ⟨_, rfl, ?_⟩
    split
    · refine htidy.addPart hm ((Nat.dvd_add_iff_right hnode).mp hadjusted.whole) hstop
        (hexcess (by omega)) (by omega) hout fun x hx hlt hcontra => ?_
      rcases hcovers x hcontra with hfree | hfree
      · exact hapart x ⟨by omega, hlt⟩ hfree
      · omega
    · exact ⟨htidy, fun x => (or_iff_left (by omega)).symm⟩
  rw [← heq, ← heq']
  refine ⟨htidy', fun x hx => ?_, fun hsnug x hx => (hcovers' x).mpr ?_⟩
  · rcases (hcovers' x).mp hx with hx | hx
    · refine (hcovers x hx).imp_right fun hx => ⟨⟨hx.1, by omega⟩, fun halloc => ?_⟩
      exact Nat.not_lt.mpr halloc.1 hx.2
    · exact .inr ⟨⟨by omega, hx.2⟩, fun halloc => Nat.not_lt.mpr hx.1 halloc.2⟩
  · by_cases hlt : x < allocStart + size
    · refine .inl (hpadded hsnug x (hx.imp_right fun ⟨hr, hout⟩ => ⟨hr.1, ?_⟩))
      exact Nat.lt_of_not_le fun hle => hout ⟨hle, hlt⟩
    · exact hx.imp (fun hx => hpadded hsnug x (.inl hx)) fun hx => ⟨Nat.le_of_not_lt hlt, hx.1.2⟩

/-! ## Every state -/

/-- **The invariant.**  The blocks that are handed out, and a free list in order that
covers no byte of any of them. -/
structure Sound (m : Memory) (s : State) : Prop where
  tidy : Tidy m s.allocator.free
  layouts : ∀ b ∈ s.live, (adjustLayout b.layout).isSome
  good : ∀ b ∈ s.live, Good m b.span
  aligned : ∀ b ∈ s.live, b.layout.align ∣ b.address
  apart : s.live.Pairwise fun b c => b.span.Disjoint c.span
  unfree : ∀ b ∈ s.live, ∀ x, b.span.Has x → ¬ Covers s.allocator.free x
  counted : s.allocator.allocated = total s.live

/-- The address is free or in a live block. -/
def State.Held (s : State) (x : Nat) : Prop :=
  Covers s.allocator.free x ∨ ∃ b ∈ s.live, b.span.Has x

/-- An allocation wastes no padding: where the block it is carved from starts too early by
less than a node, the bytes in front of it belong to nobody. -/
def State.Snug (s : State) : Act → Prop
  | .alloc layout => ∀ size align region allocStart rest, adjustLayout layout = some (size, align) →
      findRegion size align s.allocator.free = some (region, allocStart, rest) →
      allocStart = region.start ∨ nodeSize ≤ allocStart - region.start
  | .dealloc _ => True

variable {s : State}

theorem Sound.intact (h : Sound m s) : Intact m s where
  apart := h.apart
  aligned := h.aligned
  inside := fun b hb => ⟨(h.good b hb).low, (h.good b hb).high⟩
  unfree := fun b hb region hregion x hx hr => h.unfree b hb x hx ⟨region, hregion, hr⟩
  sorted := h.tidy.gapped
  nodes := fun region hregion =>
    ⟨(h.tidy.good region hregion).start, (h.tidy.good region hregion).room⟩
  counted := h.counted

variable {b : Block}

theorem Block.span_of_adjust
    (h : adjustLayout b.layout = some (size, align)) : b.span = ⟨b.address, size⟩ := by
  rw [Block.span, h]
  rfl

theorem Sound.init (hm : m.Usable) : Sound m ⟨.init m.start m.size, []⟩ := by
  have hgood : Good m ⟨m.start, m.size⟩ :=
    ⟨m.startAligned, m.sizeAligned, hm.size, Nat.le_refl _, Nat.le_refl _⟩
  refine ⟨⟨pairwise_singleton .., ?_⟩, by simp, by simp, by simp, Pairwise.nil, by simp, rfl⟩
  intro region hregion
  rw [mem_singleton.mp hregion]
  exact hgood

variable {t : State}

theorem Sound.alloc (hm : m.Usable) (h : Sound m s) (hs : s.step (.alloc layout) = some t) :
    Sound m t ∧ (s.Snug (.alloc layout) → ∀ x, s.Held x → t.Held x) := by
  obtain ⟨⟨_, _⟩, halloc, heq⟩ := map_eq_some_iff.mp hs
  obtain ⟨⟨size, align⟩, hadjust, hresult⟩ := map_eq_some_iff.mp halloc
  obtain ⟨hadjusted, hdvd⟩ := adjustLayout_spec hadjust
  dsimp only at hresult heq
  split at hresult
  · -- No room: nothing changed.
    cases hresult
    rw [if_pos rfl] at heq
    exact heq ▸ ⟨h, fun _ _ hx => hx⟩
  rename_i region allocStart rest hfound
  obtain ⟨rfl, rfl⟩ := Prod.mk.inj hresult
  obtain ⟨hcarve, before, after, hfree, hrest⟩ := findRegion_spec hfound
  have hmem : region ∈ s.allocator.free := by simp [hfree]
  have hregion := h.tidy.good region hmem
  have hcarved := tryCarve_spec hm hregion hadjusted hcarve
  have hgapped : Gapped (before ++ region :: after) := hfree ▸ h.tidy.gapped
  have hapart : ∀ x, region.Has x → ¬ Covers rest x := fun x hx =>
    hrest ▸ hgapped.not_covers hx
  have htidy : Tidy m rest := by
    refine ⟨hrest ▸ hgapped.of_append_cons, fun r hr => h.tidy.good r ?_⟩
    rw [hrest, mem_append] at hr
    rw [hfree, mem_append, mem_cons]
    exact hr.imp_right .inr
  obtain ⟨htidy', hcovers, hwhole⟩ := htidy.giveBack hm hregion hapart hadjusted hcarved
  have hspan : (Block.mk allocStart layout).span = ⟨allocStart, size⟩ :=
    Block.span_of_adjust hadjust
  have hin : ∀ x, (Span.mk allocStart size).Has x → region.Has x := by
    have := hcarved.low
    have := hcarved.high
    unfold Span.Has Span.stop at *
    dsimp only
    omega
  have hptr : allocStart ≠ 0 := by
    have := hcarved.low
    have := hregion.low
    have := hm.start
    omega
  rw [if_neg hptr] at heq
  subst heq
  refine ⟨⟨htidy', ?_, ?_, ?_, ?_, ?_, ?_⟩, fun hsnug x hx => ?_⟩
  · exact forall_mem_cons.mpr ⟨by rw [hadjust]; rfl, h.layouts⟩
  · refine forall_mem_cons.mpr ⟨?_, h.good⟩
    rw [hspan]
    refine ⟨Nat.dvd_trans hadjusted.node hcarved.aligned, hadjusted.whole, hadjusted.room, ?_, ?_⟩
    · exact Nat.le_trans hregion.low hcarved.low
    · exact Nat.le_trans hcarved.high hregion.high
  · exact forall_mem_cons.mpr ⟨Nat.dvd_trans hdvd hcarved.aligned, h.aligned⟩
  · refine pairwise_cons.mpr ⟨fun b hb x hx hbx => ?_, h.apart⟩
    rw [hspan] at hx
    exact h.unfree b hb x hbx ⟨region, hmem, hin x hx⟩
  · refine forall_mem_cons.mpr ⟨fun x hx hcontra => ?_, fun b hb x hx hcontra => ?_⟩
    · rw [hspan] at hx
      rcases hcovers x hcontra with hx' | ⟨-, hx'⟩
      · exact hapart x (hin x hx) hx'
      · exact hx' hx
    · refine h.unfree b hb x hx ?_
      rcases hcovers x hcontra with ⟨r, hr, hrx⟩ | ⟨hrx, -⟩
      · refine ⟨r, ?_, hrx⟩
        rw [hrest, mem_append] at hr
        rw [hfree, mem_append, mem_cons]
        exact hr.imp_right .inr
      · exact ⟨region, hmem, hrx⟩
  · rw [total, hspan, ← h.counted]
    exact Nat.add_comm ..
  · have hsnug := hwhole (hsnug size align region allocStart rest hadjust hfound) x
    rcases hx with ⟨r, hr, hrx⟩ | ⟨b, hb, hbx⟩
    · by_cases hblock : (Span.mk allocStart size).Has x
      · exact .inr ⟨_, mem_cons_self, hspan ▸ hblock⟩
      rw [hfree, mem_append, mem_cons] at hr
      rcases or_left_comm.mp hr with rfl | hr
      · exact .inl (hsnug (.inr ⟨hrx, hblock⟩))
      · exact .inl (hsnug (.inl ⟨r, hrest ▸ mem_append.mpr hr, hrx⟩))
    · exact .inr ⟨b, mem_cons_of_mem _ hb, hbx⟩

theorem total_append_cons (before after : List Block) (b : Block) :
    total (before ++ b :: after) = b.span.size + total (before ++ after) := by
  induction before with
  | nil => rfl
  | cons c before ih =>
    rw [cons_append, cons_append, total, total, ih]
    omega

variable {index : Nat}

theorem eraseIdx_of_getElem? {l : List Block} (h : l[index]? = some b) :
    ∃ before after, l = before ++ b :: after ∧ l.eraseIdx index = before ++ after := by
  obtain ⟨hlt, rfl⟩ := List.getElem?_eq_some_iff.mp h
  refine ⟨l.take index, l.drop (index + 1), ?_, eraseIdx_eq_take_drop_succ ..⟩
  rw [← drop_eq_getElem_cons hlt, take_append_drop]

theorem Sound.dealloc (hm : m.Usable) (h : Sound m s) (hs : s.step (.dealloc index) = some t) :
    Sound m t ∧ ∀ x, s.Held x → t.Held x := by
  obtain ⟨b, hb, hdealloc⟩ := bind_eq_some_iff.mp hs
  obtain ⟨_, hallocator, rfl⟩ := map_eq_some_iff.mp hdealloc
  obtain ⟨⟨size, _⟩, hadjust, rfl⟩ := map_eq_some_iff.mp hallocator
  obtain ⟨before, after, hlive, herase⟩ := eraseIdx_of_getElem? hb
  have hmem : b ∈ s.live := by simp [hlive]
  have hspan : b.span = ⟨b.address, size⟩ := Block.span_of_adjust hadjust
  have hsub : ∀ c ∈ before ++ after, c ∈ s.live := by
    intro c hc
    rw [mem_append] at hc
    rw [hlive, mem_append, mem_cons]
    exact hc.imp_right .inr
  have hrest : ∀ c ∈ before ++ after, b.span.Disjoint c.span := by
    have hpairs := h.apart
    rw [hlive] at hpairs
    obtain ⟨-, hafter, hbefore⟩ := pairwise_append.mp hpairs
    intro c hc
    rcases mem_append.mp hc with hc | hc
    · exact (hbefore c hc b mem_cons_self).symm
    · exact (pairwise_cons.mp hafter).1 c hc
  obtain ⟨htidy, hcovers⟩ := h.tidy.addFreeRegion hm (h.good b hmem) (h.unfree b hmem)
  rw [hspan] at htidy hcovers
  dsimp only
  rw [herase]
  refine ⟨⟨htidy, fun c hc => h.layouts c (hsub c hc), fun c hc => h.good c (hsub c hc),
    fun c hc => h.aligned c (hsub c hc), ?_, fun c hc x hx hcontra => ?_, ?_⟩, fun x hx => ?_⟩
  · exact (hlive ▸ h.apart).sublist (Sublist.append_left (sublist_cons_self ..) _)
  · rcases (hcovers x).mp hcontra with hbx | hfree
    · exact hrest c hc x (hspan ▸ hbx) hx
    · exact h.unfree c (hsub c hc) x hx hfree
  · have hcounted := h.counted
    rw [hlive, total_append_cons, hspan] at hcounted
    dsimp only at hcounted ⊢
    omega
  rcases hx with hx | ⟨c, hc, hcx⟩
  · exact .inl ((hcovers x).mpr (.inr hx))
  rw [hlive, mem_append, mem_cons] at hc
  rcases or_left_comm.mp hc with rfl | hc
  · exact .inl ((hcovers x).mpr (.inl (hspan ▸ hcx)))
  · exact .inr ⟨c, mem_append.mpr hc, hcx⟩

/-- **The kernel heap stays intact**: in every state any sequence of allocations and
deallocations of live blocks reaches, from a range that can hold a heap. -/
theorem intact_of_reachable (m : Memory) (hm : m.Usable) {s : State}
    (hs : (calls m).Reachable s) : Intact m s := by
  refine Sound.intact (hs.invariant_from (.init hm) ?_)
  intro s a t h _ hstep
  cases a with
  | alloc => exact (h.alloc hm hstep).1
  | dealloc => exact (h.dealloc hm hstep).1

/-- The heap of this kernel. -/
def kernelHeap : Memory := ⟨0x444444440000, 1024 * 1024, by decide, by decide⟩

/-- A hundred bytes on a 64-byte boundary. -/
def sample : Layout := ⟨100, 64, ⟨6, rfl⟩, by decide⟩

/-- Two blocks of the kernel's heap, the one below given back while the other is live. -/
theorem intact_of_reachable_kernel : ∃ s, (calls kernelHeap).Reachable s ∧
    s.live.length = 1 ∧ s.allocator.free.length = 2 ∧ Intact kernelHeap s := by
  have husable : kernelHeap.Usable := ⟨by decide, by decide, by decide⟩
  obtain ⟨s, hs, hlive, hfree⟩ := (calls kernelHeap).exists_reachable
    [.alloc sample, .alloc sample, .dealloc 1]
    (fun s => s.live.length = 1 ∧ s.allocator.free.length = 2) rfl (by decide +kernel)
  exact ⟨s, hs, hlive, hfree, intact_of_reachable kernelHeap husable hs⟩

/-- **An emptied heap is whole again**, in every state that calls reach which waste no
padding: once every block is given back, the free list is one block. -/
theorem whole_of_emptied (m : Memory) (hm : m.Usable) {s : State}
    (hs : (calls m).Reaches State.Snug s) (hempty : s.live = []) :
    s.allocator.free = [⟨m.start, m.size⟩] := by
  have hinv : Sound m s ∧ ∀ x, (Span.mk m.start m.size).Has x → s.Held x := by
    refine hs.invariant_from (I := fun s => Sound m s ∧
      ∀ x, (Span.mk m.start m.size).Has x → s.Held x) ?_ ?_
    · exact ⟨.init hm, fun x hx => .inl (covers_cons.mpr (.inl hx))⟩
    intro s a t h hsnug hstep
    cases a with
    | alloc =>
      have ht := h.1.alloc hm hstep
      exact ⟨ht.1, fun x hx => ht.2 hsnug x (h.2 x hx)⟩
    | dealloc =>
      have ht := h.1.dealloc hm hstep
      exact ⟨ht.1, fun x hx => ht.2 x (h.2 x hx)⟩
  obtain ⟨hsound, hheld⟩ := hinv
  refine hsound.tidy.gapped.eq_singleton (a := ⟨m.start, m.size⟩) ?_ ?_ fun x hx => ?_
  · exact fun b hb => ⟨(hsound.tidy.good b hb).low, (hsound.tidy.good b hb).high⟩
  · exact Nat.lt_of_lt_of_le (by decide) hm.size
  refine (hheld x hx).resolve_right ?_
  rintro ⟨b, hb, -⟩
  rw [hempty] at hb
  cases hb

/-- Two blocks are given back in the order they were allocated in. -/
theorem whole_of_emptied_kernel : ∃ s, (calls kernelHeap).Reaches State.Snug s ∧
    s.allocator.peak = 256 ∧ s.allocator.free = [⟨kernelHeap.start, kernelHeap.size⟩] := by
  have husable : kernelHeap.Usable := ⟨by decide, by decide, by decide⟩
  have h1 : (calls kernelHeap).Reaches State.Snug _ := .step (.init rfl) (by
      rintro size align region allocStart rest hadjust hfound
      cases hadjust
      cases hfound
      exact .inl rfl)
    (show (calls kernelHeap).step _ (.alloc sample) = some _ from rfl)
  have h2 := h1.step (show State.Snug _ (.alloc sample) by
      rintro size align region allocStart rest hadjust hfound
      cases hadjust
      cases hfound
      exact .inl rfl)
    (show (calls kernelHeap).step _ (.alloc sample) = some _ from rfl)
  have h3 := h2.step (show State.Snug _ (.dealloc 1) from trivial)
    (show (calls kernelHeap).step _ (.dealloc 1) = some _ from rfl)
  have h4 := h3.step (show State.Snug _ (.dealloc 0) from trivial)
    (show (calls kernelHeap).step _ (.dealloc 0) = some _ from rfl)
  exact ⟨_, h4, rfl, whole_of_emptied kernelHeap husable h4 rfl⟩

/-- Three words, and two on a boundary of sixteen bytes. -/
def odd : Layout := ⟨24, 8, ⟨3, rfl⟩, by decide⟩

def even : Layout := ⟨16, 16, ⟨4, rfl⟩, by decide⟩

/-- **Padding is lost**: the second allocation skips eight bytes that no block can hold, and
with both blocks given back the free list is still in two parts. -/
theorem emptied_in_two_parts : ∃ s, (calls kernelHeap).Reachable s ∧ s.live = [] ∧
    s.allocator.free = [⟨0x444444440000, 24⟩, ⟨0x444444440020, 1024 * 1024 - 32⟩] := by
  have h1 : (calls kernelHeap).Reachable _ := .step (.init rfl) trivial
    (show (calls kernelHeap).step _ (.alloc odd) = some _ from rfl)
  have h2 := h1.step trivial (show (calls kernelHeap).step _ (.alloc even) = some _ from rfl)
  have h3 := h2.step trivial (show (calls kernelHeap).step _ (.dealloc 0) = some _ from rfl)
  have h4 := h3.step trivial (show (calls kernelHeap).step _ (.dealloc 0) = some _ from rfl)
  exact ⟨_, h4, rfl, rfl⟩

/-- A heap shorter than a node, and one in the upper half of the address space. -/
def tinyHeap : Memory := ⟨0x444444440000, 8, by decide, by decide⟩

def highHeap : Memory := ⟨0xFFFF800000000000, 1024 * 1024, by decide, by decide⟩

/-- Sixteen bytes on a boundary of `2^62`. -/
def wide : Layout := ⟨16, 0x4000000000000000, ⟨62, rfl⟩, by decide⟩

/-- **Aligned is not enough**: a heap of eight bytes starts out with a free block that
cannot hold a node, and in the upper half the alignment wraps around to address 0, which
the caller takes for a refusal while `allocated` has gone up. -/
theorem broken_outside_usable : (∃ s, (calls tinyHeap).Reachable s ∧ ¬ Intact tinyHeap s) ∧
      ∃ s, (calls highHeap).Reachable s ∧ s.live = [] ∧ s.allocator.allocated ≠ 0 ∧
        ¬ Intact highHeap s := by
  constructor
  · refine ⟨_, .init rfl, fun h => ?_⟩
    exact absurd (h.nodes ⟨0x444444440000, 8⟩ mem_cons_self).2 (by decide)
  have hs : (calls highHeap).Reachable _ := .step (.init rfl) trivial
    (show (calls highHeap).step _ (.alloc wide) = some _ from rfl)
  refine ⟨_, hs, rfl, by decide, fun h => ?_⟩
  exact absurd h.counted (by decide)

end Panda.Heap
