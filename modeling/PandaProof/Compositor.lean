import Mathlib.Data.List.FinRange
import PandaProof.Machine

/-!
# The compositor

The message loop of the compositor (`compositor.rs`): the table of surfaces, the
pointer, the keyboard focus and the damage grid.  What the kernel answers about a
buffer is passed in with each message, since it may answer differently each time.
Arithmetic on 64-bit words wraps, as in the build the userland uses.  Pixels are
not modelled here: `compose` draws what is damaged and leaves the grid empty.

The table is keyed by the buffer's handle.  A client that names a handle another
client presented takes over that client's entry, position, depth and keyboard
included (`present_takes_over`).  Entries change hands in no other way: a message
changes an entry for anybody but the entry's owner exactly when it is such a
`PRESENT`, or a click the compositor believes (`untouched_iff`).
-/
namespace Panda.Compositor

open Function Option
open List (finRange forall_mem_cons mem_cons_of_mem mem_cons_self mem_finRange)

/-- Surfaces the compositor will track at once. -/
abbrev maxSurfaces : Nat := 16

structure Surface where
  /-- Buffer handle, or zero for an empty slot. -/
  buffer : UInt64
  base : UInt64
  x : UInt64
  y : UInt64
  width : UInt64
  height : UInt64
  stride : UInt64
  /-- Higher is nearer the viewer. -/
  z : UInt64
  /-- The thread that presented it, as the kernel stamped it. -/
  owner : UInt64
  deriving DecidableEq

namespace Surface

def empty : Surface := ⟨0, 0, 0, 0, 0, 0, 0, 0, 0⟩

end Surface

/-- A half-open rectangle. -/
structure Rect where
  left : UInt64
  top : UInt64
  right : UInt64
  bottom : UInt64
  deriving DecidableEq

namespace Rect

def isEmpty (r : Rect) : Bool := r.right ≤ r.left || r.bottom ≤ r.top

/-- The point is inside, edges on the left and at the top included. -/
def contains (r : Rect) (x y : UInt64) : Bool :=
  r.left ≤ x && x < r.right && (r.top ≤ y && y < r.bottom)

end Rect

def boundsOf (s : Surface) : Rect := ⟨s.x, s.y, s.x + s.width, s.y + s.height⟩

/-! ## Damage -/

def tileColumns : UInt64 := 128

abbrev tileRows : Nat := 80

structure Damage where
  rows : Fin tileRows → BitVec 128
  /-- Tile edge in pixels. -/
  tile : UInt64

namespace Damage

/-- `u64::div_ceil` for a divisor that is not zero. -/
def divCeil (a b : UInt64) : UInt64 := a / b + if a % b = 0 then 0 else 1

def new (width height : UInt64) : Damage :=
  ⟨fun _ => 0, max (max 32 (divCeil width tileColumns)) (divCeil height 80)⟩

def isEmpty (d : Damage) : Bool := (finRange tileRows).all fun row => d.rows row = 0

def add (d : Damage) (area : Rect) : Damage :=
  if area.isEmpty then d
  else
    let lastColumn := tileColumns - 1
    let first := min (area.left / d.tile) lastColumn
    let last := min ((area.right - 1) / d.tile) lastColumn
    let span := (BitVec.allOnes 128 >>> (lastColumn - (last - first)).toNat) <<< first.toNat
    let top := min (area.top / d.tile).toNat (tileRows - 1)
    let bottom := min ((area.bottom - 1) / d.tile).toNat (tileRows - 1)
    { d with rows := fun row =>
        if top ≤ row.val ∧ row.val ≤ bottom then d.rows row ||| span else d.rows row }

/-- Every tile clean, as `drain` leaves the grid. -/
def clear (d : Damage) : Damage := { d with rows := fun _ => 0 }

end Damage

/-! ## The compositor's state -/

/-- What the kernel says about a buffer. -/
structure BufferInfo where
  width : UInt32
  height : UInt32
  stride : UInt32
  bytesPerPixel : UInt32
  size : UInt64

structure State where
  screen : BufferInfo
  surfaces : Fin maxSurfaces → Surface
  damage : Damage
  cursorX : UInt64
  cursorY : UInt64
  cursorVisible : Bool
  buttons : UInt64
  /-- The thread whose key and pointer events are believed, besides the kernel. -/
  inputSource : Option UInt64
  /-- The thread whose surface was last clicked. -/
  focus : Option UInt64
  /-- Where a client wants its key events: the thread, and the endpoint. -/
  listeners : Fin maxSurfaces → UInt64 × UInt64

/-- The compositor as `main` sets it up on a given screen. -/
def initial (screen : BufferInfo) : State where
  screen := screen
  surfaces := fun _ => .empty
  damage := .new screen.width.toUInt64 screen.height.toUInt64
  cursorX := screen.width.toUInt64 / 2
  cursorY := screen.height.toUInt64 / 2
  cursorVisible := false
  buttons := 0
  inputSource := none
  focus := none
  listeners := fun _ => (0, 0)

/-- The loop of `track`: the entry with this handle, or else the first empty slot
seen before it. -/
def scanSlots (surfaces : Fin maxSurfaces → Surface) (buffer : UInt64) :
    Option (Fin maxSurfaces) → List (Fin maxSurfaces) → Option (Fin maxSurfaces)
  | slot, [] => slot
  | slot, index :: rest =>
    if (surfaces index).buffer = buffer then some index
    else if (surfaces index).buffer = 0 ∧ slot.isNone then
      scanSlots surfaces buffer (some index) rest
    else scanSlots surfaces buffer slot rest

def slotFor (surfaces : Fin maxSurfaces → Surface) (buffer : UInt64) : Option (Fin maxSurfaces) :=
  scanSlots surfaces buffer none (finRange maxSurfaces)

/-- `track`: record a surface, replacing any earlier one with the same handle. -/
def track (s : State) (surface : Surface) : State :=
  match slotFor s.surfaces surface.buffer with
  | none => s
  | some index =>
    let previous := s.surfaces index
    let damage := if previous.buffer ≠ 0 then s.damage.add (boundsOf previous) else s.damage
    { s with
      damage := damage.add (boundsOf surface)
      surfaces := update s.surfaces index surface }

/-- The effect of `compose` on the state: what was damaged has been drawn. -/
def compose (s : State) : State :=
  if s.damage.isEmpty then s else { s with damage := s.damage.clear }

/-- One insertion of `sorted_by_depth`, into an order kept topmost first. -/
def insertByDepth (surfaces : Fin maxSurfaces → Surface) (index : Fin maxSurfaces) :
    List (Fin maxSurfaces) → List (Fin maxSurfaces)
  | [] => [index]
  | top :: rest =>
    if (surfaces index).z < (surfaces top).z then top :: insertByDepth surfaces index rest
    else index :: top :: rest

/-- `sorted_by_depth`: the live surfaces, topmost first. -/
def sortedByDepth (surfaces : Fin maxSurfaces → Surface) : List (Fin maxSurfaces) :=
  (finRange maxSurfaces).foldl (fun order index =>
      if (surfaces index).buffer = 0 then order else insertByDepth surfaces index order) []

/-- `raise_at`: bring the topmost surface under a point to the front and give its
owner the keyboard. -/
def raiseAt (s : State) (x y : UInt64) : State :=
  let order := sortedByDepth s.surfaces
  match order.find? fun index => (boundsOf (s.surfaces index)).contains x y, order with
  | some index, top :: _ =>
    let s := if top ≠ index then
        let raised := { s.surfaces index with z := (s.surfaces top).z + 1 }
        { s with
          surfaces := update s.surfaces index raised
          damage := s.damage.add (boundsOf raised) }
      else s
    { s with focus := some (s.surfaces index).owner }
  | _, _ => { s with focus := none }

def cursorRect (s : State) : Rect :=
  ⟨s.cursorX, s.cursorY, s.cursorX + 11, s.cursorY + 16⟩

/-- `(position as i64 + delta).clamp(0, size as i64 - 1) as u64`. -/
def moveWithin (position delta size : UInt64) : UInt64 :=
  (max 0 (min (position.toInt64 + delta.toInt64) (size.toInt64 - 1))).toUInt64

/-- `pointer`.  A screen without pixels makes `clamp` panic. -/
def pointer (s : State) (dx dy buttons : UInt64) : Option State :=
  let width := s.screen.width.toUInt64
  let height := s.screen.height.toUInt64
  if width = 0 ∨ height = 0 then none
  else
    let s := if s.cursorVisible then { s with damage := s.damage.add (cursorRect s) } else s
    let s := { s with
      cursorX := moveWithin s.cursorX dx width
      cursorY := moveWithin s.cursorY dy height
      cursorVisible := true }
    let s := { s with damage := s.damage.add (cursorRect s) }
    let pressed := buttons &&& ~~~s.buttons
    let s := { s with buttons := buttons }
    some (if pressed &&& 1 ≠ 0 then raiseAt s s.cursorX s.cursorY else s)

/-- `listen`: record where `owner` wants its keys, replacing any earlier choice. -/
def listen (s : State) (owner endpoint : UInt64) : State :=
  let slot := ((finRange maxSurfaces).find? fun i => (s.listeners i).1 = owner).or
    ((finRange maxSurfaces).find? fun i => (s.listeners i).2 = 0)
  match slot with
  | some index => { s with listeners := update s.listeners index (owner, endpoint) }
  | none => s

/-- `key`: the endpoint a key event is sent to, if any. -/
def key (s : State) : Option UInt64 :=
  s.focus.bind fun focus =>
    ((finRange maxSurfaces).find? fun i =>
      (s.listeners i).1 = focus && (s.listeners i).2 ≠ 0).map fun i => (s.listeners i).2

/-! ## Messages -/

/-- A message as the compositor receives it. -/
structure Message where
  tag : UInt64
  words : Vector UInt64 4
  sender : UInt64

namespace Message

abbrev first (m : Message) : UInt64 := m.words[0]
abbrev second (m : Message) : UInt64 := m.words[1]
abbrev third (m : Message) : UInt64 := m.words[2]
abbrev fourth (m : Message) : UInt64 := m.words[3]

end Message

/-- What the kernel answers while one message is handled. -/
structure Kernel where
  /-- `buffer_map`: where the buffer is mapped, unless it cannot be reached. -/
  bufferMap : UInt64 → Option UInt64
  bufferInfo : UInt64 → Option BufferInfo

def kernelSender : UInt64 := 0xffffffffffffffff

def tagShutdown : UInt64 := 0
def tagKey : UInt64 := 1
def tagPresent : UInt64 := 2
def tagPointer : UInt64 := 3
def tagListen : UInt64 := 4
def tagInputSource : UInt64 := 5

/-- `adopt`: map a client's buffer and describe it. -/
def adopt (kernel : Kernel) (buffer x y z owner : UInt64) : Option Surface :=
  match kernel.bufferMap buffer, kernel.bufferInfo buffer with
  | some base, some info => some ⟨buffer, base, x, y, info.width.toUInt64, info.height.toUInt64,
      info.stride.toUInt64, z, owner⟩
  | _, _ => none

def fromKernel (m : Message) : Bool := m.sender = kernelSender

/-- The message is believed to be input. -/
def fromInput (s : State) (m : Message) : Bool := fromKernel m || s.inputSource = some m.sender

/-- One turn of the loop of `main`; `none` when the process ends. -/
def handle (kernel : Kernel) (s : State) (m : Message) : Option State :=
  if m.tag = tagInputSource ∧ fromKernel m then some { s with inputSource := some m.words[0] }
  else if m.tag = tagShutdown ∧ fromInput s m then none
  else if m.tag = tagPointer ∧ fromInput s m then
    (pointer s m.words[0] m.words[1] m.words[2]).map compose
  else if m.tag = tagListen then some (listen s m.sender m.words[0])
  else if m.tag = tagPresent then
    match adopt kernel m.words[0] m.words[1] m.words[2] m.words[3] m.sender with
    | some surface => some (compose (track s surface))
    | none => some s
  -- A key event changes nothing here: it is sent on to `key s`, or dropped.
  else some s

/-- The compositor on a given screen, any messages in any order. -/
def machine (screen : BufferInfo) : Machine State (Kernel × Message) where
  Init s := s = initial screen
  step s input := handle input.1 s input.2

/-! ## Taking over another client's entry -/

/-- A click the compositor believes: the left button went down. -/
def Clicks (s : State) (m : Message) : Prop :=
  m.tag = tagPointer ∧ fromInput s m = true ∧ (m.words[2] &&& ~~~s.buttons) &&& 1 ≠ 0

/-- A `PRESENT` of a buffer the compositor can reach, under a handle somebody else
presented. -/
def TakesOver (kernel : Kernel) (s : State) (m : Message) : Prop :=
  m.tag = tagPresent ∧
    (adopt kernel m.words[0] m.words[1] m.words[2] m.words[3] m.sender).isSome = true ∧
    ∃ i, (s.surfaces i).buffer ≠ 0 ∧ (s.surfaces i).buffer = m.words[0] ∧
      (s.surfaces i).owner ≠ m.sender

/-- A screen of 1024 by 768. -/
def sampleScreen : BufferInfo := ⟨1024, 768, 4096, 4, 0x300000⟩

/-- A kernel through which every buffer can be reached. -/
def openKernel : Kernel := ⟨fun _ => some 0x40000000, fun _ => some ⟨64, 64, 256, 4, 16384⟩⟩

/-- A `PRESENT` of `buffer` at a place, by `sender`. -/
def present (sender buffer x y z : UInt64) : Message := ⟨tagPresent, #v[buffer, x, y, z], sender⟩

/-- **A client can take over another's window**: thread 7 presented buffer 3 in the
corner, thread 9 names the same handle, and the entry is moved, put in front and
thread 9's own. -/
theorem present_takes_over : ∃ s s', (machine sampleScreen).Reachable s ∧
    handle openKernel s (present 9 3 500 400 100) = some s' ∧
    ((s.surfaces 0).buffer = 3 ∧ (s.surfaces 0).owner = 7) ∧
    (s'.surfaces 0).owner = 9 ∧ (s'.surfaces 0).x ≠ (s.surfaces 0).x ∧
    (s'.surfaces 0).z ≠ (s.surfaces 0).z := by
  obtain ⟨s, hs, hany⟩ := (machine sampleScreen).exists_reachable
    [(openKernel, present 7 3 10 10 1)]
    (fun s => ((handle openKernel s (present 9 3 500 400 100)).any fun s' =>
      (s.surfaces 0).buffer = 3 && (s.surfaces 0).owner = 7 && (s'.surfaces 0).owner = 9 &&
        (s'.surfaces 0).x ≠ (s.surfaces 0).x && (s'.surfaces 0).z ≠ (s.surfaces 0).z) = true)
    rfl (by decide +kernel)
  obtain ⟨s', hs', hp⟩ := (any_eq_true _ _).mp hany
  simp only [Bool.and_eq_true, decide_eq_true_eq] at hp
  obtain ⟨⟨⟨⟨hbuffer, howner⟩, hnew⟩, hx⟩, hz⟩ := hp
  exact ⟨s, s', hs, hs', ⟨hbuffer, howner⟩, hnew, hx, hz⟩

/-! ## Where `track` puts a surface -/

/-- The scan ends at an entry with the handle, or, when there is none, at the slot
it brought along or at an empty one. -/
theorem scanSlots_spec (surfaces : Fin maxSurfaces → Surface) (buffer : UInt64)
    (slot : Option (Fin maxSurfaces)) (l : List (Fin maxSurfaces)) :
    (∃ i ∈ l, (surfaces i).buffer = buffer ∧ scanSlots surfaces buffer slot l = some i) ∨
      (∀ i ∈ l, (surfaces i).buffer ≠ buffer) ∧ (scanSlots surfaces buffer slot l = slot ∨
          ∃ i ∈ l, (surfaces i).buffer = 0 ∧ scanSlots surfaces buffer slot l = some i) := by
  induction l generalizing slot with
  | nil => exact .inr ⟨by simp, .inl rfl⟩
  | cons index rest ih =>
    by_cases hb : (surfaces index).buffer = buffer
    · exact .inl ⟨index, mem_cons_self, hb, by simp [scanSlots, hb]⟩
    by_cases hz : (surfaces index).buffer = 0 ∧ slot.isNone = true
    · have hscan : scanSlots surfaces buffer slot (index :: rest) =
          scanSlots surfaces buffer (some index) rest := by
        rw [scanSlots, if_neg hb, if_pos hz]
      rw [hscan]
      rcases ih (some index) with ⟨i, hi, hbi, he⟩ | ⟨hall, he | ⟨i, hi, hzi, he⟩⟩
      · exact .inl ⟨i, mem_cons_of_mem _ hi, hbi, he⟩
      · exact .inr ⟨forall_mem_cons.mpr ⟨hb, hall⟩, .inr ⟨index, mem_cons_self, hz.1, he⟩⟩
      · exact .inr ⟨forall_mem_cons.mpr ⟨hb, hall⟩, .inr ⟨i, mem_cons_of_mem _ hi, hzi, he⟩⟩
    · have hscan : scanSlots surfaces buffer slot (index :: rest) =
          scanSlots surfaces buffer slot rest := by
        rw [scanSlots, if_neg hb, if_neg hz]
      rw [hscan]
      rcases ih slot with ⟨i, hi, hbi, he⟩ | ⟨hall, he | ⟨i, hi, hzi, he⟩⟩
      · exact .inl ⟨i, mem_cons_of_mem _ hi, hbi, he⟩
      · exact .inr ⟨forall_mem_cons.mpr ⟨hb, hall⟩, .inl he⟩
      · exact .inr ⟨forall_mem_cons.mpr ⟨hb, hall⟩, .inr ⟨i, mem_cons_of_mem _ hi, hzi, he⟩⟩

/-- `track` replaces the entry with the handle, or fills an empty slot when there
is none, or does nothing when there is neither. -/
theorem track_cases (s : State) (surface : Surface) : (∃ i, (s.surfaces i).buffer = surface.buffer ∧
        (track s surface).surfaces = update s.surfaces i surface) ∨
      (∀ i, (s.surfaces i).buffer ≠ surface.buffer) ∧ ((track s surface).surfaces = s.surfaces ∨
          ∃ i, (s.surfaces i).buffer = 0 ∧
            (track s surface).surfaces = update s.surfaces i surface) := by
  have hsome : ∀ {i}, slotFor s.surfaces surface.buffer = some i →
      (track s surface).surfaces = update s.surfaces i surface := by
    intro i h
    simp [track, h]
  have hnone : slotFor s.surfaces surface.buffer = none →
      (track s surface).surfaces = s.surfaces := by
    intro h
    simp [track, h]
  rcases scanSlots_spec s.surfaces surface.buffer none (finRange maxSurfaces) with
    ⟨i, -, hb, he⟩ | ⟨hall, he⟩
  · exact .inl ⟨i, hb, hsome he⟩
  refine .inr ⟨fun i => hall i (mem_finRange i), ?_⟩
  rcases he with he | ⟨i, -, hz, he⟩
  · exact .inl (hnone he)
  · exact .inr ⟨i, hz, hsome he⟩

@[simp] theorem compose_surfaces (s : State) : (compose s).surfaces = s.surfaces := by
  unfold compose
  split <;> rfl

@[simp] theorem listen_surfaces (s : State) (owner endpoint : UInt64) :
    (listen s owner endpoint).surfaces = s.surfaces := by
  unfold listen
  simp only
  split <;> rfl

/-- A click changes one entry's depth at most. -/
theorem raiseAt_surfaces (s : State) (x y : UInt64) : (raiseAt s x y).surfaces = s.surfaces ∨
    ∃ i z, (raiseAt s x y).surfaces = update s.surfaces i { s.surfaces i with z := z } := by
  unfold raiseAt
  simp only
  split
  · rename_i index top rest _ _
    by_cases h : top = index
    · left
      simp [h]
    · right
      exact ⟨index, (s.surfaces top).z + 1, by simp [h]⟩
  · exact .inl rfl

variable {s s' : State}

/-- A pointer event changes the table only when the left button goes down. -/
theorem pointer_surfaces {dx dy buttons : UInt64}
    (h : pointer s dx dy buttons = some s') : s'.surfaces = s.surfaces ∨
      (buttons &&& ~~~s.buttons) &&& 1 ≠ 0 ∧
        ∃ i z, s'.surfaces = update s.surfaces i { s.surfaces i with z := z } := by
  unfold pointer at h
  simp only at h
  split at h
  · cases h
  cases h
  cases hv : s.cursorVisible <;> simp only [if_true, if_false, Bool.false_eq_true]
  all_goals
    split
    · rename_i hpress
      rcases raiseAt_surfaces _ _ _ with hr | ⟨i, z, hr⟩
      · exact .inl hr
      · exact .inr ⟨hpress, i, z, hr⟩
    · exact .inl rfl

variable {kernel : Kernel} {m : Message}

/-- What a message can do to the table: nothing, a believed click, or `track`. -/
theorem handle_surfaces (h : handle kernel s m = some s') : s'.surfaces = s.surfaces ∨ (Clicks s m ∧
        ∃ i z, s'.surfaces = update s.surfaces i { s.surfaces i with z := z }) ∨
      ∃ surface, m.tag = tagPresent ∧
        adopt kernel m.words[0] m.words[1] m.words[2] m.words[3] m.sender = some surface ∧
        s'.surfaces = (track s surface).surfaces := by
  unfold handle at h
  split at h
  · cases h
    exact .inl rfl
  split at h
  · cases h
  split at h
  · rename_i hp
    obtain ⟨t, ht, rfl⟩ := map_eq_some_iff.mp h
    rw [compose_surfaces]
    rcases pointer_surfaces ht with ht | ⟨hpress, hz⟩
    · exact .inl ht
    · exact .inr (.inl ⟨⟨hp.1, hp.2, hpress⟩, hz⟩)
  split at h
  · cases h
    exact .inl (listen_surfaces ..)
  split at h
  · rename_i htag
    split at h
    · rename_i surface hadopt
      cases h
      exact .inr (.inr ⟨surface, htag, hadopt, compose_surfaces _⟩)
    · cases h
      exact .inl rfl
  · cases h
    exact .inl rfl

variable {surface : Surface}

theorem adopt_eq_some {buffer x y z owner : UInt64}
    (h : adopt kernel buffer x y z owner = some surface) :
    surface.buffer = buffer ∧ surface.owner = owner := by
  unfold adopt at h
  split at h
  · cases h
    exact ⟨rfl, rfl⟩
  · cases h

/-! ## Who changes an entry -/

/-- No two entries have the same handle. -/
def Distinct (s : State) : Prop :=
  ∀ i j, (s.surfaces i).buffer ≠ 0 → (s.surfaces i).buffer = (s.surfaces j).buffer → i = j

theorem distinct_update (h : Distinct s) {k : Fin maxSurfaces}
    (hs' : s'.surfaces = update s.surfaces k surface)
    (hk : ∀ i, i ≠ k → (s.surfaces i).buffer ≠ 0 → (s.surfaces i).buffer ≠ surface.buffer) :
    Distinct s' := by
  intro i j hi hij
  rw [hs'] at hi hij
  by_cases hik : i = k <;> by_cases hjk : j = k
  · exact hik.trans hjk.symm
  · subst hik
    rw [update_self] at hi
    rw [update_self, update_of_ne hjk] at hij
    exact absurd hij.symm (hk j hjk (hij ▸ hi))
  · subst hjk
    rw [update_of_ne hik] at hi
    rw [update_self, update_of_ne hik] at hij
    exact absurd hij (hk i hik hi)
  · rw [update_of_ne hik] at hi
    rw [update_of_ne hik, update_of_ne hjk] at hij
    exact h i j hi hij

theorem distinct_handle (h : Distinct s) (hs : handle kernel s m = some s') : Distinct s' := by
  rcases handle_surfaces hs with he | ⟨-, k, z, he⟩ | ⟨surface, -, -, he⟩
  · intro i j
    rw [he]
    exact h i j
  · exact distinct_update h he fun i hik hi hb => hik (h i k hi hb)
  rcases track_cases s surface with ⟨k, hb, ht⟩ | ⟨hall, ht | ⟨k, _, ht⟩⟩
  · exact distinct_update h (he.trans ht) fun i hik hi hbi => hik (h i k hi (hbi.trans hb.symm))
  · intro i j
    rw [he, ht]
    exact h i j
  · exact distinct_update h (he.trans ht) fun i _ _ => hall i

theorem distinct_of_reachable {screen : BufferInfo}
    (h : (machine screen).Reachable s) : Distinct s := by
  refine h.invariant_from ?_ fun hi _ hs => distinct_handle hi hs
  intro i j hi
  exact absurd rfl hi

/-- **Entries change hands in one way only.**  In every state reached by any
messages, a message changes an entry only if it is the entry's owner's, or a
believed click, exactly when it is not a `PRESENT` of a handle somebody else
presented. -/
theorem untouched_iff {screen : BufferInfo} {s s' : State} (h : (machine screen).Reachable s)
    {kernel : Kernel} {m : Message} (hs : handle kernel s m = some s') :
    (∀ i, (s.surfaces i).buffer ≠ 0 → s'.surfaces i ≠ s.surfaces i →
      (s.surfaces i).owner = m.sender ∨ Clicks s m) ↔ ¬ TakesOver kernel s m := by
  have hd := distinct_of_reachable h
  constructor
  · rintro hall ⟨htag, hadopt, i, hi, hb, howner⟩
    obtain ⟨surface, hsurface⟩ := isSome_iff_exists.mp hadopt
    obtain ⟨hbuffer, hnew⟩ := adopt_eq_some hsurface
    -- The entry it names is the one `track` overwrites.
    have hover : s'.surfaces i = surface := by
      have hpresent : s' = compose (track s surface) := by
        have hs' := hs
        simp only [handle, htag] at hs'
        simpa [tagPresent, tagInputSource, tagShutdown, tagPointer, tagListen, hsurface]
          using hs'.symm
      rw [hpresent, compose_surfaces]
      rcases track_cases s surface with ⟨k, hk, ht⟩ | ⟨hno, -⟩
      · obtain rfl : i = k := hd i k hi (hb.trans (hbuffer.symm.trans hk.symm))
        rw [ht, update_self]
      · exact absurd (hb.trans hbuffer.symm) (hno i)
    have hchanged : s'.surfaces i ≠ s.surfaces i := by
      intro he
      rw [hover] at he
      exact howner (he ▸ hnew)
    rcases hall i hi hchanged with ho | ⟨hclick, -⟩
    · exact howner ho
    · cases htag.symm.trans hclick
  · intro hno i hi hchanged
    rcases handle_surfaces hs with he | ⟨hclick, -⟩ | ⟨surface, htag, hadopt, he⟩
    · exact absurd (congrFun he i) hchanged
    · exact .inr hclick
    left
    obtain ⟨hbuffer, -⟩ := adopt_eq_some hadopt
    rcases track_cases s surface with ⟨k, hk, ht⟩ | ⟨hall, ht | ⟨k, hz, ht⟩⟩
    · -- Its handle is the one the message names, so its owner is the sender.
      have hik : i = k := by
        by_contra hne
        exact hchanged (by rw [he, ht, update_of_ne hne])
      subst hik
      by_contra howner
      exact hno ⟨htag, by simp [hadopt], i, hi, hk.trans hbuffer, howner⟩
    · exact absurd (congrFun (he.trans ht) i) hchanged
    · have hik : i ≠ k := by
        rintro rfl
        exact hi hz
      exact absurd (by rw [he, ht, update_of_ne hik]) hchanged

/-- Thread 7 has a window, and thread 9 presents a buffer of its own. -/
theorem untouched_iff_other_handle : ∃ s s', (machine sampleScreen).Reachable s ∧
    handle openKernel s (present 9 4 500 400 100) = some s' ∧ (s.surfaces 0).owner = 7 ∧
    ((∀ i, (s.surfaces i).buffer ≠ 0 → s'.surfaces i ≠ s.surfaces i →
      (s.surfaces i).owner = 9 ∨ Clicks s (present 9 4 500 400 100)) ↔
        ¬ TakesOver openKernel s (present 9 4 500 400 100)) := by
  obtain ⟨s, hs, hsome, howner⟩ := (machine sampleScreen).exists_reachable
    [(openKernel, present 7 3 10 10 1)]
    (fun s => (handle openKernel s (present 9 4 500 400 100)).isSome = true ∧
      (s.surfaces 0).owner = 7) rfl (by decide +kernel)
  obtain ⟨s', hs'⟩ := isSome_iff_exists.mp hsome
  exact ⟨s, s', hs, hs', howner, untouched_iff hs hs'⟩

end Panda.Compositor
