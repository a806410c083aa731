import PandaProof.Elf

/-!
# Graphics buffers

Creating a buffer takes its frames from the allocator; mapping one puts those frames into
the buffer area of the thread's slot.
-/
namespace Panda.Memory

variable {M : Mapper}

inductive Error
  | invalidArgument | noSuchEndpoint | noCapability | quotaExceeded | outOfMemory
  deriving DecidableEq

/-- Ceiling on a single allocation. -/
def maxBufferBytes : Nat := 32 * 1024 * 1024

/-- Where shared graphics buffers start being mapped. -/
def bufferAreaOffset : Nat := 0x100000

def slotBase (slot : Fin 16) : Nat := userBase + slot * slotSize

/-- `div_ceil` by the page size. -/
def pagesOf (size : Nat) : Nat := (size + 4095) / 4096

def deallocateAll : List Nat → Code M Error Unit
  | [] => pure ()
  | frame :: rest => do
    deallocateFrame frame
    deallocateAll rest

/-- `count` more frames after `frames`; when one is missing everything goes back. -/
def takeFrames : Nat → List Nat → Code M Error (List Nat)
  | 0, frames => pure frames
  | count + 1, frames => do
    match ← allocateFrame with
    | some frame => takeFrames count (frames ++ [frame])
    | none =>
      deallocateAll frames
      fail .outOfMemory

/-- The buffer entered under the next id. -/
def register (buffer : Buffer) : Code M Error Nat := do
  let b ← book
  let id := b.registry.nextId
  modifyBook fun b => { b with registry := { b.registry with
    nextId := id + 1
    buffers := (b.registry.buffers.filter fun entry => entry.1 ≠ id) ++ [(id, buffer)] } }
  pure id

/-- Allocate a buffer backed by fresh physical frames. -/
def create (owner : Nat) (width height : UInt32) : Code M Error Nat := do
  if width = 0 ∨ height = 0 then fail .invalidArgument
  else
    let b ← book
    let depth := b.bytesPerPixel
    let stride := width.toNat * depth
    let size := stride * height.toNat
    if 0x100000000 ≤ stride ∨ wordLimit ≤ size ∨ maxBufferBytes < size then
      fail .invalidArgument
    else
      let owned := (b.registry.buffers.filter fun entry => entry.2.owner = owner).map Prod.snd
      let bytes := owned.foldl (fun n buffer => n + buffer.info.size) 0
      let allowance := b.assigned.of owner
      -- Checked before a single frame is taken.
      if allowance.buffers ≤ owned.length ∨
          allowance.bufferBytes < min (wordLimit - 1) (bytes + size) then
        fail .quotaExceeded
      else
        let frames ← takeFrames (pagesOf size) []
        register
          { info := ⟨width.toNat, height.toNat, stride, depth, size⟩
            frames := frames
            ownsFrames := true
            owner := owner
            sharedWith := []
            mappings := []
            orphaned := false }

def setOffset (thread offset : Nat) : Code M Error Unit :=
  modifyBook fun b => { b with registry := { b.registry with
    nextOffset := Function.update b.registry.nextOffset thread (some offset) } }

/-- Claim `span` bytes of a thread's shared-mapping area. -/
def reserve (thread span : Nat) : Code M Error Nat := do
  match ← claimSlot thread with
  | none => fail .outOfMemory
  | some slot =>
    let b ← book
    let offset := (b.registry.nextOffset thread).getD bufferAreaOffset
    setOffset thread offset
    if slotSize < offset + span then fail .outOfMemory
    else
      setOffset thread (offset + span)
      pure (slotBase slot + offset)

/-- The mapping entered in the record of the buffer. -/
def Registry.pushMapping (r : Registry) (id thread address : Nat) : Registry :=
  { r with buffers := r.buffers.map fun entry =>
      if entry.1 = id then
        (entry.1, { entry.2 with mappings := entry.2.mappings ++ [(thread, address)] })
      else entry }

/-- The part of `map` under the registry's lock: the frames to map, the buffer's size and
the address; no frames and no size when the buffer is mapped already. -/
def recordMapping (thread buffer : Nat) : Code M Error (List Nat × Nat × Nat) := do
  let b ← book
  match b.registry.buffers.lookup buffer with
  | none => fail .noSuchEndpoint
  | some entry =>
    if !entry.mayAccess thread then fail .noCapability
    else
      match entry.mappings.find? (fun m => m.1 = thread) with
      | some (_, existing) => pure ([], 0, existing)
      | none =>
        let address ← reserve thread (pagesOf entry.info.size * 4096)
        modifyBook fun b =>
          { b with registry := b.registry.pushMapping buffer thread address }
        pure (entry.frames, entry.info.size, address)

/-- The frames mapped one after the other from `page` on. -/
def mapFrames (space : Nat) (flags : UInt64) : Nat → List Nat → Code M Error Unit
  | _, [] => pure ()
  | page, frame :: rest => do
    mapErr (fun _ => Error.outOfMemory) (mapToFrameIn space page frame flags)
    mapFrames space flags (page + 1) rest

/-- `address_space_of`, or the kernel's. -/
def Book.spaceOf (b : Book) (thread : Nat) : Nat := (b.threads thread).join.getD b.kernelSpace

/-- Map a buffer into a thread's slot and return the address it landed at. -/
def map (thread buffer : Nat) : Code M Error Nat := do
  let (frames, size, address) ← recordMapping thread buffer
  -- Already mapped.
  if size = 0 then pure address
  else
    let b ← book
    mapFrames (b.spaceOf thread) (present ||| writable ||| userAccessible ||| noExecute)
      (address / 4096) frames
    pure address

/-! ## Sequences of calls -/

/-- A call into the kernel, or the scheduler switching to a thread in between. -/
inductive Call
  | loadElf (owner : Nat) (image : List UInt8)
  | create (owner : Nat) (width height : UInt32)
  | map (thread buffer : Nat)
  | switch (thread : Nat)

/-- The call, with its result left out. -/
def perform : Call → FullCode M Unit Unit
  | .loadElf owner image => do
    let _ ← mapErr (fun _ => ()) (loadElf owner image)
    pure ()
  | .create owner width height => do
    let _ ← within (mapErr (fun _ => ()) (create owner width height))
    pure ()
  | .map thread buffer => do
    let _ ← within (mapErr (fun _ => ()) (map thread buffer))
    pure ()
  | .switch thread => within do
    let b ← book
    activate (b.spaceOf thread)

/-- The kernel does not go on from here. -/
def halts : Except (Stop Unit) Unit → Bool
  | .ok () => false
  | .error (.error ()) => false
  | .error .overflow => true
  | .error .panic => true

/-- The calls one after the other; an error of one does not keep the next from running. -/
def runCalls : List Call → Kernel M → Kernel M
  | [], k => k
  | call :: rest, k =>
    let run := perform call k
    if halts run.1 then run.2 else runCalls rest run.2

end Panda.Memory
