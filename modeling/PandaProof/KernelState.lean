import PandaProof.Prog
import PandaProof.FrameAllocator
import PandaProof.Quotas

/-!
# What the kernel keeps about memory

The state behind program loading and graphics buffers: the frame allocator, the address
space of each thread and the one loaded on the processor, the user slots, the buffer
registry, the page tables, and physical memory itself, byte by byte.

The page tables belong to the `x86_64` crate, which the kernel calls and does not contain.
They are a parameter: a `Mapper` is a type of page tables with the operations of that crate
the kernel uses.  The frames that hold them are of no other use, so that memory here is what
the other frames hold.
-/
namespace Panda.Memory

/-! ## Buffers -/

structure BufferInfo where
  width : Nat
  height : Nat
  /-- Bytes per row. -/
  stride : Nat
  bytesPerPixel : Nat
  size : Nat
  deriving DecidableEq

structure Buffer where
  info : BufferInfo
  frames : List Nat
  /-- False for the scanout buffer, whose frames are the display controller's. -/
  ownsFrames : Bool
  owner : Nat
  sharedWith : List Nat
  /-- Where each thread has it mapped. -/
  mappings : List (Nat × Nat)
  /-- The owner has exited while someone else still holds a reference. -/
  orphaned : Bool
  deriving DecidableEq

def Buffer.mayAccess (b : Buffer) (thread : Nat) : Bool :=
  b.owner == thread || b.sharedWith.contains thread

structure Registry where
  /-- The buffers by their ids. -/
  buffers : List (Nat × Buffer)
  nextId : Nat
  /-- Next free offset in each thread's buffer area. -/
  nextOffset : Nat → Option Nat

/-! ## The page tables -/

inductive MapToError
  | frameAllocationFailed | pageAlreadyMapped | parentEntryHugePage
  deriving DecidableEq

inductive FlagUpdateError
  | pageNotMapped | parentEntryHugePage
  deriving DecidableEq

inductive TranslateResult
  | mapped (frame : Nat) (flags : UInt64)
  | notMapped
  | invalidFrameAddress
  deriving DecidableEq

def TranslateResult.flags : TranslateResult → Option UInt64
  | .mapped _ flags => some flags
  | _ => none

/-- **The page tables of the `x86_64` crate**, with the operations the kernel calls.  A
space is named by the frame of its level 4 table, a page by its number. -/
structure Mapper where
  /-- All page tables there are. -/
  Tables : Type
  /-- `Mapper::map_to`; tables that are missing on the way come from the allocator. -/
  mapTo : (level4 page target : Nat) → (flags : UInt64) → Tables → BitmapFrameAllocator →
    Except MapToError Unit × Tables × BitmapFrameAllocator
  /-- `Mapper::update_flags`. -/
  updateFlags : (level4 page : Nat) → (flags : UInt64) → Tables →
    Except FlagUpdateError Unit × Tables
  /-- `Translate::translate`. -/
  translate : (level4 page : Nat) → Tables → TranslateResult
  /-- `PageTable::zero`, of a level 4 table. -/
  zero : (level4 : Nat) → Tables → Tables
  /-- `destination[index] = source[index].clone()`, for two level 4 tables. -/
  cloneEntry : (source destination index : Nat) → Tables → Tables

/-! ## The kernel -/

/-- What the kernel keeps besides page tables and memory. -/
structure Book where
  allocator : BitmapFrameAllocator
  /-- The level 4 frame kernel threads run on. -/
  kernelSpace : Nat
  /-- The level 4 frame in CR3. -/
  active : Nat
  /-- The threads that exist, each with its own level 4 frame if it has one. -/
  threads : Nat → Option (Option Nat)
  /-- Which thread occupies each user slot. -/
  slots : Fin 16 → Option Nat
  registry : Registry
  assigned : Quotas.Assigned
  /-- Pixel width of the display. -/
  bytesPerPixel : Nat

/-- The book and the page tables: all that code reaches without touching memory. -/
structure Paged (M : Mapper) extends Book where
  tables : M.Tables

/-- The whole kernel, with memory by physical address. -/
structure Kernel (M : Mapper) extends Paged M where
  memory : Nat → UInt8

/-! ## Code -/

/-- Why code stops: it returns an error, a sum overflows, or the kernel panics for another
reason. -/
inductive Stop (ε : Type)
  | error (e : ε)
  | overflow
  | panic
  deriving DecidableEq

def Stop.map {ε ε' : Type} (f : ε → ε') : Stop ε → Stop ε'
  | .error e => .error (f e)
  | .overflow => .overflow
  | .panic => .panic

/-- Kernel code that returns an `A` or an error `ε` and touches no memory. -/
abbrev Code (M : Mapper) (ε A : Type) : Type := Prog (Paged M) (Stop ε) A

/-- Kernel code that may touch memory too. -/
abbrev FullCode (M : Mapper) (ε A : Type) : Type := Prog (Kernel M) (Stop ε) A

variable {M : Mapper} {S ε ε' A : Type}

def fail (e : ε) : Prog S (Stop ε) A := Prog.throw (.error e)

def panicking : Prog S (Stop ε) A := Prog.throw .panic

/-- `map_err`. -/
def mapErr (f : ε → ε') (p : Prog S (Stop ε) A) : Prog S (Stop ε') A := p.mapError (Stop.map f)

/-- Code that touches no memory, as part of code that does. -/
def within (p : Code M ε A) : FullCode M ε A :=
  p.zoom (·.toPaged) fun paged k => { k with toPaged := paged }

theorem within_bind {B : Type} (p : Code M ε B) (f : B → Code M ε A) :
    within (p >>= f) = within p >>= fun b => within (f b) := by
  unfold within
  refine Prog.zoom_bind ?_ ?_ p f
  · exact fun _ _ => rfl
  · exact fun _ _ _ => rfl

def book : Code M ε Book := Prog.gets fun k => k.toBook

def modifyBook (f : Book → Book) : Code M ε Unit :=
  Prog.modify fun k => { k with toBook := f k.toBook }

/-- A frame from the allocator, if one is free. -/
def allocateFrame : Code M ε (Option Nat) := do
  let b ← book
  match b.allocator.allocate with
  | none => pure none
  | some (frame, allocator) =>
    modifyBook fun b => { b with allocator }
    pure (some frame)

def deallocateFrame (frame : Nat) : Code M ε Unit := do
  let b ← book
  match b.allocator.deallocate frame with
  | none => panicking
  | some allocator => modifyBook fun b => { b with allocator }

end Panda.Memory
