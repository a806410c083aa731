import Mathlib.Data.List.FinRange
import PandaProof.Bytes
import PandaProof.Paging

/-!
# Loading a program

The ELF loader and `load_elf`, which gives a thread a fresh address space, loads an image
into it and adds a stack and a parameter page.  Values of the headers are natural numbers
below `2^64`; a sum that would reach that limit is an overflow, which stops the kernel in
its debug build.  What a round of the loader does with the image alone (`inspect` in the
first pass, `narrowing` in the second) is apart from what it then does to the space.
-/
namespace Panda.Memory

variable {M : Mapper} {ε : Type}

/-! ## Reading the image -/

inductive ElfError
  | notSupported | malformed | outOfBounds | mapping
  deriving DecidableEq

/-- Where a loaded image ended up. -/
structure LoadedImage where
  entry : Nat
  /-- One past the highest address any segment occupies, page aligned. -/
  stop : Nat
  deriving DecidableEq

def ptLoad : Nat := 1

/-- `image.get(start..stop)`. -/
def slice (image : List UInt8) (start stop : Nat) : Option (List UInt8) :=
  if start ≤ stop ∧ stop ≤ image.length then some ((image.drop start).take (stop - start))
  else none

def littleEndian (bytes : List UInt8) : Nat := bytes.foldr (fun b n => b.toNat + 256 * n) 0

/-- What looking at the image comes to. -/
abbrev Read (A : Type) : Type := Except (Stop ElfError) A

def refuse {A : Type} (e : ElfError) : Read A := .error (.error e)

def readBytes (width : Nat) (image : List UInt8) (offset : Nat) : Read Nat :=
  if wordLimit ≤ offset + width then .error .overflow
  else
    match slice image offset (offset + width) with
    | none => refuse .malformed
    | some bytes => .ok (littleEndian bytes)

def readU16 : List UInt8 → Nat → Read Nat := readBytes 2
def readU32 : List UInt8 → Nat → Read Nat := readBytes 4
def readU64 : List UInt8 → Nat → Read Nat := readBytes 8

/-- The program headers of an image, and its entry point. -/
structure ProgramHeaders where
  image : List UInt8
  entry : Nat
  offset : Nat
  size : Nat
  count : Nat
  deriving DecidableEq

/-- The file is a little-endian 64-bit ELF for this machine, with program headers that are
long enough. -/
def readHeaders (image : List UInt8) : Read ProgramHeaders := do
  if slice image 0 4 ≠ some [0x7F, 0x45, 0x4C, 0x46] then refuse .notSupported
  else if image[4]? ≠ some 2 ∨ image[5]? ≠ some 1 then refuse .notSupported
  else
    let machine ← readU16 image 18
    if machine ≠ 0x3E then refuse .notSupported
    else
      let entry ← readU64 image 24
      let programHeaderOffset ← readU64 image 32
      let programHeaderSize ← readU16 image 54
      let programHeaderCount ← readU16 image 56
      if programHeaderSize < 56 then refuse .malformed
      else pure ⟨image, entry, programHeaderOffset, programHeaderSize, programHeaderCount⟩

/-- Where the program header at an index begins. -/
def ProgramHeaders.header (headers : ProgramHeaders) (index : Nat) : Nat :=
  headers.offset + index * headers.size

/-- What the first pass reads of the header of a loadable segment. -/
structure ProgramHeader where
  fileOffset : Nat
  virtualAddress : Nat
  fileSize : Nat
  memorySize : Nat
  deriving DecidableEq

/-- The program header at an index, if it is that of a loadable segment. -/
def readHeader (headers : ProgramHeaders) (index : Nat) : Read (Option ProgramHeader) :=
  let header := headers.header index
  if wordLimit ≤ header then refuse .malformed
  else do
    let kind ← readU32 headers.image header
    if kind ≠ ptLoad then pure none
    else
      let fileOffset ← readU64 headers.image (header + 8)
      let virtualAddress ← readU64 headers.image (header + 16)
      let fileSize ← readU64 headers.image (header + 32)
      let memorySize ← readU64 headers.image (header + 40)
      pure (some ⟨fileOffset, virtualAddress, fileSize, memorySize⟩)

/-- A segment that passed the checks. -/
structure Segment where
  virtualAddress : Nat
  memorySize : Nat
  fileSize : Nat
  /-- Its part of the file. -/
  source : List UInt8

/-- The checks of the first pass: the segment, unless it is empty. -/
def ProgramHeader.check (h : ProgramHeader) (image : List UInt8) (regionStart regionEnd : Nat) :
    Read (Option Segment) :=
  let segmentEnd := h.virtualAddress + h.memorySize
  if h.memorySize = 0 then .ok none
  else if h.memorySize < h.fileSize then refuse .malformed
  else if wordLimit ≤ segmentEnd then refuse .malformed
  else if h.virtualAddress < regionStart ∨ regionEnd < segmentEnd then refuse .outOfBounds
  else if wordLimit ≤ h.fileOffset + h.fileSize then .error .overflow
  else
    match slice image h.fileOffset (h.fileOffset + h.fileSize) with
    | none => refuse .malformed
    | some source =>
      if wordLimit ≤ segmentEnd + 4096 then .error .overflow
      else .ok (some ⟨h.virtualAddress, h.memorySize, h.fileSize, source⟩)

/-- One round of the first pass, up to where it starts to map: the segment, unless there is
nothing to load. -/
def inspect (headers : ProgramHeaders) (regionStart regionEnd index : Nat) :
    Read (Option Segment) := do
  match ← readHeader headers index with
  | none => pure none
  | some header => header.check headers.image regionStart regionEnd

/-- What a segment's flags leave of the permissions. -/
def finalFlags (flags : Nat) : UInt64 :=
  present ||| userAccessible ||| (if flags.testBit 1 then writable else 0) |||
    (if flags.testBit 0 then 0 else noExecute)

/-- The pages from the one holding `start` to the last one before `stop`. -/
def pageSpan (start stop : Nat) : List Nat :=
  List.range' (start / 4096) ((stop + 4095) / 4096 - start / 4096)

/-- One round of the second pass, up to where it changes flags: the flags and the pages. -/
def narrowing (headers : ProgramHeaders) (index : Nat) : Read (UInt64 × List Nat) := do
  let image := headers.image
  let header := headers.header index
  let kind ← readU32 image header
  if kind ≠ ptLoad then pure (0, [])
  else
    let flags ← readU32 image (header + 4)
    let virtualAddress ← readU64 image (header + 16)
    let memorySize ← readU64 image (header + 40)
    if memorySize = 0 then pure (0, [])
    else if wordLimit ≤ virtualAddress + memorySize + 4096 then .error .overflow
    else pure (finalFlags flags, pageSpan virtualAddress (virtualAddress + memorySize))

/-! ## Segments -/

/-- Every page in the list that is not mapped yet, mapped to a fresh frame. -/
def mapMissing (space : Nat) (flags : UInt64) : List Nat → Code M ElfError Unit
  | [] => pure ()
  | page :: rest => do
    match ← flagsIn space page with
    -- Segments can share a page, so an already-mapped one is expected.
    | some _ => mapMissing space flags rest
    | none =>
      let _ ← mapErr (fun _ => ElfError.mapping) (mapIn space page flags)
      mapMissing space flags rest

/-- `copy_nonoverlapping` to a virtual address. -/
def copyIn (address : Nat) : List UInt8 → FullCode M ε Unit
  | [] => pure ()
  | b :: rest => do
    writeByte address b
    copyIn (address + 1) rest

/-- One segment mapped and filled in: its file part, then zeroes up to its memory size. -/
def placeSegment (space highest : Nat) (s : Segment) : FullCode M ElfError Nat := do
  let segmentEnd := s.virtualAddress + s.memorySize
  within (mapMissing space (present ||| writable ||| userAccessible)
    (pageSpan s.virtualAddress segmentEnd))
  copyIn s.virtualAddress s.source
  copyIn (s.virtualAddress + s.fileSize) (List.replicate (s.memorySize - s.fileSize) 0)
  pure (max highest ((segmentEnd + 4095) / 4096 * 4096))

/-- The first pass. -/
def loadSegments (space : Nat) (headers : ProgramHeaders) (regionStart regionEnd : Nat) :
    List Nat → Nat → FullCode M ElfError Nat
  | [], highest => pure highest
  | index :: rest, highest => do
    match ← Prog.ofExcept (inspect headers regionStart regionEnd index) with
    | none => loadSegments space headers regionStart regionEnd rest highest
    | some segment =>
      let highest ← placeSegment space highest segment
      loadSegments space headers regionStart regionEnd rest highest

/-- `set_flags_in` on each page, best effort. -/
def narrowPages (space : Nat) (flags : UInt64) : List Nat → Code M ElfError Unit
  | [] => pure ()
  | page :: rest => do
    Prog.tryCatch (setFlagsIn space page flags) fun _ => pure ()
    narrowPages space flags rest

/-- The second pass: now the contents are in place, each segment gets what it asked for. -/
def narrowSegments (space : Nat) (headers : ProgramHeaders) :
    List Nat → FullCode M ElfError Unit
  | [] => pure ()
  | index :: rest => do
    let (flags, pages) ← Prog.ofExcept (narrowing headers index)
    within (narrowPages space flags pages)
    narrowSegments space headers rest

/-- Map every loadable segment of the image into `space`. -/
def load (space : Nat) (image : List UInt8) (regionStart regionEnd : Nat) :
    FullCode M ElfError LoadedImage := do
  let headers ← Prog.ofExcept (readHeaders image)
  let indices := List.range headers.count
  let highest ← loadSegments space headers regionStart regionEnd indices regionStart
  narrowSegments space headers indices
  if headers.entry < regionStart ∨ highest ≤ headers.entry then fail .outOfBounds
  else pure ⟨headers.entry, highest⟩

/-! ## Programs -/

def userBase : Nat := 0x200000000000

/-- Address space handed to each user thread. -/
def slotSize : Nat := 0x4000000

def stackPages : Nat := 16

inductive LoadError
  | noFreeSlot
  | mapping (e : MapError)
  | elf (e : ElfError)

/-- Where a loaded program's pieces ended up. -/
structure UserImage where
  entry : Nat
  stackTop : Nat
  /-- A writable scratch page, for message buffers and the like. -/
  data : Nat

/-- The slot a thread occupies, or else the first one that is free. -/
def Book.slotFor (b : Book) (owner : Nat) : Option (Fin 16) :=
  ((List.finRange 16).find? fun i => b.slots i = some owner).or
    ((List.finRange 16).find? fun i => b.slots i = none)

/-- The slot a thread occupies, claiming one if it has none. -/
def claimSlot (owner : Nat) : Code M ε (Option (Fin 16)) := do
  let b ← book
  match b.slotFor owner with
  | none => pure none
  | some index =>
    modifyBook fun b => { b with slots := Function.update b.slots index (some owner) }
    pure (some index)

def setAddressSpace (id space : Nat) : Code M ε Unit :=
  modifyBook fun b => { b with
    threads := fun t => if t = id then (b.threads t).map fun _ => some space else b.threads t }

/-- Consecutive pages mapped to fresh frames. -/
def mapPages (space : Nat) (flags : UInt64) : List Nat → Code M LoadError Unit
  | [] => pure ()
  | page :: rest => do
    let _ ← mapErr .mapping (mapIn space page flags)
    mapPages space flags rest

/-- A fresh space for the thread, loaded into CR3. -/
def freshSpace (owner : Nat) : Code M LoadError Nat := do
  match ← claimSlot owner with
  | none => fail .noFreeSlot
  | some _ =>
    match ← newUser with
    | none => fail .noFreeSlot
    | some space =>
      setAddressSpace owner space
      activate space
      pure space

/-- Load an ELF program and give the thread a stack for it. -/
def loadElf (owner : Nat) (image : List UInt8) : FullCode M LoadError UserImage := do
  let space ← within (freshSpace owner)
  let loaded ← mapErr .elf (load space image userBase (userBase + slotSize))
  -- A gap below the stack, so an overrun lands in unmapped space.
  let stackBottom := loaded.stop + 4096
  let userData := present ||| writable ||| userAccessible ||| noExecute
  within (mapPages space userData (List.range' (stackBottom / 4096) stackPages))
  -- One writable page above the stack for start-up parameters.
  let data := stackBottom + stackPages * 4096
  within (mapPages space userData [data / 4096])
  pure ⟨loaded.entry, stackBottom + stackPages * 4096, data⟩

end Panda.Memory
