import PandaProof.FsFormat
import PandaProof.Bitmap
import Mathlib.Data.List.DropRight

/-!
# The filesystem

Copy-on-write: a change writes new blocks to free space, then a superblock naming the
new root to whichever of the two slots is not live.  The functions below are those of
the kernel's `fs` module, over the mounted state and the device.  One lock covers the
whole filesystem, so each operation runs alone.
-/
namespace Panda.Fs

open Block Prog

/-! ## Mounted state -/

structure State where
  superblock : SuperBlock
  /-- Which superblock slot is live. The next commit writes the other one. -/
  liveSlot : Nat
  /-- The allocation bitmap, held in memory and written out on commit. -/
  bitmap : Nat → Byte
  /-- Bytes of the bitmap. -/
  bitmapLength : Nat
  /-- Blocks the transaction in progress has stopped referring to. -/
  retired : List Nat

namespace State

def isAllocated (s : State) (block : Nat) : Bool :=
  decide (block / 8 < s.bitmapLength) && Bitmap.test s.bitmap block

def mark (s : State) (block : Nat) (allocated : Bool) : State :=
  -- Metadata is never released.
  if !allocated ∧ block < s.superblock.firstDataBlock then s
  else if block / 8 < s.bitmapLength then
    { s with bitmap := Bitmap.set s.bitmap block allocated }
  else s

theorem mark_superblock (s : State) (block : Nat) (allocated : Bool) :
    (s.mark block allocated).superblock = s.superblock := by
  rw [mark]
  split
  · rfl
  · split <;> rfl

/-- The blocks that can hold data. -/
def dataBlocks (s : State) : List Nat :=
  List.range' s.superblock.firstDataBlock (s.superblock.totalBlocks - s.superblock.firstDataBlock)

def findFree (s : State) : Option Nat := s.dataBlocks.find? fun block => !s.isAllocated block

def freeBlocks (s : State) : Nat := (s.dataBlocks.filter fun block => !s.isAllocated block).length

def retire (s : State) (block : Nat) : State := { s with retired := s.retired ++ [block] }

/-- Give back the blocks of a finished transaction, and those retired before. -/
def release (s : State) (garbage : List Nat) : State :=
  (garbage ++ s.retired).foldl (fun s block => s.mark block false) { s with retired := [] }

end State

/-- The device and what is mounted from it. -/
structure World where
  device : Device
  state : State

/-- What the device holds. -/
abbrev World.disk (w : World) : Disk := w.device.disk

/-! ## Code -/

/-- Why an operation stops: it returns an error, or the kernel panics. -/
inductive Stop
  | error (e : FsError)
  | panic
  deriving DecidableEq

abbrev Code (A : Type) : Type := Prog World Stop A

variable {A : Type}

def fail (e : FsError) : Code A := throw (.error e)

def panicking : Code A := throw .panic

/-- A device's error is the filesystem's. -/
def deviceError (e : BlockError) : Stop := .error (.device e)

/-- A request made while nothing is mounted. -/
def ask (p : Requests A) : Prog Device Stop A := mapError deviceError p

def onDevice (p : Requests A) : Code A :=
  zoom World.device (fun device w => { w with device }) (ask p)

def mounted : Code State := gets World.state

def modifyState (f : State → State) : Code Unit :=
  modify fun w => { w with state := f w.state }

variable (env : Env)

def readBlock (block : Nat) : Code Sector := do
  let data ← onDevice (Block.read env block 1)
  pure (data 0)

def writeBlock (block : Nat) (data : Sector) : Code Unit :=
  onDevice (Block.write env block 1 fun _ => data)

def readInode (block : Nat) : Code Inode := do
  let data ← readBlock env block
  match Inode.decode data with
  | .error e => fail e
  | .ok inode => pure inode

/-- Find a free block and claim it. -/
def allocate : Code Nat := do
  let s ← mounted
  match s.findFree with
  | none => fail .full
  | some block => do
    modifyState fun s => s.mark block true
    pure block

/-! ## Mounting -/

/-- `HEAP_SIZE`: no allocation is as large as the kernel's heap. -/
def allocationLimit : Nat := 0x100000

/-- The bitmap's bytes, out of its sectors. -/
def bitmapOf (sectors : Disk) : Nat → Byte := fun i => sectors (i / blockSize) (i % blockSize)

/-- The bitmap's sectors, out of its bytes. -/
def bitmapSectors (bitmap : Nat → Byte) : Disk := fun k i => bitmap (blockSize * k + i)

/-- The newer of the two superblocks that decode, and its slot. -/
def newest : Option SuperBlock → Option SuperBlock → Option (SuperBlock × Nat)
  | some a, some b => if b.generation ≤ a.generation then some (a, 0) else some (b, 1)
  | some a, none => some (a, 0)
  | none, some b => some (b, 1)
  | none, none => none

/-- Read the superblocks and mount whichever is newer and intact. -/
def mount : Prog Device Stop State := do
  let first ← ask (Block.read env 0 1)
  let second ← ask (Block.read env 1 1)
  match newest (SuperBlock.decode (first 0)) (SuperBlock.decode (second 0)) with
  | none => throw (.error .notFormatted)
  | some (superblock, liveSlot) =>
    if superblock.version ≠ version then throw (.error .wrongVersion)
    else if allocationLimit ≤ superblock.bitmapBlocks * blockSize then throw .panic
    else do
      let sectors ← ask (Block.read env superblock.bitmapStart superblock.bitmapBlocks)
      pure {
        superblock
        liveSlot
        bitmap := bitmapOf sectors
        bitmapLength := superblock.bitmapBlocks * blockSize
        retired := [] }

/-- Make everything written since the last commit durable, atomically. -/
def commit : Code Unit := do
  let s ← mounted
  onDevice (Block.write env s.superblock.bitmapStart (s.bitmapLength / blockSize)
    (bitmapSectors s.bitmap))
  onDevice (Block.flush env)
  let nextSlot := 1 - s.liveSlot
  if wordLimit ≤ s.superblock.generation + 1 then panicking
  else do
    let superblock := { s.superblock with generation := s.superblock.generation + 1 }
    modifyState fun s => { s with superblock }
    onDevice (Block.write env nextSlot 1 fun _ => superblock.encode)
    onDevice (Block.flush env)
    modifyState fun s => { s with liveSlot := nextSlot }

/-! ## Directories -/

/-- What indexing `direct` gives for each slot in use; `none` is out of bounds. -/
def Inode.slots (inode : Inode) : List (Option Nat) :=
  (List.range inode.blocksUsed).map fun slot => inode.direct[slot]?

/-- An inode that may be walked through. -/
def openDirectory (user : Option UserId) (block : Nat) : Code Inode := do
  let inode ← readInode env block
  if inode.nodeKind ≠ .directory then fail .wrongType
  else if !inode.permits user false then fail .denied
  else pure inode

/-- The first entry of that name, block by block. -/
def findEntry (name : Name) : List (Option Nat) → Code (Option Nat)
  | [] => pure none
  | none :: _ => panicking
  | some block :: rest =>
    if block = 0 then findEntry name rest
    else do
      let data ← readBlock env block
      match (liveEntries data).find? fun e => e.nameStr = some name with
      | some e => pure (some e.inode)
      | none => findEntry name rest

/-- Every block in use, with what it holds. -/
def readEach : List (Option Nat) → Code (List (Nat × Sector))
  | [] => pure []
  | none :: _ => panicking
  | some block :: rest => do
    let data ← readBlock env block
    let others ← readEach rest
    pure ((block, data) :: others)

/-- Put each of these into a block nothing points at. -/
def writeFresh : List Sector → Code (List Nat)
  | [] => pure []
  | data :: rest => do
    let block ← allocate
    writeBlock env block data
    let others ← writeFresh rest
    pure (block :: others)

/-- Consecutive parts of `size` elements, the last one possibly shorter. -/
def chunks {α : Type} (size : Nat) : (fuel : Nat) → List α → List (List α)
  | 0, _ => []
  | fuel + 1, l => if l.isEmpty then [] else l.take size :: chunks size fuel (l.drop size)

/-- Pointers to these blocks, zeroes after them. -/
def directTo (blocks : List Nat) : List Nat :=
  (blocks ++ List.replicate directBlocks 0).take directBlocks

theorem length_directTo (blocks : List Nat) : (directTo blocks).length = directBlocks := by
  simp [directTo]

/-- The inode with other contents. -/
def Inode.holding (inode : Inode) (blocks : List Nat) (size : Nat) : Inode :=
  { inode with
    size
    blocksUsed := blocks.length
    direct := directTo blocks
    direct_length := length_directTo blocks }

/-- A directory's contents.  An empty one still needs one block. -/
def directorySectors (entries : List DirEntry) : List Sector :=
  if entries.isEmpty then [zeroed]
  else (chunks entriesPerBlock entries.length entries).map entriesBlock

/-- The kept entries and the one for the replacement, whose name must fit its field. -/
def pushEntry (kept : List DirEntry) (name : Name) (replacement : Option Nat) :
    Code (List DirEntry) := match replacement with
  | none => pure kept
  | some target =>
    if maxName < name.length then panicking
    else pure (kept ++ [DirEntry.naming name target])

/-- Rewrite a directory's contents with the entry updated, into blocks nothing currently
points at.  Gives back the new block holding its inode, and the blocks no longer needed. -/
def rebuild (directoryBlock : Nat) (directory : Inode) (name : Name) (replacement : Option Nat) :
    Code (Nat × List Nat) := do
  let old ← readEach env directory.slots
  let kept := (old.flatMap fun b => liveEntries b.2).filter fun e => e.nameStr ≠ some name
  let entries ← pushEntry kept name replacement
  let needed := max ((entries.length + (entriesPerBlock - 1)) / entriesPerBlock) 1
  if directBlocks < needed then fail .tooLarge
  else do
    let blocks ← writeFresh env (directorySectors entries)
    let new ← allocate
    writeBlock env new (directory.holding blocks entries.length).encode
    pure (new, old.map Prod.fst ++ [directoryBlock])

/-- Who is making a change, and whether it adds or removes a name. -/
structure Access where
  user : Option UserId
  changesParent : Bool

/-- Rewrite the path from a directory down to the component the change touches, and give
back the new block holding the directory's inode, with the blocks no longer needed.
`action` makes the change itself, given the component's inode if it exists. -/
def rewrite (access : Access) (action : Option Nat → Code (Option Nat)) :
    Nat → List Name → Code (Nat × List Nat)
  | directoryBlock, [] => do
    let _ ← openDirectory env access.user directoryBlock
    fail .badName
  | directoryBlock, [name] => do
    let directory ← openDirectory env access.user directoryBlock
    let existing ← findEntry env name directory.slots
    if access.changesParent ∧ !directory.permits access.user true then fail .denied
    else do
      let replacement ← action existing
      rebuild env directoryBlock directory name replacement
  | directoryBlock, name :: next :: rest => do
    let directory ← openDirectory env access.user directoryBlock
    let existing ← findEntry env name directory.slots
    match existing with
    | none => fail .notFound
    | some child => do
      let (replacement, below) ← rewrite access action child (next :: rest)
      let (new, own) ← rebuild env directoryBlock directory name (some replacement)
      pure (new, below ++ own)

/-! ## Paths -/

/-- `split('/')`. -/
def split : List Byte → List Name
  | [] => [[]]
  | b :: rest => if b = slash then [] :: split rest else (split rest).modifyHead (b :: ·)

/-- The components of a path, empty ones left out. -/
def components (path : Str) : List Name := (split path.bytes).filter (· ≠ [])

/-- The final component of a path, if it has one (`split_path`). -/
def finalName (path : Str) : Option Name :=
  let trimmed := path.bytes.rdropWhile (· == slash)
  if trimmed = [] then none else some (trimmed.rtakeWhile (· != slash))

/-- `check_name` accepts the name. -/
def nameOk (name : Name) : Bool :=
  name ≠ [] ∧ name.length ≤ maxName ∧ slash ∉ name ∧ name ≠ [0x2E] ∧ name ≠ [0x2E, 0x2E]

/-- Apply a change to the tree and commit it atomically. -/
def transact (path : Str) (access : Access) (action : Option Nat → Code (Option Nat)) :
    Code Unit := do
  if components path = [] then fail .badName
  else do
    let s ← mounted
    let (newRoot, garbage) ← rewrite env access action s.superblock.rootInode (components path)
    modifyState fun s => { s with superblock := { s.superblock with rootInode := newRoot } }
    commit env
    modifyState fun s => s.release garbage

/-- Run `p` if the path ends in an acceptable name. -/
def withName (path : Str) (p : Code Unit) : Code Unit :=
  match finalName path with
  | none => fail .badName
  | some name => if nameOk name then p else fail .badName

/-! ## Changes -/

/-- The system's own user. -/
def systemUser : UserId := 0

/-- The inode of an empty file or directory. -/
def emptyInode (kind : NodeKind) (owner : UserId) : Inode where
  kind := if kind = .directory then 1 else 0
  owner := owner
  mode := defaultMode
  size := 0
  blocksUsed := 0
  direct := directTo []
  direct_length := length_directTo []

def createAction (kind : NodeKind) (owner : UserId) (existing : Option Nat) :
    Code (Option Nat) := do
  if existing.isSome then fail .exists
  else do
    -- A directory gets one empty block to put its first entry in.
    let blocks ← writeFresh env (if kind = .directory then [zeroed] else [])
    let block ← allocate
    writeBlock env block ((emptyInode kind owner).holding blocks 0).encode
    pure (some block)

def createFor (path : Str) (kind : NodeKind) (user : Option UserId) (owner : UserId) : Code Unit :=
  withName path (transact env path ⟨user, true⟩ (createAction env kind owner))

def createAs (path : Str) (kind : NodeKind) (user : Option UserId) : Code Unit :=
  createFor env path kind user (user.getD systemUser)

def createOwnedBy (path : Str) (kind : NodeKind) (owner : UserId) : Code Unit :=
  createFor env path kind none owner

/-- Put what the inode points at on the list of retired blocks. -/
def retireSlots : List (Option Nat) → Code Unit
  | [] => pure ()
  | none :: _ => panicking
  | some block :: rest => do
    if block ≠ 0 then modifyState fun s => s.retire block
    retireSlots rest

/-- A block of file data, zeroes after it. -/
def dataBlock (chunk : List Byte) : Sector := fun i => chunk.getD i 0

def dataSectors (data : List Byte) : List Sector :=
  (chunks blockSize data.length data).map dataBlock

def writeAction (data : List Byte) (user : Option UserId) (existing : Option Nat) :
    Code (Option Nat) := match existing with
  | none => fail .notFound
  | some inodeBlock => do
    let inode ← readInode env inodeBlock
    if inode.nodeKind ≠ .file then fail .wrongType
    else if !inode.permits user true then fail .denied
    else do
      let blocks ← writeFresh env (dataSectors data)
      retireSlots inode.slots
      modifyState fun s => s.retire inodeBlock
      let new ← allocate
      writeBlock env new (inode.holding blocks data.length).encode
      pure (some new)

def writeFileAs (path : Str) (data : List Byte) (user : Option UserId) : Code Unit :=
  if directBlocks < (data.length + (blockSize - 1)) / blockSize then fail .tooLarge
  else transact env path ⟨user, false⟩ (writeAction env data user)

def removeAction (existing : Option Nat) : Code (Option Nat) :=
  match existing with
  | none => fail .notFound
  | some targetBlock => do
    let target ← readInode env targetBlock
    if target.nodeKind = .directory ∧ 0 < target.size then fail .notEmpty
    else do
      retireSlots target.slots
      modifyState fun s => s.retire targetBlock
      pure none

def removeAs (path : Str) (user : Option UserId) : Code Unit :=
  withName path (transact env path ⟨user, true⟩ (removeAction env))

def setModeAction (mode : BitVec 16) (user : Option UserId) (existing : Option Nat) :
    Code (Option Nat) := match existing with
  | none => fail .notFound
  | some inodeBlock => do
    let inode ← readInode env inodeBlock
    if user.any (· ≠ inode.owner) then fail .denied
    else do
      modifyState fun s => s.retire inodeBlock
      let new ← allocate
      writeBlock env new { inode with mode }.encode
      pure (some new)

def setModeAs (path : Str) (mode : BitVec 16) (user : Option UserId) : Code Unit :=
  if mode &&& ~~~allPermissions ≠ 0 then fail .badName
  else transact env path ⟨user, false⟩ (setModeAction env mode user)

/-! ## Reads -/

/-- Walk a path from a directory. -/
def walk (user : Option UserId) : Nat → List Name → Code Nat
  | current, [] => pure current
  | current, name :: rest => do
    let directory ← openDirectory env user current
    let existing ← findEntry env name directory.slots
    match existing with
    | none => fail .notFound
    | some next => walk user next rest

/-- Walk a path from the root to its inode. -/
def resolve (path : Str) (user : Option UserId) : Code Inode := do
  let s ← mounted
  let block ← walk env user s.superblock.rootInode (components path)
  readInode env block

/-- The first `left` bytes of these blocks. -/
def collect : (left : Nat) → List Sector → List Byte
  | _, [] => []
  | left, block :: rest =>
    (List.range (min left blockSize)).map block ++ collect (left - min left blockSize) rest

def readFileAs (path : Str) (user : Option UserId) : Code (List Byte) := do
  let inode ← resolve env path user
  if inode.nodeKind ≠ .file then fail .wrongType
  else if !inode.permits user false then fail .denied
  else if allocationLimit ≤ inode.size then panicking
  else do
    let blocks ← readEach env inode.slots
    pure (collect inode.size (blocks.map Prod.snd))

def listAs (path : Str) (user : Option UserId) : Code (List Name) := do
  let inode ← resolve env path user
  if inode.nodeKind ≠ .directory then fail .wrongType
  else if !inode.permits user false then fail .denied
  else do
    let blocks ← readEach env inode.slots
    pure ((blocks.flatMap fun b => liveEntries b.2).filterMap DirEntry.nameStr)

def statAs (path : Str) (user : Option UserId) : Code (NodeKind × Nat) := do
  let inode ← resolve env path user
  pure (inode.nodeKind, inode.size)

def ownerAs (path : Str) (user : Option UserId) : Code (UserId × BitVec 16) := do
  let inode ← resolve env path user
  pure (inode.owner, inode.mode)

/-! ## Formatting -/

/-- The superblock of an empty filesystem on a device of this size. -/
def blankSuperBlock (totalBlocks : Nat) : SuperBlock :=
  let bitmapBytes := (totalBlocks + 7) / 8
  let bitmapBlocks := (bitmapBytes + (blockSize - 1)) / blockSize
  { magic := magic
    version := version
    generation := 1
    totalBlocks
    bitmapStart := 2
    bitmapBlocks
    rootInode := 2 + bitmapBlocks
    firstDataBlock := 2 + bitmapBlocks + 1 }

/-- The bitmap of an empty filesystem: the metadata and what lies past the end of the
device are in use. -/
def blankBitmap (s : SuperBlock) : Nat → Byte :=
  let past := s.bitmapBlocks * blockSize * 8 - s.totalBlocks
  (List.range s.firstDataBlock ++ List.range' s.totalBlocks past).foldl
    (fun bitmap block => Bitmap.set bitmap block true) fun _ => 0

/-- Write an empty filesystem over whatever was there, and mount it. -/
def format : Prog Device Stop State := do
  let superblock := blankSuperBlock env.sectorCount
  if env.sectorCount < 16 then throw (.error .full)
  else if superblock.totalBlocks ≤ superblock.firstDataBlock then throw (.error .full)
  else if allocationLimit ≤ superblock.bitmapBlocks * blockSize then throw .panic
  else do
    ask (Block.write env superblock.bitmapStart superblock.bitmapBlocks
      (bitmapSectors (blankBitmap superblock)))
    ask (Block.write env superblock.rootInode 1 fun _ => (emptyInode .directory systemUser).encode)
    ask (Block.flush env)
    ask (Block.write env 0 1 fun _ => superblock.encode)
    -- The older sibling, written second and deliberately stale.
    ask (Block.write env 1 1 fun _ => { superblock with generation := 0 }.encode)
    ask (Block.flush env)
    mount env

/-! ## Operations -/

/-- What can be asked of a mounted filesystem; no user is the kernel itself. -/
inductive Op
  | create (path : Str) (kind : NodeKind) (user : Option UserId)
  | createOwnedBy (path : Str) (kind : NodeKind) (owner : UserId)
  | writeFile (path : Str) (data : List Byte) (user : Option UserId)
  | remove (path : Str) (user : Option UserId)
  | setMode (path : Str) (mode : BitVec 16) (user : Option UserId)
  | readFile (path : Str) (user : Option UserId)
  | list (path : Str) (user : Option UserId)
  | stat (path : Str) (user : Option UserId)
  | owner (path : Str) (user : Option UserId)

inductive Answer
  | done
  | contents (bytes : List Byte)
  | names (names : List Name)
  | status (kind : NodeKind) (size : Nat)
  | ownership (owner : UserId) (mode : BitVec 16)
  deriving DecidableEq

def perform : Op → Code Answer
  | .create path kind user => do createAs env path kind user; pure .done
  | .createOwnedBy path kind owner => do createOwnedBy env path kind owner; pure .done
  | .writeFile path data user => do writeFileAs env path data user; pure .done
  | .remove path user => do removeAs env path user; pure .done
  | .setMode path mode user => do setModeAs env path mode user; pure .done
  | .readFile path user => do let bytes ← readFileAs env path user; pure (.contents bytes)
  | .list path user => do let names ← listAs env path user; pure (.names names)
  | .stat path user => do let (kind, size) ← statAs env path user; pure (.status kind size)
  | .owner path user => do let (owner, mode) ← ownerAs env path user; pure (.ownership owner mode)

end Panda.Fs
