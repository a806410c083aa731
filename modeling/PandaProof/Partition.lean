import PandaProof.FsFormat

/-!
# Partition tables

`block/partition.rs`: what partitions a disk has according to its GPT, or its MBR where there is
no GPT, and a partition presented as a device of its own.

The header of a GPT is checked against the checksum it carries.  The entry array is not: the
header states a checksum for it, `write_single_partition_gpt` stores one, and `read_gpt` never
looks at it.  Nor does anybody look at where a partition starts, so an entry that starts at
sector zero makes the table part of the partition it describes; and one that runs from sector
zero to the last sector a word can name has a length that no word holds, which is a panic in
the debug build.  Every other sum, product and index of the reader is safe whatever the disk
says.
-/
namespace Panda.Partitions

open Bytes Block Fs List Prog

def sectorSize : Nat := 512
def mbrSignature : Nat := 0xAA55
def mbrTypeProtective : Byte := 0xEE
def mbrTypeEmpty : Byte := 0x00

/-- The bytes of `EFI PART`. -/
def gptSignature : List Byte := [0x45, 0x46, 0x49, 0x20, 0x50, 0x41, 0x52, 0x54]

def gptTypeUnused : List Byte := replicate 16 0

inductive Scheme
  | gpt
  | mbr
  deriving DecidableEq

/-- One partition, in sectors of its parent device. -/
structure Partition where
  index : Nat
  start : Nat
  sectors : Nat
  kind : Byte
  typeGuid : List Byte
  scheme : Scheme
  deriving DecidableEq

/-- Bytes of a row, as a list. -/
def slice (row : Row) (pos length : Nat) : List Byte := (range length).map fun i => row (pos + i)

/-- Sectors read into one buffer. -/
def flat (data : Disk) : Row := fun i => data (i / sectorSize) (i % sectorSize)

/-! ## Checked operations -/

/-- Why reading a table stops: a request fails, or the kernel panics. -/
inductive Stop
  | error (e : BlockError)
  | panic
  deriving DecidableEq

/-- Code that reads a table, in a debug build. -/
abbrev Reading (A : Type) : Type := Prog Device Stop A

section Checked
variable {A : Type}

def ask (p : Requests A) : Reading A := mapError .error p

/-- The result of a checked operation, whose `none` is a panic. -/
def checked : Option A → Reading A
  | some a => pure a
  | none => throw .panic

def add (a b : Nat) : Option Nat := if a + b < wordLimit then some (a + b) else none

def sub (a b : Nat) : Option Nat := if b ≤ a then some (a - b) else none

def mul (a b : Nat) : Option Nat := if a * b < wordLimit then some (a * b) else none

def div (a b : Nat) : Option Nat := if b = 0 then none else some (a / b)

/-- `bytes[pos..pos + length]` of a buffer of `size` bytes, through `f`. -/
def within (size pos length : Nat) (f : A) : Option A := do
  let stop ← add pos length
  if stop ≤ size then some f else none

/-- `read_u16`, `read_u32` and `read_u64`. -/
def number (bytes : Row) (size width pos : Nat) : Option Nat :=
  within size pos width (le bytes width pos)

end Checked

/-! ## Reading the table -/

/-- The four entries of an MBR, one after the other. -/
def readMbr (sector : Row) : List Nat → Option (List Partition)
  | [] => some []
  | index :: rest => do
    let entry ← add 446 (← mul index 16)
    let kind ← within sectorSize (← add entry 4) 1 (sector (entry + 4))
    if kind = mbrTypeEmpty then readMbr sector rest
    else if kind = mbrTypeProtective then readMbr sector rest
    else do
      let start ← number sector sectorSize 4 (← add entry 8)
      let sectors ← number sector sectorSize 4 (← add entry 12)
      if sectors = 0 then readMbr sector rest
      else
        let more ← readMbr sector rest
        some (⟨index, start, sectors, kind, replicate 16 0, .mbr⟩ :: more)

/-- The checksum of the header with its own field zeroed is the one it states. -/
def headerChecksumOk (header : Row) (headerSize : Nat) : Option Bool := do
  let stated ← number header sectorSize 4 16
  let copy ← within sectorSize 0 headerSize (put header 16 4 0)
  let copy ← within headerSize 16 4 copy
  some ((crc32 (slice copy 0 headerSize)).toNat = stated)

/-- The loop over the entries of a table of `length` bytes. -/
def readEntries (table : Row) (length entrySize : Nat) : List Nat → Option (List Partition)
  | [] => some []
  | index :: rest => do
    let entry ← mul index entrySize
    if length < (← add entry entrySize) then some []
    else do
      let kindGuid ← within length entry 16 (slice table entry 16)
      if kindGuid = gptTypeUnused then readEntries table length entrySize rest
      else do
        let first ← number table length 8 (← add entry 32)
        let last ← number table length 8 (← add entry 40)
        if last < first then readEntries table length entrySize rest
        else do
          let sectors ← add (← sub last first) 1
          let more ← readEntries table length entrySize rest
          some (⟨index, first, sectors, table entry, kindGuid, .gpt⟩ :: more)

/-- The part of `read_gpt` after the header has been checked. -/
def readArray (env : Env) (entryLba entryCount entrySize : Nat) :
    Reading (Option (List Partition)) := do
  -- A malformed table must not become an unbounded read.
  if entrySize < 128 ∨ 512 < entryCount then pure none
  else do
    let perSector ← checked (div sectorSize entrySize)
    if perSector = 0 then pure none
    else do
      let sectorsNeeded := (entryCount + perSector - 1) / perSector
      let length ← checked (mul sectorsNeeded sectorSize)
      let table ← ask (Block.read env entryLba sectorsNeeded)
      let partitions ← checked (readEntries (flat table) length entrySize (range entryCount))
      pure (some partitions)

def readGpt (env : Env) : Reading (Option (List Partition)) := do
  let data ← ask (Block.read env 1 1)
  let header := data 0
  let signature ← checked (within sectorSize 0 8 (slice header 0 8))
  if signature ≠ gptSignature then pure none
  else do
    let headerSize ← checked (number header sectorSize 4 12)
    if headerSize < 92 ∨ sectorSize < headerSize then pure none
    else do
      let ok ← checked (headerChecksumOk header headerSize)
      if !ok then pure none
      else do
        let entryLba ← checked (number header sectorSize 8 72)
        let entryCount ← checked (number header sectorSize 4 80)
        let entrySize ← checked (number header sectorSize 4 84)
        readArray env entryLba entryCount entrySize

/-- Read whatever partition table the device carries. -/
def read (env : Env) : Reading (List Partition) := do
  let data ← ask (Block.read env 0 1)
  let sector := data 0
  let signature ← checked (number sector sectorSize 2 510)
  if signature ≠ mbrSignature then pure []
  else do
    match ← readGpt env with
    | some partitions => pure partitions
    | none => checked (readMbr sector (range 4))

/-! ## A partition as a device -/

/-- A partition presented as a device in its own right. -/
structure PartitionDevice where
  start : Nat
  sectors : Nat
  deriving DecidableEq

/-- `PartitionDevice::new`, on a disk of this size. -/
def PartitionDevice.new (sectorCount : Nat) (p : Partition) : Except BlockError PartitionDevice :=
  if wordLimit ≤ p.start + p.sectors then .error .outOfRange
  else if sectorCount < p.start + p.sectors then .error .outOfRange
  else .ok ⟨p.start, p.sectors⟩

/-- `validate`, for a buffer of `length` bytes. -/
def validateLength (deviceSectors lba length : Nat) : Except BlockError Nat :=
  if length = 0 ∨ length % sectorSize ≠ 0 then .error .unaligned
  else if wordLimit ≤ lba + length / sectorSize then .error .outOfRange
  else if deviceSectors < lba + length / sectorSize then .error .outOfRange
  else .ok (length / sectorSize)

/-- The first sector of the disk that a request for `length` bytes from `lba` concerns. -/
def PartitionDevice.map (p : PartitionDevice) (lba length : Nat) : Except BlockError Nat :=
  match validateLength p.sectors lba length with
  | .error e => .error e
  | .ok _ => .ok (p.start + lba)

/-! ## Writing a table -/

/-- Bytes copied into a row. -/
def copied (row : Row) (pos : Nat) (bytes : List Byte) : Row := fun i =>
  if pos ≤ i ∧ i < pos + bytes.length then bytes.getD (i - pos) 0 else row i

/-- The checksum goes into a header whose field for it is still zero. -/
def sealed (header : Row) : Row := put header 16 4 (crc32 (slice header 0 92)).toNat

/-- The fields of `write_gpt_header`, for this many entries. -/
def gptFields (lba other entriesLba firstUsable lastUsable entryCount : Nat)
    (entriesCrc : BitVec 32) : Row :=
  let diskGuid := (BitVec.ofNat 64 firstUsable).rotateLeft 29 ^^^ 0x4B65726E656C5061
  let header := copied zeroed 0 gptSignature
  let header := put header 8 4 0x00010000
  let header := put header 12 4 92
  let header := put header 24 8 lba
  let header := put header 32 8 other
  let header := put header 40 8 firstUsable
  let header := put header 48 8 lastUsable
  let header := put header 56 8 diskGuid.toNat
  let header := put header 64 8 (~~~diskGuid).toNat
  let header := put header 72 8 entriesLba
  let header := put header 80 4 entryCount
  let header := put header 84 4 128
  put header 88 4 entriesCrc.toNat

def entrySectors : Nat := 32

def writeGptHeader (env : Env) (lba other entriesLba firstUsable lastUsable : Nat)
    (entriesCrc : BitVec 32) : Requests Unit := write env lba 1 fun _ =>
    sealed (gptFields lba other entriesLba firstUsable lastUsable 128 entriesCrc)

/-- The protective MBR of a disk with this many sectors. -/
def protectiveMbr (total : Nat) : Row :=
  let mbr := put zeroed (446 + 4) 1 mbrTypeProtective.toNat
  let mbr := put mbr (446 + 8) 4 1
  let mbr := put mbr (446 + 12) 4 (min (total - 1) 0xFFFFFFFF)
  put mbr 510 2 mbrSignature

/-- An entry array with one entry, whose name is `panda` in UTF-16. -/
def entryRow (total firstUsable lastUsable : Nat) (kind : List Byte) : Row :=
  let unique := (BitVec.ofNat 64 total).rotateLeft 17 ^^^ 0x50616E6461000001
  let entries := copied zeroed 0 kind
  let entries := put entries 16 8 unique.toNat
  let entries := put entries 24 8 (~~~unique).toNat
  let entries := put entries 32 8 firstUsable
  let entries := put entries 40 8 lastUsable
  copied entries 56 [0x70, 0, 0x61, 0, 0x6E, 0, 0x64, 0, 0x61, 0]

/-- Write a single-partition GPT covering the whole disk. -/
def writeSinglePartitionGpt (env : Env) (kind : List Byte) : Requests Partition := do
  let total := env.sectorCount
  let firstUsable := 2 + entrySectors
  let lastUsable := total - entrySectors - 2
  if total < 64 then throw .outOfRange
  else if lastUsable ≤ firstUsable then throw .outOfRange
  else do
    write env 0 1 fun _ => protectiveMbr total
    let row := entryRow total firstUsable lastUsable kind
    let entries : Disk := fun k j => row (k * sectorSize + j)
    let entriesCrc := crc32 (slice row 0 (128 * 128))
    write env 2 entrySectors entries
    let backupEntriesLba := total - 1 - entrySectors
    write env backupEntriesLba entrySectors entries
    writeGptHeader env 1 (total - 1) 2 firstUsable lastUsable entriesCrc
    writeGptHeader env (total - 1) 1 backupEntriesLba firstUsable lastUsable entriesCrc
    flush env
    pure ⟨0, firstUsable, lastUsable - firstUsable + 1, kind.headD 0, kind, .gpt⟩

/-! ## What a disk says -/

/-- Where an MBR describes its partition number `index`. -/
def mbrEntry (index : Nat) : Nat := 446 + index * 16

/-- One entry of an MBR, if it is a partition. -/
def mbrPartition (sector : Row) (index : Nat) : Option Partition :=
  let kind := sector (mbrEntry index + 4)
  let start := le sector 4 (mbrEntry index + 8)
  let sectors := le sector 4 (mbrEntry index + 12)
  if kind = mbrTypeEmpty then none
  else if kind = mbrTypeProtective then none
  else if sectors = 0 then none
  else some ⟨index, start, sectors, kind, replicate 16 0, .mbr⟩

/-- The fields of a GPT header that are read. -/
structure GptHeader where
  headerSize : Nat
  entryLba : Nat
  entryCount : Nat
  entrySize : Nat
  /-- The checksum of the entry array.  Only the writer knows of it. -/
  entriesCrc : Nat

def GptHeader.of (header : Row) : GptHeader :=
  ⟨le header 4 12, le header 8 72, le header 4 80, le header 4 84, le header 4 88⟩

def GptHeader.perSector (h : GptHeader) : Nat := sectorSize / h.entrySize

/-- How many sectors are read for the entries. -/
def GptHeader.sectorsNeeded (h : GptHeader) : Nat :=
  (h.entryCount + h.perSector - 1) / h.perSector

/-- The header states its own checksum. -/
def checksumMatches (header : Row) : Bool :=
  (crc32 (slice (put header 16 4 0) 0 (le header 4 12))).toNat = le header 4 16

/-- The header verifies. -/
def headerOk (header : Row) : Bool :=
  slice header 0 8 = gptSignature && 92 ≤ le header 4 12 && le header 4 12 ≤ sectorSize &&
    checksumMatches header

/-- One entry of a GPT, if it is a partition. -/
def gptPartition (table : Row) (entrySize index : Nat) : Option Partition :=
  let entry := index * entrySize
  let kindGuid := slice table entry 16
  let first := le table 8 (entry + 32)
  let last := le table 8 (entry + 40)
  if kindGuid = gptTypeUnused then none
  else if last < first then none
  else some ⟨index, first, last - first + 1, table entry, kindGuid, .gpt⟩

/-- The bytes of the entry array the header of this disk names. -/
def entryArray (disk : Disk) : Row := flat fun k => disk ((GptHeader.of (disk 1)).entryLba + k)

/-- The partitions the entry array of this disk describes. -/
def gptEntries (disk : Disk) : List Partition :=
  (range (GptHeader.of (disk 1)).entryCount).filterMap
    (gptPartition (entryArray disk) (GptHeader.of (disk 1)).entrySize)

/-- The partitions its MBR describes. -/
def mbrEntries (disk : Disk) : List Partition := (range 4).filterMap (mbrPartition (disk 0))

/-- The header is one to act on. -/
structure Accepted (header : Row) : Prop where
  ok : headerOk header = true
  entrySize : 128 ≤ (GptHeader.of header).entrySize
  entryCount : (GptHeader.of header).entryCount ≤ 512
  perSector : (GptHeader.of header).perSector ≠ 0

/-- A disk of `n` sectors has a GPT: the entry array its header names is there. -/
structure HasGpt (n : Nat) (disk : Disk) : Prop where
  size : 2 ≤ n
  signature : le (disk 0) 2 510 = mbrSignature
  accepted : Accepted (disk 1)
  array : 0 < (GptHeader.of (disk 1)).sectorsNeeded ∧
    (GptHeader.of (disk 1)).entryLba + (GptHeader.of (disk 1)).sectorsNeeded ≤ n

/-- It has an MBR and no GPT header. -/
structure HasMbr (n : Nat) (disk : Disk) : Prop where
  size : 2 ≤ n
  signature : le (disk 0) 2 510 = mbrSignature
  rejected : ¬ Accepted (disk 1)

/-- No partition of the entry array has a length that no word holds. -/
def Bounded (disk : Disk) : Prop := ∀ p ∈ gptEntries disk, p.sectors < wordLimit

instance : Decidable (Bounded disk) :=
  inferInstanceAs (Decidable (∀ p ∈ gptEntries disk, p.sectors < wordLimit))

/-- The partitions of a disk of `n` sectors. -/
inductive Tells (n : Nat) (disk : Disk) : List Partition → Prop
  | nothing (h : le (disk 0) 2 510 ≠ mbrSignature) : Tells n disk []
  | mbr (h : HasMbr n disk) : Tells n disk (mbrEntries disk)
  | gpt (h : HasGpt n disk) (hbounded : Bounded disk) : Tells n disk (gptEntries disk)

/-- Why there is no telling: a length that no word holds, which is a panic, or a request that
fails. -/
def Fails (env : Env) (disk : Disk) (e : Stop) : Prop :=
  HasGpt env.sectorCount disk ∧ ¬ Bounded disk ∧ e = .panic ∨ e ≠ .panic ∧
    (env.Reliable → ¬ HasMbr env.sectorCount disk ∧ ¬ HasGpt env.sectorCount disk)

/-! ## What is read -/

section Checks
variable {A : Type} {a b size pos length width : Nat} {Q : A → Device → Prop}
  {R : Stop → Device → Prop} {d : Device}

theorem add_of_lt (h : a + b < wordLimit) : add a b = some (a + b) := if_pos h

theorem mul_of_lt (h : a * b < wordLimit) : mul a b = some (a * b) := if_pos h

theorem within_of_le {f : A} (hsize : size < wordLimit) (h : pos + length ≤ size) :
    within size pos length f = some f := by
  rw [within, add_of_lt (Nat.lt_of_le_of_lt h hsize)]
  exact if_pos h

theorem number_of_le {bytes : Row} (hsize : size < wordLimit) (h : pos + width ≤ size) :
    number bytes size width pos = some (le bytes width pos) := within_of_le hsize h

@[simp] theorem wp_checked_some {x : A} : Wp (checked (some x)) d Q R ↔ Q x d := wp_pure

@[simp] theorem wp_checked_none : Wp (checked (none : Option A)) d Q R ↔ R .panic d := wp_throw

end Checks

theorem readMbr_eq (sector : Row) {indices : List Nat} (h : ∀ i ∈ indices, i < 4) :
    readMbr sector indices = some (indices.filterMap (mbrPartition sector)) := by
  induction indices with
  | nil => rfl
  | cons index rest ih =>
    obtain ⟨hindex, hrest⟩ := forall_mem_cons.mp h
    have hword : sectorSize < wordLimit := by decide
    have hsector : sectorSize = 512 := rfl
    rw [readMbr]
    simp only [Option.bind_eq_bind]
    rw [mul_of_lt (by omega), Option.bind_some, add_of_lt (by omega), Option.bind_some,
      add_of_lt (by omega), Option.bind_some, within_of_le hword (by omega), Option.bind_some,
      add_of_lt (by omega), Option.bind_some, number_of_le hword (by omega), Option.bind_some,
      add_of_lt (by omega), Option.bind_some, number_of_le hword (by omega), Option.bind_some,
      ih hrest, filterMap_cons, mbrPartition, mbrEntry]
    split_ifs <;> rfl

theorem headerChecksumOk_eq (header : Row) (hlow : 92 ≤ le header 4 12)
    (hhigh : le header 4 12 ≤ sectorSize) :
    headerChecksumOk header (le header 4 12) = some (checksumMatches header) := by
  have hsize : le header 4 12 < wordLimit := Nat.lt_of_le_of_lt hhigh (by decide)
  rw [headerChecksumOk, number_of_le (by decide) (by decide),
    within_of_le (by decide) (by omega)]
  simp only [Option.bind_eq_bind, Option.bind_some]
  rw [within_of_le hsize (by omega)]
  rfl

/-- One entry of the array. -/
theorem readEntries_cons (table : Row) {length entrySize index : Nat} (rest : List Nat)
    (hlength : length < wordLimit) (hsize : 128 ≤ entrySize)
    (hinside : index * entrySize + entrySize ≤ length) :
    readEntries table length entrySize (index :: rest) =
      match gptPartition table entrySize index with
      | none => readEntries table length entrySize rest
      | some p => if p.sectors < wordLimit then
          (readEntries table length entrySize rest).map (p :: ·) else none := by
  rw [readEntries, gptPartition]
  simp only [Option.bind_eq_bind]
  rw [mul_of_lt (by omega), Option.bind_some, add_of_lt (by omega), Option.bind_some,
    if_neg (by omega), within_of_le hlength (by omega), Option.bind_some]
  split
  · rfl
  rw [add_of_lt (by omega), Option.bind_some, number_of_le hlength (by omega), Option.bind_some,
    add_of_lt (by omega), Option.bind_some, number_of_le hlength (by omega), Option.bind_some]
  split
  · rfl
  rename_i horder
  rw [sub, if_pos (Nat.le_of_not_lt horder), Option.bind_some, add]
  dsimp only
  split <;> cases readEntries table length entrySize rest <;> rfl

/-- Only the length of a partition can be too large. -/
theorem readEntries_eq (table : Row) {length entrySize : Nat} {indices : List Nat}
    (hlength : length < wordLimit) (hsize : 128 ≤ entrySize)
    (hinside : ∀ i ∈ indices, i * entrySize + entrySize ≤ length) :
    readEntries table length entrySize indices =
      if ∀ p ∈ indices.filterMap (gptPartition table entrySize), p.sectors < wordLimit then
        some (indices.filterMap (gptPartition table entrySize)) else none := by
  induction indices with
  | nil => simp [readEntries]
  | cons index rest ih =>
    obtain ⟨hindex, hrest⟩ := forall_mem_cons.mp hinside
    rw [readEntries_cons table rest hlength hsize hindex, ih hrest, filterMap_cons]
    cases gptPartition table entrySize index with
    | none => rfl
    | some p =>
      simp only [forall_mem_cons]
      split_ifs with hfits hall hboth <;> grind

section Limits
variable {header : Row} (h : Accepted header)
include h

/-- Everything that is read for the entries, in bytes. -/
theorem Accepted.length_lt :
    (GptHeader.of header).sectorsNeeded * sectorSize < wordLimit := by
  have hcount := h.entryCount
  have := Nat.div_le_self ((GptHeader.of header).entryCount + (GptHeader.of header).perSector - 1)
    (GptHeader.of header).perSector
  have : (GptHeader.of header).perSector ≤ sectorSize := Nat.div_le_self ..
  simp only [GptHeader.sectorsNeeded, sectorSize, wordLimit] at *
  omega

/-- The loop over the entries never reaches the end of what was read. -/
theorem Accepted.entry_le {i : Nat} (hi : i < (GptHeader.of header).entryCount) :
    i * (GptHeader.of header).entrySize + (GptHeader.of header).entrySize ≤
      (GptHeader.of header).sectorsNeeded * sectorSize := by
  set g := GptHeader.of header
  have hpos : 0 < g.perSector := Nat.pos_of_ne_zero h.perSector
  have hneeded : g.entryCount ≤ g.sectorsNeeded * g.perSector := by
    have := Nat.lt_div_mul_add hpos (a := g.entryCount + g.perSector - 1)
    rw [GptHeader.sectorsNeeded]
    omega
  calc i * g.entrySize + g.entrySize = (i + 1) * g.entrySize := (Nat.succ_mul ..).symm
    _ ≤ g.sectorsNeeded * g.perSector * g.entrySize := Nat.mul_le_mul_right _ (by omega)
    _ = g.sectorsNeeded * (g.perSector * g.entrySize) := Nat.mul_assoc ..
    _ ≤ g.sectorsNeeded * sectorSize := Nat.mul_le_mul_left _ (Nat.div_mul_le_self ..)

end Limits

variable {entrySize i n : Nat} {p : Partition} {env : Env} {d : Device} {disk : Disk}

theorem mbrPartition_spec {sector : Row} (h : mbrPartition sector i = some p) :
    p.scheme = .mbr ∧ 0 < p.sectors := by
  grind [mbrPartition]

theorem gptPartition_spec {table : Row} (h : gptPartition table entrySize i = some p) :
    p.scheme = .gpt ∧ 0 < p.sectors := by
  grind [gptPartition]

theorem mem_mbr (h : p ∈ mbrEntries disk) : p.scheme = .mbr ∧ 0 < p.sectors := by
  obtain ⟨i, -, hi⟩ := mem_filterMap.mp h
  exact mbrPartition_spec hi

theorem mem_gpt (h : p ∈ gptEntries disk) :
    p.scheme = .gpt ∧ 0 < p.sectors ∧ 0 < (GptHeader.of (disk 1)).entryCount := by
  obtain ⟨i, hi, hp⟩ := mem_filterMap.mp h
  obtain ⟨hscheme, hpos⟩ := gptPartition_spec hp
  exact ⟨hscheme, hpos, Nat.zero_lt_of_lt (mem_range.mp hi)⟩

theorem readEntries_array (h : Accepted (disk 1)) :
    readEntries (entryArray disk) ((GptHeader.of (disk 1)).sectorsNeeded * sectorSize)
      (GptHeader.of (disk 1)).entrySize (range (GptHeader.of (disk 1)).entryCount) =
      if Bounded disk then some (gptEntries disk) else none :=
  readEntries_eq (entryArray disk) h.length_lt h.entrySize
    fun _ hi => h.entry_le (mem_range.mp hi)

/-- The entry array of a header that verifies. -/
theorem readArray_spec (hd : d.disk = disk) (hok : headerOk (disk 1) = true) :
    let g := GptHeader.of (disk 1)
    let inside := 0 < g.sectorsNeeded ∧ g.entryLba + g.sectorsNeeded ≤ env.sectorCount
    Wp (readArray env g.entryLba g.entryCount g.entrySize) d
      (fun found _ => found = none ∧ ¬ Accepted (disk 1) ∨
        Accepted (disk 1) ∧ inside ∧ Bounded disk ∧ found = some (gptEntries disk))
      fun e _ => Accepted (disk 1) ∧
        (inside ∧ ¬ Bounded disk ∧ e = .panic ∨ e ≠ .panic ∧ ¬ (env.Reliable ∧ inside)) := by
  intro g inside
  rw [readArray]
  split
  · rename_i hlimits
    refine wp_pure.mpr (.inl ⟨rfl, fun haccepted => ?_⟩)
    rcases hlimits with hsmall | hmany
    · exact Nat.not_lt.mpr haccepted.entrySize hsmall
    · exact Nat.not_lt.mpr haccepted.entryCount hmany
  rename_i hlimits
  obtain ⟨hsmall, hmany⟩ := not_or.mp hlimits
  rw [div, if_neg (by omega), wp_bind, wp_checked_some]
  split
  · rename_i hnone
    exact wp_pure.mpr (.inl ⟨rfl, fun haccepted => haccepted.perSector hnone⟩)
  rename_i hroom
  have haccepted : Accepted (disk 1) :=
    ⟨hok, Nat.le_of_not_lt hsmall, Nat.le_of_not_lt hmany, hroom⟩
  change Wp ((checked (mul g.sectorsNeeded sectorSize)) >>= _) d _ _
  rw [mul_of_lt haccepted.length_lt, wp_bind, wp_checked_some, wp_bind, ask, wp_mapError]
  refine ((Block.read_spec env d g.entryLba g.sectorsNeeded).and
    (Block.read_inRange env d g.entryLba g.sectorsNeeded)).mono ?_ ?_
  · rintro table d' ⟨⟨rfl, rfl⟩, hin⟩
    rw [hd, wp_bind]
    change Wp (checked (readEntries (entryArray disk) (g.sectorsNeeded * sectorSize) g.entrySize
      (range g.entryCount))) _ _ _
    rw [readEntries_array haccepted]
    by_cases hbounded : Bounded disk
    · rw [if_pos hbounded, wp_checked_some, wp_pure]
      exact .inr ⟨haccepted, hin, hbounded, rfl⟩
    · rw [if_neg hbounded, wp_checked_none]
      exact ⟨haccepted, .inl ⟨hin, hbounded, rfl⟩⟩
  · rintro e d' ⟨⟨-, hserves⟩, -⟩
    exact ⟨haccepted, .inr ⟨by simp, fun hin => hserves hin⟩⟩

theorem headerOk_iff {header : Row} : headerOk header = true ↔ slice header 0 8 = gptSignature ∧
    (92 ≤ le header 4 12 ∧ le header 4 12 ≤ sectorSize) ∧ checksumMatches header = true := by
  simp only [headerOk, Bool.and_eq_true, decide_eq_true_eq, and_assoc]

theorem readGpt_spec (env : Env) (hd : d.disk = disk)
    (hsignature : le (disk 0) 2 510 = mbrSignature) : Wp (readGpt env) d
      (fun found _ => found = none ∧ HasMbr env.sectorCount disk ∨
        HasGpt env.sectorCount disk ∧ Bounded disk ∧ found = some (gptEntries disk))
      fun e _ => Fails env disk e := by
  have hnumber : ∀ {width pos}, pos + width ≤ sectorSize → number (disk 1) sectorSize width pos =
      some (le (disk 1) width pos) := number_of_le (by decide)
  rw [readGpt, wp_bind, ask, wp_mapError]
  refine ((Block.read_spec env d 1 1).and (Block.read_inRange env d 1 1)).mono ?_ ?_
  · rintro data d' ⟨⟨rfl, rfl⟩, -, hsize⟩
    have hreject : headerOk (disk 1) ≠ true → HasMbr env.sectorCount disk := fun hbad =>
      ⟨hsize, hsignature, fun h => hbad h.ok⟩
    simp only [hd, Nat.add_zero]
    rw [within_of_le (by decide) (by decide), wp_bind, wp_checked_some]
    split
    · rename_i hbad
      exact wp_pure.mpr (.inl ⟨rfl, hreject fun h => hbad (headerOk_iff.mp h).1⟩)
    rename_i hmagic
    rw [hnumber (by decide), wp_bind, wp_checked_some]
    split
    · rename_i hbad
      refine wp_pure.mpr (.inl ⟨rfl, hreject fun h => ?_⟩)
      have := (headerOk_iff.mp h).2.1
      omega
    rename_i hsized
    have hsized : 92 ≤ le (disk 1) 4 12 ∧ le (disk 1) 4 12 ≤ sectorSize := by omega
    rw [headerChecksumOk_eq _ hsized.1 hsized.2, wp_bind, wp_checked_some]
    split
    · rename_i hbad
      exact wp_pure.mpr (.inl ⟨rfl, hreject fun h => by simp [(headerOk_iff.mp h).2.2] at hbad⟩)
    rename_i hsum
    have hok := headerOk_iff.mpr ⟨not_not.mp hmagic, hsized, by simpa using hsum⟩
    rw [hnumber (by decide), wp_bind, wp_checked_some, hnumber (by decide), wp_bind,
      wp_checked_some, hnumber (by decide), wp_bind, wp_checked_some]
    refine (readArray_spec (d := d.asked) hd hok).mono ?_ ?_
    · rintro found d' (⟨rfl, hrejected⟩ | ⟨haccepted, hin, hbounded, rfl⟩)
      · exact .inl ⟨rfl, hsize, hsignature, hrejected⟩
      · exact .inr ⟨⟨hsize, hsignature, haccepted, hin⟩, hbounded, rfl⟩
    · rintro e d' ⟨haccepted, ⟨hin, hunbounded, rfl⟩ | ⟨he, hserves⟩⟩
      · exact .inl ⟨⟨hsize, hsignature, haccepted, hin⟩, hunbounded, rfl⟩
      · exact .inr ⟨he, fun hreliable => ⟨fun h => h.rejected haccepted,
          fun h => hserves ⟨hreliable, h.array⟩⟩⟩
  · rintro e d' ⟨⟨-, hserves⟩, -⟩
    exact .inr ⟨by simp, fun hreliable => ⟨fun h => hserves ⟨hreliable, by decide, h.size⟩,
      fun h => hserves ⟨hreliable, by decide, h.size⟩⟩⟩

/-- **Reading a table**: the partitions of the GPT, or of the MBR where there is none.  A
reliable device on which there is either answers, and the kernel panics only over the length of
a partition. -/
theorem read_spec (env : Env) (d : Device) : Wp (read env) d
    (fun ps _ => Tells env.sectorCount d.disk ps) fun e _ => Fails env d.disk e := by
  rw [read, wp_bind, ask, wp_mapError]
  refine (Block.read_spec env d 0 1).mono ?_ ?_
  · rintro data d' ⟨rfl, rfl⟩
    dsimp only
    rw [number_of_le (by decide) (by decide), wp_bind, wp_checked_some]
    split
    · rename_i hother
      exact wp_pure.mpr (.nothing hother)
    rename_i hsignature
    rw [wp_bind]
    refine (readGpt_spec env (asked_disk d) (not_not.mp hsignature)).mono ?_ fun _ _ h => h
    rintro found d' (⟨rfl, hmbr⟩ | ⟨hgpt, hbounded, rfl⟩)
    · dsimp only
      rw [readMbr_eq _ fun i hi => mem_range.mp hi, wp_checked_some]
      exact .mbr hmbr
    · exact wp_pure.mpr (.gpt hgpt hbounded)
  · rintro e d' ⟨-, hserves⟩
    refine .inr ⟨by simp, fun hreliable => ⟨fun h => ?_, fun h => ?_⟩⟩
    · exact hserves ⟨hreliable, by decide, Nat.le_of_lt h.size⟩
    · exact hserves ⟨hreliable, by decide, Nat.le_of_lt h.size⟩

/-- What is read from a disk with a GPT, if the device is reliable. -/
theorem read_of_gpt (hreliable : env.Reliable) (hgpt : HasGpt env.sectorCount d.disk) :
    Bounded d.disk ∧ (read env d).1 = .ok (gptEntries d.disk) ∨
      ¬ Bounded d.disk ∧ (read env d).1 = .error .panic := by
  have hspec := read_spec env d
  rcases hrun : read env d with ⟨e | ps, d'⟩
  · rcases hspec.of_error hrun with ⟨-, hunbounded, rfl⟩ | ⟨-, hnone⟩
    · exact .inr ⟨hunbounded, rfl⟩
    · exact absurd hgpt (hnone hreliable).2
  · cases hspec.of_ok hrun with
    | nothing h => exact absurd hgpt.signature h
    | mbr h => exact absurd hgpt.accepted h.rejected
    | gpt _ hbounded => exact .inl ⟨hbounded, rfl⟩

theorem read_of_mbr (hreliable : env.Reliable) (hmbr : HasMbr env.sectorCount d.disk) :
    (read env d).1 = .ok (mbrEntries d.disk) := by
  have hspec := read_spec env d
  rcases hrun : read env d with ⟨e | ps, d'⟩
  · rcases hspec.of_error hrun with ⟨hgpt, -⟩ | ⟨-, hnone⟩
    · exact absurd hgpt.accepted hmbr.rejected
    · exact absurd hmbr (hnone hreliable).1
  · cases hspec.of_ok hrun with
    | nothing h => exact absurd hmbr.signature h
    | mbr => rfl
    | gpt hgpt => exact absurd hgpt.accepted hmbr.rejected

/-- The checksum of the entry array is the one the header states. -/
def entriesChecksumOk (disk : Disk) : Bool :=
  let h := GptHeader.of (disk 1)
  (crc32 (slice (entryArray disk) 0 (h.entryCount * h.entrySize))).toNat = h.entriesCrc

/-! ## What is written is read back -/

variable {row row' : Row} {pos length : Nat}

theorem slice_congr
    (h : ∀ i < length, row (pos + i) = row' (pos + i)) :
    slice row pos length = slice row' pos length :=
  map_congr_left fun i hi => h i (mem_range.mp hi)

/-- A header that is sealed with its checksum field zero passes its own check. -/
theorem checksumMatches_sealed {header : Row} (hsize : le (sealed header) 4 12 = 92)
    (hzero : ∀ i, 16 ≤ i → i < 20 → header i = 0) : checksumMatches (sealed header) = true := by
  have hslice : slice (put (sealed header) 16 4 0) 0 92 = slice header 0 92 := by
    apply slice_congr
    intro i hi
    by_cases hin : 16 ≤ 0 + i ∧ 0 + i < 20
    · rw [hzero _ hin.1 hin.2, put, if_pos hin]
      simp [byteOf]
    · rw [put, if_neg hin, sealed, put, if_neg hin]
  rw [checksumMatches, hsize, hslice, sealed, le_put_half (BitVec.isLt _)]
  exact decide_eq_true rfl

section Fields
variable {lba other entriesLba firstUsable lastUsable entryCount : Nat} {crc : BitVec 32}

/-- The signature and what is zero stays as it is while the other fields are filled in. -/
theorem gptFields_of_outside {i : Nat} (h : i < 8 ∨ 16 ≤ i ∧ i < 24) :
    gptFields lba other entriesLba firstUsable lastUsable entryCount crc i =
      copied zeroed 0 gptSignature i := by
  rw [gptFields]
  iterate 12 rw [put_of_outside (by omega)]

theorem of_gptFields (hlba : entriesLba < wordLimit) (hcount : entryCount < 0x100000000) :
    GptHeader.of (sealed (gptFields lba other entriesLba firstUsable lastUsable entryCount crc)) =
      ⟨92, entriesLba, entryCount, 128, crc.toNat⟩ := by
  simp (disch := decide) only [GptHeader.of, sealed, gptFields, le_put_of_disjoint,
    le_put_word hlba, le_put_half hcount, le_put_half crc.isLt, le_put_half]

theorem headerOk_gptFields :
    headerOk (sealed (gptFields lba other entriesLba firstUsable lastUsable entryCount crc)) =
      true := by
  have hsize : le (sealed (gptFields lba other entriesLba firstUsable lastUsable entryCount crc))
      4 12 = 92 := by
    simp (disch := decide) only [sealed, gptFields, le_put_of_disjoint, le_put_half]
  have hsignature : slice (sealed (gptFields lba other entriesLba firstUsable lastUsable entryCount
      crc)) 0 8 = gptSignature := by
    refine (slice_congr fun i hi => ?_).trans (show slice (copied zeroed 0 gptSignature) 0 8 = _ by
      decide)
    rw [sealed, put_of_outside (by omega), gptFields_of_outside (by omega)]
  have hzero : ∀ i, 16 ≤ i → i < 20 →
      gptFields lba other entriesLba firstUsable lastUsable entryCount crc i = 0 := by
    intro i hi hlt
    rw [gptFields_of_outside (by omega), copied, if_neg (by simp [gptSignature]; omega)]
    rfl
  rw [headerOk, hsize, hsignature, checksumMatches_sealed hsize hzero]
  decide

end Fields

/-- The disk carries a GPT with this one partition. -/
structure Written (disk : Disk) (total : Nat) (kind : List Byte) : Prop where
  mbr : disk 0 = protectiveMbr total
  header : disk 1 = sealed (gptFields 1 (total - 1) 2 34 (total - 34) 128
    (crc32 (slice (entryRow total 34 (total - 34) kind) 0 (128 * 128))))
  entries : ∀ k < entrySectors, disk (2 + k) = fun j =>
    entryRow total 34 (total - 34) kind (k * sectorSize + j)

/-- The same table again, at the far end. -/
structure BackedUp (disk : Disk) (total : Nat) (kind : List Byte) : Prop where
  header : disk (total - 1) = sealed (gptFields (total - 1) 1 (total - 33) 34 (total - 34) 128
    (crc32 (slice (entryRow total 34 (total - 34) kind) 0 (128 * 128))))
  entries : ∀ k < entrySectors, disk (total - 33 + k) = fun j =>
    entryRow total 34 (total - 34) kind (k * sectorSize + j)

/-- The first sector and the length of the protective MBR, of each header and of each entry
array. -/
def tableSectors (total : Nat) : List (Nat × Nat) :=
  [(0, 1), (1, 1), (2, entrySectors), (total - 33, entrySectors), (total - 1, 1)]

/-- The partition `write_single_partition_gpt` makes. -/
def wholeDisk (total : Nat) (kind : List Byte) : Partition :=
  ⟨0, 34, total - 34 - 34 + 1, kind.headD 0, kind, .gpt⟩

theorem writeSinglePartitionGpt_spec (env : Env) (d : Device) (kind : List Byte) :
    Wp (writeSinglePartitionGpt env kind) d
      (fun p d' => p = wholeDisk env.sectorCount kind ∧ 68 < env.sectorCount ∧
        Written d'.disk env.sectorCount kind ∧ BackedUp d'.disk env.sectorCount kind)
      fun _ _ => True := by
  simp only [writeSinglePartitionGpt, entrySectors, Nat.sub_sub, Nat.reduceAdd]
  by_cases hsmall : env.sectorCount < 64
  · rw [if_pos hsmall]
    exact wp_throw.mpr trivial
  by_cases hfull : env.sectorCount - 34 ≤ 34
  · rw [if_neg hsmall, if_pos hfull]
    exact wp_throw.mpr trivial
  rw [if_neg hsmall, if_neg hfull]
  have hwrite : ∀ {A : Type} {f : Requests A} {lba sectors : Nat} {data : Disk} {d : Device}
      {Q : A → Device → Prop}, Wp f (d.asked.store lba sectors data) Q (fun _ _ => True) →
      Wp (write env lba sectors data >>= fun _ => f) d Q fun _ _ => True := by
    intro A f lba sectors data d Q hrest
    rw [wp_bind]
    refine (write_spec env d lba sectors data).mono ?_ fun _ _ _ => trivial
    rintro - d' rfl
    exact hrest
  iterate 5 apply hwrite
  rw [wp_bind]
  refine (flush_spec env _).mono ?_ fun _ _ _ => trivial
  rintro - d' rfl
  rw [wp_pure]
  refine ⟨rfl, by omega, ⟨?_, ?_, fun k hk => ?_⟩, ?_, fun k hk => ?_⟩
  · rw [flushed_disk]
    iterate 4 rw [store_outside (by omega), asked_disk]
    rw [store_inside (by omega)]
  · rw [flushed_disk, store_outside (by omega), asked_disk, store_inside (by omega)]
  · rw [flushed_disk]
    rw [entrySectors] at hk
    iterate 3 rw [store_outside (by omega), asked_disk]
    rw [store_inside (by omega), Nat.add_sub_cancel_left]
  · rw [flushed_disk, store_inside (by omega)]
  · rw [flushed_disk]
    rw [entrySectors] at hk
    iterate 2 rw [store_outside (by omega), asked_disk]
    rw [store_inside (by omega), Nat.add_sub_cancel_left]

theorem le_copied_of_disjoint {bytes : List Byte} {width pos' : Nat}
    (h : pos' + width ≤ pos ∨ pos + bytes.length ≤ pos') :
    le (copied row pos bytes) width pos' = le row width pos' := by
  refine le_congr fun i hi hlt => ?_
  rw [copied, if_neg (by omega)]

section EntryRow
variable {total first last : Nat} {kind : List Byte}

theorem slice_entryRow (hkind : kind.length = 16) :
    slice (entryRow total first last kind) 0 16 = kind := by
  refine ext_getElem (by simp [slice, hkind]) fun i hi hlt => ?_
  have hi : i < 16 := by simpa [slice] using hi
  simp only [slice, getElem_map, getElem_range, Nat.zero_add]
  rw [entryRow, copied, if_neg (by omega)]
  iterate 4 rw [put_of_outside (by omega)]
  rw [copied, if_pos (by omega)]
  simp [hlt]

/-- Only the first entry is used. -/
theorem entryRow_of_ge {i : Nat} (hkind : kind.length = 16) (hi : 66 ≤ i) :
    entryRow total first last kind i = 0 := by
  rw [entryRow, copied, if_neg (by simp; omega)]
  iterate 4 rw [put_of_outside (by omega)]
  rw [copied, if_neg (by omega)]
  rfl

/-- The one entry describes the partition. -/
theorem gptPartition_entryRow (hkind : kind.length = 16) (hused : kind ≠ gptTypeUnused)
    (hlast : last < wordLimit) (hle : first ≤ last) :
    gptPartition (entryRow total first last kind) 128 0 =
      some ⟨0, first, last - first + 1, kind.headD 0, kind, .gpt⟩ := by
  have hslice : slice (entryRow total first last kind) 0 16 = kind := slice_entryRow hkind
  have hfirst : le (entryRow total first last kind) 8 32 = first := by
    rw [entryRow, le_copied_of_disjoint (by decide)]
    simp (disch := decide) only [le_put_of_disjoint, le_put_word (show first < wordLimit by omega)]
  have hlast' : le (entryRow total first last kind) 8 40 = last := by
    rw [entryRow, le_copied_of_disjoint (by decide), le_put_word hlast]
  have hhead : entryRow total first last kind 0 = kind.headD 0 := by
    obtain ⟨k, rest, rfl⟩ : ∃ k rest, kind = k :: rest := exists_cons_of_length_pos (by omega)
    exact (cons.inj hslice).1
  rw [gptPartition]
  simp only [Nat.zero_mul, Nat.zero_add, hslice, hfirst, hlast', hhead]
  rw [if_neg hused, if_neg (by omega)]

theorem gptPartition_entryRow_succ (hkind : kind.length = 16) (i : Nat) :
    gptPartition (entryRow total first last kind) 128 (i + 1) = none := by
  rw [gptPartition]
  refine if_pos ?_
  refine ext_getElem (by simp [slice, gptTypeUnused]) fun j hj hlt => ?_
  simp only [slice, getElem_map, getElem_range, gptTypeUnused, getElem_replicate]
  exact entryRow_of_ge hkind (by omega)

end EntryRow

theorem gptPartition_congr (h : ∀ j < 48, row (i * entrySize + j) = row' (i * entrySize + j)) :
    gptPartition row entrySize i = gptPartition row' entrySize i := by
  have hle : ∀ pos, i * entrySize ≤ pos → pos + 8 ≤ i * entrySize + 48 →
      le row 8 pos = le row' 8 pos := by
    intro pos hpos hlt
    refine le_congr fun k hk hkt => ?_
    obtain ⟨j, rfl⟩ := Nat.exists_eq_add_of_le (hpos.trans hk)
    exact h j (by omega)
  have hkind : row (i * entrySize) = row' (i * entrySize) := h 0 (by omega)
  simp only [gptPartition, slice_congr fun j (hj : j < 16) => h j (by omega), hkind,
    hle _ (Nat.le_add_right ..) (show _ + 32 + 8 ≤ _ by omega),
    hle _ (Nat.le_add_right ..) (show _ + 40 + 8 ≤ _ by omega)]

namespace Written
variable {env : Env} {d : Device} {kind : List Byte} (h : Written d.disk env.sectorCount kind)
include h

theorem of_header : GptHeader.of (d.disk 1) = ⟨92, 2, 128, 128, (crc32
    (slice (entryRow env.sectorCount 34 (env.sectorCount - 34) kind) 0 (128 * 128))).toNat⟩ := by
  rw [h.header, of_gptFields (by decide) (by decide)]

theorem entryArray_eq {i : Nat} (hi : i < 128 * 128) :
    entryArray d.disk i = entryRow env.sectorCount 34 (env.sectorCount - 34) kind i := by
  have hsector : i / sectorSize < entrySectors := by
    simp only [sectorSize, entrySectors]
    omega
  rw [entryArray, h.of_header, flat]
  dsimp only
  rw [h.entries _ hsector]
  exact congrArg _ (Nat.div_add_mod' i sectorSize)

/-- Both checksums match. -/
theorem checked : headerOk (d.disk 1) = true ∧ entriesChecksumOk d.disk = true := by
  refine ⟨h.header ▸ headerOk_gptFields, ?_⟩
  rw [entriesChecksumOk, h.of_header]
  refine decide_eq_true (congrArg (fun bytes => (crc32 bytes).toNat) (slice_congr fun i hi => ?_))
  rw [Nat.zero_add]
  exact h.entryArray_eq hi

theorem hasGpt (htotal : 68 < env.sectorCount) : HasGpt env.sectorCount d.disk := by
  have hneeded : (GptHeader.of (d.disk 1)).sectorsNeeded = 32 := by
    simp [h.of_header, GptHeader.sectorsNeeded, GptHeader.perSector, sectorSize]
  refine ⟨by omega, ?_, ⟨h.checked.1, ?_, ?_, ?_⟩, ?_⟩
  · rw [h.mbr]
    exact le_put_self (by decide)
  · simp [h.of_header]
  · simp [h.of_header]
  · simp [h.of_header, GptHeader.perSector, sectorSize]
  · rw [hneeded, h.of_header]
    dsimp only
    omega

/-- The one partition is what the entry array lists. -/
theorem entries_eq (htotal : 68 < env.sectorCount) (hlimit : env.sectorCount < wordLimit)
    (hkind : kind.length = 16) (hused : kind ≠ gptTypeUnused) :
    gptEntries d.disk = [wholeDisk env.sectorCount kind] := by
  have hentry : ∀ i < 128, gptPartition (entryArray d.disk) 128 i =
      gptPartition (entryRow env.sectorCount 34 (env.sectorCount - 34) kind) 128 i :=
    fun i hi => gptPartition_congr fun j hj => h.entryArray_eq (by omega)
  rw [gptEntries, h.of_header]
  dsimp only
  rw [filterMap_congr fun i hi => hentry i (mem_range.mp hi), range_succ_eq_map,
    filterMap_cons_some (gptPartition_entryRow hkind hused (by omega) (by omega))]
  refine congrArg _ (filterMap_eq_nil_iff.mpr fun i hi => ?_)
  obtain ⟨j, -, rfl⟩ := mem_map.mp hi
  exact gptPartition_entryRow_succ hkind j

theorem read_written (htotal : 68 < env.sectorCount)
    (hlimit : env.sectorCount < wordLimit) (hkind : kind.length = 16)
    (hused : kind ≠ gptTypeUnused) :
    Wp (read env) d (fun ps _ => ps = [wholeDisk env.sectorCount kind])
      fun _ _ => ¬ env.Reliable := by
  have hgpt := h.hasGpt htotal
  have hentries := h.entries_eq htotal hlimit hkind hused
  have hbounded : Bounded d.disk := by
    intro p hp
    rw [hentries, mem_singleton] at hp
    subst hp
    change env.sectorCount - 34 - 34 + 1 < wordLimit
    omega
  refine (read_spec env d).mono ?_ ?_
  · intro ps d' htells
    cases htells with
    | nothing h => exact absurd hgpt.signature h
    | mbr h => exact absurd hgpt.accepted h.rejected
    | gpt => exact hentries
  · rintro e d' (⟨-, hunbounded, -⟩ | ⟨-, hnone⟩) hreliable
    · exact hunbounded hbounded
    · exact (hnone hreliable).2 hgpt

end Written

/-- **What `write_single_partition_gpt` writes is read back**, and neither the partition nor a
part of the two tables lies on another. -/
theorem gpt_round_trip {env : Env} {kind : List Byte} {p : Partition} {d d' : Device}
    (hlimit : env.sectorCount < wordLimit) (hkind : kind.length = 16)
    (hused : kind ≠ gptTypeUnused) (hwrite : writeSinglePartitionGpt env kind d = (.ok p, d')) :
    (∀ ps d'', read env d' = (.ok ps, d'') → ps = [p]) ∧
    (env.Reliable → ∃ d'', read env d' = (.ok [p], d'')) ∧
    Written d'.disk env.sectorCount kind ∧ BackedUp d'.disk env.sectorCount kind ∧
    ((p.start, p.sectors) :: tableSectors env.sectorCount).Pairwise
      (fun a b => a.1 + a.2 ≤ b.1 ∨ b.1 + b.2 ≤ a.1) ∧
    ∀ a ∈ (p.start, p.sectors) :: tableSectors env.sectorCount,
      0 < a.2 ∧ a.1 + a.2 ≤ env.sectorCount := by
  obtain ⟨rfl, htotal, hwritten, hbackup⟩ := (writeSinglePartitionGpt_spec env d kind).of_ok hwrite
  have hread := hwritten.read_written htotal hlimit hkind hused
  refine ⟨fun ps d'' h => hread.of_ok h, fun hreliable => ?_, hwritten, hbackup, ?_, ?_⟩
  · rcases hr : read env d' with ⟨e | ps, d''⟩
    · exact absurd hreliable (hread.of_error hr)
    · exact ⟨d'', by rw [hread.of_ok hr]⟩
  · simp only [tableSectors, wholeDisk, entrySectors, pairwise_cons, forall_mem_cons]
    simp
    omega
  · simp only [tableSectors, wholeDisk, entrySectors, forall_mem_cons]
    simp
    omega

theorem gpt_round_trip_blank : ∃ d' d'', read (.reliable 128) d' =
    (.ok [wholeDisk 128 (replicate 16 1)], d'') := by
  have hwrite : (writeSinglePartitionGpt (.reliable 128) (replicate 16 1)
      ⟨fun _ => zeroed, 0, []⟩).1 = .ok (wholeDisk 128 (replicate 16 1)) := by
    decide +kernel
  exact ⟨_, (gpt_round_trip (by decide) rfl (by decide) (Prod.ext hwrite rfl)).2.1
    (Env.reliable_reliable 128)⟩

/-! ## Small tables -/

/-- A disk with this header and one sector of entries after it. -/
def tableDisk (header entries : Row) : Disk := fun b =>
  if b = 0 then protectiveMbr 128
  else if b = 1 then header
  else if b = 2 then entries
  else zeroed

/-- A disk with a GPT of one entry. -/
def gptDisk (first last : Nat) : Disk :=
  let entries := entryRow 128 first last (replicate 16 1)
  tableDisk (sealed (gptFields 1 127 2 34 94 1 (crc32 (slice entries 0 128)))) entries

/-- What is read from such a disk. -/
theorem read_gptDisk : read (.reliable 128) ⟨gptDisk 40 50, 0, []⟩ =
    (.ok [⟨0, 40, 11, 1, replicate 16 1, .gpt⟩],
      (read (.reliable 128) ⟨gptDisk 40 50, 0, []⟩).2) := by
  have hread : (read (.reliable 128) ⟨gptDisk 40 50, 0, []⟩).1 =
      .ok [⟨0, 40, 11, 1, replicate 16 1, .gpt⟩] := by
    decide +kernel
  rw [← hread]

/-- The one partition of such a disk. -/
theorem gptEntries_gptDisk : gptEntries (gptDisk 40 50) =
    [⟨0, 40, 11, 1, replicate 16 1, .gpt⟩] := by
  decide +kernel

/-! ## Panics -/

/-- **Reading a partition table is total**, whatever is on the disk, exactly if no entry of its
GPT has a length that no word holds: no other sum or index goes wrong. -/
theorem read_never_panics {n : Nat} {disk : Disk} :
    (∀ env d, env.sectorCount = n → d.disk = disk → (read env d).1 ≠ .error .panic) ↔
      (HasGpt n disk → Bounded disk) := by
  constructor
  · intro hnever hgpt
    rcases read_of_gpt (d := ⟨disk, 0, []⟩) (Env.reliable_reliable n) hgpt with
      ⟨hbounded, -⟩ | ⟨-, hpanic⟩
    · exact hbounded
    · exact absurd hpanic (hnever (.reliable n) _ rfl rfl)
  · rintro hbounded env d rfl rfl hpanic
    rcases hrun : read env d with ⟨r, d'⟩
    rw [hrun] at hpanic
    obtain rfl : r = .error .panic := hpanic
    rcases (read_spec env d).of_error hrun with ⟨hgpt, hunbounded, -⟩ | ⟨hother, -⟩
    · exact hunbounded (hbounded hgpt)
    · exact hother rfl

/-- The table of one entry is read without a panic. -/
theorem read_never_panics_intact :
    (read (.reliable 128) ⟨gptDisk 40 50, 0, []⟩).1 ≠ .error .panic := by
  refine read_never_panics.mpr (fun _ => ?_) (.reliable 128) ⟨gptDisk 40 50, 0, []⟩ rfl rfl
  rw [Bounded, gptEntries_gptDisk]
  decide

/-- **One entry panics**: from sector zero to the last sector a word can name. -/
theorem unbounded_panics :
    (read (.reliable 128) ⟨gptDisk 0 (wordLimit - 1), 0, []⟩).1 = .error .panic := by
  decide +kernel

/-! ## Damaged tables -/

/-- **When a damaged GPT is not acted on**: both checksums match whenever a partition of a GPT
is read, exactly if the entry array matches its checksum or is not used. -/
theorem gpt_checked {n : Nat} {disk : Disk} :
    (∀ env d ps d' p, env.sectorCount = n → d.disk = disk → read env d = (.ok ps, d') →
      p ∈ ps → p.scheme = .gpt → headerOk (disk 1) = true ∧ entriesChecksumOk disk = true) ↔
    (HasGpt n disk → Bounded disk → gptEntries disk ≠ [] → entriesChecksumOk disk = true) := by
  constructor
  · intro hchecked hgpt hbounded hsome
    obtain ⟨p, hp⟩ := exists_mem_of_ne_nil _ hsome
    rcases read_of_gpt (d := ⟨disk, 0, []⟩) (Env.reliable_reliable n) hgpt with
      ⟨-, hread⟩ | ⟨hunbounded, -⟩
    · exact (hchecked _ _ _ _ p rfl rfl (Prod.ext hread rfl) hp (mem_gpt hp).1).2
    · exact absurd hbounded hunbounded
  · rintro hentries env d ps d' p rfl rfl hread hp hscheme
    cases (read_spec env d).of_ok hread with
    | nothing => cases hp
    | mbr => cases (mem_mbr hp).1.symm.trans hscheme
    | gpt hgpt hbounded => exact ⟨hgpt.accepted.ok, hentries hgpt hbounded (ne_nil_of_mem hp)⟩

/-- An intact table of one entry is acted on. -/
theorem gpt_checked_intact : headerOk (gptDisk 40 50 1) = true ∧
    entriesChecksumOk (gptDisk 40 50) = true :=
  gpt_checked.mpr (fun _ _ _ => by decide +kernel) (.reliable 128) ⟨gptDisk 40 50, 0, []⟩ _ _ _
    rfl rfl read_gptDisk mem_cons_self rfl

/-- The entry array of a valid table is overwritten in one place, its checksum breaks, and the
partition it now describes is read all the same. -/
theorem damaged_entries_read : ∃ valid damaged : Disk,
    (∀ b, b ≠ 2 → damaged b = valid b) ∧ (GptHeader.of (valid 1)).entryLba = 2 ∧
    headerOk (valid 1) = true ∧ entriesChecksumOk valid = true ∧
    entriesChecksumOk damaged = false ∧
    ∃ p, (read (.reliable 128) ⟨damaged, 0, []⟩).1 = .ok [p] ∧ p.scheme = .gpt := by
  refine ⟨gptDisk 40 50, fun b => if b = 2 then put (gptDisk 40 50 2) 40 8 60 else gptDisk 40 50 b,
    fun b hb => if_neg hb, ?_, ?_, ?_, ?_, ?_⟩
  · decide +kernel
  · decide +kernel
  · decide +kernel
  · decide +kernel
  · refine ⟨⟨0, 40, 21, 1, replicate 16 1, .gpt⟩, ?_, rfl⟩
    decide +kernel

/-! ## Requests to a partition -/

/-- The sectors of the entry array. -/
def GptHeader.arraySectors (h : GptHeader) : Nat :=
  (h.entryCount * h.entrySize + sectorSize - 1) / sectorSize

/-- No partition on a disk of `n` sectors is described by its table to lie on it. -/
structure Clear (n : Nat) (disk : Disk) : Prop where
  mbr : HasMbr n disk → ∀ p ∈ mbrEntries disk, p.start + p.sectors ≤ n → p.start ≠ 0
  gpt : HasGpt n disk → Bounded disk → ∀ p ∈ gptEntries disk, p.start + p.sectors ≤ n →
    2 ≤ p.start ∧ let h := GptHeader.of (disk 1)
    (p.start + p.sectors ≤ h.entryLba ∨ h.entryLba + h.arraySectors ≤ p.start)

variable {dev : PartitionDevice}

/-- The sectors of a request that is in range are sectors of the partition. -/
theorem PartitionDevice.map_spec {lba first : Nat} (h : dev.map lba length = .ok first) :
    first = dev.start + lba ∧ lba + length / sectorSize ≤ dev.sectors := by
  grind [PartitionDevice.map, validateLength]

theorem PartitionDevice.new_eq_ok (hn : n < wordLimit) :
    PartitionDevice.new n p = .ok dev ↔ p.start + p.sectors ≤ n ∧ dev = ⟨p.start, p.sectors⟩ := by
  grind [PartitionDevice.new]

theorem arraySectors_pos {header : Row} (h : Accepted header)
    (hcount : 0 < (GptHeader.of header).entryCount) : 0 < (GptHeader.of header).arraySectors := by
  have hbytes : 1 * 128 ≤ (GptHeader.of header).entryCount * (GptHeader.of header).entrySize :=
    Nat.mul_le_mul hcount h.entrySize
  simp only [GptHeader.arraySectors, sectorSize]
  omega

/-- A request for one sector of a partition. -/
theorem PartitionDevice.map_sector {s : Nat} (hstart : dev.start ≤ s)
    (hend : s < dev.start + dev.sectors) (hlimit : dev.start + dev.sectors < wordLimit) :
    dev.map (s - dev.start) sectorSize = .ok s := by
  grind [PartitionDevice.map, validateLength, sectorSize]

/-- **When a partition cannot reach the table that describes it**: no request that is in range
touches sector zero or, for a GPT, its header or its entry array, exactly if the table does not
say it may. -/
theorem request_clear {n : Nat} {disk : Disk} (hn : n < wordLimit) :
    (∀ env d ps d' p dev lba length first s, env.sectorCount = n → d.disk = disk →
      read env d = (.ok ps, d') → p ∈ ps → PartitionDevice.new n p = .ok dev →
      dev.map lba length = .ok first → first ≤ s → s < first + length / sectorSize →
      s ≠ 0 ∧ (p.scheme = .gpt → s ≠ 1 ∧ let h := GptHeader.of (disk 1)
        ¬(h.entryLba ≤ s ∧ s < h.entryLba + h.arraySectors))) ↔ Clear n disk := by
  constructor
  · intro hclear
    -- Every sector of a partition can be asked for.
    have hsector : ∀ {ps p}, (read (.reliable n) ⟨disk, 0, []⟩).1 = .ok ps → p ∈ ps →
        p.start + p.sectors ≤ n → ∀ s, p.start ≤ s → s < p.start + p.sectors →
        s ≠ 0 ∧ (p.scheme = .gpt → s ≠ 1 ∧ let h := GptHeader.of (disk 1)
          ¬(h.entryLba ≤ s ∧ s < h.entryLba + h.arraySectors)) := by
      intro ps p hread hp hin s hstart hend
      refine hclear _ _ ps _ p _ _ _ s s rfl rfl (Prod.ext hread rfl) hp
        ((PartitionDevice.new_eq_ok hn).mpr ⟨hin, rfl⟩)
        (PartitionDevice.map_sector hstart hend ?_) le_rfl ?_
      · exact Nat.lt_of_le_of_lt hin hn
      · exact Nat.lt_succ_self s
    refine ⟨fun hmbr p hp hin => ?_, fun hgpt hbounded p hp hin => ?_⟩
    · have hpos := (mem_mbr hp).2
      have hread := read_of_mbr (d := ⟨disk, 0, []⟩) (Env.reliable_reliable n) hmbr
      exact (hsector hread hp hin p.start le_rfl (by omega)).1
    · obtain ⟨hscheme, hpos, hcount⟩ := mem_gpt hp
      have hread := (read_of_gpt (d := ⟨disk, 0, []⟩) (Env.reliable_reliable n) hgpt).resolve_right
        fun h => h.1 hbounded
      have hclear := hsector hread.2 hp hin
      have harray := arraySectors_pos hgpt.accepted hcount
      have hfirst := hclear p.start le_rfl (by omega)
      have hheader := (hfirst.2 hscheme).1
      refine ⟨by omega, ?_⟩
      dsimp only
      by_contra happart
      refine ((hclear (max p.start (GptHeader.of (disk 1)).entryLba) ?_ ?_).2 hscheme).2 ⟨?_, ?_⟩
      all_goals omega
  · rintro hclear env d ps d' p dev lba length first s rfl rfl hread hp hnew hmap hfirst hlast
    obtain ⟨rfl, hin⟩ := PartitionDevice.map_spec hmap
    obtain ⟨hinside, rfl⟩ := (PartitionDevice.new_eq_ok hn).mp hnew
    dsimp only at hfirst hlast hin
    cases (read_spec env d).of_ok hread with
    | nothing => cases hp
    | mbr hmbr =>
      have hstart := hclear.mbr hmbr p hp hinside
      exact ⟨by omega, fun hscheme => by cases (mem_mbr hp).1.symm.trans hscheme⟩
    | gpt hgpt hbounded =>
      obtain ⟨hstart, hapart⟩ := hclear.gpt hgpt hbounded p hp hinside
      dsimp only at hapart ⊢
      exact ⟨by omega, fun _ => ⟨by omega, by omega⟩⟩

/-- The table of `gptDisk` keeps its partition off itself. -/
theorem clear_gptDisk : Clear 128 (gptDisk 40 50) where
  mbr := by
    have hnone : mbrEntries (gptDisk 40 50) = [] := by decide +kernel
    rintro - p hp
    rw [hnone] at hp
    cases hp
  gpt := by
    rintro - - p hp -
    rw [gptEntries_gptDisk, mem_singleton] at hp
    subst hp
    exact ⟨by decide, by decide +kernel⟩

/-- The request for all of the partition of that disk. -/
theorem request_clear_whole : (PartitionDevice.mk 40 11).map 0 5632 = .ok 40 ∧
    ∀ s, 40 ≤ s → s < 40 + 5632 / sectorSize → s ≠ 0 ∧ s ≠ 1 ∧
      let h := GptHeader.of (gptDisk 40 50 1)
      ¬(h.entryLba ≤ s ∧ s < h.entryLba + h.arraySectors) := by
  have hmap : (PartitionDevice.mk 40 11).map 0 5632 = .ok 40 := rfl
  refine ⟨hmap, fun s hlow hhigh => ?_⟩
  obtain ⟨hzero, htable⟩ := (request_clear (n := 128) (by decide)).mpr clear_gptDisk
    (.reliable 128) ⟨gptDisk 40 50, 0, []⟩ _ _ _ _ _ _ _ _ rfl rfl read_gptDisk mem_cons_self rfl
    hmap hlow hhigh
  exact ⟨hzero, htable rfl⟩

/-- A disk whose MBR has one partition, which starts at sector zero. -/
def mbrDisk : Disk := fun _ => put (put (put zeroed 450 1 0x83) 458 4 8) 510 2 mbrSignature

/-- Partitions that start at sector zero are accepted, from an MBR and from a GPT, and their
first request touches it. -/
theorem table_reached :
    (∃ p dev, (read (.reliable 128) ⟨mbrDisk, 0, []⟩).1 = .ok [p] ∧ p.scheme = .mbr ∧
      PartitionDevice.new 128 p = .ok dev ∧ dev.map 0 512 = .ok 0) ∧
    ∃ p dev, (read (.reliable 128) ⟨gptDisk 0 10, 0, []⟩).1 = .ok [p] ∧ p.scheme = .gpt ∧
      PartitionDevice.new 128 p = .ok dev ∧ dev.map 0 1536 = .ok 0 := by
  refine ⟨⟨⟨0, 0, 8, 0x83, replicate 16 0, .mbr⟩, ⟨0, 8⟩, ?_, rfl, rfl, rfl⟩,
    ⟨0, 0, 11, 1, replicate 16 1, .gpt⟩, ⟨0, 11⟩, ?_, rfl, rfl, rfl⟩
  · decide +kernel
  · decide +kernel

end Panda.Partitions
