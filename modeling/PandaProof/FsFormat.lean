import PandaProof.BlockDevice
import PandaProof.Crc
import Mathlib.Data.List.Basic

/-!
# The on-disk format of the filesystem

Blocks of 512 bytes, one sector each.  A superblock names the root of a committed tree
and carries a checksum; an inode is a file or a directory with up to 60 direct pointers;
a directory block holds eight entries of 64 bytes.  Each structure has its `encode` and
`decode`, and decoding what was encoded gives the structure back.
-/
namespace Panda.Fs

open Bytes Block List

abbrev Byte := BitVec 8

/-- A sector of zeroes. -/
def zeroed : Sector := fun _ => 0

abbrev UserId := BitVec 32

def blockSize : Nat := 512
def magic : Nat := 0x50616E6461465301
def version : Nat := 2
def directBlocks : Nat := 60
def maxName : Nat := 55
def entriesPerBlock : Nat := 8

inductive NodeKind
  | file
  | directory
  deriving DecidableEq

/-! ## Text -/

/-- The ranges the bytes that finish a character must lie in, after each possible first
byte; `none` where no character starts so. -/
def utf8Rest (first : Nat) : Option (List (Nat × Nat)) :=
  if first ≤ 0x7F then some []
  else if 0xC2 ≤ first ∧ first ≤ 0xDF then some [(0x80, 0xBF)]
  else if first = 0xE0 then some [(0xA0, 0xBF), (0x80, 0xBF)]
  else if first = 0xED then some [(0x80, 0x9F), (0x80, 0xBF)]
  else if 0xE1 ≤ first ∧ first ≤ 0xEF then some [(0x80, 0xBF), (0x80, 0xBF)]
  else if first = 0xF0 then some [(0x90, 0xBF), (0x80, 0xBF), (0x80, 0xBF)]
  else if 0xF1 ≤ first ∧ first ≤ 0xF3 then some [(0x80, 0xBF), (0x80, 0xBF), (0x80, 0xBF)]
  else if first = 0xF4 then some [(0x80, 0x8F), (0x80, 0xBF), (0x80, 0xBF)]
  else none

/-- Read one more byte of text; `due` are the bytes the current character still needs. -/
def utf8Next (due : List (Nat × Nat)) (byte : Byte) : Option (List (Nat × Nat)) :=
  match due with
  | [] => utf8Rest byte.toNat
  | (low, high) :: due => if low ≤ byte.toNat ∧ byte.toNat ≤ high then some due else none

/-- `core::str::from_utf8` accepts these bytes. -/
def validUtf8 (bytes : List Byte) : Bool := bytes.foldlM utf8Next [] == some []

/-- A `str`: bytes that are valid UTF-8. -/
structure Str where
  bytes : List Byte
  valid : validUtf8 bytes = true

/-- The bytes of a name. -/
abbrev Name := List Byte

def slash : Byte := 0x2F

/-- No byte a character still needs can be ASCII. -/
theorem utf8Next_due {due rest : List (Nat × Nat)} {byte : Byte}
    (hdue : ∀ r ∈ due, 0x80 ≤ r.1) (h : utf8Next due byte = some rest) :
    ∀ r ∈ rest, 0x80 ≤ r.1 := by
  cases due with
  | nil =>
    simp only [utf8Next, utf8Rest] at h
    split_ifs at h <;> cases h <;> simp
  | cons range due =>
    simp only [utf8Next] at h
    split at h
    · cases h
      exact fun r hr => hdue r (mem_cons_of_mem _ hr)
    · contradiction

variable {bytes rest : List Byte}

theorem utf8_append_slash {due final : List (Nat × Nat)} (hdue : ∀ r ∈ due, 0x80 ≤ r.1)
    (h : (bytes ++ slash :: rest).foldlM utf8Next due = some final) :
    bytes.foldlM utf8Next due = some [] ∧ rest.foldlM utf8Next [] = some final := by
  induction bytes generalizing due with
  | nil =>
    cases due with
    | nil => exact ⟨rfl, h⟩
    | cons range due =>
      have hlow := hdue range mem_cons_self
      have hnext : utf8Next (range :: due) slash = none := by
        rw [utf8Next, if_neg]
        have hslash : slash.toNat = 0x2F := rfl
        omega
      rw [nil_append, foldlM_cons, hnext] at h
      contradiction
  | cons byte bytes ih =>
    rw [cons_append, foldlM_cons] at h
    obtain ⟨_, hnext, htail⟩ := Option.bind_eq_some_iff.mp h
    obtain ⟨hleft, hright⟩ := ih (utf8Next_due hdue hnext) htail
    refine ⟨?_, hright⟩
    rw [foldlM_cons, hnext]
    exact hleft

/-- **Text cut at a slash is text on both sides.** -/
theorem validUtf8_of_slash (h : validUtf8 (bytes ++ slash :: rest) = true) :
    validUtf8 bytes = true ∧ validUtf8 rest = true := by
  simp only [validUtf8, beq_iff_eq] at h ⊢
  exact utf8_append_slash (by simp) h

/-! ## Superblocks -/

variable {row : Row} {pos v : Nat}

theorem le_put_word (hv : v < wordLimit) : le (put row pos 8 v) 8 pos = v := le_put_self hv

theorem le_put_half (hv : v < 0x100000000) : le (put row pos 4 v) 4 pos = v := le_put_self hv

def crc32Bit (crc : BitVec 32) : BitVec 32 :=
  let mask := -(crc &&& 1)
  (crc >>> 1) ^^^ (0xEDB88320 &&& mask)

def crc32Byte (crc : BitVec 32) (byte : Byte) : BitVec 32 :=
  Nat.repeat crc32Bit 8 (crc ^^^ byte.setWidth 32)

def crc32 (bytes : List Byte) : BitVec 32 := ~~~bytes.foldl crc32Byte (BitVec.allOnes 32)

/-- The root of a committed tree.  `encode` computes the checksum afresh and no code reads
it back, so it is not kept. -/
@[ext] structure SuperBlock where
  magic : Nat
  version : Nat
  /-- Higher wins. -/
  generation : Nat
  /-- Total blocks on the device. -/
  totalBlocks : Nat
  /-- First block of the allocation bitmap. -/
  bitmapStart : Nat
  bitmapBlocks : Nat
  /-- Block holding the root directory's inode. -/
  rootInode : Nat
  /-- First block that can hold data. -/
  firstDataBlock : Nat
  deriving DecidableEq

namespace SuperBlock

/-- The part of the block the checksum covers, as bytes. -/
def header (block : Sector) : List Byte := (range 64).map block

/-- The fields, without the checksum. -/
def fields (s : SuperBlock) : Sector :=
  let block := put zeroed 0 8 s.magic
  let block := put block 8 4 s.version
  let block := put block 16 8 s.generation
  let block := put block 24 8 s.totalBlocks
  let block := put block 32 8 s.bitmapStart
  let block := put block 40 8 s.bitmapBlocks
  let block := put block 48 8 s.rootInode
  put block 56 8 s.firstDataBlock

def encode (s : SuperBlock) : Sector :=
  put s.fields 64 4 (crc32 (header s.fields)).toNat

def decode (block : Sector) : Option SuperBlock :=
  if le block 8 0 ≠ Fs.magic then none
  else if (crc32 (header block)).toNat ≠ le block 4 64 then none
  else some {
    magic := le block 8 0
    version := le block 4 8
    generation := le block 8 16
    totalBlocks := le block 8 24
    bitmapStart := le block 8 32
    bitmapBlocks := le block 8 40
    rootInode := le block 8 48
    firstDataBlock := le block 8 56 }

/-- The magic is right and every field fits its type. -/
structure Fits (s : SuperBlock) : Prop where
  magic : s.magic = Fs.magic
  version : s.version < 0x100000000
  generation : s.generation < wordLimit
  totalBlocks : s.totalBlocks < wordLimit
  bitmapStart : s.bitmapStart < wordLimit
  bitmapBlocks : s.bitmapBlocks < wordLimit
  rootInode : s.rootInode < wordLimit
  firstDataBlock : s.firstDataBlock < wordLimit

theorem header_encode (s : SuperBlock) : header s.encode = header s.fields := by
  refine map_congr_left fun i hi => ?_
  exact put_of_outside (.inl (mem_range.mp hi))

theorem checksum_encode (s : SuperBlock) : le s.encode 4 64 = (crc32 (header s.fields)).toNat :=
  le_put_half (crc32 (header s.fields)).isLt

variable {s : SuperBlock}

theorem magic_encode (h : s.Fits) : le s.encode 8 0 = Fs.magic := by
  have hword : s.magic < wordLimit := by rw [h.magic]; decide
  simp (disch := omega) only [encode, fields, le_put_of_disjoint]
  rw [le_put_word hword, h.magic]

/-- **A superblock survives encoding.** -/
theorem decode_encode (h : s.Fits) : decode s.encode = some s := by
  rw [decode, if_neg (by simp [magic_encode h]),
    if_neg (by rw [header_encode, checksum_encode]; simp)]
  refine congrArg some (SuperBlock.ext ?_ ?_ ?_ ?_ ?_ ?_ ?_ ?_)
  · exact (magic_encode h).trans h.magic.symm
  all_goals simp (disch := omega) only [encode, fields, le_put_of_disjoint]
  · exact le_put_half h.version
  · exact le_put_word h.generation
  · exact le_put_word h.totalBlocks
  · exact le_put_word h.bitmapStart
  · exact le_put_word h.bitmapBlocks
  · exact le_put_word h.rootInode
  · exact le_put_word h.firstDataBlock

/-! ### Bursts -/

theorem crc32Bit_toNat (c : BitVec 32) : (crc32Bit c).toNat = Crc.shift 0xEDB88320 c.toNat := by
  have hbit : c.toNat.testBit 0 = c.getLsbD 0 := rfl
  have hmask : c &&& 1 = (BitVec.ofBool (c.getLsbD 0)).setWidth 32 :=
    BitVec.and_one_eq_setWidth_ofBool_getLsbD
  rw [crc32Bit, hmask, Crc.shift, hbit]
  cases c.getLsbD 0 <;> simp

theorem crc32Byte_toNat (c : BitVec 32) (byte : Byte) :
    (crc32Byte c byte).toNat = Crc.feed 0xEDB88320 c.toNat byte := by
  have hrepeat : ∀ n (x : BitVec 32),
      (Nat.repeat crc32Bit n x).toNat = (Crc.shift 0xEDB88320)^[n] x.toNat := by
    intro n x
    induction n with
    | zero => rfl
    | succ n ih => rw [Nat.repeat, crc32Bit_toNat, ih, Function.iterate_succ_apply']
  rw [crc32Byte, hrepeat, Crc.feed, BitVec.toNat_xor, BitVec.toNat_setWidth_of_le (by decide)]

theorem foldl_crc32Byte_toNat (bytes : List Byte) (c : BitVec 32) :
    (bytes.foldl crc32Byte c).toNat = bytes.foldl (Crc.feed 0xEDB88320) c.toNat := by
  induction bytes generalizing c with
  | nil => rfl
  | cons byte bytes ih => rw [foldl_cons, foldl_cons, ih, crc32Byte_toNat]

/-- **A short burst is always noticed**: whatever bits of the header are changed within 32
consecutive ones, least significant first, the block no longer decodes, and left alone it
does. -/
theorem burst_detected (s : SuperBlock) {e : Sector} {p : Nat}
    (hwithin : ∀ j, (e (j / 8)).getLsbD (j % 8) = true → p ≤ j ∧ j < p + 32 ∧ j < 512)
    (hsome : ∃ j, (e (j / 8)).getLsbD (j % 8) = true) :
    (s.Fits → decode s.encode = some s) ∧ decode (fun i => s.encode i ^^^ e i) = none := by
  refine ⟨decode_encode, ?_⟩
  have hburst : Crc.Burst 31 (le e 64 0) := by
    obtain ⟨j, hj⟩ := hsome
    refine ⟨⟨j, ?_⟩, p, fun i hi => ?_⟩
    · have := hwithin j hj
      rw [Crc.testBit_le, decide_eq_true (by omega), Nat.zero_add, hj]
      rfl
    · rw [Crc.testBit_le, Nat.zero_add, Bool.and_eq_true] at hi
      have := hwithin i hi.2
      omega
  have htop : Crc.Top 0xEDB88320 31 := by
    refine ⟨by decide, fun j hj => ?_⟩
    have hpow : 2 ^ j < 2 ^ 32 := (Nat.ge_two_pow_of_testBit hj).trans_lt (by decide)
    exact Nat.le_of_lt_succ ((Nat.pow_lt_pow_iff_right (by decide)).mp hpow)
  have hsum : le (fun i => s.encode i ^^^ e i) 4 64 = le s.encode 4 64 := by
    refine le_congr fun i hi _ => ?_
    have hnone : e i = 0 := BitVec.eq_of_getLsbD_eq fun k hk => by
      by_contra hbit
      have hk' : (e ((8 * i + k) / 8)).getLsbD ((8 * i + k) % 8) = true := by
        rw [show (8 * i + k) / 8 = i by omega, show (8 * i + k) % 8 = k by omega]
        simpa using hbit
      have := hwithin _ hk'
      omega
    rw [hnone]
    simp
  rw [decode]
  split
  · rfl
  rw [if_pos]
  rw [hsum, checksum_encode, ← header_encode]
  intro heq
  have hfold := congrArg BitVec.toNat (BitVec.not_inj.mp (BitVec.eq_of_toNat_eq heq))
  rw [foldl_crc32Byte_toNat, foldl_crc32Byte_toNat, header, header, range_eq_range'] at hfold
  exact Crc.feed_ne hburst htop hfold

/-- The lowest bit of byte 17, in the generation of a small volume's superblock. -/
theorem burst_detected_generation : decode (encode ⟨Fs.magic, 2, 1, 4096, 2, 1, 3, 4⟩) =
      some ⟨Fs.magic, 2, 1, 4096, 2, 1, 3, 4⟩ ∧
    decode (fun i => encode ⟨Fs.magic, 2, 1, 4096, 2, 1, 3, 4⟩ i ^^^ if i = 17 then 1 else 0) =
      none := by
  obtain ⟨hkept, hnone⟩ := burst_detected ⟨Fs.magic, 2, 1, 4096, 2, 1, 3, 4⟩
    (e := fun i => if i = 17 then 1 else 0) (p := 136) (fun j hj => by
      split at hj
      · rw [show (1 : BitVec 8).getLsbD (j % 8) = decide (j % 8 = 0) by simp] at hj
        have := of_decide_eq_true hj
        omega
      · simp at hj) ⟨136, rfl⟩
  exact ⟨hkept ⟨rfl, by decide, by decide, by decide, by decide, by decide, by decide, by decide⟩,
    hnone⟩

end SuperBlock

/-! ## Inodes -/

inductive FsError
  | notFormatted
  | wrongVersion
  | notFound
  | exists
  | badName
  | tooLarge
  | full
  | wrongType
  | notEmpty
  | denied
  | device (error : BlockError)
  | corrupt
  deriving DecidableEq

def ownerRead : BitVec 16 := 1
def ownerWrite : BitVec 16 := 2
def othersRead : BitVec 16 := 4
def othersWrite : BitVec 16 := 8
def allPermissions : BitVec 16 := ownerRead ||| ownerWrite ||| othersRead ||| othersWrite

/-- Its owner may change it, anyone may read it. -/
def defaultMode : BitVec 16 := ownerRead ||| ownerWrite ||| othersRead

/-- Whether `user` may read, or write, a node with this owner and mode.  `none` is the
kernel acting on its own account, which permissions do not bind. -/
def permits (owner : UserId) (mode : BitVec 16) (user : Option UserId) (write : Bool) : Bool :=
  match user with
  | none => true
  | some user =>
    let bit := match user == owner, write with
      | true, false => ownerRead
      | true, true => ownerWrite
      | false, false => othersRead
      | false, true => othersWrite
    mode &&& bit != 0

/-- A file or directory. -/
@[ext] structure Inode where
  kind : Nat
  owner : UserId
  mode : BitVec 16
  /-- Bytes for a file; entries for a directory. -/
  size : Nat
  blocksUsed : Nat
  direct : List Nat
  direct_length : direct.length = directBlocks

namespace Inode

def nodeKind (inode : Inode) : NodeKind := if inode.kind = 1 then .directory else .file

def permits (inode : Inode) (user : Option UserId) (write : Bool) : Bool :=
  Fs.permits inode.owner inode.mode user write

/-- Everything but the pointers. -/
def fields (inode : Inode) : Sector :=
  let block := put zeroed 0 4 inode.kind
  let block := put block 4 4 inode.owner.toNat
  let block := put block 8 8 inode.size
  let block := put block 16 4 inode.blocksUsed
  put block 20 2 inode.mode.toNat

def encode (inode : Inode) : Sector := putWords inode.fields 24 inode.direct

def decode (block : Sector) : Except FsError Inode :=
  if 1 < le block 4 0 then .error .corrupt
  else .ok {
    kind := le block 4 0
    owner := BitVec.ofNat 32 (le block 4 4)
    mode := BitVec.ofNat 16 (le block 2 20) &&& allPermissions
    size := le block 8 8
    blocksUsed := le block 4 16
    direct := words block 24 directBlocks
    direct_length := length_words _ _ _ }

/-- Every field fits its type, and the kind and mode are ones the code writes. -/
structure Fits (inode : Inode) : Prop where
  kind : inode.kind ≤ 1
  mode : inode.mode &&& allPermissions = inode.mode
  size : inode.size < wordLimit
  blocksUsed : inode.blocksUsed ≤ directBlocks
  direct : ∀ p ∈ inode.direct, p < wordLimit

variable {inode : Inode}

/-- What was read from a disk fits, if it does not claim too many pointers. -/
theorem fits_of_decode {block : Sector} (h : decode block = .ok inode)
    (hused : inode.blocksUsed ≤ directBlocks) : inode.Fits := by
  rw [decode] at h
  split at h
  case isTrue => contradiction
  rename_i hkind
  cases h
  refine ⟨Nat.not_lt.mp hkind, ?_, le_lt block 8 8, hused, fun p hp => words_lt hp⟩
  rw [BitVec.and_assoc, BitVec.and_self]

theorem le_encode {width pos : Nat} (h : pos + width ≤ 24) :
    le inode.encode width pos = le inode.fields width pos := le_putWords_of_disjoint (.inl h)

theorem kind_encode (h : inode.Fits) : le inode.encode 4 0 = inode.kind := by
  rw [le_encode (by omega)]
  simp (disch := omega) only [fields, le_put_of_disjoint]
  exact le_put_half (Nat.lt_of_le_of_lt h.kind (by decide))

/-- **An inode survives encoding.** -/
theorem decode_encode (h : inode.Fits) : decode inode.encode = .ok inode := by
  have hkind := kind_encode h
  rw [decode, if_neg (by rw [hkind]; exact Nat.not_lt.mpr h.kind)]
  refine congrArg Except.ok (Inode.ext hkind ?_ ?_ ?_ ?_ ?_)
  · have howner : le inode.encode 4 4 = inode.owner.toNat := by
      rw [le_encode (by omega)]
      simp (disch := omega) only [fields, le_put_of_disjoint]
      exact le_put_half inode.owner.isLt
    simp [howner, BitVec.ofNat_toNat, BitVec.setWidth_eq]
  · have hmode : le inode.encode 2 20 = inode.mode.toNat := by
      rw [le_encode (by omega)]
      exact le_put_self inode.mode.isLt
    simp [hmode, BitVec.ofNat_toNat, BitVec.setWidth_eq, h.mode]
  · show le inode.encode 8 8 = inode.size
    rw [le_encode (by omega)]
    simp (disch := omega) only [fields, le_put_of_disjoint]
    exact le_put_word h.size
  · show le inode.encode 4 16 = inode.blocksUsed
    rw [le_encode (by omega)]
    simp (disch := omega) only [fields, le_put_of_disjoint]
    exact le_put_half (Nat.lt_of_le_of_lt h.blocksUsed (by decide))
  · show words inode.encode 24 directBlocks = inode.direct
    rw [encode, ← inode.direct_length]
    exact words_putWords h.direct

end Inode

/-! ## Directory entries -/

/-- One name in a directory. -/
@[ext] structure DirEntry where
  /-- Block holding the inode, or zero for an unused slot. -/
  inode : Nat
  nameLength : Byte
  name : List Byte
  name_full : name.length = maxName

namespace DirEntry

/-- Byte `i` of the entry's 64, as `encode_into` lays them out. -/
def byte (e : DirEntry) (i : Nat) : Byte :=
  if i < 8 then byteOf e.inode i
  else if i = 8 then e.nameLength
  else e.name.getD (i - 9) 0

def decode (bytes : Row) : DirEntry where
  inode := le bytes 8 0
  nameLength := bytes 8
  name := (range maxName).map fun k => bytes (9 + k)
  name_full := by simp

/-- The bytes of the name, whether they are text or not. -/
def rawName (e : DirEntry) : Name := e.name.take (min e.nameLength.toNat maxName)

def nameStr (e : DirEntry) : Option Name := if validUtf8 e.rawName then some e.rawName else none

/-- The entry that gives `target` this name, which must not be longer than `maxName`. -/
def naming (name : Name) (target : Nat) : DirEntry where
  inode := target
  nameLength := BitVec.ofNat 8 name.length
  name := (name ++ replicate maxName 0).take maxName
  name_full := by simp

theorem decode_byte {e : DirEntry} (h : e.inode < wordLimit) {bytes : Row}
    (hb : ∀ i, i < 64 → bytes i = e.byte i) : decode bytes = e := by
  refine DirEntry.ext ?_ ?_ ?_
  · refine le_of_bytes (fun k hk => ?_) h
    rw [Nat.zero_add, hb k (by omega), byte, if_pos hk]
  · exact hb 8 (by decide)
  have hfull : e.name.length = 55 := e.name_full
  refine ext_getElem (by simp [decode, e.name_full]) fun k h₁ h₂ => ?_
  have hbyte : e.byte (9 + k) = e.name[k] := by
    have hk : 9 + k - 9 = k := by omega
    rw [byte, if_neg (by omega), if_neg (by omega), hk]
    simp [h₂]
  simp only [decode, getElem_map, getElem_range]
  rw [hb _ (by omega), hbyte]

theorem rawName_naming {name : Name} (h : name.length ≤ maxName) (target : Nat) :
    (naming name target).rawName = name := by
  have hlen : name.length ≤ 55 := h
  have htoNat : (BitVec.ofNat 8 name.length).toNat = name.length := by
    rw [BitVec.toNat_ofNat]
    omega
  have hmin : min name.length maxName = name.length := Nat.min_eq_left h
  rw [rawName, naming, htoNat, hmin, take_take, Nat.min_eq_left h, take_left]

end DirEntry

/-- The eight entries of a directory block. -/
def entriesOf (data : Sector) : List DirEntry :=
  (range entriesPerBlock).map fun index => DirEntry.decode fun i => data (index * 64 + i)

/-- The entries of a directory block that are in use. -/
def liveEntries (data : Sector) : List DirEntry := (entriesOf data).filter (·.inode ≠ 0)

/-- A directory block holding these entries, zeroes after them. -/
def entriesBlock (chunk : List DirEntry) : Sector := fun i =>
  match chunk[i / 64]? with
  | some e => e.byte (i % 64)
  | none => 0

variable {chunk : List DirEntry} {index i : Nat}

theorem entriesBlock_of_some {e : DirEntry} (he : chunk[index]? = some e) (hi : i < 64) :
    entriesBlock chunk (index * 64 + i) = e.byte i := by
  have hdiv : (index * 64 + i) / 64 = index := by omega
  have hmod : (index * 64 + i) % 64 = i := by omega
  rw [entriesBlock, hdiv, he, hmod]

theorem entriesBlock_of_none (he : chunk[index]? = none) (hi : i < 64) :
    entriesBlock chunk (index * 64 + i) = 0 := by
  have hdiv : (index * 64 + i) / 64 = index := by omega
  rw [entriesBlock, hdiv, he]

theorem le_zeroes {width : Nat}
    (h : ∀ i, pos ≤ i → i < pos + width → row i = 0) : le row width pos = 0 := by
  induction width generalizing pos with
  | zero => rfl
  | succ width ih =>
    rw [le, h pos (by omega) (by omega), ih fun i hi hlt => h i (by omega) (by omega)]
    rfl

/-- The entries a block of entries is read as: its own, and unused ones after them. -/
theorem decode_entriesBlock (h : ∀ e ∈ chunk, e.inode < wordLimit) (index : Nat) :
    (∀ e, chunk[index]? = some e →
      DirEntry.decode (fun i => entriesBlock chunk (index * 64 + i)) = e) ∧ (chunk[index]? = none →
      (DirEntry.decode fun i => entriesBlock chunk (index * 64 + i)).inode = 0) := by
  constructor
  · intro e he
    exact DirEntry.decode_byte (h e (mem_of_getElem? he)) fun i hi =>
      entriesBlock_of_some he hi
  · intro hnone
    exact le_zeroes fun i _ hi => entriesBlock_of_none hnone (by omega)

/-- **Directory entries survive encoding**, up to eight in a block. -/
theorem liveEntries_entriesBlock (hlen : chunk.length ≤ entriesPerBlock)
    (h : ∀ e ∈ chunk, e.inode ≠ 0 ∧ e.inode < wordLimit) :
    liveEntries (entriesBlock chunk) = chunk := by
  have hdecode := decode_entriesBlock fun e he => (h e he).2
  have hsplit : range entriesPerBlock =
      range chunk.length ++ (range (entriesPerBlock - chunk.length)).map (chunk.length + ·) := by
    rw [← range_add, Nat.add_sub_cancel' hlen]
  rw [liveEntries, entriesOf, hsplit, map_append, filter_append]
  have hown : (range chunk.length).map (fun index =>
      DirEntry.decode fun i => entriesBlock chunk (index * 64 + i)) = chunk := by
    refine ext_getElem (by simp) fun k _ hk => ?_
    simp only [getElem_map, getElem_range]
    exact (hdecode k).1 _ (getElem?_eq_getElem hk)
  rw [hown, filter_eq_self.mpr fun e he => by simpa using (h e he).1]
  refine (append_right_eq_self).mpr (filter_eq_nil_iff.mpr ?_)
  intro e he
  simp only [map_map, mem_map, Function.comp_apply] at he
  obtain ⟨k, -, rfl⟩ := he
  simpa using (hdecode (chunk.length + k)).2 (getElem?_eq_none (by omega))

end Panda.Fs
