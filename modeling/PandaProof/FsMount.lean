import PandaProof.FsOperations
import PandaProof.PowerCut

/-!
# Mounting

A disk can be mounted when one superblock slot decodes and the other does not, or is
older; the state mounted from it is then read straight off the disk.  `Sound` is what
holds of a mounted filesystem at rest, in memory and on the disk, and `format` sets it up.
-/
namespace Panda.Fs

open Block Prog

variable {env : Env} {w : World}

/-! ## Reading the superblocks -/

/-- This slot holds the newest superblock that decodes. -/
structure Live (d : Disk) (sb : SuperBlock) (slot : Nat) : Prop where
  slot_le : slot ≤ 1
  decodes : SuperBlock.decode (d slot) = some sb
  older : ∀ other, SuperBlock.decode (d (1 - slot)) = some other → other.generation < sb.generation

variable {d : Disk} {sb : SuperBlock} {slot : Nat}

theorem Live.newest_eq (h : Live d sb slot) :
    newest (SuperBlock.decode (d 0)) (SuperBlock.decode (d 1)) = some (sb, slot) := by
  obtain ⟨_, hdecodes, hother⟩ := h
  obtain rfl | rfl : slot = 0 ∨ slot = 1 := by omega
  · rw [hdecodes]
    cases hsecond : SuperBlock.decode (d 1) with
    | none => rfl
    | some other =>
      have := hother other hsecond
      rw [newest, if_pos (by omega)]
  · rw [hdecodes]
    cases hfirst : SuperBlock.decode (d 0) with
    | none => rfl
    | some other =>
      have := hother other hfirst
      rw [newest, if_neg (by omega)]

/-- The state mounted from a disk, given its live superblock. -/
def mountedFrom (d : Disk) (sb : SuperBlock) (slot : Nat) : State where
  superblock := sb
  liveSlot := slot
  bitmap := bitmapOf fun k => d (sb.bitmapStart + k)
  bitmapLength := sb.bitmapBlocks * blockSize
  retired := []

theorem wp_ask {A : Type} {p : Requests A} {d : Device} {Q : A → Device → Prop}
    {R : Stop → Device → Prop} :
    Prog.Wp (ask p) d Q R ↔ Prog.Wp p d Q fun e d' => R (deviceError e) d' := by
  simp [ask, wp_mapError]

/-- **Mounting** a disk with a live superblock, on a device where nothing fails. -/
theorem mount_spec (hr : env.Reliable) {d : Device}
    (h : Live d.disk sb slot) (hl : Layout env (mountedFrom d.disk sb slot)) : Prog.Wp (mount env) d
      (fun s d' => s = mountedFrom d.disk sb slot ∧ d'.disk = d.disk ∧ d'.log = d.log)
      (fun _ _ => False) := by
  have hfirst : sb.firstDataBlock = sb.bitmapBlocks + 3 := hl.firstData
  have hroom : sb.firstDataBlock < sb.totalBlocks := hl.room
  have htotal : sb.totalBlocks = env.sectorCount := hl.total
  have hstart : sb.bitmapStart = 2 := hl.bitmapStart
  have hblocks : 0 < sb.bitmapBlocks := hl.bitmapBlocks
  have hmemory : sb.bitmapBlocks * blockSize < allocationLimit := hl.memory
  rw [mount]
  simp only [wp_bind, wp_ask]
  refine (read_spec env d 0 1).mono ?_ ?_
  case refine_2 =>
    rintro e d' ⟨-, hfail⟩
    exact hfail ⟨hr, Nat.one_pos, by omega⟩
  rintro _ _ ⟨rfl, rfl⟩
  refine (read_spec env d.asked 1 1).mono ?_ ?_
  case refine_2 =>
    rintro e d' ⟨-, hfail⟩
    exact hfail ⟨hr, Nat.one_pos, by omega⟩
  rintro _ _ ⟨rfl, rfl⟩
  simp only [asked_disk, Nat.add_zero, h.newest_eq]
  have hversion : sb.version = version := hl.version
  rw [if_neg (not_not.mpr hversion), if_neg (not_le.mpr hmemory)]
  simp only [wp_bind, wp_ask]
  refine (read_spec env d.asked.asked sb.bitmapStart sb.bitmapBlocks).mono ?_ ?_
  case refine_2 =>
    rintro e d' ⟨-, hfail⟩
    exact hfail ⟨hr, hblocks, by omega⟩
  rintro _ _ ⟨rfl, rfl⟩
  rw [wp_pure]
  exact ⟨rfl, rfl, rfl⟩

/-! ## A filesystem at rest -/

/-- The bitmap on the disk. -/
def bitmapOnDisk (d : Disk) (sb : SuperBlock) : Nat → Byte :=
  bitmapOf fun k => d (sb.bitmapStart + k)

/-- What holds of a mounted filesystem between operations, in memory and on the disk. -/
structure Sound (env : Env) (w : World) (t : Tree) (blocks : List Nat) : Prop where
  layout : Layout env w.state
  live : Live w.disk w.state.superblock w.state.liveSlot
  owned : Owned w w.state.superblock.rootInode t blocks
  durable : ∀ b ∈ blocks, Bitmap.test (bitmapOnDisk w.disk w.state.superblock) b = true
  retired : w.state.retired = []

/-- A disk that carries a sound filesystem, whatever is in memory. -/
structure Mountable (env : Env) (d : Disk) (sb : SuperBlock) (slot : Nat) (t : Tree)
    (blocks : List Nat) : Prop where
  layout : Layout env (mountedFrom d sb slot)
  live : Live d sb slot
  shows : Shows d sb.rootInode t blocks
  nodup : blocks.Nodup
  durable : ∀ b ∈ blocks, Bitmap.test (bitmapOnDisk d sb) b = true
  area : ∀ b ∈ blocks, (mountedFrom d sb slot).InArea b

variable {t : Tree} {blocks : List Nat}

/-- A mountable disk with what is mounted from it in memory is sound. -/
theorem Mountable.sound {device : Device} (h : Mountable env d sb slot t blocks)
    (hdisk : device.disk = d) : Sound env ⟨device, mountedFrom d sb slot⟩ t blocks := by
  subst hdisk
  refine ⟨h.layout, h.live, ⟨h.shows, h.nodup, fun b hb => ?_, h.area⟩, h.durable, rfl⟩
  have hbyte := h.layout.byte_in_bitmap (h.area b hb).2
  show (decide (b / 8 < (mountedFrom device.disk sb slot).bitmapLength) && _) = true
  rw [decide_eq_true hbyte]
  exact h.durable b hb

/-- **A mountable disk mounts**, and the mounted filesystem is sound. -/
theorem Mountable.mount (hr : env.Reliable) {d : Device}
    (h : Mountable env d.disk sb slot t blocks) :
    ∃ d', mount env d = (.ok (mountedFrom d.disk sb slot), d') ∧ d'.disk = d.disk ∧
      d'.log = d.log ∧ Sound env ⟨d', mountedFrom d.disk sb slot⟩ t blocks := by
  obtain ⟨s, d', hmount, rfl, hdisk, hlog⟩ := wp_iff_ok.mp (mount_spec hr h.live h.layout)
  exact ⟨d', hmount, hdisk, hlog, h.sound hdisk⟩

theorem Sound.mountable (h : Sound env w t blocks) :
    Mountable env w.disk w.state.superblock w.state.liveSlot t blocks :=
  ⟨{ h.layout with length := rfl }, h.live, h.owned.shows, h.owned.nodup, h.durable,
    h.owned.area⟩

/-! ## Formatting -/

/-- The tree of an empty filesystem. -/
def emptyTree : Tree := .directory systemUser defaultMode []

theorem test_foldl_set (blocks : List Nat) (bitmap : Nat → Byte) (b : Nat) :
    Bitmap.test (blocks.foldl (fun bitmap block => Bitmap.set bitmap block true) bitmap) b =
      (decide (b ∈ blocks) || Bitmap.test bitmap b) := by
  induction blocks generalizing bitmap with
  | nil => simp
  | cons x blocks ih =>
    rw [List.foldl_cons, ih, Bitmap.test_set]
    by_cases hx : b = x <;> simp [hx]

theorem bitmapOf_bitmapSectors (bitmap : Nat → Byte) :
    bitmapOf (bitmapSectors bitmap) = bitmap := by
  funext i
  show bitmap (blockSize * (i / blockSize) + i % blockSize) = bitmap i
  rw [Nat.div_add_mod]

/-- Two disks with the same bitmap sectors have the same bitmap, as far as it reaches. -/
theorem test_bitmapOnDisk {bitmap : Nat → Byte} {b : Nat} (hb : b < sb.bitmapBlocks * 4096)
    (h : ∀ k, k < sb.bitmapBlocks → d (sb.bitmapStart + k) = bitmapSectors bitmap k) :
    Bitmap.test (bitmapOnDisk d sb) b = Bitmap.test bitmap b := by
  have hk : b / 8 / blockSize < sb.bitmapBlocks := by
    show b / 8 / 512 < _
    omega
  have hbyte : bitmapOnDisk d sb (b / 8) = bitmap (b / 8) := by
    rw [bitmapOnDisk, bitmapOf, h _ hk]
    exact congrFun (bitmapOf_bitmapSectors bitmap) (b / 8)
  rw [Bitmap.test, Bitmap.test, hbyte]

/-- The sizes `format` computes. -/
theorem blank_sizes (n : Nat) (hn : 16 ≤ n) : 0 < (blankSuperBlock n).bitmapBlocks ∧
    n ≤ (blankSuperBlock n).bitmapBlocks * 4096 ∧
    (blankSuperBlock n).bitmapBlocks * 4096 < n + 8 + 4096 ∧
    (blankSuperBlock n).firstDataBlock = (blankSuperBlock n).bitmapBlocks + 3 ∧
    (blankSuperBlock n).firstDataBlock < n := by
  show 0 < ((n + 7) / 8 + 511) / 512 ∧ n ≤ ((n + 7) / 8 + 511) / 512 * 4096 ∧
    ((n + 7) / 8 + 511) / 512 * 4096 < n + 8 + 4096 ∧
    2 + ((n + 7) / 8 + 511) / 512 + 1 = ((n + 7) / 8 + 511) / 512 + 3 ∧
    2 + ((n + 7) / 8 + 511) / 512 + 1 < n
  omega

/-- What `format` puts on the disk. -/
structure Blank (n : Nat) (d : Disk) : Prop where
  first : d 0 = (blankSuperBlock n).encode
  second : d 1 = { blankSuperBlock n with generation := 0 }.encode
  bitmap : ∀ k, k < (blankSuperBlock n).bitmapBlocks →
    d (2 + k) = bitmapSectors (blankBitmap (blankSuperBlock n)) k
  root : d (blankSuperBlock n).rootInode = (emptyInode .directory systemUser).encode

/-- The sizes are ones `format` accepts. -/
def Formattable (n : Nat) : Prop :=
  16 ≤ n ∧ (blankSuperBlock n).bitmapBlocks * blockSize < allocationLimit

theorem blank_fits {n : Nat} (hn : Formattable n) {g : Nat} (hg : g < wordLimit) :
    ({ blankSuperBlock n with generation := g } : SuperBlock).Fits := by
  obtain ⟨_, _, -, _, _⟩ := blank_sizes n hn.1
  have hlimit : (blankSuperBlock n).bitmapBlocks * 512 < allocationLimit := hn.2
  have hword : allocationLimit * 4096 < wordLimit := by decide
  have hn' : n < wordLimit := by omega
  have hroot : (blankSuperBlock n).rootInode + 1 = (blankSuperBlock n).firstDataBlock := rfl
  exact ⟨rfl, by show version < 0x100000000; decide, hg, hn', by show 2 < wordLimit; decide,
    show (blankSuperBlock n).bitmapBlocks < _ by omega,
    show (blankSuperBlock n).rootInode < _ by omega,
    show (blankSuperBlock n).firstDataBlock < _ by omega⟩

/-- **A blank disk is mountable**, and shows the empty tree. -/
theorem Blank.mountable (hn : Formattable env.sectorCount) (h : Blank env.sectorCount d) :
    Mountable env d (blankSuperBlock env.sectorCount) 0 emptyTree
      [(blankSuperBlock env.sectorCount).rootInode] := by
  obtain ⟨hpos, hcovers, -, hfirst, hroom⟩ := blank_sizes env.sectorCount hn.1
  have hroot : (blankSuperBlock env.sectorCount).rootInode + 1 =
      (blankSuperBlock env.sectorCount).firstDataBlock := rfl
  have hfits := blank_fits hn (g := 1) (by decide)
  have harea : (mountedFrom d (blankSuperBlock env.sectorCount) 0).InArea
      (blankSuperBlock env.sectorCount).rootInode := by
    refine ⟨Nat.le_of_eq hroot.symm, ?_⟩
    show (blankSuperBlock env.sectorCount).rootInode < env.sectorCount
    omega
  refine ⟨⟨hfits, rfl, rfl, hpos, hfirst, hcovers, rfl, hroom, rfl, hn.2, Nat.zero_le _⟩,
    ⟨Nat.zero_le _, ?_, ?_⟩, ?_, List.nodup_singleton _, ?_, ?_⟩
  · rw [h.first]
    exact SuperBlock.decode_encode hfits
  · intro other hother
    rw [show d (1 - 0) = d 1 from rfl, h.second,
      SuperBlock.decode_encode (blank_fits hn (g := 0) (by decide))] at hother
    rw [← Option.some.inj hother]
    exact Nat.one_pos
  · have hinode : Inode.decode (d (blankSuperBlock env.sectorCount).rootInode) =
        .ok (emptyInode .directory systemUser) := by
      rw [h.root]
      exact Inode.decode_encode (fits_emptyInode _ _)
    have hsane : (emptyInode .directory systemUser).Sane :=
      ⟨Nat.zero_le _, by simp [Inode.pointers, emptyInode]⟩
    refine Shows.of_shape hinode hsane ?_
    have hkids : Kids d [] [] [] := Kids.nil
    exact Shape.directory rfl rfl hkids
  · intro b hb
    obtain rfl := List.mem_singleton.mp hb
    rw [test_bitmapOnDisk (by omega) h.bitmap, blankBitmap, test_foldl_set]
    have hmem : (blankSuperBlock env.sectorCount).rootInode ∈
        List.range (blankSuperBlock env.sectorCount).firstDataBlock := List.mem_range.mpr (by omega)
    simp [hmem]
  · intro b hb
    rw [List.mem_singleton.mp hb]
    exact harea

theorem Blank.mount_spec (hr : env.Reliable) (hn : Formattable env.sectorCount) {d : Device}
    (h : Blank env.sectorCount d.disk) : Prog.Wp (mount env) d
      (fun s d' => d'.disk = d.disk ∧ d'.log = d.log ∧
        Sound env ⟨d', s⟩ emptyTree [(blankSuperBlock env.sectorCount).rootInode] ∧
        Blank env.sectorCount d'.disk ∧ s = mountedFrom d'.disk (blankSuperBlock env.sectorCount) 0)
      (fun _ _ => False) := by
  obtain ⟨d', hmount, hdisk, hlog, hsound⟩ := (h.mountable hn).mount hr
  exact wp_iff_ok.mpr ⟨_, d', hmount, hdisk, hlog, hsound, hdisk ▸ h, by rw [hdisk]⟩

/-- **Formatting** leaves a sound filesystem with the empty tree and nothing unflushed, on
a device of any acceptable size where nothing fails. -/
theorem format_spec (hr : env.Reliable) (d : Device) : Prog.Wp (format env) d
      (fun s d' => (∀ base, AtRest base d → AtRest base d') ∧ Formattable env.sectorCount ∧
        Sound env ⟨d', s⟩ emptyTree [(blankSuperBlock env.sectorCount).rootInode] ∧
        Blank env.sectorCount d'.disk ∧ s = mountedFrom d'.disk (blankSuperBlock env.sectorCount) 0)
      (fun _ _ => ¬Formattable env.sectorCount) := by
  rw [format]
  by_cases hsmall : env.sectorCount < 16
  · rw [if_pos hsmall, wp_throw]
    exact fun h => not_lt.mpr h.1 hsmall
  have hn := not_lt.mp hsmall
  obtain ⟨hpos, _, -, _, hroom⟩ := blank_sizes env.sectorCount hn
  have hroot : (blankSuperBlock env.sectorCount).rootInode + 1 =
      (blankSuperBlock env.sectorCount).firstDataBlock := rfl
  have htotal : (blankSuperBlock env.sectorCount).totalBlocks = env.sectorCount := rfl
  rw [if_neg hsmall, if_neg (not_le.mpr (htotal ▸ hroom))]
  by_cases hlimit :
      allocationLimit ≤ (blankSuperBlock env.sectorCount).bitmapBlocks * blockSize
  · rw [if_pos hlimit, wp_throw]
    exact fun h => not_lt.mpr hlimit h.2
  have hformat : Formattable env.sectorCount := ⟨hn, not_le.mp hlimit⟩
  rw [if_neg hlimit]
  simp only [wp_bind, wp_ask]
  refine (write_spec env d _ _ _).mono ?_ fun e d' h => absurd ⟨hr, hpos, ?_⟩ h.2
  case refine_2 =>
    show 2 + (blankSuperBlock env.sectorCount).bitmapBlocks ≤ _
    omega
  rintro _ _ rfl
  refine (write_spec env _ _ 1 _).mono ?_ fun e d' h => absurd ⟨hr, Nat.one_pos, by omega⟩ h.2
  rintro _ _ rfl
  refine (flush_spec env _).mono ?_ fun e d' h => absurd hr h.2
  rintro _ _ rfl
  refine (write_spec env _ 0 1 _).mono ?_ fun e d' h => absurd ⟨hr, Nat.one_pos, by omega⟩ h.2
  rintro _ _ rfl
  refine (write_spec env _ 1 1 _).mono ?_ fun e d' h => absurd ⟨hr, Nat.one_pos, by omega⟩ h.2
  rintro _ _ rfl
  refine (flush_spec env _).mono ?_ fun e d' h => absurd hr h.2
  rintro _ d₁ rfl
  refine (Blank.mount_spec hr hformat ?_).mono ?_ fun _ _ h => h.elim
  case refine_2 =>
    rintro s d' ⟨hdisk, hlog, hsound⟩
    refine ⟨fun base hrest => ?_, hformat, hsound⟩
    refine AtRest.of_eq (atRest_flushed (disk_store (disk_store ?_ _ _ _) _ _ _)) hlog hdisk
    exact (atRest_flushed (disk_store (disk_store hrest.disk _ _ _) _ _ _)).disk
  -- What is on the disk now, sector by sector.
  have hstart : (blankSuperBlock env.sectorCount).bitmapStart = 2 := rfl
  constructor
  · rw [flushed_disk, store_outside (by omega), asked_disk, store_inside (by omega)]
  · rw [flushed_disk, store_inside (by omega)]
  · intro k hk
    rw [flushed_disk, store_outside (by omega), asked_disk, store_outside (by omega), asked_disk,
      flushed_disk, store_outside (by omega), asked_disk, store_inside (by omega), hstart,
      Nat.add_sub_cancel_left]
  · rw [flushed_disk, store_outside (by omega), asked_disk, store_outside (by omega), asked_disk,
      flushed_disk, store_inside (by omega)]

end Panda.Fs
