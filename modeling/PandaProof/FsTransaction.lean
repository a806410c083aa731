import PandaProof.FsActions

/-!
# Whole operations

A change copies the path, switches the root in memory, commits, and gives back what it no
longer needs; a read walks the path.  For each operation, on any device: what it has done
when it returns, and how far it can have got when it stops.
-/
namespace Panda.Fs

open Block List State

variable {env : Env} {w : World}

/-! ## Paths -/

theorem split_ne_nil (l : List Byte) : split l ≠ [] := by
  induction l with
  | nil => simp [split]
  | cons b l ih =>
    rw [split]
    split
    · simp
    · simpa [modifyHead_eq_nil_iff] using ih

theorem split_append_slash (a b : List Byte) : split (a ++ slash :: b) = split a ++ split b := by
  induction a with
  | nil => simp [split]
  | cons c a ih =>
    rw [cons_append, split, split, ih]
    split
    · rfl
    · obtain ⟨_, _, h⟩ := exists_cons_of_ne_nil (split_ne_nil a)
      simp [h]

theorem split_of_not_mem {l : List Byte} (h : slash ∉ l) : split l = [l] := by
  induction l with
  | nil => rfl
  | cons b l ih =>
    rw [mem_cons, not_or] at h
    rw [split, if_neg (Ne.symm h.1), ih h.2]
    rfl

theorem valid_of_mem_split {l part : List Byte} (hl : validUtf8 l = true) (h : part ∈ split l) :
    validUtf8 part = true := by
  by_cases hslash : slash ∈ l
  · obtain ⟨a, b, hab⟩ := append_of_mem hslash
    rw [hab] at hl h
    obtain ⟨ha, hb⟩ := validUtf8_of_slash hl
    rw [split_append_slash] at h
    rcases mem_append.mp h with h | h
    · exact valid_of_mem_split ha h
    · exact valid_of_mem_split hb h
  · rw [split_of_not_mem hslash, mem_singleton] at h
    rw [h]
    exact hl
termination_by l.length
decreasing_by all_goals
    rw [hab, length_append, length_cons]
    omega

theorem valid_of_mem_components {path : Str} {name : Name} (h : name ∈ components path) :
    validUtf8 name = true := valid_of_mem_split path.valid (mem_filter.mp h).1

/-- The nonempty parts of a path. -/
def parts (l : List Byte) : List Name := (split l).filter (· ≠ [])

theorem parts_append_slash (a b : List Byte) : parts (a ++ slash :: b) = parts a ++ parts b := by
  rw [parts, split_append_slash, filter_append]
  rfl

theorem parts_slashes {l : List Byte} (h : ∀ b ∈ l, b = slash) : parts l = [] := by
  induction l with
  | nil => rfl
  | cons b l ih =>
    obtain rfl := h b mem_cons_self
    exact (parts_append_slash [] l).trans (ih fun x hx => h x (mem_cons_of_mem _ hx))

/-- **The name an operation checks is the last component it walks to.** -/
theorem components_of_finalName {path : Str} {name : Name} (h : finalName path = some name)
    (hne : name ≠ []) : (components path).getLast? = some name := by
  rw [finalName] at h
  split at h
  · contradiction
  cases h
  generalize htrim : path.bytes.rdropWhile (· == slash) = trimmed at hne ⊢
  -- Trailing slashes add no component.
  have htail : parts path.bytes = parts trimmed := by
    have hsplit : path.bytes.rdropWhile (· == slash) ++ path.bytes.rtakeWhile (· == slash) =
        path.bytes := rdropWhile_append_rtakeWhile
    rw [htrim] at hsplit
    have hall : ∀ b ∈ path.bytes.rtakeWhile (· == slash), b = slash := fun b hb => by
      simpa using mem_rtakeWhile_imp hb
    generalize path.bytes.rtakeWhile (· == slash) = tail at hsplit hall
    rw [← hsplit]
    cases tail with
    | nil => rw [append_nil]
    | cons b =>
      obtain rfl := hall b mem_cons_self
      rw [parts_append_slash, parts_slashes fun x hx => hall x (mem_cons_of_mem _ hx), append_nil]
  have hname : parts (trimmed.rtakeWhile (· != slash)) = [trimmed.rtakeWhile (· != slash)] := by
    have hclean : slash ∉ trimmed.rtakeWhile (· != slash) := fun hmem => by
      simpa using mem_rtakeWhile_imp hmem
    rw [parts, split_of_not_mem hclean, filter_cons_of_pos (by simpa using hne), filter_nil]
  have hcut : trimmed.rdropWhile (· != slash) ++ trimmed.rtakeWhile (· != slash) = trimmed :=
    rdropWhile_append_rtakeWhile
  show (parts path.bytes).getLast? = _
  rw [htail]
  by_cases hpre : trimmed.rdropWhile (· != slash) = []
  · rw [hpre, nil_append] at hcut
    rw [hcut] at hname ⊢
    rw [hname]
    rfl
  have hlast := rdropWhile_last_not (· != slash) trimmed hpre
  have hlast' : (trimmed.rdropWhile (· != slash)).getLast hpre = slash := by simpa using hlast
  have hinit := dropLast_append_getLast hpre
  rw [hlast'] at hinit
  have htrimmed : trimmed = (trimmed.rdropWhile (· != slash)).dropLast ++
      slash :: trimmed.rtakeWhile (· != slash) := by
    rw [← singleton_append, ← append_assoc, hinit, hcut]
  have hparts : parts trimmed = parts (trimmed.rdropWhile (· != slash)).dropLast ++
      [trimmed.rtakeWhile (· != slash)] := by
    rw [← hname, ← parts_append_slash, ← htrimmed]
  rw [hparts, getLast?_append]
  rfl

theorem fitting_of_name {act : Tree.Act} {path : Str}
    {name : Name} (h : finalName path = some name) (hok : nameOk name = true) :
    Fitting act (components path) := by
  intro last hlast
  simp only [nameOk, decide_eq_true_eq] at hok
  rw [components_of_finalName h hok.1] at hlast
  rw [← Option.some.inj hlast]
  exact .inl hok.2.1

theorem fitting_of_refusal {act : Tree.Act} {e : FsError}
    (h : act none = .error e) (comps : List Name) : Fitting act comps := by
  intro name _
  refine .inr fun t ht => ?_
  rw [h] at ht
  contradiction

/-! ## Commit -/

/-- The superblock the next commit writes. -/
def State.nextSuperBlock (s : State) : SuperBlock :=
  { s.superblock with generation := s.superblock.generation + 1 }

/-- What a commit sends to the device before the superblock. -/
def State.bitmapEvents (s : State) : List Event :=
  writes s.superblock.bitmapStart (s.bitmapLength / blockSize) (bitmapSectors s.bitmap) ++ [.flush]

/-- What a commit sends to the device. -/
def State.commitEvents (s : State) : List Event :=
  s.bitmapEvents ++ [.write (1 - s.liveSlot) s.nextSuperBlock.encode, .flush]

/-- A commit went through. -/
structure Committed (w w' : World) : Prop where
  state : w'.state =
    { w.state with superblock := w.state.nextSuperBlock, liveSlot := 1 - w.state.liveSlot }
  log : w'.device.log = w.device.log ++ w.state.commitEvents
  disk : w'.disk = replay w.disk w.state.commitEvents
  generation : w.state.superblock.generation + 1 < wordLimit

/-- A commit did not go through. -/
structure Halted (env : Env) (w : World) (e : Stop) (w' : World) : Prop where
  state : w'.state = w.state ∨ w.state.superblock.generation + 1 < wordLimit ∧
    w'.state = { w.state with superblock := w.state.nextSuperBlock }
  disk : ∀ b, w.state.InArea b → w'.disk b = w.disk b
  reason : Broken env e ∨ e = .panic ∧ wordLimit ≤ w.state.superblock.generation + 1 ∧
    w'.device.log = w.device.log ++ w.state.bitmapEvents

theorem Layout.sectors {s : State} (hl : Layout env s) :
    s.bitmapLength / blockSize = s.superblock.bitmapBlocks := by
  rw [hl.length]
  exact Nat.mul_div_cancel _ (by decide)

/-- The sectors a commit writes lie before the blocks of trees. -/
theorem Layout.before_area {s : State} (hl : Layout env s) {b : Nat} (hb : s.InArea b) :
    ¬(s.superblock.bitmapStart ≤ b ∧ b < s.superblock.bitmapStart + s.superblock.bitmapBlocks) ∧
      ¬(1 - s.liveSlot ≤ b ∧ b < 1 - s.liveSlot + 1) := by
  have hstart := hl.bitmapStart
  have hfirst := hl.firstData
  have hblocks := hl.bitmapBlocks
  have hlow := hb.1
  omega

theorem commit_spec (hl : Layout env w.state) :
    Prog.Wp (commit env) w (fun _ w' => Committed w w') (fun e w' => Halted env w e w') := by
  have hblocks := hl.bitmapBlocks
  have hstart := hl.bitmapStart
  have hfirst := hl.firstData
  have hroom := hl.room
  have htotal := hl.total
  have harea := fun b hb => hl.before_area (b := b) hb
  rw [commit, Prog.wp_bind, wp_mounted, hl.sectors]
  simp only [Prog.wp_bind, wp_onDevice]
  refine (write_spec env w.device _ w.state.superblock.bitmapBlocks _).mono ?_ ?_
  case refine_2 =>
    rintro e d ⟨hd, hfail⟩
    refine ⟨.inl rfl, fun b hb => ?_, .inl ⟨fun h => hfail ⟨h, hblocks, by omega⟩, e, rfl⟩⟩
    rcases hd with rfl | ⟨left, rfl⟩
    · rfl
    · exact store_outside (harea b hb).1
  rintro _ d₁ rfl
  refine (flush_spec env _).mono ?_ ?_
  case refine_2 =>
    rintro e d ⟨rfl, hfail⟩
    exact ⟨.inl rfl, fun b hb => store_outside (harea b hb).1, .inl ⟨hfail, e, rfl⟩⟩
  rintro _ d₂ rfl
  by_cases hlimit : wordLimit ≤ w.state.superblock.generation + 1
  · rw [if_pos hlimit, wp_panicking]
    refine ⟨.inl rfl, fun b hb => store_outside (harea b hb).1, .inr ⟨rfl, hlimit, ?_⟩⟩
    rw [bitmapEvents, hl.sectors, flushed_log, store_log, asked_log, append_assoc]
  rw [if_neg hlimit]
  simp only [Prog.wp_bind, wp_modifyState, wp_onDevice]
  refine (write_spec env _ (1 - w.state.liveSlot) 1 _).mono ?_ ?_
  case refine_2 =>
    rintro e d ⟨hd, hfail⟩
    refine ⟨.inr ⟨not_le.mp hlimit, rfl⟩, fun b hb => ?_,
      .inl ⟨fun h => hfail ⟨h, Nat.one_pos, by omega⟩, e, rfl⟩⟩
    obtain ⟨hbitmap, hslot⟩ := harea b hb
    rcases hd with rfl | ⟨left, rfl⟩
    · exact store_outside hbitmap
    · simp [World.disk, asked_disk, flushed_disk, store_outside hslot, store_outside hbitmap]
  rintro _ d₃ rfl
  refine (flush_spec env _).mono ?_ ?_
  case refine_2 =>
    rintro e d ⟨rfl, hfail⟩
    refine ⟨.inr ⟨not_le.mp hlimit, rfl⟩, fun b hb => ?_, .inl ⟨hfail, e, rfl⟩⟩
    obtain ⟨hbitmap, hslot⟩ := harea b hb
    simp [World.disk, asked_disk, flushed_disk, store_outside hslot, store_outside hbitmap]
  rintro _ d₄ rfl
  refine ⟨rfl, ?_, ?_, not_le.mp hlimit⟩
  · simp only [flushed_log, store_log, asked_log, commitEvents, bitmapEvents,
      hl.sectors, append_assoc]
    rfl
  · simp only [World.disk, flushed_disk, store_disk, asked_disk, commitEvents,
      bitmapEvents, hl.sectors, replay_append]
    rfl

theorem Committed.disk_inArea {w' : World} (hl : Layout env w.state) (h : Committed w w') {b : Nat}
    (hb : w.state.InArea b) : w'.disk b = w.disk b := by
  obtain ⟨hbitmap, _⟩ := hl.before_area hb
  have hne : b ≠ 1 - w.state.liveSlot := by omega
  rw [h.disk, commitEvents, bitmapEvents, hl.sectors, replay_append, replay_append]
  show Function.update (replay w.disk (writes _ _ _)) _ _ b = _
  rw [Function.update_of_ne hne, replay_writes, if_neg hbitmap]

theorem Layout.next {s : State} (hl : Layout env s)
    (hgen : s.superblock.generation + 1 < wordLimit) (bitmap : Nat → Byte) (retired : List Nat) :
    Layout env ⟨s.nextSuperBlock, 1 - s.liveSlot, bitmap, s.bitmapLength, retired⟩ :=
  { hl with fits := { hl.fits with generation := hgen }, slot := Nat.sub_le 1 _ }

/-! ## Giving back the blocks of a transaction -/

theorem foldl_mark (blocks : List Nat) (s : State) : ∃ bitmap,
    blocks.foldl (fun s block => s.mark block false) s = { s with bitmap := bitmap } ∧
      ∀ x ∉ blocks, Bitmap.test bitmap x = Bitmap.test s.bitmap x := by
  induction blocks generalizing s with
  | nil => exact ⟨s.bitmap, rfl, fun _ _ => rfl⟩
  | cons b blocks ih =>
    have hmark : ∃ bitmap, s.mark b false = { s with bitmap := bitmap } ∧
        ∀ x, x ≠ b → Bitmap.test bitmap x = Bitmap.test s.bitmap x := by
      rw [mark]
      split
      · exact ⟨s.bitmap, rfl, fun _ _ => rfl⟩
      split
      · refine ⟨_, rfl, fun x hx => ?_⟩
        rw [Bitmap.test_set, if_neg hx]
      · exact ⟨s.bitmap, rfl, fun _ _ => rfl⟩
    obtain ⟨_, hfirst, hkept⟩ := hmark
    obtain ⟨bitmap, hrest, htest⟩ := ih (s.mark b false)
    refine ⟨bitmap, ?_, fun x hx => ?_⟩
    · rw [foldl_cons, hrest, hfirst]
    have hne : x ≠ b := fun he => hx (he ▸ mem_cons_self)
    have hnot : x ∉ blocks := fun hmem => hx (mem_cons_of_mem _ hmem)
    rw [htest x hnot, hfirst]
    exact hkept x hne

/-- Releasing clears bits of the blocks given back, and nothing else. -/
theorem release_eq (s : State) (garbage : List Nat) : ∃ bitmap,
    s.release garbage = { s with bitmap := bitmap, retired := [] } ∧
      ∀ x ∉ garbage ++ s.retired, Bitmap.test bitmap x = Bitmap.test s.bitmap x :=
  foldl_mark (garbage ++ s.retired) { s with retired := [] }

end Panda.Fs
