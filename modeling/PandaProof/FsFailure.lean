import PandaProof.FsLive

/-!
# What a failed operation leaves behind

A change first looks: it follows the path and makes its checks.  Then it claims blocks and
retires blocks, one by one, and nothing undoes that when a later step fails.  So a failed
change is without effect exactly when it was still looking, or when the first thing it
does after the checks is to claim a block and there is none.
-/
namespace Panda.Fs

open Block List Prog

variable {env : Env} {w : World} {A : Type}

/-! ## Code that only looks -/

/-- The code changes nothing. -/
abbrev Looks (p : Code A) : Prop := Within Quiet p

theorem looks_fail (e : FsError) : Looks (fail e : Code A) := within_throw Quiet.refl _

theorem looks_panicking : Looks (panicking : Code A) := within_throw Quiet.refl _

theorem looks_pure (a : A) : Looks (pure a : Code A) := within_pure Quiet.refl a

variable {p p' : Code A} {B : Type} {f : A → Code B}

theorem Looks.bind (hp : Looks p) (hf : ∀ a, Looks (f a)) : Looks (p >>= f) :=
  Within.bind Quiet.trans hp hf

theorem Looks.ite {q : Prop} [Decidable q] (h : Looks p) (h' : Looks p') :
    Looks (if q then p else p') := by
  split
  · exact h
  · exact h'

theorem looks_mounted : Looks mounted := fun w => wp_mounted.mpr (Quiet.refl w)

theorem looks_readBlock (env : Env) (b : Nat) : Looks (readBlock env b) := by
  intro w
  rw [readBlock, wp_bind]
  simp only [wp_onDevice, wp_pure]
  refine (read_spec env w.device b 1).mono ?_ ?_
  · rintro _ _ ⟨-, rfl⟩
    exact ⟨rfl, rfl, rfl⟩
  · rintro _ _ ⟨rfl, -⟩
    exact ⟨rfl, rfl, rfl⟩

theorem looks_readInode (env : Env) (b : Nat) : Looks (readInode env b) := by
  refine (looks_readBlock env b).bind fun data => ?_
  split
  · exact looks_fail _
  · exact looks_pure _

theorem looks_openDirectory (env : Env) (user : Option UserId) (b : Nat) :
    Looks (openDirectory env user b) := by
  exact (looks_readInode env b).bind fun inode =>
    .ite (looks_fail _) (.ite (looks_fail _) (looks_pure _))

theorem looks_findEntry (env : Env) (name : Name) (slots : List (Option Nat)) :
    Looks (findEntry env name slots) := by
  induction slots with
  | nil => exact looks_pure _
  | cons slot rest ih =>
    cases slot with
    | none => exact looks_panicking
    | some block =>
      refine .ite ih ((looks_readBlock env block).bind fun data => ?_)
      split
      · exact looks_pure _
      · exact ih

theorem looks_readEach (env : Env) (slots : List (Option Nat)) : Looks (readEach env slots) := by
  induction slots with
  | nil => exact looks_pure _
  | cons slot rest ih =>
    cases slot with
    | none => exact looks_panicking
    | some block =>
      exact (looks_readBlock env block).bind fun data =>
        ih.bind fun others => looks_pure _

/-! ## Code that claims and retires -/

/-- Blocks may have been claimed and retired, and nothing given back. -/
structure Piled (w w' : World) : Prop where
  blocks : w'.state.dataBlocks = w.state.dataBlocks
  kept : ∀ b, w.state.isAllocated b = true → w'.state.isAllocated b = true
  retired : w.state.retired <+: w'.state.retired

theorem Piled.refl (w : World) : Piled w w := ⟨rfl, fun _ h => h, prefix_refl _⟩

variable {a b c : World}

theorem Piled.trans (h : Piled a b) (h' : Piled b c) : Piled a c :=
  ⟨h'.blocks.trans h.blocks, fun x hx => h'.kept x (h.kept x hx), h.retired.trans h'.retired⟩

theorem Quiet.piled (h : Quiet a b) : Piled a b := by
  obtain ⟨_, state⟩ := b
  obtain rfl : state = a.state := h.state
  exact ⟨rfl, fun _ h => h, prefix_refl _⟩

/-- The code gives nothing back. -/
abbrev Piles (p : Code A) : Prop := Within Piled p

theorem Looks.piles (h : Looks p) : Piles p := h.mono Quiet.piled

theorem Piles.bind (hp : Piles p) (hf : ∀ a, Piles (f a)) : Piles (p >>= f) :=
  Within.bind Piled.trans hp hf

theorem piled_device (w : World) (d : Device) : Piled w { w with device := d } :=
  ⟨rfl, fun _ h => h, prefix_refl _⟩

theorem piles_writeBlock (env : Env) (b : Nat) (data : Sector) : Piles (writeBlock env b data) := by
  intro w
  rw [writeBlock, wp_onDevice]
  exact (write_spec env w.device b 1 _).mono (fun _ d _ => piled_device w d)
    fun _ d _ => piled_device w d

theorem mark_true_kept (s : State) (b : Nat) {x : Nat} (h : s.isAllocated x = true) :
    (s.mark b true).isAllocated x = true := by
  rw [State.mark, if_neg (by simp)]
  split
  · rw [State.isAllocated] at h ⊢
    rw [Bool.and_eq_true] at h ⊢
    refine ⟨h.1, ?_⟩
    rw [Bitmap.test_set]
    split
    · rfl
    · exact h.2
  · exact h

theorem mark_true_fields (s : State) (b : Nat) :
    (s.mark b true).dataBlocks = s.dataBlocks ∧ (s.mark b true).retired = s.retired := by
  rw [State.mark, if_neg (by simp)]
  split
  · exact ⟨rfl, rfl⟩
  · exact ⟨rfl, rfl⟩

theorem piled_mark (w : World) (b : Nat) : Piled w { w with state := w.state.mark b true } :=
  ⟨(mark_true_fields _ b).1, fun _ h => mark_true_kept _ b h,
    (mark_true_fields w.state b).2.symm ▸ prefix_refl _⟩

theorem piles_allocate : Piles allocate := by
  intro w
  rw [allocate, wp_bind, wp_mounted]
  split
  · exact wp_fail.mpr (Piled.refl w)
  · simp only [wp_bind, wp_modifyState, wp_pure]
    exact piled_mark w _

/-- A block claimed and written. -/
theorem piles_place (env : Env) (data : Sector) (g : Nat → A) : Piles (do
    let new ← allocate
    writeBlock env new data
    pure (g new)) :=
  piles_allocate.bind fun new => (piles_writeBlock env new data).bind fun _ => (looks_pure _).piles

theorem piles_retire (b : Nat) : Piles (modifyState fun s => s.retire b) := by
  intro w
  rw [wp_modifyState]
  exact ⟨rfl, fun _ h => h, prefix_append _ _⟩

theorem piles_writeFresh (env : Env) (sectors : List Sector) : Piles (writeFresh env sectors) := by
  induction sectors with
  | nil => exact (looks_pure _).piles
  | cons data rest ih =>
    exact piles_allocate.bind fun block =>
      (piles_writeBlock env block data).bind fun _ =>
        ih.bind fun others => (looks_pure _).piles

theorem piles_retireSlots (slots : List (Option Nat)) : Piles (retireSlots slots) := by
  induction slots with
  | nil => exact (looks_pure _).piles
  | cons slot rest ih =>
    cases slot with
    | none => exact looks_panicking.piles
    | some block =>
      rw [retireSlots]
      split
      · exact (piles_retire block).bind fun _ => ih
      · exact ih

theorem looks_pushEntry (kept : List DirEntry) (name : Name) (replacement : Option Nat) :
    Looks (pushEntry kept name replacement) := by
  cases replacement with
  | none => exact looks_pure _
  | some =>
    exact .ite looks_panicking (looks_pure _)

theorem piles_rebuild (env : Env) (b : Nat) (directory : Inode) (name : Name)
    (replacement : Option Nat) : Piles (rebuild env b directory name replacement) := by
  refine (looks_readEach env _).piles.bind fun old => ?_
  refine (looks_pushEntry _ name replacement).piles.bind fun entries => ?_
  dsimp only
  split
  · exact (looks_fail _).piles
  · exact (piles_writeFresh env _).bind fun blocks => piles_place env _ _

/-- A commit that does not go through gives nothing back. -/
theorem commit_piles (env : Env) (w : World) :
    Wp (commit env) w (fun _ _ => True) fun _ w' => Piled w w' := by
  rw [commit, wp_bind, wp_mounted]
  simp only [wp_bind, wp_onDevice]
  refine (write_spec env w.device _ _ _).mono ?_ fun _ d _ => piled_device w d
  intro _ d₁ _
  refine (flush_spec env d₁).mono ?_ fun _ d _ => piled_device w d
  intro _ d₂ _
  split
  · exact wp_panicking.mpr (piled_device w d₂)
  simp only [wp_bind, wp_modifyState, wp_onDevice]
  refine (write_spec env d₂ _ _ _).mono ?_ fun _ d _ => ⟨rfl, fun _ h => h, prefix_refl _⟩
  intro _ d₃ _
  exact (flush_spec env d₃).mono (fun _ _ _ => trivial) fun _ d _ =>
    ⟨rfl, fun _ h => h, prefix_refl _⟩

/-! ## The looking part of a change -/

/-- `rewrite` down to where the change itself begins. -/
def approach (env : Env) (access : Access) : Nat → List Name → Code (Option Nat)
  | directoryBlock, [] => do
    let _ ← openDirectory env access.user directoryBlock
    fail .badName
  | directoryBlock, [name] => do
    let directory ← openDirectory env access.user directoryBlock
    let existing ← findEntry env name directory.slots
    if access.changesParent ∧ !directory.permits access.user true then fail .denied
    else pure existing
  | directoryBlock, name :: next :: rest => do
    let directory ← openDirectory env access.user directoryBlock
    let existing ← findEntry env name directory.slots
    match existing with
    | none => fail .notFound
    | some child => approach env access child (next :: rest)

theorem looks_approach (env : Env) (access : Access) (b : Nat) (comps : List Name) :
    Looks (approach env access b comps) := by
  induction comps generalizing b with
  | nil => exact (looks_openDirectory env _ b).bind fun _ => looks_fail _
  | cons name rest ih =>
    cases rest with
    | nil =>
      exact (looks_openDirectory env _ b).bind fun directory =>
        (looks_findEntry env name _).bind fun existing => .ite (looks_fail _) (looks_pure _)
    | cons =>
      refine (looks_openDirectory env _ b).bind fun directory =>
        (looks_findEntry env name _).bind fun existing => ?_
      split
      · exact looks_fail _
      · exact ih _

/-- The whole starts as its first part does and stops where that stops; otherwise it goes on
with the action and a rest that has `P`. -/
def Parts (P : Code A → Prop) (first : Code (Option Nat))
    (whole : (Option Nat → Code (Option Nat)) → Code A) (w : World) : Prop :=
  (∃ e w', first w = (.error e, w') ∧ ∀ action, whole action w = (.error e, w')) ∨
    ∃ existing w' rest, first w = (.ok existing, w') ∧ (∀ replacement, P (rest replacement)) ∧
      ∀ action, whole action w = (action existing >>= rest) w'

namespace Parts

variable {P : Code A → Prop}

theorem fail {e : FsError} : Parts P (Fs.fail e) (fun _ => Fs.fail e) w :=
  .inl ⟨_, w, rfl, fun _ => rfl⟩

/-- Both begin with the same look. -/
theorem look {p : Code B} {first : B → Code (Option Nat)}
    {whole : B → (Option Nat → Code (Option Nat)) → Code A}
    (h : ∀ b w, Parts P (first b) (whole b) w) :
    Parts P (p >>= first) (fun action => p >>= fun b => whole b action) w := by
  rcases hp : p w with ⟨e | b, w₁⟩
  · exact .inl ⟨e, w₁, bind_of_error hp, fun _ => bind_of_error hp⟩
  rcases h b w₁ with ⟨e, w', hfirst, hwhole⟩ | ⟨existing, w', rest, hfirst, hrest, hwhole⟩
  · exact .inl ⟨e, w', (bind_of_ok hp).trans hfirst, fun a => (bind_of_ok hp).trans (hwhole a)⟩
  · exact .inr ⟨existing, w', rest, (bind_of_ok hp).trans hfirst, hrest,
      fun a => (bind_of_ok hp).trans (hwhole a)⟩

/-- The whole goes on after the rest. -/
theorem andThen {P' : Code B → Prop} {first : Code (Option Nat)}
    {whole : (Option Nat → Code (Option Nat)) → Code A} {k : A → Code B}
    (h : Parts P first whole w) (hk : ∀ p, P p → P' (p >>= k)) :
    Parts P' first (fun action => whole action >>= k) w := by
  rcases h with ⟨e, w', hfirst, hwhole⟩ | ⟨existing, w', rest, hfirst, hrest, hwhole⟩
  · exact .inl ⟨e, w', hfirst, fun a => bind_of_error (hwhole a)⟩
  · refine .inr ⟨existing, w', fun r => rest r >>= k, hfirst, fun r => hk _ (hrest r), fun a => ?_⟩
    rw [← bind_assoc]
    exact bind_of_eq (hwhole a)

end Parts

/-- **A rewrite is an approach, the change itself and copying.** -/
theorem rewrite_parts (env : Env) (access : Access) (b : Nat) (comps : List Name) (w : World) :
    Parts Piles (approach env access b comps)
      (fun action => rewrite env access action b comps) w := by
  induction comps generalizing b w with
  | nil => exact .look fun _ _ => .fail
  | cons name rest ih =>
    cases rest with
    | nil =>
      refine .look fun directory _ => .look fun existing w' => ?_
      by_cases hdenied : access.changesParent ∧ !directory.permits access.user true
      · simp only [if_pos hdenied]
        exact .fail
      · simp only [if_neg hdenied]
        exact .inr ⟨existing, w', _, rfl, piles_rebuild env b directory name, fun _ => rfl⟩
    | cons =>
      refine .look fun directory _ => .look fun existing w' => ?_
      cases existing with
      | none => exact .fail
      | some child =>
        exact (ih child w').andThen fun p hp => hp.bind fun out =>
          (piles_rebuild env b directory name _).bind fun own => (looks_pure _).piles

/-- A transaction down to where the change itself begins. -/
def opening (env : Env) (path : Str) (access : Access) : Code (Option Nat) := do
  if components path = [] then fail .badName
  else do
    let s ← mounted
    approach env access s.superblock.rootInode (components path)

theorem looks_opening (env : Env) (path : Str) (access : Access) :
    Looks (opening env path access) := by
  exact .ite (looks_fail _) (looks_mounted.bind fun s => looks_approach env access _ _)

/-- The rest of a change may give blocks back only where it returns. -/
def Finishes (p : Code A) : Prop :=
  ∀ w, Wp p w (fun _ _ => True) fun _ w' => Piled w w'

/-- **A transaction is an opening, the change itself and the rest.** -/
theorem transact_parts (env : Env) (path : Str) (access : Access) (w : World) :
    Parts Finishes (opening env path access) (transact env path access) w := by
  unfold opening transact
  by_cases hempty : components path = []
  · simp only [if_pos hempty]
    exact .fail
  simp only [if_neg hempty]
  refine .look fun s w => (rewrite_parts env access _ _ w).andThen fun p hp w₁ => ?_
  simp only [wp_bind, wp_modifyState]
  refine (hp w₁).mono ?_ fun _ _ h => h
  intro out w₂ hpiled
  refine (commit_piles env _).mono (fun _ _ _ => trivial) ?_
  intro e w₃ hpiled'
  exact hpiled.trans { hpiled' with }

/-! ## Checks and claims -/

def createCheck (existing : Option Nat) : Code Unit :=
  if existing.isSome then fail .exists else pure ()

def createClaim (env : Env) (kind : NodeKind) (owner : UserId) : Code (Option Nat) := do
  let blocks ← writeFresh env (if kind = .directory then [zeroed] else [])
  let block ← allocate
  writeBlock env block ((emptyInode kind owner).holding blocks 0).encode
  pure (some block)

/-- The node a component names, unless it is refused. -/
def examine (env : Env) (refusal : Inode → Option FsError) (existing : Option Nat) :
    Code (Nat × Inode) :=
  match existing with
  | none => fail .notFound
  | some inodeBlock => do
    let inode ← readInode env inodeBlock
    (refusal inode).elim (pure (inodeBlock, inode)) fail

theorem looks_examine (env : Env) (refusal : Inode → Option FsError) (existing : Option Nat) :
    Looks (examine env refusal existing) := by
  cases existing with
  | none => exact looks_fail _
  | some b =>
    refine (looks_readInode env b).bind fun inode => ?_
    cases refusal inode with
    | none => exact looks_pure _
    | some e => exact looks_fail e

def writeCheck (env : Env) (user : Option UserId) : Option Nat → Code (Nat × Inode) :=
  examine env fun inode =>
    if inode.nodeKind ≠ .file then some .wrongType
    else if !inode.permits user true then some .denied
    else none

def writeClaim (env : Env) (data : List Byte) (target : Nat × Inode) : Code (Option Nat) := do
  let blocks ← writeFresh env (dataSectors data)
  retireSlots target.2.slots
  modifyState fun s => s.retire target.1
  let new ← allocate
  writeBlock env new (target.2.holding blocks data.length).encode
  pure (some new)

def removeCheck (env : Env) : Option Nat → Code (Nat × Inode) :=
  examine env fun target =>
    if target.nodeKind = .directory ∧ 0 < target.size then some .notEmpty else none

def removeClaim (target : Nat × Inode) : Code (Option Nat) := do
  retireSlots target.2.slots
  modifyState fun s => s.retire target.1
  pure none

def setModeCheck (env : Env) (user : Option UserId) : Option Nat → Code (Nat × Inode) :=
  examine env fun inode => if user.any (· ≠ inode.owner) then some .denied else none

def setModeClaim (env : Env) (mode : BitVec 16) (target : Nat × Inode) : Code (Option Nat) := do
  modifyState fun s => s.retire target.1
  let new ← allocate
  writeBlock env new { target.2 with mode }.encode
  pure (some new)

theorem createAction_eq (env : Env) (kind : NodeKind) (owner : UserId) (existing : Option Nat) :
    createAction env kind owner existing =
      createCheck existing >>= fun _ => createClaim env kind owner := by
  rw [createAction, createCheck]
  split
  · rfl
  · rfl

theorem writeAction_eq (env : Env) (data : List Byte) (user : Option UserId)
    (existing : Option Nat) :
    writeAction env data user existing = writeCheck env user existing >>= writeClaim env data := by
  cases existing with
  | none => rfl
  | some b =>
    rw [writeAction, writeCheck, examine, bind_assoc]
    congr 1
    funext inode
    split
    · rfl
    split
    · rfl
    · rfl

theorem removeAction_eq (env : Env) (existing : Option Nat) :
    removeAction env existing = removeCheck env existing >>= removeClaim := by
  cases existing with
  | none => rfl
  | some b =>
    rw [removeAction, removeCheck, examine, bind_assoc]
    congr 1
    funext inode
    split
    · rfl
    · rfl

theorem setModeAction_eq (env : Env) (mode : BitVec 16) (user : Option UserId)
    (existing : Option Nat) : setModeAction env mode user existing =
      setModeCheck env user existing >>= setModeClaim env mode := by
  cases existing with
  | none => rfl
  | some b =>
    rw [setModeAction, setModeCheck, examine, bind_assoc]
    congr 1
    funext inode
    split
    · rfl
    · rfl

/-! ## A claim leaves a mark -/

/-- Something was claimed or retired, and nothing given back. -/
structure Touched (w w' : World) : Prop where
  piled : Piled w w'
  mark : w'.state.retired ≠ w.state.retired ∨ ∃ b ∈ w.state.dataBlocks,
    w.state.isAllocated b = false ∧ w'.state.isAllocated b = true

theorem Touched.after (h : Touched a b) (h' : Piled b c) : Touched a c := by
  refine ⟨h.piled.trans h', ?_⟩
  rcases h.mark with hretired | ⟨x, hx, hfree, hused⟩
  · refine .inl fun heq => hretired ?_
    exact (h'.retired.eq_of_length_le (heq ▸ h.piled.retired.length_le)).trans heq
  · exact .inr ⟨x, hx, hfree, h'.kept x hused⟩

theorem Touched.of_piled (h : Piled a b) (h' : Touched b c) : Touched a c := by
  refine ⟨h.trans h'.piled, ?_⟩
  rcases h'.mark with hretired | ⟨x, hx, hfree, hused⟩
  · refine .inl fun heq => hretired ?_
    exact (h'.piled.retired.eq_of_length_le (heq ▸ h.retired.length_le)).symm
  refine .inr ⟨x, h.blocks ▸ hx, ?_, hused⟩
  cases ha : a.state.isAllocated x with
  | false => rfl
  | true =>
    rw [h.kept x ha] at hfree
    contradiction

/-- However the code ends, short of a panic, it has left a mark. -/
def Marks (w : World) (p : Code A) : Prop :=
  Wp p w (fun _ w' => Touched w w') fun e w' => e ≠ .panic → Touched w w'

theorem Marks.bind {B : Type} {f : A → Code B} (hp : Marks w p)
    (hf : ∀ a, Piles (f a)) : Marks w (p >>= f) := by
  rw [Marks, wp_bind]
  refine hp.mono ?_ fun _ _ h => h
  intro a w' htouched
  exact (hf a w').mono (fun _ _ h => htouched.after h) fun _ _ h _ => htouched.after h

theorem marks_retire (w : World) (b : Nat) : Marks w (modifyState fun s => s.retire b) := by
  rw [Marks, wp_modifyState]
  refine ⟨⟨rfl, fun _ h => h, prefix_append _ _⟩, .inl fun heq => ?_⟩
  have := congrArg length heq
  simp [State.retire] at this

theorem marks_allocate (hl : Layout env w.state) (hfree : w.state.findFree ≠ none) :
    Marks w allocate := by
  rw [Marks, allocate, wp_bind, wp_mounted]
  split
  · rename_i hnone
    exact absurd hnone hfree
  rename_i b hsome
  simp only [wp_bind, wp_modifyState, wp_pure]
  have hmem := mem_of_find?_eq_some hsome
  have hhigh := (mem_dataBlocks.mp hmem).2
  refine ⟨piled_mark w b, .inr ⟨b, hmem, not_mem_of_findFree hsome, ?_⟩⟩
  show (w.state.mark b true).isAllocated b = true
  rw [isAllocated_mark (.inl rfl) (hl.byte_in_bitmap hhigh), if_pos rfl]

theorem marks_writeFresh (hl : Layout env w.state) (hfree : w.state.findFree ≠ none)
    {sectors : List Sector} (hne : sectors ≠ []) : Marks w (writeFresh env sectors) := by
  cases sectors with
  | nil => exact absurd rfl hne
  | cons data rest =>
    exact (marks_allocate hl hfree).bind fun block =>
      (piles_writeBlock env block data).bind fun _ =>
        (piles_writeFresh env rest).bind fun others => (looks_pure _).piles

theorem retireSlots_stops (w : World) (slots : List (Option Nat)) :
    Wp (retireSlots slots) w (fun _ _ => True) fun e _ => e = .panic := by
  induction slots generalizing w with
  | nil => exact wp_pure.mpr trivial
  | cons slot rest ih =>
    cases slot with
    | none => exact wp_panicking.mpr rfl
    | some =>
      rw [retireSlots]
      split
      · rw [wp_bind, wp_modifyState]
        exact ih _
      · exact ih w

/-- Retiring the blocks of a node and its inode. -/
theorem marks_retireNode (w : World) (target : Nat × Inode) (hp : Piles p) :
    Marks w (retireSlots target.2.slots >>= fun _ =>
      modifyState (fun s => s.retire target.1) >>= fun _ => p) := by
  rw [Marks, wp_bind]
  refine ((piles_retireSlots target.2.slots w).and (retireSlots_stops w target.2.slots)).mono ?_ ?_
  · rintro _ w₁ ⟨hpiled, -⟩
    exact ((marks_retire w₁ target.1).bind fun _ => hp).mono (fun _ _ h => h.of_piled hpiled)
      fun _ _ h hne => (h hne).of_piled hpiled
  · rintro e w₁ ⟨-, rfl⟩ hne
    exact absurd rfl hne

theorem marks_createClaim (hl : Layout env w.state) (hfree : w.state.findFree ≠ none)
    (kind : NodeKind) (owner : UserId) : Marks w (createClaim env kind owner) := by
  cases kind with
  | directory =>
    exact (marks_writeFresh hl hfree (cons_ne_nil _ _)).bind fun blocks => piles_place env _ _
  | file =>
    exact (marks_allocate hl hfree).bind fun block =>
      (piles_writeBlock env block _).bind fun _ => (looks_pure _).piles

theorem marks_writeClaim (hl : Layout env w.state) {data : List Byte}
    (hfree : data ≠ [] → w.state.findFree ≠ none) (target : Nat × Inode) :
    Marks w (writeClaim env data target) := by
  by_cases hempty : data = []
  · subst hempty
    exact marks_retireNode w target (piles_place env _ _)
  refine (marks_writeFresh hl (hfree hempty) ?_).bind fun blocks =>
    (piles_retireSlots _).bind fun _ =>
      (piles_retire _).bind fun _ => piles_place env _ _
  cases data with
  | nil => exact absurd rfl hempty
  | cons => exact cons_ne_nil _ _

theorem marks_removeClaim (w : World) (target : Nat × Inode) : Marks w (removeClaim target) :=
  marks_retireNode w target (looks_pure _).piles

theorem marks_setModeClaim (w : World) (mode : BitVec 16) (target : Nat × Inode) :
    Marks w (setModeClaim env mode target) :=
  (marks_retire w target.1).bind fun _ => piles_place env _ _

/-! ## Failed changes -/

/-- The looking part of a change: everything it does before it first claims or retires a
block. -/
def Op.checks (env : Env) : Op → Code Unit
  | .create path _ user => withName path do
    let existing ← opening env path ⟨user, true⟩
    createCheck existing
    pure ()
  | .createOwnedBy path _ _ => withName path do
    let existing ← opening env path ⟨none, true⟩
    createCheck existing
    pure ()
  | .writeFile path data user =>
    if directBlocks < (data.length + (blockSize - 1)) / blockSize then fail .tooLarge
    else do
      let existing ← opening env path ⟨user, false⟩
      let _ ← writeCheck env user existing
  | .remove path user => withName path do
    let existing ← opening env path ⟨user, true⟩
    let _ ← removeCheck env existing
  | .setMode path mode user =>
    if mode &&& ~~~allPermissions ≠ 0 then fail .badName
    else do
      let existing ← opening env path ⟨user, false⟩
      let _ ← setModeCheck env user existing
  | _ => pure ()

/-- The first thing the change does after its checks is to claim a block. -/
def Op.claims : Op → Bool
  | .create .. | .createOwnedBy .. => true
  | .writeFile _ data _ => !data.isEmpty
  | _ => false

/-- The change fails its checks, or claims its first block where none is free. -/
def Refused (env : Env) (op : Op) (w : World) : Prop :=
  (op.checks env w).1.isOk = false ∨ op.claims = true ∧ w.state.findFree = none

/-- What the call could have changed is as before it. -/
structure NoEffect (w w' : World) : Prop where
  tree : ∀ t blocks, w'.Carries t blocks ↔ w.Carries t blocks
  free : w'.state.freeBlocks = w.state.freeBlocks
  retired : w'.state.retired = w.state.retired
  generation : w'.state.superblock.generation = w.state.superblock.generation

variable {w' : World}

theorem Quiet.noEffect (h : Quiet w w') : NoEffect w w' := by
  refine ⟨fun t blocks => ?_, by rw [h.state], by rw [h.state], by rw [h.state]⟩
  rw [World.Carries, World.Carries, h.disk, h.state]

theorem Touched.freeBlocks_lt (h : Piled w w') {b : Nat} (hb : b ∈ w.state.dataBlocks)
    (hfree : w.state.isAllocated b = false) (hused : w'.state.isAllocated b = true) :
    w'.state.freeBlocks < w.state.freeBlocks := by
  have hsub : w.state.dataBlocks.filter (fun x => !w'.state.isAllocated x) =
      (w.state.dataBlocks.filter fun x => !w.state.isAllocated x).filter fun x =>
        !w'.state.isAllocated x := by
    rw [filter_filter]
    refine filter_congr fun x _ => ?_
    cases hx : w.state.isAllocated x with
    | false => simp
    | true => simp [h.kept x hx]
  rw [State.freeBlocks, State.freeBlocks, h.blocks, hsub]
  refine length_filter_lt_length_iff_exists.mpr ⟨b, ?_, ?_⟩
  · exact mem_filter.mpr ⟨hb, by simp [hfree]⟩
  · simp [hused]

theorem Touched.not_noEffect (h : Touched w w') : ¬NoEffect w w' := by
  intro hno
  rcases h.mark with hretired | ⟨b, hb, hfree, hused⟩
  · exact hretired hno.retired
  · exact Nat.ne_of_lt (Touched.freeBlocks_lt h.piled hb hfree hused) hno.free

theorem looks_createCheck (existing : Option Nat) : Looks (createCheck existing) := by
  exact .ite (looks_fail _) (looks_pure _)

/-- How a change goes: it stops while looking, or goes on to a claim and the rest. -/
inductive Course (env : Env) (w : World) (checks : Code Unit) (claims : Bool) (change : Code A) :
    Prop
  | refused {e : Stop} {w' : World} (hchecks : (checks w).1.isOk = false) (hquiet : Quiet w w')
      (hrun : change w = (.error e, w'))
  | claims {w' : World} {claim : Code (Option Nat)} {finish : Option Nat → Code A}
      (hchecks : (checks w).1.isOk = true) (hquiet : Quiet w w')
      (hmarks : Layout env w'.state → (claims = true → w'.state.findFree ≠ none) → Marks w' claim)
      (hfull : claims = true → w'.state.findFree = none → claim w' = (.error (.error .full), w'))
      (hfinish : ∀ replacement, Finishes (finish replacement))
      (hrun : change w = (claim >>= finish) w')

theorem Looks.quiet (h : Looks p) {r : Except Stop A} (hrun : p w = (r, w')) : Quiet w w' := by
  cases r with
  | ok => exact (h w).of_ok hrun
  | error => exact (h w).of_error hrun

variable {path : Str} {checks : Code Unit} {claims : Bool}

/-- **The course of a transaction** whose action is a check and a claim. -/
theorem course_transact {B : Type} {access : Access}
    {action : Option Nat → Code (Option Nat)} {check : Option Nat → Code B}
    {claim : B → Code (Option Nat)} (hchecks : checks = opening env path access >>= fun existing =>
      check existing >>= fun _ => pure ())
    (haction : ∀ existing, action existing = check existing >>= claim)
    (hlooks : ∀ existing, Looks (check existing))
    (hmarks : ∀ b w, Layout env w.state → (claims = true → w.state.findFree ≠ none) →
      Marks w (claim b))
    (hfull : ∀ b w, claims = true → w.state.findFree = none →
      claim b w = (.error (.error .full), w)) (w : World) :
    Course env w checks claims (transact env path access action) := by
  rcases transact_parts env path access w with
    ⟨e, w', hopening, htransact⟩ | ⟨existing, w₁, finish, hopening, hfinish, htransact⟩
  · refine .refused ?_ ((looks_opening env path access).quiet hopening) (htransact action)
    rw [hchecks, bind_of_error hopening]
    rfl
  have hq := (looks_opening env path access).quiet hopening
  rcases hcheck : check existing w₁ with ⟨e | b, w₂⟩
  · have hrun : transact env path access action w = (.error e, w₂) := by
      rw [htransact, haction, bind_of_error (bind_of_error hcheck)]
    refine .refused ?_ (hq.trans ((hlooks existing).quiet hcheck)) hrun
    rw [hchecks, bind_of_ok hopening, bind_of_error hcheck]
    rfl
  · have hrun : transact env path access action w = (claim b >>= finish) w₂ := by
      rw [htransact, haction]
      exact bind_of_eq (bind_of_ok hcheck)
    refine .claims ?_ (hq.trans ((hlooks existing).quiet hcheck)) (hmarks b w₂) (hfull b w₂)
      hfinish hrun
    rw [hchecks, bind_of_ok hopening, bind_of_ok hcheck]
    rfl

theorem Course.refused_first {e : FsError}
    (h : checks = fail e) : Course env w checks claims (fail e : Code A) :=
  .refused (by rw [h]; rfl) (.refl w) (rfl : (fail e : Code A) w = (.error (.error e), w))

variable {change : Code Unit}

theorem Course.withName (h : Course env w checks claims change) :
    Course env w (withName path checks) claims (withName path change) := by
  rw [Fs.withName, Fs.withName]
  split
  · exact .refused_first rfl
  split
  · exact h
  · exact .refused_first rfl

/-- What follows a change that returned does not matter. -/
theorem Course.answer (h : Course env w checks claims change) :
    Course env w checks claims (change >>= fun _ => pure Answer.done) := by
  cases h with
  | refused hchecks hquiet hrun => exact .refused hchecks hquiet (bind_of_error hrun)
  | @claims w' claim finish hchecks hquiet hmarks hfull hfinish hrun =>
    have hfinish' : ∀ replacement, Finishes (finish replacement >>= fun _ => pure Answer.done) := by
      intro replacement w
      rw [wp_bind]
      refine (hfinish replacement w).mono (fun _ _ _ => ?_) fun _ _ h => h
      exact wp_pure.mpr trivial
    refine .claims hchecks hquiet hmarks hfull hfinish' ?_
    rw [bind_of_eq hrun, bind_assoc]

theorem allocate_full (h : w.state.findFree = none) : allocate w = (.error (.error .full), w) := by
  simp only [allocate, mounted, gets, bind, h]
  rfl

theorem createClaim_full (h : w.state.findFree = none) (kind : NodeKind) (owner : UserId) :
    createClaim env kind owner w = (.error (.error .full), w) := by
  cases kind with
  | directory => exact bind_of_error (bind_of_error (allocate_full h))
  | file =>
    have hnone : writeFresh env [] w = (.ok [], w) := rfl
    exact (bind_of_ok hnone).trans (bind_of_error (allocate_full h))

theorem course_create (env : Env) (path : Str) (kind : NodeKind) (user : Option UserId)
    (owner : UserId) (w : World) : Course env w (withName path do
        let existing ← opening env path ⟨user, true⟩
        createCheck existing
        pure ()) true (createFor env path kind user owner) :=
  Course.withName (course_transact rfl (createAction_eq env kind owner) looks_createCheck
    (fun _ _ hl hfree => marks_createClaim hl (hfree rfl) kind owner)
    (fun _ _ _ hnone => createClaim_full hnone kind owner) w)

/-- **The course of every change.** -/
theorem course_perform (env : Env) {op : Op} (hop : op.reads = false) (w : World) :
    Course env w (op.checks env) op.claims (perform env op) := by
  cases op with
  | create path kind user => exact (course_create env path kind user _ w).answer
  | createOwnedBy path kind owner => exact (course_create env path kind none owner w).answer
  | writeFile path data user =>
    rw [perform, Op.checks, writeFileAs]
    refine Course.answer ?_
    split
    · exact .refused_first rfl
    refine course_transact rfl (writeAction_eq env data user) (looks_examine env _)
      (fun target w hl hfree => ?_) (fun target w hclaims hnone => ?_) w
    · refine marks_writeClaim hl (fun hne => hfree ?_) target
      simpa [Op.claims] using hne
    · cases data with
      | nil => contradiction
      | cons => exact bind_of_error (bind_of_error (allocate_full hnone))
  | remove path user =>
    refine (Course.withName (@course_transact env path _ false _ ⟨user, true⟩ _ _ _ rfl
      (removeAction_eq env) (looks_examine env _)
      (fun target w _ _ => marks_removeClaim w target) (fun _ _ h => ?_) w)).answer
    contradiction
  | setMode path mode user =>
    rw [perform, Op.checks, setModeAs]
    refine Course.answer ?_
    split
    · exact .refused_first rfl
    refine @course_transact env path _ false _ ⟨user, false⟩ _ _ _ rfl
      (setModeAction_eq env mode user) (looks_examine env _)
      (fun target w _ _ => marks_setModeClaim w mode target) (fun _ _ h => ?_) w
    contradiction
  | readFile | list | stat | owner => contradiction

section Failed

variable {w' : World} {op : Op} {e : FsError}

/-- A failed change that was refused left everything alone. -/
theorem quiet_of_refused (hop : op.reads = false)
    (hrun : perform env op w = (.error (.error e), w')) (h : Refused env op w) : Quiet w w' := by
  cases course_perform env hop w with
  | refused hchecks hquiet hrun' =>
    cases hrun'.symm.trans hrun
    exact hquiet
  | claims hchecks hquiet hmarks hfull hfinish hrun' =>
    rcases h with hno | ⟨hclaims, hnone⟩
    · rw [hchecks] at hno
      contradiction
    · have hfull' := hfull hclaims (by rw [hquiet.state]; exact hnone)
      obtain ⟨-, rfl⟩ := Prod.mk.inj ((hrun'.symm.trans hrun).symm.trans (bind_of_error hfull'))
      exact hquiet

/-- A failed change that was not refused left a mark. -/
theorem touched_of_not_refused (hl : Layout env w.state) (hop : op.reads = false)
    (hrun : perform env op w = (.error (.error e), w')) (h : ¬Refused env op w) : Touched w w' := by
  cases course_perform env hop w with
  | refused hchecks => exact absurd (.inl hchecks) h
  | @claims w₁ claim finish hchecks hquiet hmarks hfull hfinish hrun' =>
    have hl' : Layout env w₁.state := by rw [hquiet.state]; exact hl
    have hmarks' := hmarks hl' fun hclaims hnone =>
      h (.inr ⟨hclaims, by rw [← hquiet.state]; exact hnone⟩)
    have hwp : Wp (claim >>= finish) w₁ (fun _ _ => True)
        fun e w' => e ≠ .panic → Touched w₁ w' := by
      rw [wp_bind]
      refine hmarks'.mono ?_ fun _ _ h => h
      intro replacement w₂ htouched
      exact (hfinish replacement w₂).mono (fun _ _ _ => trivial) fun _ _ h _ => htouched.after h
    exact (hwp.of_error (hrun'.symm.trans hrun) (by simp)).of_piled hquiet.piled

end Failed

/-- **A failed change has no effect** exactly when it was refused before it claimed or
retired anything. -/
theorem no_effect_iff {env : Env} {w w' : World} (hl : Layout env w.state) {op : Op}
    (hop : op.reads = false) {e : FsError}
    (hrun : perform env op w = (.error (.error e), w')) : NoEffect w w' ↔ Refused env op w := by
  constructor
  · intro hno
    by_contra hrefused
    exact (touched_of_not_refused hl hop hrun hrefused).not_noEffect hno
  · intro hrefused
    exact (quiet_of_refused hop hrun hrefused).noEffect

/-- Removing a file that is not there is refused while looking. -/
theorem no_effect_iff_missing : Refused (Env.reliable 4096) (.remove pathF none) (freshWorld 4096) ∧
      NoEffect (freshWorld 4096)
        (perform (Env.reliable 4096) (.remove pathF none) (freshWorld 4096)).2 := by
  have hrefused : Refused (Env.reliable 4096) (.remove pathF none) (freshWorld 4096) :=
    .inl (by decide +kernel)
  have hrun : (perform (Env.reliable 4096) (.remove pathF none) (freshWorld 4096)).1 =
      .error (.error .notFound) := by decide +kernel
  exact ⟨hrefused, (no_effect_iff (freshWorld_sound formattable_4096).layout rfl
    (Prod.ext hrun rfl)).mpr hrefused⟩

/-- **A failed creation leaks a block**: creating `/f` on a fresh filesystem fails at its
first write, and the block claimed for the inode stays claimed. -/
theorem failed_create_leaks : ∃ env w t blocks e w', Sound env w t blocks ∧
    perform env (.create pathF .file none) w = (.error (.error e), w') ∧ ¬NoEffect w w' := by
  have hsound := freshWorld_sound formattable_4096
  have hlayout : Layout ⟨4096, writeFault 1⟩ (freshWorld 4096).state := hsound.layout.of_size rfl
  have hrun : (perform ⟨4096, writeFault 1⟩ (.create pathF .file none) (freshWorld 4096)).1 =
      .error (.error (.device .deviceFault)) := by decide +kernel
  have haccepted : ¬Refused ⟨4096, writeFault 1⟩ (.create pathF .file none) (freshWorld 4096) := by
    rintro (hno | ⟨-, hnone⟩)
    · exact absurd hno (by decide +kernel)
    · exact absurd hnone (by decide +kernel)
  exact ⟨⟨4096, writeFault 1⟩, freshWorld 4096, _, _, _, _,
    ⟨hlayout, hsound.live, hsound.owned, hsound.durable, hsound.retired⟩, Prod.ext hrun rfl,
    (touched_of_not_refused hlayout rfl (Prod.ext hrun rfl) haccepted).not_noEffect⟩

end Panda.Fs
