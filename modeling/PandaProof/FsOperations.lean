import PandaProof.FsTransaction

/-!
# What an operation leaves behind

`perform_spec` is the account of every operation on a mounted filesystem that shows a
tree, on any device.  An operation that returns has answered as the tree does, and a
change has copied the path, switched the root and committed.  One that stops has either
only grown the world, or stopped inside the commit with the new root already in memory.
-/
namespace Panda.Fs

open Block List Prog

variable {env : Env} {w : World}

/-! ## Transactions -/

/-- The same world with another root in memory. -/
def World.switch (w : World) (root : Nat) : World :=
  { w with state := { w.state with superblock := { w.state.superblock with rootInode := root } } }

/-- The path was copied: `root` shows `t'`, in `blocks'`. -/
structure Copied (w w' : World) (t t' : Tree) (blocks blocks' : List Nat) (root : Nat)
    (retired garbage : List Nat) : Prop where
  grew : Grew w w' retired
  shows : Shows w'.disk root t' blocks'
  fresh : Fresh w w' root
  moves : Moves t.Unique w w' blocks blocks' (retired ++ garbage)

/-- A change went through. -/
def Finished (w : World) (t : Tree) (blocks : List Nat) (out : Except FsError Tree)
    (w' : World) : Prop := ∃ w₁ w₂ t' blocks' root retired garbage, out = .ok t' ∧
    Copied w w₁ t t' blocks blocks' root retired garbage ∧ Committed (w₁.switch root) w₂ ∧
    w' = { w₂ with state := w₂.state.release garbage }

/-- A change stopped inside its commit. -/
def HaltedIn (env : Env) (w : World) (t : Tree) (blocks : List Nat) (out : Except FsError Tree)
    (e : Stop) (w' : World) : Prop := ∃ w₁ t' blocks' root retired garbage, out = .ok t' ∧
    Copied w w₁ t t' blocks blocks' root retired garbage ∧ Halted env (w₁.switch root) e w'

/-- A change stopped before it switched the root. -/
def StoppedEarly {α : Type} (env : Env) (w : World) (blocks : List Nat) (out : Except FsError α)
    (e : Stop) (w' : World) : Prop :=
  ∃ retired, Grew w w' retired ∧ retired ⊆ blocks ∧ Excuse env out e

variable {root : Nat}

/-- The superblock of a switched root still fits. -/
theorem Layout.switch (hl : Layout env w.state) (hroot : root < wordLimit) :
    Layout env (w.switch root).state :=
  { hl with fits := { hl.fits with rootInode := hroot } }

variable {w' : World} {t t' : Tree} {blocks blocks' retired garbage : List Nat}

section

variable (h : Copied w w' t t' blocks blocks' root retired garbage)
include h

theorem Copied.inArea
    (harea : ∀ x ∈ blocks, w.state.InArea x) : ∀ x ∈ blocks', w.state.InArea x := fun x hx =>
  (h.moves.source x hx).elim (harea x) Fresh.inArea

theorem Copied.used (hused : ∀ x ∈ blocks, w.state.isAllocated x = true) :
    ∀ x ∈ blocks', w'.state.isAllocated x = true := fun x hx =>
  (h.moves.source x hx).elim (fun hold => h.grew.kept x (hused x hold)) Fresh.used

variable {b : Nat}

theorem Copied.layout
    (hl : Layout env w.state) (ho : Owned w b t blocks) : Layout env (w'.switch root).state :=
  (h.grew.layout hl).switch (hl.word_of_inArea (h.inArea ho.area root h.shows.mem_self)).2

theorem Copied.owned (ho : Owned w b t blocks) : Owned (w'.switch root) root t' blocks' where
  shows := h.shows
  nodup := h.moves.nodup
  used := h.used ho.used
  area := fun x hx => by
    show w'.state.superblock.firstDataBlock ≤ x + 1 ∧ x < w'.state.superblock.totalBlocks
    rw [h.grew.superblock]
    exact h.inArea ho.area x hx

end

variable {path : Str}

/-- **A transaction**, on any device. -/
theorem transact_spec {access : Access} {action : Option Nat → Code (Option Nat)}
    {act : Tree.Act} (hact : Simulates env action act)
    (hfit : Fitting act (components path))
    (hl : Layout env w.state) (ho : Owned w w.state.superblock.rootInode t blocks) :
    Wp (transact env path access action) w
      (fun _ w' => Finished w t blocks (t.changeAt path access act) w')
      (fun e w' => StoppedEarly env w blocks (t.changeAt path access act) e w' ∨
        HaltedIn env w t blocks (t.changeAt path access act) e w') := by
  rw [transact]
  by_cases hempty : components path = []
  · rw [if_pos hempty, wp_fail]
    refine .inl ⟨[], .refl w, nil_subset _, .refused ?_⟩
    rw [Tree.changeAt, if_pos hempty]
  rw [if_neg hempty, Tree.changeAt, if_neg hempty, wp_bind, wp_mounted]
  simp only [wp_bind]
  refine (rewrite_spec hact (fun name => valid_of_mem_components) hfit hl ho).mono ?_ ?_
  case refine_2 =>
    rintro e w' ⟨r, hg, hsub, he⟩
    exact .inl ⟨r, hg, hsub, he⟩
  rintro ⟨root, garbage⟩ w₁ ⟨t', blocks', r, hout, hg, hshows, hfresh, hm⟩
  have hcopied : Copied w w₁ t t' blocks blocks' root r garbage := ⟨hg, hshows, hfresh, hm⟩
  rw [wp_modifyState]
  show Wp (commit env) (w₁.switch root) _ _
  refine (commit_spec (hcopied.layout hl ho)).mono ?_ ?_
  · intro _ w₂ hcommitted
    rw [wp_modifyState]
    exact ⟨w₁, w₂, t', blocks', root, r, garbage, hout, hcopied, hcommitted, rfl⟩
  · intro e w₂ hhalted
    exact .inr ⟨w₁, t', blocks', root, r, garbage, hout, hcopied, hhalted⟩

/-! ## Reads -/

/-- Why a read may stop. -/
inductive Unread (env : Env) {α : Type} (out : Except FsError α) : Stop → Prop
  | refused {e : FsError} (h : out = .error e) : Unread env out (.error e)
  | broken {e : Stop} (h : Broken env e) : Unread env out e

variable {α : Type} {out : Except FsError α}

theorem Unread.bind {β : Type} {f : α → Except FsError β} {e : Stop}
    (h : Unread env out e) : Unread env (out >>= f) e := by
  cases h with
  | refused h =>
    rw [h]
    exact .refused rfl
  | broken h => exact .broken h

variable {user : Option UserId}

theorem walk_spec {comps : List Name} (hvalid : ∀ name ∈ comps, validUtf8 name = true)
    (hl : Layout env w.state) (ho : Owned w b t blocks) : Wp (walk env user b comps) w
      (fun b' w' => Quiet w w' ∧ ∃ t' blocks', t.walk user comps = .ok t' ∧ Owned w' b' t' blocks')
      (fun e w' => Quiet w w' ∧ Unread env (t.walk user comps) e) := by
  induction comps generalizing w b t blocks with
  | nil =>
    rw [walk, wp_pure]
    exact ⟨.refl w, t, blocks, rfl, ho⟩
  | cons name rest ih =>
    rw [walk, wp_bind]
    simp only [wp_bind]
    refine enter_spec hl ho (hvalid name mem_cons_self) ?_ ?_ ?_
    · rintro inode existing w₁ kids below own others ⟨hq, rfl, rfl, _, hread, hheld, -, -, -⟩
      rw [Inode.permits] at hread
      cases existing with
      | none =>
        rw [wp_fail]
        obtain ⟨hp, -, -, -⟩ := hheld
        generalize hold : entry name kids = old at hp
        cases hp
        refine ⟨hq, .refused ?_⟩
        simp [Tree.walk, hread, hold]
      | some =>
        obtain ⟨tchild, hentry, howned⟩ := hheld.owned
        have hout : (Tree.directory inode.owner inode.mode kids).walk user (name :: rest) =
            tchild.walk user rest := by
          simp [Tree.walk, hread, hentry]
        rw [hout]
        refine (ih (fun n hn => hvalid n (mem_cons_of_mem _ hn)) (hq.grew.layout hl)
          howned).mono ?_ ?_
        · rintro b' w₂ ⟨hq', ht'⟩
          exact ⟨hq.trans hq', ht'⟩
        · rintro e w₂ ⟨hq', he⟩
          exact ⟨hq.trans hq', he⟩
    · exact fun e w' hq he => ⟨hq, .broken he⟩
    · exact fun e w' hq he => ⟨hq, .refused (Tree.walk_of_shut he (cons_ne_nil _ _))⟩

/-- The node a path leads to, with its inode at hand. -/
structure Found (w : World) (inode : Inode) (t : Tree) : Prop where
  sane : inode.Sane
  shape : ∃ b blocks, Shape w.disk b inode t blocks ∧ ∀ x ∈ blocks, w.state.InArea x

theorem resolve_spec
    (hl : Layout env w.state) (ho : Owned w w.state.superblock.rootInode t blocks) :
    Wp (resolve env path user) w
      (fun inode w' => Quiet w w' ∧ ∃ t', t.walk user (components path) = .ok t' ∧
        Found w' inode t')
      (fun e w' => Quiet w w' ∧ Unread env (t.walk user (components path)) e) := by
  rw [resolve, wp_bind, wp_mounted]
  simp only [wp_bind]
  refine (walk_spec (fun name => valid_of_mem_components) hl ho).mono ?_ fun _ _ h => h
  rintro b w₁ ⟨hq, t', blocks', hout, ho'⟩
  obtain ⟨_, hdecode, hsane, hshape⟩ := ho'.shows.shape
  have hb := (hq.grew.layout hl).inDevice_of_inArea (ho'.area b ho'.shows.mem_self)
  refine (readInode_spec hb hdecode).mono ?_ ?_
  · rintro inode w₂ ⟨rfl, hq'⟩
    refine ⟨hq.trans hq', t', hout, hsane, b, blocks', ?_, ?_⟩
    · rw [hq'.disk]
      exact hshape
    · rw [hq'.state]
      exact ho'.area
  · rintro e w₂ ⟨hq', he⟩
    exact ⟨hq.trans hq', .broken he⟩

theorem Found.readEach {inode : Inode} (h : Found w inode t) (hl : Layout env w.state) :
    Wp (readEach env inode.slots) w
      (fun read w' => read = inode.pointers.map (fun b => (b, w.disk b)) ∧ Quiet w w')
      (fun e w' => Quiet w w' ∧ Broken env e) := by
  obtain ⟨b, _, hshape, harea⟩ := h.shape
  rw [Inode.slots_eq h.sane.used]
  refine readEach_spec fun x hx => hl.inDevice_of_inArea (harea x ?_)
  cases hshape with
  | file => exact mem_cons_of_mem _ hx
  | directory => exact mem_append_left _ (mem_cons_of_mem _ hx)

/-- The contents of a file are as long as its inode says. -/
theorem length_collect {size : Nat} {sectors : List Sector}
    (h : size ≤ blockSize * sectors.length) : (collect size sectors).length = size := by
  induction sectors generalizing size with
  | nil =>
    rw [length_nil, Nat.mul_zero] at h
    rw [collect, length_nil]
    omega
  | cons s sectors ih =>
    rw [length_cons, Nat.mul_succ] at h
    have hrest : size - min size blockSize ≤ blockSize * sectors.length := by omega
    rw [collect, length_append, ih hrest, length_map, length_range]
    omega

/-- What a read did: it left everything alone, and answered as the tree does. -/
def Reads {α : Type} (env : Env) (w : World) (p : Code α) (out : Except FsError α) : Prop :=
  Wp p w (fun a w' => Quiet w w' ∧ out = .ok a) (fun e w' => Quiet w w' ∧ Unread env out e)

theorem filterMap_nameStr (es : List DirEntry) :
    es.filterMap DirEntry.nameStr = (es.map DirEntry.rawName).filter validUtf8 := by
  induction es with
  | nil => rfl
  | cons e es ih =>
    rw [filterMap_cons, map_cons, filter_cons, ih, DirEntry.nameStr]
    cases validUtf8 e.rawName <;> rfl

theorem Found.look {inode : Inode} {node : Tree} (h : Found w inode node) :
    inode.nodeKind = node.kind ∧ inode.size = node.size ∧ inode.owner = node.owner ∧
      inode.mode = node.mode := by
  obtain ⟨b, _, hshape, -⟩ := h.shape
  cases hshape with
  | file hkind hsize =>
    refine ⟨hkind, ?_, rfl, rfl⟩
    rw [← Inode.length_pointers h.sane.used, ← length_map (f := w.disk)] at hsize
    exact (length_collect hsize).symm
  | directory hkind hsize hkids => exact ⟨hkind, hsize.trans hkids.length.symm, rfl, rfl⟩

section ReadSpecs

variable {user : Option UserId} {path : Str} {t : Tree} {blocks : List Nat}
  (hl : Layout env w.state) (ho : Owned w w.state.superblock.rootInode t blocks)
include hl ho

/-- A read is a walk to a node and a look at it. -/
theorem reads_of_found {α : Type} {look : Inode → Code α} {view : Tree → Except FsError α}
    (hlook : ∀ w inode node, Layout env w.state → Found w inode node →
      Reads env w (look inode) (view node)) :
    Reads env w (resolve env path user >>= look) (t.walk user (components path) >>= view) := by
  rw [Reads, wp_bind]
  refine (resolve_spec hl ho).mono ?_ fun e w' h => ⟨h.1, h.2.bind⟩
  rintro inode w₁ ⟨hq, node, hwalk, hfound⟩
  rw [hwalk]
  refine (hlook w₁ inode node (hq.grew.layout hl) hfound).mono ?_ ?_
  · exact fun a w' h => ⟨hq.trans h.1, h.2⟩
  · exact fun e w' h => ⟨hq.trans h.1, h.2⟩

theorem readFileAs_spec :
    Reads env w (readFileAs env path user) (t.walk user (components path) >>= Tree.bytes user) := by
  refine reads_of_found hl ho fun w inode node hl hfound => ?_
  obtain ⟨b, _, hshape, -⟩ := hfound.shape
  rw [Reads]
  cases hshape with
  | directory hkind =>
    rw [if_pos (by simp [hkind]), wp_fail]
    exact ⟨.refl w, .refused rfl⟩
  | file hkind =>
    rw [if_neg (by simp [hkind])]
    by_cases hread : (!inode.permits user false) = true
    · rw [if_pos hread, wp_fail]
      exact ⟨.refl w, .refused (if_pos hread)⟩
    have hout : (Tree.file inode.owner inode.mode
        (collect inode.size (inode.pointers.map w.disk))).bytes user =
          .ok (collect inode.size (inode.pointers.map w.disk)) := if_neg hread
    have hsmall : ¬allocationLimit ≤ inode.size := by
      have hlimit : blockSize * directBlocks < allocationLimit := by decide
      have := Nat.mul_le_mul_left blockSize hfound.sane.used
      omega
    rw [if_neg hread, if_neg hsmall, hout, wp_bind]
    refine (hfound.readEach hl).mono ?_ fun e w' h => ⟨h.1, .broken h.2⟩
    rintro _ w₁ ⟨rfl, hq⟩
    rw [wp_pure, map_map]
    exact ⟨hq, rfl⟩

theorem listAs_spec :
    Reads env w (listAs env path user) (t.walk user (components path) >>= Tree.names user) := by
  refine reads_of_found hl ho fun w inode node hl hfound => ?_
  obtain ⟨b, _, hshape, -⟩ := hfound.shape
  rw [Reads]
  cases hshape with
  | file hkind =>
    rw [if_pos (by simp [hkind]), wp_fail]
    exact ⟨.refl w, .refused rfl⟩
  | directory hkind hsize hkids =>
    rw [if_neg (by simp [hkind])]
    by_cases hread : (!inode.permits user false) = true
    · rw [if_pos hread, wp_fail]
      exact ⟨.refl w, .refused (if_pos hread)⟩
    rw [if_neg hread, wp_bind]
    refine (hfound.readEach hl).mono ?_ fun e w' h => ⟨h.1, .broken h.2⟩
    rintro _ w₁ ⟨rfl, hq⟩
    rw [wp_pure, flatMap_map]
    refine ⟨hq, (if_neg hread).trans ?_⟩
    rw [hkids.map_fst, ← filterMap_nameStr]
    rfl

theorem statAs_spec : Reads env w (statAs env path user)
      (t.walk user (components path) >>= fun node => .ok (node.kind, node.size)) := by
  refine reads_of_found hl ho fun w inode node hl hfound => ?_
  obtain ⟨hkind, hsize, -, -⟩ := hfound.look
  rw [Reads, wp_pure, hkind, hsize]
  exact ⟨.refl w, rfl⟩

theorem ownerAs_spec : Reads env w (ownerAs env path user)
      (t.walk user (components path) >>= fun node => .ok (node.owner, node.mode)) := by
  refine reads_of_found hl ho fun w inode node hl hfound => ?_
  obtain ⟨-, -, howner, hmode⟩ := hfound.look
  rw [Reads, wp_pure, howner, hmode]
  exact ⟨.refl w, rfl⟩

end ReadSpecs

/-! ## Operations -/

/-- The operation only looks. -/
def Op.reads : Op → Bool
  | .readFile .. | .list .. | .stat .. | .owner .. => true
  | _ => false

/-- The operation returned `a`. -/
structure Returned (w : World) (t : Tree) (blocks : List Nat) (op : Op) (a : Answer)
    (w' : World) : Prop where
  answer : t.answer op = .ok a
  read : op.reads = true → Quiet w w'
  change : op.reads = false → Finished w t blocks (t.change op) w'

/-- The operation stopped. -/
structure Stopped (env : Env) (w : World) (t : Tree) (blocks : List Nat) (op : Op) (e : Stop)
    (w' : World) : Prop where
  read : op.reads = true → Quiet w w' ∧ Unread env (t.answer op) e
  change : op.reads = false → StoppedEarly env w blocks (t.change op) e w' ∨
    HaltedIn env w t blocks (t.change op) e w'

section Perform

variable {t : Tree} {blocks : List Nat} {op : Op}

/-- A change refused before the tree is looked at. -/
theorem wp_refused {A : Type} {e : FsError} (hop : op.reads = false) (h : t.change op = .error e)
    {Q : A → World → Prop} : Wp (fail e) w Q fun e w' => Stopped env w t blocks op e w' := by
  rw [wp_fail]
  refine ⟨fun hread => ?_, fun _ => .inl ⟨[], .refl w, nil_subset _, .refused h⟩⟩
  rw [hop] at hread
  contradiction

variable {path : Str}

/-- A change that goes through `transact`. -/
theorem wp_changed {access : Access} {action : Option Nat → Code (Option Nat)}
    {act : Tree.Act} (hact : Simulates env action act)
    (hfit : Fitting act (components path)) (hl : Layout env w.state)
    (ho : Owned w w.state.superblock.rootInode t blocks) (hop : op.reads = false)
    (hanswer : t.answer op = (t.change op >>= fun _ => .ok .done))
    (h : t.change op = t.changeAt path access act) :
    Wp (transact env path access action) w (fun _ w' => Returned w t blocks op .done w')
      fun e w' => Stopped env w t blocks op e w' := by
  refine (transact_spec hact hfit hl ho).mono ?_ ?_
  · intro _ w' hfinished
    rw [← h] at hfinished
    refine ⟨?_, fun hread => ?_, fun _ => hfinished⟩
    · obtain ⟨_, _, _, _, _, r, _, hok, -⟩ := hfinished
      rw [hanswer, hok]
      rfl
    · rw [hop] at hread
      contradiction
  · intro e w' hstopped
    rw [← h] at hstopped
    refine ⟨fun hread => ?_, fun _ => hstopped⟩
    rw [hop] at hread
    contradiction

/-- A change whose path must end in a name. -/
theorem wp_withName {p : Code Unit} {out : Except FsError Tree}
    (hop : op.reads = false) (h : t.change op = Tree.named path out)
    (hp : t.change op = out → ∀ name, finalName path = some name → nameOk name = true →
      Wp p w (fun _ w' => Returned w t blocks op .done w')
        fun e w' => Stopped env w t blocks op e w') :
    Wp (withName path p) w (fun _ w' => Returned w t blocks op .done w')
      fun e w' => Stopped env w t blocks op e w' := by
  rw [withName]
  rw [Tree.named] at h
  cases hname : finalName path with
  | none =>
    rw [hname] at h
    exact wp_refused hop h
  | some name =>
    rw [hname] at h
    by_cases hok : nameOk name = true
    · simp only [hok, if_true] at h ⊢
      exact hp h name hname hok
    · simp only [hok] at h ⊢
      exact wp_refused hop h

/-- A read, as an operation. -/
theorem wp_read {α : Type} {p : Code α} {out : Except FsError α} {f : α → Answer}
    (h : Reads env w p out) (hop : op.reads = true)
    (hanswer : t.answer op = (out >>= fun a => .ok (f a))) :
    Wp p w (fun a w' => Returned w t blocks op (f a) w')
      fun e w' => Stopped env w t blocks op e w' := by
  refine h.mono ?_ ?_
  · rintro a w' ⟨hq, rfl⟩
    refine ⟨hanswer, fun _ => hq, fun hread => ?_⟩
    rw [hop] at hread
    contradiction
  · rintro e w' ⟨hq, he⟩
    refine ⟨fun _ => ⟨hq, hanswer ▸ he.bind⟩, fun hread => ?_⟩
    rw [hop] at hread
    contradiction

/-- The mode of an accepted `set_mode` has permission bits only. -/
theorem mode_of_accepted {mode : BitVec 16} (h : ¬mode &&& ~~~allPermissions ≠ 0) :
    mode &&& allPermissions = mode := by
  have hzero : mode &&& ~~~allPermissions = 0#16 := Classical.not_not.mp h
  have hsplit : mode = (mode &&& allPermissions) ||| (mode &&& ~~~allPermissions) := by
    rw [← BitVec.and_or_distrib_left, BitVec.or_not_self, BitVec.and_allOnes]
  rw [hzero, BitVec.or_zero] at hsplit
  exact hsplit.symm

/-- **Every operation**, on any device, from any mounted filesystem that shows a tree. -/
theorem perform_spec (op : Op) (hl : Layout env w.state)
    (ho : Owned w w.state.superblock.rootInode t blocks) :
    Wp (perform env op) w (fun a w' => Returned w t blocks op a w')
      (fun e w' => Stopped env w t blocks op e w') := by
  cases op with
  | create | createOwnedBy =>
    rw [perform, wp_bind]
    simp only [wp_pure]
    exact wp_withName rfl rfl fun h name hname hok =>
      wp_changed (create_simulates _ _) (fitting_of_name hname hok) hl ho rfl rfl h
  | writeFile path data user =>
    rw [perform, wp_bind, writeFileAs]
    simp only [wp_pure]
    by_cases hlarge : directBlocks < (data.length + (blockSize - 1)) / blockSize
    · rw [if_pos hlarge]
      refine wp_refused rfl ?_
      exact if_pos hlarge
    · rw [if_neg hlarge]
      exact wp_changed (write_simulates user (not_lt.mp hlarge)) (fitting_of_refusal rfl _) hl ho
        rfl rfl (if_neg hlarge)
  | remove =>
    rw [perform, wp_bind]
    simp only [wp_pure]
    exact wp_withName rfl rfl fun h name hname hok =>
      wp_changed remove_simulates (fitting_of_refusal rfl _) hl ho rfl rfl h
  | setMode path mode user =>
    rw [perform, wp_bind, setModeAs]
    simp only [wp_pure]
    by_cases hbad : mode &&& ~~~allPermissions ≠ 0
    · rw [if_pos hbad]
      refine wp_refused rfl ?_
      exact if_pos hbad
    · rw [if_neg hbad]
      exact wp_changed (setMode_simulates (mode_of_accepted hbad) user) (fitting_of_refusal rfl _)
        hl ho rfl rfl (if_neg hbad)
  | readFile =>
    rw [perform, wp_bind]
    simp only [wp_pure]
    exact wp_read (readFileAs_spec hl ho) rfl rfl
  | list =>
    rw [perform, wp_bind]
    simp only [wp_pure]
    exact wp_read (listAs_spec hl ho) rfl rfl
  | stat path user =>
    rw [perform, wp_bind]
    simp only [wp_pure]
    have hreads : (Op.stat path user).reads = true := rfl
    refine wp_read (f := fun a => .status a.1 a.2) (statAs_spec hl ho) hreads ?_
    rw [Tree.answer]
    cases t.walk user (components path) <;> rfl
  | owner path user =>
    rw [perform, wp_bind]
    simp only [wp_pure]
    have hreads : (Op.owner path user).reads = true := rfl
    refine wp_read (f := fun a => .ownership a.1 a.2) (ownerAs_spec hl ho) hreads ?_
    rw [Tree.answer]
    cases t.walk user (components path) <;> rfl

end Perform

end Panda.Fs
