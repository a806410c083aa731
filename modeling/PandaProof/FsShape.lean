import PandaProof.FsTree

/-!
# Trees on a disk

`treeAt` reads the tree below an inode block off the disk, together with the blocks it
takes up: the inode, the blocks its pointers name, and those of everything below a
directory, each listed as often as it is referred to.  `Shows` is the same without the
bound on the depth.  A tree depends on its own blocks only.
-/
namespace Panda.Fs

open Block List Option Prod

/-- The pointers in use. -/
def Inode.pointers (inode : Inode) : List Nat := inode.direct.take inode.blocksUsed

/-- The pointers in use exist, and point somewhere. -/
structure Inode.Sane (inode : Inode) : Prop where
  used : inode.blocksUsed ≤ directBlocks
  nonzero : 0 ∉ inode.pointers

variable {inode : Inode}

theorem Inode.length_pointers (h : inode.blocksUsed ≤ directBlocks) :
    inode.pointers.length = inode.blocksUsed := by
  rw [pointers, length_take, inode.direct_length, Nat.min_eq_left h]

theorem Inode.slots_eq (h : inode.blocksUsed ≤ directBlocks) :
    inode.slots = inode.pointers.map some := by
  refine ext_getElem (by simp [slots, length_pointers h]) fun k h₁ h₂ => ?_
  have hk : k < inode.direct.length := by
    rw [inode.direct_length]
    simp only [slots, length_map, length_range] at h₁
    omega
  simp [slots, pointers, hk]

/-- The entries in use in these directory blocks. -/
def entriesIn (d : Disk) (blocks : List Nat) : List DirEntry :=
  blocks.flatMap fun b => liveEntries (d b)

/-- The trees below these entries by name, and the blocks they take up. -/
def children (below : Nat → Option (Tree × List Nat)) :
    List DirEntry → Option (List (Name × Tree) × List Nat)
  | [] => some ([], [])
  | e :: rest => do
    let (t, own) ← below e.inode
    let (kids, others) ← children below rest
    some ((e.rawName, t) :: kids, own ++ others)

/-- The tree below an inode block and the blocks it takes up, if it is at most `depth`
levels deep and its inodes make sense. -/
def treeAt (d : Disk) : (depth : Nat) → Nat → Option (Tree × List Nat)
  | 0, _ => none
  | depth + 1, block =>
    match Inode.decode (d block) with
    | .error _ => none
    | .ok inode =>
      if directBlocks < inode.blocksUsed ∨ 0 ∈ inode.pointers then none
      else if inode.nodeKind = .file then
        if blockSize * inode.blocksUsed < inode.size then none
        else some (.file inode.owner inode.mode (collect inode.size (inode.pointers.map d)),
          block :: inode.pointers)
      else if inode.size ≠ (entriesIn d inode.pointers).length then none
      else (children (treeAt d depth) (entriesIn d inode.pointers)).map fun kids =>
        (.directory inode.owner inode.mode kids.1, block :: inode.pointers ++ kids.2)

/-- The disk holds this tree below this inode block, in these blocks. -/
def Shows (d : Disk) (block : Nat) (t : Tree) (blocks : List Nat) : Prop :=
  ∃ depth, treeAt d depth block = some (t, blocks)

/-- The disk holds these trees below these entries. -/
def Kids (d : Disk) (entries : List DirEntry) (kids : List (Name × Tree)) (blocks : List Nat) :
    Prop := ∃ depth, children (treeAt d depth) entries = some (kids, blocks)

/-! ## Children -/

section Children

variable {below other : Nat → Option (Tree × List Nat)} {e : DirEntry} {es : List DirEntry}
  {kids : List (Name × Tree)} {blocks : List Nat}

theorem children_cons_iff : children below (e :: es) = some (kids, blocks) ↔
    ∃ t own rest others, below e.inode = some (t, own) ∧ children below es = some (rest, others) ∧
      kids = (e.rawName, t) :: rest ∧ blocks = own ++ others := by
  constructor
  · intro h
    obtain ⟨⟨t, own⟩, ht, h⟩ := bind_eq_some_iff.mp h
    obtain ⟨⟨rest, others⟩, hrest, h⟩ := bind_eq_some_iff.mp h
    cases h
    exact ⟨t, own, rest, others, ht, hrest, rfl, rfl⟩
  · rintro ⟨t, own, rest, others, ht, hrest, rfl, rfl⟩
    simp [children, ht, hrest, bind_some, bind_eq_bind]

section

variable (h : children below es = some (kids, blocks))
include h

/-- Reading the children with another reader that agrees on their own blocks. -/
theorem children_imp
    (hother : ∀ b t own, below b = some (t, own) → own ⊆ blocks → other b = some (t, own)) :
    children other es = some (kids, blocks) := by
  induction es generalizing kids blocks with
  | nil => exact h
  | cons e es ih =>
    obtain ⟨t, own, rest, others, ht, hrest, rfl, rfl⟩ := children_cons_iff.mp h
    refine children_cons_iff.mpr ⟨t, own, rest, others, ?_, ?_, rfl, rfl⟩
    · exact hother _ _ _ ht (subset_append_left _ _)
    · exact ih hrest fun b t own' hb hsub =>
        hother b t own' hb (List.Subset.trans hsub (subset_append_right _ _))

theorem children_append {es' : List DirEntry} {kids' : List (Name × Tree)} {blocks' : List Nat}
    (h' : children below es' = some (kids', blocks')) :
    children below (es ++ es') = some (kids ++ kids', blocks ++ blocks') := by
  induction es generalizing kids blocks with
  | nil =>
    cases h
    exact h'
  | cons e es ih =>
    obtain ⟨t, own, _, _, ht, hrest, rfl, rfl⟩ := children_cons_iff.mp h
    refine children_cons_iff.mpr ⟨t, own, _, _, ht, ih hrest, rfl, ?_⟩
    exact append_assoc _ _ _

theorem length_children : kids.length = es.length := by
  induction es generalizing kids blocks with
  | nil =>
    cases h
    rfl
  | cons e es ih =>
    obtain ⟨t, _, _, _, -, hrest, rfl, rfl⟩ := children_cons_iff.mp h
    rw [length_cons, length_cons, ih hrest]

theorem map_fst_children : kids.map fst = es.map DirEntry.rawName := by
  induction es generalizing kids blocks with
  | nil =>
    cases h
    rfl
  | cons e es ih =>
    obtain ⟨t, _, _, _, -, hrest, rfl, rfl⟩ := children_cons_iff.mp h
    rw [map_cons, map_cons, ih hrest]

end

end Children

/-! ## One level -/

/-- What an inode block shows, given its inode. -/
inductive Shape (d : Disk) (block : Nat) (inode : Inode) : Tree → List Nat → Prop
  | file (hkind : inode.nodeKind = .file) (hsize : inode.size ≤ blockSize * inode.blocksUsed) :
    Shape d block inode (.file inode.owner inode.mode (collect inode.size (inode.pointers.map d)))
      (block :: inode.pointers)
  | directory {kids : List (Name × Tree)} {blocks : List Nat} (hkind : inode.nodeKind = .directory)
      (hsize : inode.size = (entriesIn d inode.pointers).length)
      (hkids : Kids d (entriesIn d inode.pointers) kids blocks) :
    Shape d block inode (.directory inode.owner inode.mode kids) (block :: inode.pointers ++ blocks)

/-- One level of `treeAt`, the children read at the given depth. -/
def ShapeAt (d : Disk) (depth : Nat) (block : Nat) (inode : Inode) (t : Tree)
    (blocks : List Nat) : Prop :=
  (inode.nodeKind = .file ∧ inode.size ≤ blockSize * inode.blocksUsed ∧
    t = .file inode.owner inode.mode (collect inode.size (inode.pointers.map d)) ∧
    blocks = block :: inode.pointers) ∨ ∃ kids below, inode.nodeKind = .directory ∧
    inode.size = (entriesIn d inode.pointers).length ∧
    children (treeAt d depth) (entriesIn d inode.pointers) = some (kids, below) ∧
    t = .directory inode.owner inode.mode kids ∧ blocks = block :: inode.pointers ++ below

variable {d : Disk} {depth block : Nat} {t : Tree} {blocks : List Nat}

theorem treeAt_succ_iff : treeAt d (depth + 1) block = some (t, blocks) ↔
      ∃ inode, Inode.decode (d block) = .ok inode ∧ inode.Sane ∧
        ShapeAt d depth block inode t blocks := by
  rw [treeAt]
  cases hdecode : Inode.decode (d block) with
  | error => simp
  | ok inode =>
    simp only [Except.ok.injEq, exists_eq_left']
    by_cases hbad : directBlocks < inode.blocksUsed ∨ 0 ∈ inode.pointers
    · have hsane : ¬inode.Sane := fun h => hbad.elim (not_lt.mpr h.used) h.nonzero
      simp [hbad, hsane]
    have hsane : inode.Sane := by
      rw [not_or] at hbad
      exact ⟨not_lt.mp hbad.1, hbad.2⟩
    rw [if_neg hbad]
    simp only [hsane, true_and, ShapeAt]
    by_cases hkind : inode.nodeKind = .file
    · by_cases hsize : blockSize * inode.blocksUsed < inode.size
      · simp [hkind, hsize, not_le.mpr hsize]
      · simp [hkind, hsize, not_lt.mp hsize, eq_comm]
    have hdirectory : inode.nodeKind = .directory := by
      cases h : inode.nodeKind with
      | file => exact absurd h hkind
      | directory => rfl
    by_cases hsize : inode.size = (entriesIn d inode.pointers).length
    · simp only [hdirectory, hsize, ne_eq, not_true_eq_false, reduceCtorEq, if_false, true_and,
        false_and, false_or, map_eq_some_iff, Prod.exists, Prod.mk.injEq]
      constructor
      · rintro ⟨kids, below, h, rfl, rfl⟩
        exact ⟨kids, below, h, rfl, rfl⟩
      · rintro ⟨kids, below, h, rfl, rfl⟩
        exact ⟨kids, below, h, rfl, rfl⟩
    · simp [hdirectory, hsize]

/-! ## Depth -/

theorem treeAt_mono {depth' : Nat}
    (hle : depth ≤ depth') (h : treeAt d depth block = some (t, blocks)) :
    treeAt d depth' block = some (t, blocks) := by
  induction depth generalizing depth' block t blocks with
  | zero => contradiction
  | succ depth ih =>
    obtain ⟨depth', rfl⟩ : ∃ k, depth' = k + 1 := ⟨depth' - 1, by omega⟩
    obtain ⟨inode, hdecode, hsane, hshape⟩ := treeAt_succ_iff.mp h
    refine treeAt_succ_iff.mpr ⟨inode, hdecode, hsane, hshape.imp id ?_⟩
    rintro ⟨kids, below, hkind, hsize, hkids, rfl, rfl⟩
    exact ⟨kids, below, hkind, hsize,
      children_imp hkids fun b t own hb _ => ih (Nat.le_of_succ_le_succ hle) hb, rfl, rfl⟩

theorem Shows.unique {t' : Tree} {blocks' : List Nat}
    (h : Shows d block t blocks) (h' : Shows d block t' blocks') : t = t' ∧ blocks = blocks' := by
  obtain ⟨n, hn⟩ := h
  obtain ⟨m, hm⟩ := h'
  have := (treeAt_mono (Nat.le_max_left n m) hn).symm.trans (treeAt_mono (Nat.le_max_right n m) hm)
  exact mk.inj (some.inj this)

theorem Shows.shape (h : Shows d block t blocks) :
    ∃ inode, Inode.decode (d block) = .ok inode ∧ inode.Sane ∧ Shape d block inode t blocks := by
  obtain ⟨_ | depth, h⟩ := h
  · contradiction
  obtain ⟨inode, hdecode, hsane, hshape⟩ := treeAt_succ_iff.mp h
  refine ⟨inode, hdecode, hsane, ?_⟩
  rcases hshape with ⟨hkind, hsize, rfl, rfl⟩ | ⟨_, _, hkind, hsize, hkids, rfl, rfl⟩
  · exact .file hkind hsize
  · exact .directory hkind hsize ⟨depth, hkids⟩

theorem Shows.of_shape (hdecode : Inode.decode (d block) = .ok inode) (hsane : inode.Sane)
    (h : Shape d block inode t blocks) : Shows d block t blocks := by
  cases h with
  | file hkind hsize =>
    exact ⟨1, treeAt_succ_iff.mpr ⟨inode, hdecode, hsane, .inl ⟨hkind, hsize, rfl, rfl⟩⟩⟩
  | directory hkind hsize hkids =>
    obtain ⟨depth, hkids⟩ := hkids
    exact ⟨depth + 1, treeAt_succ_iff.mpr
      ⟨inode, hdecode, hsane, .inr ⟨_, _, hkind, hsize, hkids, rfl, rfl⟩⟩⟩

theorem Shows.mem_self (h : Shows d block t blocks) : block ∈ blocks := by
  obtain ⟨_, -, -, hshape⟩ := h.shape
  cases hshape <;> simp

/-! ## A tree depends on its own blocks only -/

variable {d' : Disk}

theorem entriesIn_congr (h : ∀ b ∈ blocks, d' b = d b) :
    entriesIn d' blocks = entriesIn d blocks := by
  have hmap : (blocks.map fun b => liveEntries (d' b)) = blocks.map fun b => liveEntries (d b) :=
    map_congr_left fun b hb => congrArg liveEntries (h b hb)
  rw [entriesIn, entriesIn, flatMap_def, flatMap_def, hmap]

theorem treeAt_frame (h : treeAt d depth block = some (t, blocks)) (hd : ∀ b ∈ blocks, d' b = d b) :
    treeAt d' depth block = some (t, blocks) := by
  induction depth generalizing block t blocks with
  | zero => contradiction
  | succ depth ih =>
    obtain ⟨inode, hdecode, hsane, hshape⟩ := treeAt_succ_iff.mp h
    refine treeAt_succ_iff.mpr ⟨inode, ?_, hsane, ?_⟩
    · have hself : block ∈ blocks := Shows.mem_self ⟨depth + 1, h⟩
      rw [hd block hself, hdecode]
    rcases hshape with ⟨hkind, hsize, rfl, rfl⟩ | ⟨kids, below, hkind, hsize, hkids, rfl, rfl⟩
    · have hdata : inode.pointers.map d' = inode.pointers.map d :=
        map_congr_left fun b hb => hd b (mem_cons_of_mem _ hb)
      exact .inl ⟨hkind, hsize, by rw [hdata], rfl⟩
    have hentries := entriesIn_congr fun b hb =>
      hd b (mem_append_left _ (mem_cons_of_mem _ hb))
    refine .inr ⟨kids, below, hkind, by rw [hentries, hsize], ?_, rfl, rfl⟩
    rw [hentries]
    refine children_imp hkids fun b t own hb hsub => ih hb fun x hx => ?_
    exact hd x (mem_append_right _ (hsub hx))

/-- **A tree depends on its own blocks only.** -/
theorem Shows.frame
    (h : Shows d block t blocks) (hd : ∀ b ∈ blocks, d' b = d b) : Shows d' block t blocks := by
  obtain ⟨depth, h⟩ := h
  exact ⟨depth, treeAt_frame h hd⟩

/-! ## Children, at any depth -/

namespace Kids

variable {d d' : Disk} {es es' : List DirEntry} {kids kids' : List (Name × Tree)}
  {blocks blocks' : List Nat}

theorem frame (h : Kids d es kids blocks) (hd : ∀ b ∈ blocks, d' b = d b) :
    Kids d' es kids blocks := by
  obtain ⟨depth, h⟩ := h
  exact ⟨depth, children_imp h fun b t own hb hsub => treeAt_frame hb fun x hx => hd x (hsub hx)⟩

theorem nil : Kids d [] [] [] := ⟨0, rfl⟩

variable {e : DirEntry}

theorem singleton {t : Tree} (h : Shows d e.inode t blocks) :
    Kids d [e] [(e.rawName, t)] blocks := by
  obtain ⟨depth, h⟩ := h
  exact ⟨depth, children_cons_iff.mpr ⟨t, blocks, [], [], h, rfl, rfl, (append_nil _).symm⟩⟩

theorem append (h : Kids d es kids blocks) (h' : Kids d es' kids' blocks') :
    Kids d (es ++ es') (kids ++ kids') (blocks ++ blocks') := by
  obtain ⟨n, hn⟩ := h
  obtain ⟨m, hm⟩ := h'
  refine ⟨max n m, children_append ?_ ?_⟩
  · exact children_imp hn fun b t own hb _ => treeAt_mono (Nat.le_max_left n m) hb
  · exact children_imp hm fun b t own hb _ => treeAt_mono (Nat.le_max_right n m) hb

theorem cons_iff : Kids d (e :: es) kids blocks ↔
    ∃ t own rest others, Shows d e.inode t own ∧ Kids d es rest others ∧
      kids = (e.rawName, t) :: rest ∧ blocks = own ++ others := by
  constructor
  · rintro ⟨depth, h⟩
    obtain ⟨t, own, rest, others, ht, hrest, rfl, rfl⟩ := children_cons_iff.mp h
    exact ⟨t, own, rest, others, ⟨depth, ht⟩, ⟨depth, hrest⟩, rfl, rfl⟩
  · rintro ⟨t, own, rest, others, ht, hrest, rfl, rfl⟩
    exact (singleton ht).append hrest

theorem nil_iff : Kids d [] kids blocks ↔ kids = [] ∧ blocks = [] := by
  constructor
  · rintro ⟨_, h⟩
    cases h
    exact ⟨rfl, rfl⟩
  · rintro ⟨rfl, rfl⟩
    exact nil

theorem length (h : Kids d es kids blocks) : kids.length = es.length := by
  obtain ⟨_, h⟩ := h
  exact length_children h

theorem map_fst (h : Kids d es kids blocks) : kids.map fst = es.map DirEntry.rawName := by
  obtain ⟨_, h⟩ := h
  exact map_fst_children h

end Kids

/-! ## One child taken out -/

/-- What the disk holds below an inode block that may not be there. -/
inductive Pictures (d : Disk) : Option Nat → Option Tree → List Nat → Prop
  | absent : Pictures d none none []
  | present {b : Nat} {t : Tree} {blocks : List Nat} (h : Shows d b t blocks) :
    Pictures d (some b) (some t) blocks

variable {b : Option Nat}

theorem Pictures.of_none (h : Pictures d b none blocks) : blocks = [] := by
  cases h
  rfl

variable {kids : List (Name × Tree)}

theorem entry_eq_none {name : Name} (h : name ∉ kids.map fst) : entry name kids = none := by
  rw [entry, find?_eq_none.mpr]
  · rfl
  · intro e he
    simp only [decide_eq_true_eq]
    exact fun heq => h (heq ▸ mem_map_of_mem he)

theorem entry_cons_self (name : Name) (t : Tree) (kids : List (Name × Tree)) :
    entry name ((name, t) :: kids) = some t := by
  simp [entry]

theorem entry_cons_of_ne {name other : Name} (h : other ≠ name) (t : Tree)
    (kids : List (Name × Tree)) : entry name ((other, t) :: kids) = entry name kids := by
  simp [entry, h]

/-- The entries of other names. -/
def others (name : Name) (es : List DirEntry) : List DirEntry :=
  es.filter fun e => e.rawName ≠ name

/-- The inode block of the first entry of that name. -/
def inodeNamed (name : Name) (es : List DirEntry) : Option Nat :=
  (es.find? fun e => e.rawName = name).map DirEntry.inode

/-- **The child of a name, and the rest.**  Neither refers to a block the other refers to
unless the directory did so twice; where names are unique, nothing is left over. -/
theorem Kids.part {es : List DirEntry} (h : Kids d es kids blocks) (name : Name) :
    ∃ own rest, Pictures d (inodeNamed name es) (entry name kids) own ∧
      Kids d (others name es) (kids.filter fun e => e.1 ≠ name) rest ∧
      (∀ x, own.count x + rest.count x ≤ blocks.count x) ∧
      ((kids.map fst).Nodup → ∀ x, own.count x + rest.count x = blocks.count x) := by
  induction es generalizing kids blocks with
  | nil =>
    obtain ⟨rfl, rfl⟩ := Kids.nil_iff.mp h
    exact ⟨[], [], .absent, Kids.nil, by simp, by simp⟩
  | cons e es ih =>
    obtain ⟨t, first, _, _, ht, hrest, rfl, rfl⟩ := Kids.cons_iff.mp h
    obtain ⟨own, rest, hown, hkept, hle, heq⟩ := ih hrest
    by_cases hname : e.rawName = name
    · refine ⟨first, rest, ?_, ?_, ?_, ?_⟩
      · rw [inodeNamed, find?_cons_of_pos (by simp [hname]), hname, entry_cons_self]
        exact .present ht
      · simpa [others, hname] using hkept
      · intro x
        have := hle x
        rw [count_append]
        omega
      intro hnodup x
      rw [map_cons, nodup_cons] at hnodup
      rw [entry_eq_none (hname ▸ hnodup.1)] at hown
      have := heq hnodup.2 x
      rw [hown.of_none, count_nil] at this
      rw [count_append]
      omega
    · refine ⟨own, first ++ rest, ?_, ?_, ?_, ?_⟩
      · rw [inodeNamed, find?_cons_of_neg (by simp [hname]), entry_cons_of_ne hname]
        exact hown
      · have hcons := Kids.cons_iff.mpr ⟨t, first, _, rest, ht, hkept, rfl, rfl⟩
        simpa [others, hname] using hcons
      · intro x
        have := hle x
        rw [count_append, count_append]
        omega
      intro hnodup x
      rw [map_cons, nodup_cons] at hnodup
      have := heq hnodup.2 x
      rw [count_append, count_append]
      omega

end Panda.Fs
