import PandaProof.FsRewrite

/-!
# Operations do to the disk what they do to the tree

`rewrite` and the four actions, put together: whatever the device does, an operation that
gets as far as its new root shows there the tree that `Tree.rewrite` gives, and one that
stops earlier has only grown the world, for a reason the tree gives or because the device
failed or filled up.
-/
namespace Panda.Fs

open Block List Prog

variable {env : Env} {w : World}

/-! ## Where a path is cut off -/

/-- A tree that cannot be walked through by this user. -/
inductive Tree.Shut (user : Option UserId) : Tree → FsError → Prop
  | file {owner : UserId} {mode : BitVec 16} {contents : List Byte} :
    Tree.Shut user (.file owner mode contents) .wrongType
  | denied {owner : UserId} {mode : BitVec 16} {entries : List (Name × Tree)}
    (h : Fs.permits owner mode user false = false) :
    Tree.Shut user (.directory owner mode entries) .denied

variable {access : Access} {act : Tree.Act} {t : Tree}
  {e : FsError}

theorem Tree.rewrite_of_shut (h : t.Shut access.user e) (comps : List Name) :
    t.rewrite access act comps = .error e := by
  cases h with
  | file =>
    rcases comps with _ | ⟨name, _ | ⟨next, rest⟩⟩ <;> rfl
  | denied h =>
    rcases comps with _ | ⟨name, _ | ⟨next, rest⟩⟩ <;>
      simp [rewrite, h]

variable {user : Option UserId} {comps : List Name}

theorem Tree.walk_of_shut (h : t.Shut user e) (hne : comps ≠ []) :
    t.walk user comps = .error e := by
  obtain ⟨_, _, rfl⟩ := exists_cons_of_ne_nil hne
  cases h with
  | file => rfl
  | denied h => simp only [walk, h, Bool.not_false, if_true]

variable {owner : UserId} {mode : BitVec 16} {entries : List (Name × Tree)} {name : Name}

theorem Tree.replaced_error {rep : Option Tree}
    (h : replaced owner mode entries name rep = .error e) : e = .tooLarge := by
  rw [replaced] at h
  split at h
  · exact (Except.error.inj h).symm
  · contradiction

/-- What is not walked through on the disk is not walked through in the tree. -/
theorem Shape.shut {d : Disk} {b : Nat} {inode : Inode} {blocks : List Nat} {stop : Stop}
    (h : Shape d b inode t blocks) (hclosed : Closed inode user stop) :
    ∃ e, stop = .error e ∧ t.Shut user e := by
  cases hclosed with
  | wrongType hfile =>
    cases h with
    | file => exact ⟨_, rfl, .file⟩
    | directory hdirectory => simp [hfile] at hdirectory
  | denied hdirectory hread =>
    cases h with
    | file hfile => simp [hdirectory] at hfile
    | directory => exact ⟨_, rfl, .denied hread⟩

/-- A directory was opened and a name looked up in it. -/
structure Entered (w : World) (b : Nat) (t : Tree) (blocks : List Nat) (name : Name)
    (user : Option UserId) (inode : Inode) (existing : Option Nat) (w' : World)
    (kids : List (Name × Tree)) (below own rest : List Nat) : Prop where
  quiet : Quiet w w'
  tree : t = .directory inode.owner inode.mode kids
  blocks : blocks = b :: inode.pointers ++ below
  dir : DirectoryAt w' b inode kids below
  readable : inode.permits user false = true
  held : Held w' existing (entry name kids) own
  others : Kids w'.disk (others name (entriesIn w'.disk inode.pointers))
    (kids.filter fun e => e.1 ≠ name) rest
  part : Parted below own rest (kids.map Prod.fst).Nodup
  short : existing.isSome → name.length ≤ maxName

variable {blocks : List Nat}

/-- Opening a directory and looking up a name, in front of whatever comes next. -/
theorem enter_spec {b : Nat}
    (hl : Layout env w.state) (ho : Owned w b t blocks) (hvalid : validUtf8 name = true)
    {K : Inode → Option Nat → World → Prop} {R : Stop → World → Prop}
    (hok : ∀ inode existing w' kids below own rest,
      Entered w b t blocks name user inode existing w' kids below own rest → K inode existing w')
    (hbroken : ∀ e w', Quiet w w' → Broken env e → R e w')
    (hshut : ∀ e w', Quiet w w' → t.Shut user e → R (.error e) w') :
    Prog.Wp (openDirectory env user b) w (fun inode w' =>
      Prog.Wp (findEntry env name inode.slots) w' (fun existing w'' => K inode existing w'') R)
      R := by
  obtain ⟨_, hdecode, hsane, hshape⟩ := ho.shows.shape
  have hb := hl.inDevice_of_inArea (ho.area b ho.shows.mem_self)
  refine (openDirectory_spec hb hdecode).mono ?_ ?_
  · rintro inode w₁ ⟨rfl, hq, hkind, hread⟩
    obtain ⟨kids, below, rfl, rfl, hdir⟩ := ho.directoryAt hdecode hkind
    have hin : ∀ x ∈ inode.pointers, x < env.sectorCount := fun x hx =>
      hl.inDevice_of_inArea (hdir.area x (mem_append_left _ (mem_cons_of_mem _ hx)))
    rw [Inode.slots_eq hsane.used]
    refine (findEntry_spec hvalid hsane.nonzero hin).mono ?_ ?_
    · rintro existing w₂ ⟨hexisting, hq'⟩
      have hquiet := hq.trans hq'
      obtain ⟨_, below', hkids', hbelow', hdir'⟩ :=
        (ho.grew hquiet.grew).directoryAt (by rw [hquiet.disk]; exact hdecode) hkind
      cases hkids'
      obtain rfl : below = below' := append_cancel_left hbelow'
      obtain ⟨own, rest, hpic, hrest, hle, heq⟩ := hdir'.kids.part name
      have hpart : Parted below own rest (kids.map Prod.fst).Nodup := ⟨hle, heq⟩
      rw [hq.disk, ← hquiet.disk] at hexisting
      rw [← hexisting] at hpic
      have hmem : ∀ x ∈ own, x ∈ b :: inode.pointers ++ below := fun x hx =>
        mem_append_right _ (hpart.own_mem hx)
      refine hok inode existing w₂ kids below own rest ⟨hquiet, rfl, rfl, hdir', hread,
        ⟨hpic, hpart.own_nodup (nodup_append.mp hdir'.nodup).2.1,
          fun x hx => hdir'.used x (hmem x hx), fun x hx => hdir'.area x (hmem x hx)⟩,
        hrest, hpart, ?_⟩
      intro hsome
      rw [hexisting, inodeNamed, Option.isSome_map] at hsome
      obtain ⟨e, he⟩ := Option.isSome_iff_exists.mp hsome
      have hname := find?_some he
      rw [← of_decide_eq_true hname, DirEntry.rawName]
      exact (length_take_le _ _).trans (Nat.min_le_right _ _)
    · rintro e w₂ ⟨hq', he⟩
      exact hbroken e w₂ (hq.trans hq') he
  · rintro e w₁ ⟨hq, he | hclosed⟩
    · exact hbroken e w₁ hq he
    · obtain ⟨e, rfl, hshut'⟩ := hshape.shut hclosed
      exact hshut e w₁ hq hshut'

/-! ## The path -/

/-- Every directory of the tree names each of its entries once. -/
def Tree.Unique (t : Tree) : Prop :=
  ∀ path owner mode entries, t.get? path = some (.directory owner mode entries) →
    (entries.map Prod.fst).Nodup

theorem Tree.Unique.nodup
    (h : (Tree.directory owner mode entries).Unique) : (entries.map Prod.fst).Nodup :=
  h [] owner mode entries rfl

theorem Tree.Unique.child {child : Tree} (h : t.Unique)
    (hchild : entry name t.entries = some child) : child.Unique := by
  intro path owner mode entries hget
  refine h (name :: path) owner mode entries ?_
  rw [get?, hchild]
  exact hget

/-- The action does to a node on the disk what `act` does to the node. -/
def Simulates (env : Env) (action : Option Nat → Code (Option Nat))
    (act : Tree.Act) : Prop :=
  ∀ w existing old own, Layout env w.state → Held w existing old own → Prog.Wp (action existing) w
      (fun new w' => ∃ t blocks r, act old = .ok t ∧ Grew w w' r ∧
        Pictures w'.disk new t blocks ∧ Moves True w w' own blocks r)
      (fun e w' => ∃ r, Grew w w' r ∧ r ⊆ own ∧ Excuse env (act old) e)

theorem Moves.of_quiet {whole : Prop} {w w' w'' : World} {old new dropped : List Nat}
    (hq : Quiet w w') (h : Moves whole w' w'' old new dropped) :
    Moves whole w w'' old new dropped where
  nodup := h.nodup
  source := fun x hx => (h.source x hx).imp id (Fresh.of_quiet hq)
  claimed := fun x hx => h.claimed x (by
    obtain ⟨h₁, h₂, h₃, h₄⟩ := hx
    rw [← hq.state] at h₁ h₃ h₄
    exact ⟨h₁, h₂, h₃, h₄⟩)
  gone := h.gone
  complete := h.complete

/-- What excuses the change of an entry excuses that of its directory, which can only be too
large besides. -/
theorem Excuse.replaced {A : Type} {x : Except FsError A} {stop : Stop} {out : Except FsError Tree}
    (rep : A → Option Tree)
    (hout : out = x >>= fun new => Tree.replaced owner mode entries name (rep new))
    (h : Excuse env x stop) : Excuse env out stop := by
  cases h with
  | refused h => exact .refused (by rw [hout, h]; rfl)
  | broken h => exact .broken h
  | full h =>
    refine .full fun e hrefused => ?_
    rw [hout] at hrefused
    cases hx : x with
    | error e' =>
      rw [hx] at hrefused
      obtain rfl := Except.error.inj hrefused
      exact h e' hx
    | ok =>
      rw [hx] at hrefused
      exact Tree.replaced_error hrefused

/-- The entry was replaced, and its directory is rebuilt around it. -/
theorem Entered.rebuild_spec {w₁ w₂ : World} {b : Nat} {inode : Inode} {existing new : Option Nat}
    {kids : List (Name × Tree)} {below own rest moved dropped r : List Nat} {whole : Prop}
    {rep : Option Tree} {out : Except FsError Tree}
    (h : Entered w b t blocks name user inode existing w₁ kids below own rest)
    (hl : Layout env w₁.state) (hname : validUtf8 name = true) (hg : Grew w₁ w₂ r)
    (hpic : Pictures w₂.disk new rep moved) (hm : Moves whole w₁ w₂ own moved dropped)
    (hsub : r ⊆ dropped) (hlen : ∀ target, new = some target → name.length ≤ maxName)
    (hout : out = Tree.replaced inode.owner inode.mode kids name rep) :
    Prog.Wp (rebuild env b inode name new) w₂
      (fun res w' => ∃ t' blocks', out = .ok t' ∧ Grew w w' r ∧ Shows w'.disk res.1 t' blocks' ∧
        Fresh w w' res.1 ∧
        Moves (whole ∧ (kids.map Prod.fst).Nodup) w w' blocks blocks' (dropped ++ res.2))
      (fun e w' => ∃ r, Grew w w' r ∧ r ⊆ blocks ∧ Excuse env out e) := by
  obtain ⟨hq, -, rfl, hdir, -, -, hrest, hpart, -⟩ := h
  refine (Fs.rebuild_spec hl hdir hname hrest hpart hg hpic hm hlen).mono ?_ ?_
  · rintro res w₃ ⟨t', bs', ht', hg', hshows, hfresh, hm'⟩
    exact ⟨t', bs', hout.trans ht', hq.grew.nil_trans hg', hshows, hfresh.of_quiet hq,
      hm'.of_quiet hq⟩
  rintro e w₃ ⟨hg', he⟩
  refine ⟨r, hq.grew.nil_trans hg', fun x hx => ?_, ?_⟩
  · exact mem_append_right _ (hpart.own_mem (hm.gone x (hsub hx)).1)
  · rcases he with he | ⟨hlarge, rfl⟩
    · exact he.excuse fun e h => Tree.replaced_error (hout.symm.trans h)
    · exact .refused (hout.trans hlarge)

/-- A name that is new to its directory fits an entry. -/
def Fitting (act : Tree.Act) (comps : List Name) : Prop :=
  ∀ name, comps.getLast? = some name → name.length ≤ maxName ∨ ∀ t, act none ≠ .ok (some t)

/-- **The path is copied, and shows the rewritten tree.** -/
theorem rewrite_spec {action : Option Nat → Code (Option Nat)} (hact : Simulates env action act)
    (hvalid : ∀ name ∈ comps, validUtf8 name = true) (hfit : Fitting act comps) {b : Nat}
    (hl : Layout env w.state) (ho : Owned w b t blocks) :
    Prog.Wp (rewrite env access action b comps) w
      (fun out w' => ∃ t' blocks' r, t.rewrite access act comps = .ok t' ∧ Grew w w' r ∧
        Shows w'.disk out.1 t' blocks' ∧ Fresh w w' out.1 ∧
        Moves t.Unique w w' blocks blocks' (r ++ out.2))
      (fun e w' => ∃ r, Grew w w' r ∧ r ⊆ blocks ∧ Excuse env (t.rewrite access act comps) e) := by
  induction comps generalizing w b t blocks with
  | nil =>
    obtain ⟨inode, hdecode, -, hshape⟩ := ho.shows.shape
    have hb := hl.inDevice_of_inArea (ho.area b ho.shows.mem_self)
    rw [rewrite, wp_bind]
    refine (openDirectory_spec hb hdecode).mono ?_ ?_
    · rintro _ w' ⟨rfl, hq, hkind, hread⟩
      rw [wp_fail]
      obtain ⟨kids, below, rfl, rfl, -⟩ := ho.directoryAt hdecode hkind
      refine ⟨[], hq.grew, nil_subset _, .refused ?_⟩
      rw [Inode.permits] at hread
      simp [Tree.rewrite, hread]
    · rintro e w' ⟨hq, he | hclosed⟩
      · exact ⟨[], hq.grew, nil_subset _, he.excuse⟩
      · obtain ⟨e, rfl, hshut⟩ := hshape.shut hclosed
        exact ⟨[], hq.grew, nil_subset _, .refused (Tree.rewrite_of_shut hshut _)⟩
  | cons name rest ih =>
    have hname := hvalid name mem_cons_self
    cases rest with
    | nil =>
      rw [rewrite, wp_bind]
      simp only [wp_bind]
      refine enter_spec hl ho hname ?_ ?_ ?_
      · rintro inode existing w₁ kids below own rest hentered
        obtain ⟨hq, rfl, rfl, -, hread, hheld, -, hpart, hshort⟩ := id hentered
        rw [Inode.permits] at hread
        have hout : (Tree.directory inode.owner inode.mode kids).rewrite access act [name] =
            if access.changesParent ∧ !inode.permits access.user true then .error .denied
            else act (entry name kids) >>= Tree.replaced inode.owner inode.mode kids name := by
          simp only [Tree.rewrite, hread, Bool.not_true, Bool.false_eq_true, if_false]
          rfl
        by_cases hdenied : access.changesParent ∧ !inode.permits access.user true
        · rw [if_pos hdenied, wp_fail]
          rw [if_pos hdenied] at hout
          exact ⟨[], hq.grew, nil_subset _, .refused hout⟩
        rw [if_neg hdenied, wp_bind]
        rw [if_neg hdenied] at hout
        have hl₁ := hq.grew.layout hl
        refine (hact w₁ existing _ own hl₁ hheld).mono ?_ ?_
        · rintro new w₂ ⟨rep, moved, r, hok, hg, hpic, hm⟩
          have hlen : ∀ target, new = some target → name.length ≤ maxName := by
            rintro target rfl
            cases existing with
            | some => exact hshort rfl
            | none =>
              obtain ⟨hp, -, -, -⟩ := hheld
              cases hpic with
              | present =>
                rcases hfit name rfl with h | h
                · exact h
                · generalize hold : entry name kids = old at hp hok
                  cases hp
                  exact absurd hok (h _)
          rw [hok] at hout
          refine (hentered.rebuild_spec hl₁ hname hg hpic hm (Subset.refl r) hlen hout).mono ?_
            fun _ _ h => h
          rintro out w₃ ⟨t', bs', ht', hg', hshows, hfresh, hm'⟩
          exact ⟨t', bs', r, ht', hg', hshows, hfresh,
            hm'.mono (fun hu => ⟨trivial, hu.nodup⟩) fun x => Iff.rfl⟩
        · rintro e w₂ ⟨r, hg, hsub, he⟩
          exact ⟨r, hq.grew.nil_trans hg, fun x hx => mem_append_right _ (hpart.own_mem (hsub hx)),
            he.replaced id hout⟩
      · exact fun e w' hq he => ⟨[], hq.grew, nil_subset _, he.excuse⟩
      · exact fun e w' hq he => ⟨[], hq.grew, nil_subset _, .refused (Tree.rewrite_of_shut he _)⟩
    | cons next rest =>
      rw [rewrite, wp_bind]
      simp only [wp_bind]
      refine enter_spec hl ho hname ?_ ?_ ?_
      · rintro inode existing w₁ kids below own others hentered
        obtain ⟨hq, rfl, rfl, -, hread, hheld, -, hpart, hshort⟩ := id hentered
        rw [Inode.permits] at hread
        have hl₁ := hq.grew.layout hl
        cases existing with
        | none =>
          rw [wp_fail]
          obtain ⟨hp, -, -, -⟩ := hheld
          generalize hold : entry name kids = old at hp
          cases hp
          refine ⟨[], hq.grew, nil_subset _, .refused ?_⟩
          simp [Tree.rewrite, hread, hold]
        | some child =>
          obtain ⟨tchild, hentry, howned⟩ := hheld.owned
          have hout : (Tree.directory inode.owner inode.mode kids).rewrite access act
              (name :: next :: rest) = (tchild.rewrite access act (next :: rest) >>= fun new =>
                Tree.replaced inode.owner inode.mode kids name (some new)) := by
            simp [Tree.rewrite, hread, hentry]
          simp only [wp_bind, wp_pure]
          refine (ih (fun n hn => hvalid n (mem_cons_of_mem _ hn))
            (fun n hn => hfit n (by rw [getLast?_cons_cons]; exact hn)) hl₁ howned).mono ?_ ?_
          · rintro ⟨new, _⟩ w₂ ⟨rep, moved, r, hok, hg, hshows, -, hm⟩
            rw [hok] at hout
            refine (hentered.rebuild_spec hl₁ hname hg (.present hshows) hm
              (subset_append_left ..) (fun _ _ => hshort rfl) hout).mono ?_ fun _ _ h => h
            rintro out w₃ ⟨t', bs', ht', hg', hshows', hfresh, hm'⟩
            refine ⟨t', bs', r, ht', hg', hshows', hfresh, ?_⟩
            refine hm'.mono (fun hu => ⟨hu.child hentry, hu.nodup⟩) fun x => ?_
            rw [append_assoc]
          · rintro e w₂ ⟨r, hg, hsub, he⟩
            exact ⟨r, hq.grew.nil_trans hg,
              fun x hx => mem_append_right _ (hpart.own_mem (hsub hx)),
              he.replaced some hout⟩
      · exact fun e w' hq he => ⟨[], hq.grew, nil_subset _, he.excuse⟩
      · exact fun e w' hq he => ⟨[], hq.grew, nil_subset _, .refused (Tree.rewrite_of_shut he _)⟩

end Panda.Fs
