import PandaProof.FsRefinement

/-!
# Permissions

What an operation performed as a user may do to a tree and may learn from it.  The checks
are made along the path and in the middle of the rewrite, so the statements are about every
node of the tree before and after.  A directory the user may not read hides everything
below it: the same operation on another tree inside gives the same result.
-/
namespace Panda.Fs

open Block List Option

namespace Tree

/-! ## Changes -/

/-- The user may read every directory on the way to the end of the path. -/
def Along (t : Tree) (user : UserId) (path : List Name) : Prop :=
  ∀ p, p <+: path → p ≠ path → ∃ owner mode entries,
    t.get? p = some (.directory owner mode entries) ∧ Fs.permits owner mode (some user) false = true

variable {t : Tree} {user : UserId}

theorem Along.mono {p path : List Name} (h : t.Along user path)
    (hp : p <+: path) : t.Along user p := by
  intro q hq hne
  refine h q (hq.trans hp) fun he => hne ?_
  subst he
  exact hq.eq_of_length_le hp.length_le

/-- The bytes of a file. -/
def contents : Tree → List Byte
  | file _ _ contents => contents
  | directory .. => []

/-- A node that is there before and after changed only as the user may change it. -/
structure Permitted (t : Tree) (user : UserId) (path : List Name) (node node' : Tree) : Prop where
  kind : node'.kind = node.kind
  owner : node'.owner = node.owner
  mode : node'.mode ≠ node.mode → node.owner = user ∧ t.Along user path
  contents : node'.contents ≠ node.contents →
    node.permits (some user) true = true ∧ t.Along user path
  names : ∀ name, (entry name node'.entries).isSome ≠ (entry name node.entries).isSome →
    node.permits (some user) true = true ∧ node.permits (some user) false = true ∧ t.Along user path

theorem Permitted.refl (t : Tree) (user : UserId) (path : List Name) (node : Tree) :
    Permitted t user path node node :=
  ⟨rfl, rfl, fun h => absurd rfl h, fun h => absurd rfl h, fun _ h => absurd rfl h⟩

variable {node : Tree}

theorem get_append_singleton {path : List Name} (h : t.get? path = some node)
    (name : Name) : t.get? (path ++ [name]) = entry name node.entries := by
  induction path generalizing t with
  | nil =>
    cases h
    exact bind_get_nil _
  | cons n path ih =>
    obtain ⟨_, hchild, hget⟩ := bind_eq_some_iff.mp h
    rw [cons_append, get?, hchild]
    exact ih hget

theorem view_eq {node' : Tree} (h : node'.view = node.view) :
    node'.kind = node.kind ∧ node'.owner = node.owner ∧ node'.mode = node.mode ∧
      node'.contents = node.contents := by
  cases node <;> cases node' <;> simp_all [view, kind, owner, mode, contents]

section Change

variable {op : Op} {t t' : Tree} {user : UserId}

theorem along_of_rewrites {access : Access} {comps : List Name} {old new : Option Tree}
    (h : Rewrites access comps t t' old new) (huser : access.user = some user) :
    t.Along user comps := by
  intro p hp hne
  obtain ⟨owner, mode, entries, hget, hread⟩ := h.readable hp hne
  exact ⟨owner, mode, entries, hget, huser ▸ hread⟩

variable {path : List Name} {node node' : Tree}

/-- The node a change is about, where it is there before and after. -/
theorem permitted_of_effect (h : Effect op (some node) (some node')) (huser : op.user = some user)
    (halong : t.Along user path) : Permitted t user path node node' := by
  cases h with
  | @written _ _ owner mode contents data _ hwrite =>
    refine ⟨rfl, rfl, fun h => absurd rfl h, fun _ => ⟨huser ▸ hwrite, halong⟩, fun _ h => ?_⟩
    exact absurd rfl h
  | @chmod _ mode howner =>
    have hown : node.owner = user := (howner user huser).symm
    cases node with
    | file | directory =>
      exact ⟨rfl, rfl, fun _ => ⟨hown, halong⟩, fun h => absurd rfl h, fun _ h => absurd rfl h⟩

/-- **What a change by a user does to every node**, and what it needs for that. -/
theorem permitted_of_change (hop : op.reads = false) (h : t.change op = .ok t')
    (huser : op.user = some user)
    (hnode : t.get? path = some node) (hnode' : t'.get? path = some node') :
    Permitted t user path node node' := by
  obtain ⟨_, _, heffect, hr⟩ := change_ok hop h
  have halong := along_of_rewrites hr huser
  by_cases hprefix : components op.path <+: path
  · obtain ⟨below, rfl⟩ := hprefix
    rw [hr.get_old] at hnode
    rw [hr.get_new] at hnode'
    by_cases hbelow : below = []
    · subst hbelow
      rw [bind_get_nil] at hnode hnode'
      subst hnode hnode'
      rw [append_nil]
      exact permitted_of_effect heffect huser halong
    · rw [effect_below heffect hbelow, hnode] at hnode'
      cases hnode'
      exact .refl t user _ node
  · have hview := hr.view_of_not_prefix hprefix
    rw [hnode, hnode'] at hview
    have hview := some.inj hview
    obtain ⟨hkind, howner, hmode, hcontents⟩ := view_eq hview
    refine ⟨hkind, howner, fun hne => absurd hmode hne, fun hne => absurd hcontents hne,
      fun name hne => ?_⟩
    -- A name comes or goes only at the end of the path.
    rw [← get_append_singleton hnode, ← get_append_singleton hnode'] at hne
    have hend : components op.path = path ++ [name] := by
      by_cases hprefix' : components op.path <+: path ++ [name]
      · rcases prefix_concat_iff.mp hprefix' with he | hshort
        · exact he
        · exact absurd hshort hprefix
      · have hsame := congrArg isSome (hr.view_of_not_prefix hprefix')
        rw [isSome_map, isSome_map] at hsame
        exact absurd hsame hne
    have hchanges : op.changesParent = true := by
      have hold := hr.get_old []
      have hnew := hr.get_new []
      rw [append_nil, hend, bind_get_nil] at hold hnew
      rw [hold, hnew] at hne
      cases heffect with
      | created _ _ hop | removed hop => exact hop
      | written | chmod => exact absurd rfl hne
    obtain ⟨o, m, _, hget, hwrite⟩ := hr.parent hchanges
    obtain ⟨_, _, _, hget', hread⟩ := halong path (hend ▸ prefix_append _ _) (by simp [hend])
    rw [hend, dropLast_concat, hnode] at hget
    rw [hnode] at hget'
    cases hget
    cases hget'
    refine ⟨huser ▸ hwrite, hread, halong.mono (hend ▸ prefix_append _ _)⟩

end Change

/-! ## Reads -/

theorem along_of_walk {comps : List Name}
    (h : t.walk (some user) comps = .ok node) : t.Along user comps := by
  induction comps generalizing t with
  | nil =>
    intro p hp hne
    exact absurd (prefix_nil.mp hp) hne
  | cons name rest ih =>
    cases t with
    | file => contradiction
    | directory owner mode entries =>
      rw [walk] at h
      split at h
      · contradiction
      rename_i hread
      cases hchild : entry name entries with
      | none =>
        rw [hchild] at h
        contradiction
      | some =>
        rw [hchild] at h
        intro p hp hne
        cases p with
        | nil => exact ⟨owner, mode, entries, rfl, by simpa using hread⟩
        | cons n p =>
          obtain ⟨rfl, hrest⟩ := cons_prefix_cons.mp hp
          obtain ⟨o, m, es, hget, hpermits⟩ := ih h p hrest fun he => hne (he ▸ rfl)
          refine ⟨o, m, es, ?_, hpermits⟩
          rw [get?, Tree.entries, hchild]
          exact hget

/-- What was learnt from an answer could be read. -/
inductive Learnt (t : Tree) (user : UserId) (path : List Name) : Answer → Prop
  | contents {owner : UserId} {mode : BitVec 16} {bytes : List Byte}
      (hget : t.get? path = some (.file owner mode bytes))
      (hread : Fs.permits owner mode (some user) false = true) (halong : t.Along user path) :
      Learnt t user path (.contents bytes)
  | names {owner : UserId} {mode : BitVec 16} {entries : List (Name × Tree)} {found : List Name}
      (hget : t.get? path = some (.directory owner mode entries))
      (hread : Fs.permits owner mode (some user) false = true) (halong : t.Along user path)
      (hfound : ∀ name ∈ found, name ∈ entries.map Prod.fst) : Learnt t user path (.names found)
  | status {node : Tree} (hget : t.get? path = some node) (halong : t.Along user path) :
      Learnt t user path (.status node.kind node.size)
  | ownership {node : Tree} (hget : t.get? path = some node) (halong : t.Along user path) :
      Learnt t user path (.ownership node.owner node.mode)
  | done : Learnt t user path .done

/-- **What an answer to a user gives away.** -/
theorem learnt_of_answer {op : Op} {a : Answer}
    (h : t.answer op = .ok a) (huser : op.user = some user) :
    Learnt t user (components op.path) a := by
  have hdone : ∀ {out : Except FsError Tree}, (out >>= fun _ => .ok Answer.done) = .ok a →
      Learnt t user (components op.path) a := by
    intro out hout
    obtain ⟨-, -, h⟩ := ok_of_bind hout
    exact Except.ok.inj h ▸ .done
  cases op with
  | create | createOwnedBy | writeFile | remove | setMode => exact hdone h
  | readFile path user' =>
    obtain rfl : user' = some user := huser
    obtain ⟨_, -, ha⟩ := ok_of_bind h
    cases ha
    obtain ⟨owner, mode, hwalk, hread⟩ := answer_readFile h
    exact .contents (get_of_walk hwalk) hread (along_of_walk hwalk)
  | list path user' =>
    obtain rfl : user' = some user := huser
    obtain ⟨_, -, ha⟩ := ok_of_bind h
    cases ha
    obtain ⟨owner, mode, _, hwalk, hread, rfl⟩ := answer_list h
    exact .names (get_of_walk hwalk) hread (along_of_walk hwalk) fun name hname =>
      (mem_filter.mp hname).1
  | stat path user' =>
    obtain rfl : user' = some user := huser
    obtain ⟨node, hwalk, ha⟩ := ok_of_bind h
    cases ha
    exact .status (get_of_walk hwalk) (along_of_walk hwalk)
  | owner path user' =>
    obtain rfl : user' = some user := huser
    obtain ⟨node, hwalk, ha⟩ := ok_of_bind h
    cases ha
    exact .ownership (get_of_walk hwalk) (along_of_walk hwalk)

end Tree

/-! ## Every operation, on any device -/

variable {env : Env} {w : World} {t : Tree} {blocks : List Nat} {op : Op}

/-- The tree an operation leaves in memory, however it ends: the old one, or the one it
makes of it. -/
theorem carries_of_perform {w' : World} {result : Except Stop Answer} (hl : Layout env w.state)
    (ho : Owned w w.state.superblock.rootInode t blocks) (hrun : perform env op w = (result, w')) :
    ∃ t' blocks', w'.Carries t' blocks' ∧ (t' = t ∨ op.reads = false ∧ t.change op = .ok t') := by
  have htree : ∀ r, Grew w w' r → w'.Carries t blocks := by
    intro r hg
    rw [World.Carries, hg.superblock]
    exact (ho.grew hg).shows
  have hspec := perform_spec op hl ho
  cases result with
  | ok =>
    have hreturned := hspec.of_ok hrun
    cases hop : op.reads with
    | true => exact ⟨t, blocks, htree [] (hreturned.read hop).grew, .inl rfl⟩
    | false =>
      obtain ⟨w₁, w₂, t', blocks', root, r, garbage, hout, hc, hcommit, rfl⟩ := hreturned.change hop
      refine ⟨t', blocks', ?_, .inr ⟨rfl, hout⟩⟩
      have howned := hc.owned ho
      obtain ⟨_, hrelease, -⟩ := release_eq w₂.state garbage
      show Shows w₂.disk (w₂.state.release garbage).superblock.rootInode t' blocks'
      rw [hrelease, hcommit.state]
      exact howned.shows.frame fun b hb =>
        hcommit.disk_inArea (hc.layout hl ho) (howned.area b hb)
  | error =>
    have hstopped := hspec.of_error hrun
    cases hop : op.reads with
    | true => exact ⟨t, blocks, htree [] (hstopped.read hop).1.grew, .inl rfl⟩
    | false =>
      rcases hstopped.change hop with
        ⟨r, hg, -⟩ | ⟨w₁, t', blocks', root, r, garbage, hout, hc, hhalted⟩
      · exact ⟨t, blocks, htree r hg, .inl rfl⟩
      refine ⟨t', blocks', ?_, .inr ⟨rfl, hout⟩⟩
      have howned := hc.owned ho
      have hroot : w'.state.superblock.rootInode = root := by
        rcases hhalted.state with hstate | ⟨-, hstate⟩ <;> rw [hstate] <;> rfl
      rw [World.Carries, hroot]
      exact howned.shows.frame fun b hb => hhalted.disk b (howned.area b hb)

/-- **Permission soundness**: an operation as a user, on any filesystem and any device,
however it ends.  Every node there before and after changed only as the user may change it,
and every answer gives away only what the user may read. -/
theorem permission_soundness {env : Env} {w w' : World} {t : Tree} {blocks : List Nat}
    (hl : Layout env w.state) (ho : Owned w w.state.superblock.rootInode t blocks) {op : Op}
    {user : UserId} (huser : op.user = some user) {result : Except Stop Answer}
    (hrun : perform env op w = (result, w')) : ∃ t' blocks', w'.Carries t' blocks' ∧
      (∀ path node node', t.get? path = some node → t'.get? path = some node' →
        t.Permitted user path node node') ∧
      ∀ a, result = .ok a → t.Learnt user (components op.path) a := by
  obtain ⟨t', blocks', hcarries, hchange⟩ := carries_of_perform hl ho hrun
  refine ⟨t', blocks', hcarries, fun path node node' hnode hnode' => ?_, ?_⟩
  · rcases hchange with rfl | ⟨hop, hchange⟩
    · cases hnode.symm.trans hnode'
      exact .refl t' user path node
    · exact Tree.permitted_of_change hop hchange huser hnode hnode'
  · rintro a rfl
    exact Tree.learnt_of_answer ((perform_spec op hl ho).of_ok hrun).answer huser

/-- The system's user creates `/f` on a fresh filesystem. -/
theorem permission_soundness_create :
    (perform (Env.reliable 4096) (.create pathF .file (some systemUser)) (freshWorld 4096)).1 =
        .ok .done ∧ ∃ t' blocks',
        (perform (Env.reliable 4096) (.create pathF .file (some systemUser))
          (freshWorld 4096)).2.Carries t' blocks' ∧
        ∀ path node node', emptyTree.get? path = some node → t'.get? path = some node' →
          emptyTree.Permitted systemUser path node node' := by
  have hsound := freshWorld_sound formattable_4096
  obtain ⟨t', blocks', hcarries, hpermitted, -⟩ :=
    permission_soundness hsound.layout hsound.owned rfl
      (rfl : perform (Env.reliable 4096) (.create pathF .file (some systemUser))
        (freshWorld 4096) = (_, _))
  exact ⟨by decide +kernel, t', blocks', hcarries, hpermitted⟩

/-! ## Private directories -/

namespace Tree

/-- The tree with the entries of the directory at a path exchanged for others. -/
def exchange (entries : List (Name × Tree)) : List Name → Tree → Tree
  | _, .file owner mode contents => .file owner mode contents
  | [], .directory owner mode _ => .directory owner mode entries
  | name :: rest, .directory owner mode others =>
    .directory owner mode (others.map fun e =>
      if e.1 = name then (e.1, exchange entries rest e.2) else e)

theorem entry_exchange (entries : List (Name × Tree)) (name : Name) (rest : List Name)
    (others : List (Name × Tree)) :
    entry name (others.map fun e => if e.1 = name then (e.1, exchange entries rest e.2) else e) =
      (entry name others).map (exchange entries rest) := by
  induction others with
  | nil => rfl
  | cons e others ih =>
    rw [map_cons]
    by_cases he : e.1 = name
    · subst he
      rw [if_pos rfl, entry_cons_self, entry_cons_self, map_some]
    · rw [if_neg he]
      obtain ⟨n, t⟩ := e
      rw [entry_cons_of_ne he, entry_cons_of_ne he, ih]

section Hidden

variable {user : UserId} {owner : UserId} {mode : BitVec 16} {entries others : List (Name × Tree)}

variable {path : List Name}

/-- **A walk through a directory that may not be read** fails the same whatever is in it. -/
theorem walk_hidden (hdenied : Fs.permits owner mode (some user) false = false)
    (name : Name) (below : List Name) {t : Tree}
    (hget : t.get? path = some (.directory owner mode others)) :
    ∃ e, e ≠ .tooLarge ∧ t.walk (some user) (path ++ name :: below) = .error e ∧
      (t.exchange entries path).walk (some user) (path ++ name :: below) = .error e := by
  induction path generalizing t with
  | nil =>
    cases hget
    refine ⟨.denied, by simp, ?_, ?_⟩
    · rw [nil_append, walk, hdenied]
      rfl
    · rw [nil_append, exchange, walk, hdenied]
      rfl
  | cons n path ih =>
    obtain ⟨child, hchild, hbelow⟩ := bind_eq_some_iff.mp hget
    cases t with
    | file => contradiction
    | directory o m es =>
      have hentry : entry n es = some child := hchild
      rw [exchange, cons_append, walk, walk, entry_exchange, hentry]
      by_cases hread : (!Fs.permits o m (some user) false) = true
      · exact ⟨.denied, by simp, if_pos hread, if_pos hread⟩
      · rw [if_neg hread, if_neg hread]
        exact ih hbelow

/-- **So does a rewrite.** -/
theorem rewrite_hidden {access : Access} (huser : access.user = some user)
    (act : Tree.Act)
    (hdenied : Fs.permits owner mode (some user) false = false)
    (name : Name) (below : List Name) {t : Tree}
    (hget : t.get? path = some (.directory owner mode others)) :
    ∃ e, e ≠ .tooLarge ∧ t.rewrite access act (path ++ name :: below) = .error e ∧
      (t.exchange entries path).rewrite access act (path ++ name :: below) = .error e := by
  induction path generalizing t with
  | nil =>
    cases hget
    have hshut : ∀ es, Shut access.user (.directory owner mode es) .denied := fun es =>
      .denied (by rw [huser]; exact hdenied)
    exact ⟨.denied, by simp, rewrite_of_shut (hshut others) _, rewrite_of_shut (hshut entries) _⟩
  | cons n path ih =>
    obtain ⟨child, hchild, hbelow⟩ := bind_eq_some_iff.mp hget
    cases t with
    | file => contradiction
    | directory o m es =>
      have hentry : entry n es = some child := hchild
      obtain ⟨next, rest, hcons⟩ : ∃ next rest, path ++ name :: below = next :: rest := by
        cases path with
        | nil => exact ⟨name, below, rfl⟩
        | cons next path => exact ⟨next, path ++ name :: below, rfl⟩
      obtain ⟨e, hne, hleft, hright⟩ := ih hbelow
      rw [hcons] at hleft hright
      rw [exchange, cons_append, hcons, rewrite, rewrite, entry_exchange, hentry]
      by_cases hread : (!Fs.permits o m access.user false) = true
      · exact ⟨.denied, by simp, if_pos hread, if_pos hread⟩
      rw [if_neg hread, if_neg hread]
      refine ⟨e, hne, ?_, ?_⟩
      · simp only [hleft]
        rfl
      · simp only [map_some, hright]
        rfl

end Hidden

theorem named_cases (path : Str) :
    ((∀ out, named path out = .error .badName) ∧ ∀ p, withName path p = fail .badName) ∨
      ∀ out, named path out = out := by
  simp only [named, withName]
  cases finalName path with
  | none => exact .inl ⟨fun _ => rfl, fun _ => rfl⟩
  | some name =>
    cases hok : nameOk name with
    | false => exact .inl ⟨fun _ => by simp [hok], fun _ => by simp [hok]⟩
    | true => exact .inr fun _ => by simp [hok]

/-- A change is refused whatever the tree is, or is a change at its path. -/
theorem change_cases {op : Op} (hop : op.reads = false) :
    (∃ e, (∀ t : Tree, t.change op = .error e) ∧
      ∀ env w, perform env op w = (.error (.error e), w)) ∨
    ∃ (access : Access) (act : Tree.Act),
      access.user = op.user ∧ ∀ t : Tree, t.change op = t.changeAt op.path access act := by
  cases op with
  | create path kind user =>
    rcases named_cases path with ⟨hrefused, hfail⟩ | hnamed
    · refine .inl ⟨.badName, fun t => hrefused _, fun env w => ?_⟩
      rw [perform, createAs, createFor, hfail]
      rfl
    · exact .inr ⟨⟨user, true⟩, _, rfl, fun t => hnamed _⟩
  | createOwnedBy path =>
    rcases named_cases path with ⟨hrefused, hfail⟩ | hnamed
    · refine .inl ⟨.badName, fun t => hrefused _, fun env w => ?_⟩
      rw [perform, createOwnedBy, createFor, hfail]
      rfl
    · exact .inr ⟨⟨none, true⟩, _, rfl, fun t => hnamed _⟩
  | writeFile path data user =>
    by_cases hbig : directBlocks < (data.length + (blockSize - 1)) / blockSize
    · refine .inl ⟨.tooLarge, fun t => if_pos hbig, fun env w => ?_⟩
      rw [perform, writeFileAs, if_pos hbig]
      rfl
    · exact .inr ⟨⟨user, false⟩, _, rfl, fun t => if_neg hbig⟩
  | remove path user =>
    rcases named_cases path with ⟨hrefused, hfail⟩ | hnamed
    · refine .inl ⟨.badName, fun t => hrefused _, fun env w => ?_⟩
      rw [perform, removeAs, hfail]
      rfl
    · exact .inr ⟨⟨user, true⟩, _, rfl, fun t => hnamed _⟩
  | setMode path mode user =>
    by_cases hbad : mode &&& ~~~allPermissions ≠ 0
    · refine .inl ⟨.badName, fun t => if_pos hbad, fun env w => ?_⟩
      rw [perform, setModeAs, if_pos hbad]
      rfl
    · exact .inr ⟨⟨user, false⟩, _, rfl, fun t => if_neg hbad⟩
  | readFile | list | stat | owner => contradiction

theorem answer_of_walk_error {t : Tree} {op : Op} (hop : op.reads = true) {e : FsError}
    (h : t.walk op.user (components op.path) = .error e) : t.answer op = .error e := by
  cases op with
  | readFile | list => exact congrArg (fun x => x >>= _ >>= _) h
  | stat | owner => exact congrArg (fun x => x >>= _) h
  | create | createOwnedBy | writeFile | remove | setMode => contradiction

end Tree

variable {e : FsError}

/-- A read the tree refuses is refused with the same error. -/
theorem refused_read (hr : env.Reliable)
    (hl : Layout env w.state) (ho : Owned w w.state.superblock.rootInode t blocks)
    (hop : op.reads = true) (h : t.answer op = .error e) :
    (perform env op w).1 = .error (.error e) ∧ (perform env op w).2.Carries t blocks := by
  have hspec := perform_spec op hl ho
  rcases hrun : perform env op w with ⟨_ | a, w'⟩
  · obtain ⟨hq, hunread⟩ := (hspec.of_error hrun).read hop
    refine ⟨?_, ?_⟩
    · cases hunread with
      | refused h' =>
        cases h.symm.trans h'
        rfl
      | broken h' => exact absurd hr h'.1
    · show Shows w'.disk w'.state.superblock.rootInode t blocks
      rw [hq.disk, hq.state]
      exact ho.shows
  · have := (hspec.of_ok hrun).answer
    rw [h] at this
    contradiction

/-- So is a change, unless its directory is too large. -/
theorem refused_change (hr : env.Reliable)
    (hl : Layout env w.state) (ho : Owned w w.state.superblock.rootInode t blocks)
    (hop : op.reads = false) (hlarge : e ≠ .tooLarge) (h : t.change op = .error e) :
    (perform env op w).1 = .error (.error e) ∧ (perform env op w).2.Carries t blocks := by
  have hspec := perform_spec op hl ho
  rcases hrun : perform env op w with ⟨_ | a, w'⟩
  · rcases (hspec.of_error hrun).change hop with ⟨r, hg, -, hexcuse⟩ | ⟨_, t', _, _, _, _, hout, -⟩
    · refine ⟨?_, ?_⟩
      · cases hexcuse with
        | refused h' =>
          cases h.symm.trans h'
          rfl
        | broken h' => exact absurd hr h'
        | full h' => exact absurd (h' e h) hlarge
      · show Shows w'.disk w'.state.superblock.rootInode t blocks
        rw [hg.superblock]
        exact (ho.grew hg).shows
    · rw [h] at hout
      contradiction
  · obtain ⟨_, _, t', _, _, _, _, hout, -⟩ := (hspec.of_ok hrun).change hop
    rw [h] at hout
    contradiction

/-- **A private directory hides its contents**: two filesystems, on any two devices where
nothing fails, whose trees differ at most in the entries of a directory the user may not
read.  Every operation of the user on a path through that directory returns the same in
both, and changes neither tree. -/
theorem private_directory_hides {sectors sectors' : Nat} {w w' : World} {t : Tree}
    {blocks blocks' : List Nat} {path : List Name} {owner : UserId} {mode : BitVec 16}
    {inside inside' : List (Name × Tree)} {user : UserId}
    (hdirectory : t.get? path = some (.directory owner mode inside))
    (hprivate : permits owner mode (some user) false = false)
    (hl : Layout (Env.reliable sectors) w.state)
    (ho : Owned w w.state.superblock.rootInode t blocks)
    (hl' : Layout (Env.reliable sectors') w'.state)
    (ho' : Owned w' w'.state.superblock.rootInode (t.exchange inside' path) blocks')
    {op : Op} (huser : op.user = some user) {name : Name} {below : List Name}
    (hthrough : components op.path = path ++ name :: below) :
    (perform (Env.reliable sectors) op w).1 = (perform (Env.reliable sectors') op w').1 ∧
      (perform (Env.reliable sectors) op w).2.Carries t blocks ∧
      (perform (Env.reliable sectors') op w').2.Carries (t.exchange inside' path) blocks' := by
  have hr := Env.reliable_reliable sectors
  have hr' := Env.reliable_reliable sectors'
  cases hop : op.reads with
  | true =>
    have hwalk := @Tree.walk_hidden user owner mode inside' inside path hprivate name below t
      hdirectory
    rw [← hthrough, ← huser] at hwalk
    obtain ⟨e, -, hleft, hright⟩ := hwalk
    obtain ⟨hresult, hcarries⟩ := refused_read hr hl ho hop (Tree.answer_of_walk_error hop hleft)
    obtain ⟨hresult', hcarries'⟩ :=
      refused_read hr' hl' ho' hop (Tree.answer_of_walk_error hop hright)
    exact ⟨hresult.trans hresult'.symm, hcarries, hcarries'⟩
  | false =>
    rcases Tree.change_cases hop with ⟨e, -, hrefused⟩ | ⟨access, act, haccess, hchange⟩
    · rw [hrefused, hrefused]
      exact ⟨rfl, ho.shows, ho'.shows⟩
    have hne : components op.path ≠ [] := by
      rw [hthrough]
      exact fun h => cons_ne_nil _ _ (append_eq_nil_iff.mp h).2
    obtain ⟨e, hlarge, hleft, hright⟩ :=
      @Tree.rewrite_hidden user owner mode inside' inside path access (haccess.trans huser) act
        hprivate name below t hdirectory
    rw [← hthrough] at hleft hright
    have hchange₁ : t.change op = .error e := by
      rw [hchange, Tree.changeAt, if_neg hne, hleft]
    have hchange₂ : (t.exchange inside' path).change op = .error e := by
      rw [hchange, Tree.changeAt, if_neg hne, hright]
    obtain ⟨hresult, hcarries⟩ := refused_change hr hl ho hop hlarge hchange₁
    obtain ⟨hresult', hcarries'⟩ := refused_change hr' hl' ho' hop hlarge hchange₂
    exact ⟨hresult.trans hresult'.symm, hcarries, hcarries'⟩

/-- The directory `/d`. -/
def pathD : Str := ⟨[0x2F, 0x64], by decide⟩

/-- The file `/d/x`. -/
def pathDX : Str := ⟨[0x2F, 0x64, 0x2F, 0x78], by decide⟩

/-- A tree with the private directory `/d`. -/
def privateTree (inside : List (Name × Tree)) : Tree :=
  .directory systemUser defaultMode [([0x64], .directory systemUser 0 inside)]

/-- User 5 cannot tell an empty private directory from one with a file in it. -/
theorem private_directory_hides_file : ∃ w w', performAll (Env.reliable 4096)
      [.create pathD .directory none, .setMode pathD 0 none] (freshWorld 4096) = some w ∧
    performAll (Env.reliable 4096)
      [.create pathD .directory none, .create pathDX .file none, .setMode pathD 0 none]
      (freshWorld 4096) = some w' ∧ (perform (Env.reliable 4096) (.readFile pathDX (some 5)) w).1 =
      (perform (Env.reliable 4096) (.readFile pathDX (some 5)) w').1 := by
  have hfresh := freshWorld_sound formattable_4096
  have hrun : (performAll (Env.reliable 4096)
      [.create pathD .directory none, .setMode pathD 0 none] (freshWorld 4096)).isSome = true := by
    decide +kernel
  have hrun' : (performAll (Env.reliable 4096)
      [.create pathD .directory none, .create pathDX .file none, .setMode pathD 0 none]
      (freshWorld 4096)).isSome = true := by
    decide +kernel
  obtain ⟨w, hw⟩ := isSome_iff_exists.mp hrun
  obtain ⟨w', hw'⟩ := isSome_iff_exists.mp hrun'
  obtain ⟨t, _, ht, hs⟩ := hfresh.operateAll hw
  obtain ⟨t', _, ht', hs'⟩ := hfresh.operateAll hw'
  cases ht
  obtain rfl : (privateTree []).exchange [([0x78], Tree.empty .file systemUser)] [[0x64]] = t' :=
    Except.ok.inj ht'
  have hthrough : components (Op.readFile pathDX (some 5)).path = [[0x64]] ++ [0x78] :: [] := by
    decide
  have hprivate : permits systemUser 0 (some 5) false = false := by decide
  exact ⟨w, w', hw, hw', (private_directory_hides rfl hprivate hs.layout hs.owned hs'.layout
    hs'.owned rfl hthrough).1⟩

end Panda.Fs
