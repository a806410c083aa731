import PandaProof.FsLive

/-!
# The filesystem refines a tree

From a fresh format on a device where nothing fails, every operation that returns does to
the disk what it does to the tree of named nodes.  Every read answers from that tree, and
a change touches one node of it.
-/
namespace Panda.Fs

open Block Option

/-- Perform these operations, every one of which returns. -/
def performAll (env : Env) : List Op → World → Option World
  | [], w => some w
  | op :: ops, w =>
    match perform env op w with
    | (.ok _, w') => performAll env ops w'
    | (.error _, _) => none

namespace Tree

/-- The same operations on the tree. -/
def changeAll : List Op → Tree → Except FsError Tree
  | [], t => .ok t
  | op :: ops, t => do
    let t ← t.change op
    changeAll ops t

theorem emptyTree_wellNamed : emptyTree.WellNamed :=
  ⟨every_directory.mpr ⟨List.nodup_nil, fun _ _ h => by contradiction⟩,
    every_directory.mpr ⟨by simp, fun _ _ h => by contradiction⟩⟩

theorem ok_of_bind {α β : Type} {x : Except FsError α} {f : α → Except FsError β} {b : β}
    (h : (x >>= f) = .ok b) : ∃ a, x = .ok a ∧ f a = .ok b := by
  cases x with
  | error => contradiction
  | ok a => exact ⟨a, rfl, h⟩

section Answers

variable {t : Tree} {path : Str} {user : Option UserId}

/-- What a successful `stat` saw. -/
theorem answer_stat {kind : NodeKind} {size : Nat}
    (h : t.answer (.stat path user) = .ok (.status kind size)) :
    ∃ node, t.walk user (components path) = .ok node ∧ node.kind = kind ∧ node.size = size := by
  obtain ⟨node, hwalk, h⟩ := ok_of_bind h
  obtain ⟨hkind, hsize⟩ := Answer.status.inj (Except.ok.inj h)
  exact ⟨node, hwalk, hkind, hsize⟩

/-- What a successful `list` saw. -/
theorem answer_list {found : List Name} (h : t.answer (.list path user) = .ok (.names found)) :
    ∃ owner mode entries, t.walk user (components path) = .ok (.directory owner mode entries) ∧
      Fs.permits owner mode user false = true ∧
      found = (entries.map Prod.fst).filter validUtf8 := by
  obtain ⟨_, hnames, h⟩ := ok_of_bind h
  cases h
  obtain ⟨node, hwalk, hview⟩ := ok_of_bind hnames
  cases node with
  | file => contradiction
  | directory owner mode entries =>
    rw [Tree.names] at hview
    split at hview
    · contradiction
    · rename_i hread
      exact ⟨owner, mode, entries, hwalk, by simpa using hread, (Except.ok.inj hview).symm⟩

/-- What a successful `read_file` saw. -/
theorem answer_readFile {bytes : List Byte}
    (h : t.answer (.readFile path user) = .ok (.contents bytes)) :
    ∃ owner mode, t.walk user (components path) = .ok (.file owner mode bytes) ∧
      Fs.permits owner mode user false = true := by
  obtain ⟨contents, hcontents, h⟩ := ok_of_bind h
  cases h
  obtain ⟨node, hwalk, hview⟩ := ok_of_bind hcontents
  cases node with
  | directory => contradiction
  | file owner mode contents =>
    rw [Tree.bytes] at hview
    split at hview
    · contradiction
    · rename_i hread
      cases hview
      exact ⟨owner, mode, hwalk, by simpa using hread⟩

/-- The kernel reads whatever file is there. -/
theorem answer_readFile_none {owner : UserId} {mode : BitVec 16} {contents : List Byte}
    (h : t.get? (components path) = some (.file owner mode contents)) :
    t.answer (.readFile path none) = .ok (.contents contents) := by
  rw [answer, walk_of_get h]
  rfl

end Answers

/-- `stat` counts the entries `list` names, and no name is there twice. -/
theorem WellNamed.counted {t : Tree} (hw : t.WellNamed) {path : Str} {user user' : Option UserId}
    {kind : NodeKind} {size : Nat} {found : List Name}
    (hstat : t.answer (.stat path user) = .ok (.status kind size))
    (hlist : t.answer (.list path user') = .ok (.names found)) :
    kind = .directory ∧ size = found.length ∧ found.Nodup := by
  obtain ⟨_, hwalk, rfl, rfl⟩ := answer_stat hstat
  obtain ⟨owner, mode, entries, hwalk', -, rfl⟩ := answer_list hlist
  have hget := get_of_walk hwalk'
  obtain rfl := some.inj ((get_of_walk hwalk).symm.trans hget)
  have hvalid : (entries.map Prod.fst).filter validUtf8 = entries.map Prod.fst :=
    List.filter_eq_self.mpr (hw.valid _ owner mode entries hget)
  rw [hvalid, List.length_map]
  exact ⟨rfl, rfl, hw.unique _ owner mode entries hget⟩

/-- A write puts exactly its bytes there. -/
theorem get_of_write {t t' : Tree} {path : Str} {data : List Byte} {user : Option UserId}
    (h : t.change (.writeFile path data user) = .ok t') :
    ∃ owner mode, t'.get? (components path) = some (.file owner mode data) := by
  rw [change] at h
  split at h
  · contradiction
  obtain ⟨old, _, hact, hr⟩ := changeAt_ok h
  have hget := hr.get_new []
  rw [List.append_nil] at hget
  cases old with
  | none => contradiction
  | some node =>
    cases node with
    | directory => contradiction
    | file owner mode =>
      rw [write] at hact
      split at hact
      · contradiction
      cases hact
      exact ⟨owner, mode, hget⟩

end Tree

/-! ## Refinement -/

/-- What a read answers, as the code returns it. -/
def returned (out : Except FsError Answer) : Except Stop Answer := out.mapError Stop.error

theorem ok_of_returned {out : Except FsError Answer} {a : Answer} (h : returned out = .ok a) :
    out = .ok a := by
  cases out with
  | error => contradiction
  | ok => exact congrArg Except.ok (Except.ok.inj h)

/-- The mounted filesystem answers every read as the tree does, and the tree is one a
filesystem can hold. -/
structure Mirrors (env : Env) (w : World) (t : Tree) : Prop where
  reads : ∀ op, op.reads = true → (perform env op w).1 = returned (t.answer op)
  named : t.WellNamed

theorem Sound.reads {env : Env} {w : World} {t : Tree} {blocks : List Nat}
    (hs : Sound env w t blocks) (hr : env.Reliable) {op : Op} (hop : op.reads = true) :
    (perform env op w).1 = returned (t.answer op) := by
  have hspec := perform_spec op hs.layout hs.owned
  rcases hrun : perform env op w with ⟨e | a, _⟩
  · cases ((hspec.of_error hrun).read hop).2 with
    | refused h =>
      rw [h]
      rfl
    | broken h => exact absurd hr h.1
  · rw [(hspec.of_ok hrun).answer]
    rfl

/-- Operations that return keep a filesystem sound, with the tree they make. -/
theorem Sound.operateAll {env : Env} {ops : List Op} {w w' : World} {t : Tree} {blocks : List Nat}
    (hs : Sound env w t blocks) (hops : performAll env ops w = some w') :
    ∃ t' blocks', t.changeAll ops = .ok t' ∧ Sound env w' t' blocks' := by
  induction ops generalizing w t blocks with
  | nil =>
    cases hops
    exact ⟨t, blocks, rfl, hs⟩
  | cons op ops ih =>
    rw [performAll] at hops
    rcases hrun : perform env op w with ⟨e | a, _⟩
    · rw [hrun] at hops
      contradiction
    rw [hrun] at hops
    obtain ⟨_, _, hchange, hs₁, -⟩ := hs.operate hrun
    obtain ⟨t', blocks', hall, hs'⟩ := ih hs₁ hops
    refine ⟨t', blocks', ?_, hs'⟩
    rw [Tree.changeAll, hchange]
    exact hall

theorem Tree.WellNamed.changeAll {ops : List Op} {t t' : Tree} (hw : t.WellNamed)
    (h : t.changeAll ops = .ok t') : t'.WellNamed := by
  induction ops generalizing t with
  | nil =>
    cases h
    exact hw
  | cons op ops ih =>
    obtain ⟨_, hchange, h⟩ := Tree.ok_of_bind h
    exact ih (hw.change hchange) h

/-- What one more operation that returns does to the tree, and what can be read after it. -/
structure Refined (env : Env) (t : Tree) (op : Op) (w' : World) (t' : Tree) : Prop where
  change : t.change op = .ok t'
  mirrors : Mirrors env w' t'
  /-- Nothing but its own node changes, and the entry count of the directory it is in. -/
  onlyAt : op.reads = false → Tree.OnlyAt (components op.path) t t'
  /-- What was written is what is read. -/
  written : ∀ path data user, op = .writeFile path data user →
    (perform env (.readFile path none) w').1 = .ok (.contents data) ∧
      ∀ user' bytes, (perform env (.readFile path user') w').1 = .ok (.contents bytes) →
        bytes = data

/-- **The filesystem refines a tree map**: after a format and any operations that return,
on a device where nothing fails, the reads are those of the tree the operations make of the
empty one; names are unique, `stat` counts the entries `list` names, and every further
operation that returns is local and leaves what it wrote. -/
theorem filesystem_refines_tree (sectorCount : Nat) {d₀ d : Device} {s : State}
    (hformat : format (Env.reliable sectorCount) d₀ = (.ok s, d)) {ops : List Op} {w : World}
    (hops : performAll (Env.reliable sectorCount) ops ⟨d, s⟩ = some w) :
    ∃ t, emptyTree.changeAll ops = .ok t ∧ Mirrors (Env.reliable sectorCount) w t ∧
      (∀ path user user' kind size found,
        (perform (Env.reliable sectorCount) (.stat path user) w).1 = .ok (.status kind size) →
        (perform (Env.reliable sectorCount) (.list path user') w).1 = .ok (.names found) →
        kind = .directory ∧ size = found.length ∧ found.Nodup) ∧
      ∀ op a w', perform (Env.reliable sectorCount) op w = (.ok a, w') →
        ∃ t', Refined (Env.reliable sectorCount) t op w' t' := by
  have hr := Env.reliable_reliable sectorCount
  have hfresh := ((format_spec hr d₀).of_ok hformat).2.2.1
  obtain ⟨t, _, hall, hs⟩ := hfresh.operateAll hops
  have hw := Tree.emptyTree_wellNamed.changeAll hall
  refine ⟨t, hall, ⟨fun op hop => hs.reads hr hop, hw⟩, ?_, fun op a w' hrun => ?_⟩
  · intro path user user' kind size found hstat hlist
    rw [hs.reads hr rfl] at hstat hlist
    exact hw.counted (ok_of_returned hstat) (ok_of_returned hlist)
  obtain ⟨t', _, hchange, hs', -⟩ := hs.operate hrun
  refine ⟨t', hchange, ⟨fun op hop => hs'.reads hr hop, hw.change hchange⟩,
    fun hop => Tree.onlyAt_of_change hop hchange hw.unique, ?_⟩
  rintro path data user rfl
  obtain ⟨_, _, hget⟩ := Tree.get_of_write hchange
  refine ⟨?_, fun user' bytes hread => ?_⟩
  · rw [hs'.reads hr rfl, Tree.answer_readFile_none hget]
    rfl
  rw [hs'.reads hr rfl] at hread
  obtain ⟨o, m, hwalk, -⟩ := Tree.answer_readFile (ok_of_returned hread)
  obtain ⟨-, -, rfl⟩ := Tree.file.inj (some.inj ((Tree.get_of_walk hwalk).symm.trans hget))
  rfl

/-- A format of a device, and what it mounts. -/
def formatted (env : Env) (d₀ : Device) : Option World :=
  match format env d₀ with
  | (.ok s, d) => some ⟨d, s⟩
  | (.error _, _) => none

theorem format_of_formatted {env : Env} {d₀ : Device} {w : World}
    (h : formatted env d₀ = some w) : format env d₀ = (.ok w.state, w.device) := by
  rw [formatted] at h
  split at h
  · rename_i s d hrun
    rw [hrun, ← some.inj h]
  · contradiction

/-- Creating `/f` and writing three bytes to it. -/
theorem filesystem_refines_tree_written : ∃ w₀ w t,
    formatted (Env.reliable 4096) ⟨fun _ _ => 0, 0, []⟩ = some w₀ ∧ performAll (Env.reliable 4096)
      [.create pathF .file none, .writeFile pathF [1, 2, 3] none] w₀ = some w ∧
    emptyTree.changeAll [.create pathF .file none, .writeFile pathF [1, 2, 3] none] = .ok t ∧
    Mirrors (Env.reliable 4096) w t := by
  have hrun : ((formatted (Env.reliable 4096) ⟨fun _ _ => 0, 0, []⟩).bind
      (performAll (Env.reliable 4096)
        [.create pathF .file none, .writeFile pathF [1, 2, 3] none])).isSome = true := by
    decide +kernel
  obtain ⟨w, hw⟩ := isSome_iff_exists.mp hrun
  obtain ⟨w₀, hw₀, hops⟩ := bind_eq_some_iff.mp hw
  obtain ⟨t, hall, hmirrors, -⟩ := filesystem_refines_tree 4096 (format_of_formatted hw₀) hops
  exact ⟨w₀, w, t, hw₀, hops, hall, hmirrors⟩

end Panda.Fs
