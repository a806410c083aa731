import PandaProof.FsOperations

/-!
# What a change does to every path

`Tree.rewrite` answers for the path it is given; here is what it means for all the others.
`Rewrites` is the shape of a successful rewrite: directories that may be read along the
path, each with one entry replaced, and at the end the node before and the node after.
Paths that do not run through the end show the same node as before, directories along the
path keep their owner and mode, and names stay unique and valid.
-/
namespace Panda.Fs

open List Prod

/-! ## Entries -/

/-- The entries with the one of that name replaced, or removed. -/
def updated (name : Name) (replacement : Option Tree) (entries : List (Name × Tree)) :
    List (Name × Tree) :=
  entries.filter (fun e => e.1 ≠ name) ++ (replacement.map fun t => (name, t)).toList

theorem entry_updated (name n : Name) (replacement : Option Tree) (entries : List (Name × Tree)) :
    entry n (updated name replacement entries) =
      if n = name then replacement else entry n entries := by
  rw [updated, entry, entry, find?_append, find?_filter]
  by_cases hn : n = name
  · subst hn
    have hnone : (entries.find? fun e => decide (decide (e.1 ≠ n) = true ∧
        decide (e.1 = n) = true)) = none := by
      rw [find?_eq_none]
      intro e _
      by_cases he : e.1 = n <;> simp [he]
    rw [hnone, Option.none_or, if_pos rfl]
    cases replacement with
    | none => rfl
    | some => simp
  · have hsame : (entries.find? fun e => decide (decide (e.1 ≠ name) = true ∧
        decide (e.1 = n) = true)) = entries.find? fun e => decide (e.1 = n) := by
      congr 1
      funext e
      by_cases he : e.1 = n
      · simp [he, hn]
      · simp [he]
    have hlast : ((replacement.map fun t => (name, t)).toList.find? fun e => decide (e.1 = n)) =
        none := by
      cases replacement with
      | none => rfl
      | some => simp [Ne.symm hn]
    rw [hsame, hlast, Option.or_none, if_neg hn]

theorem names_updated (name : Name) (replacement : Option Tree) (entries : List (Name × Tree)) :
    (updated name replacement entries).map fst =
      (entries.map fst).filter (· ≠ name) ++ (replacement.map fun _ => name).toList := by
  rw [updated, map_append, filter_map]
  cases replacement <;> rfl

/-- Replacing an entry keeps the number of entries, where names are unique. -/
theorem length_updated {name : Name} {child : Tree} (child' : Tree)
    {entries : List (Name × Tree)} (hnodup : (entries.map fst).Nodup)
    (h : entry name entries = some child) :
    (updated name (some child') entries).length = entries.length := by
  have hmem : name ∈ entries.map fst := by
    by_contra hnot
    rw [entry_eq_none hnot] at h
    contradiction
  have hfilter : (entries.map fst).filter (· ≠ name) = (entries.map fst).erase name := by
    rw [hnodup.erase_eq_filter]
    refine filter_congr fun n _ => ?_
    by_cases hn : n = name <;> simp [hn]
  have hlength : (updated name (some child') entries).length =
      ((updated name (some child') entries).map fst).length := length_map _ |>.symm
  rw [hlength, names_updated, length_append, hfilter, length_erase_of_mem hmem, length_map]
  have hpos := length_pos_of_mem hmem
  rw [length_map] at hpos
  show entries.length - 1 + 1 = _
  omega

namespace Tree

/-! ## The shape of a rewrite -/

/-- What a node shows of itself: kind, owner, mode and, for a file, contents. -/
def view : Tree → NodeKind × UserId × BitVec 16 × List Byte
  | file owner mode contents => (.file, owner, mode, contents)
  | directory owner mode _ => (.directory, owner, mode, [])

/-- `t'` is `t` with the node at the end of a path, `old`, replaced by `new`. -/
inductive Rewrites (access : Access) : List Name → Tree → Tree → Option Tree → Option Tree → Prop
  | last {owner : UserId} {mode : BitVec 16} {entries : List (Name × Tree)} {name : Name}
      {new : Option Tree} (hread : Fs.permits owner mode access.user false = true)
      (hwrite : access.changesParent = true → Fs.permits owner mode access.user true = true) :
      Rewrites access [name] (.directory owner mode entries)
        (.directory owner mode (updated name new entries)) (entry name entries) new
  | step {owner : UserId} {mode : BitVec 16} {entries : List (Name × Tree)} {name : Name}
      {rest : List Name} {child child' : Tree} {old new : Option Tree}
      (hread : Fs.permits owner mode access.user false = true)
      (hchild : entry name entries = some child) (h : Rewrites access rest child child' old new) :
      Rewrites access (name :: rest) (.directory owner mode entries)
        (.directory owner mode (updated name (some child') entries)) old new

variable {owner : UserId} {mode : BitVec 16} {entries : List (Name × Tree)} {name : Name} {t : Tree}

theorem replaced_ok {replacement : Option Tree}
    (h : replaced owner mode entries name replacement = .ok t) :
    t = .directory owner mode (updated name replacement entries) := by
  rw [replaced] at h
  split at h
  · contradiction
  · exact (Except.ok.inj h).symm

variable {access : Access} {comps : List Name} {t' : Tree}

/-- **A rewrite that succeeds** has that shape. -/
theorem rewrites_of_rewrite {act : Tree.Act}
    (h : t.rewrite access act comps = .ok t') :
    ∃ old new, act old = .ok new ∧ Rewrites access comps t t' old new := by
  induction comps generalizing t t' with
  | nil =>
    cases t with
    | file => contradiction
    | directory =>
      rw [rewrite] at h
      split at h <;> contradiction
  | cons name rest ih =>
    cases t with
    | file => cases rest <;> contradiction
    | directory owner mode entries =>
      cases rest with
      | nil =>
        rw [rewrite] at h
        split at h
        · contradiction
        rename_i hread
        split at h
        · contradiction
        rename_i hwrite
        cases hact : act (entry name entries) with
        | error =>
          rw [hact] at h
          contradiction
        | ok new =>
          rw [hact] at h
          obtain rfl := replaced_ok h
          refine ⟨_, new, hact, .last (by simpa using hread) fun hchanges => ?_⟩
          simpa [hchanges] using hwrite
      | cons next rest =>
        rw [rewrite] at h
        split at h
        · contradiction
        rename_i hread
        cases hchild : entry name entries with
        | none =>
          rw [hchild] at h
          contradiction
        | some child =>
          rw [hchild] at h
          cases hinner : child.rewrite access act (next :: rest) with
          | error =>
            simp only [hinner] at h
            contradiction
          | ok =>
            simp only [hinner] at h
            obtain rfl := replaced_ok h
            obtain ⟨old, new, hact, hr⟩ := ih hinner
            exact ⟨old, new, hact, .step (by simpa using hread) hchild hr⟩

theorem bind_get_nil (node : Option Tree) : node.bind (get? []) = node := by
  cases node <;> rfl

namespace Rewrites

variable {access : Access} {comps : List Name} {t t' : Tree} {old new : Option Tree}

section

variable (h : Rewrites access comps t t' old new)
include h

/-- The end of the path, and what is below it, before. -/
theorem get_old (below : List Name) : t.get? (comps ++ below) = old.bind (get? below) := by
  induction h with
  | last => rfl
  | step hread hchild h ih =>
    rw [cons_append, get?, entries, hchild]
    exact ih

/-- The end of the path, and what is below it, after. -/
theorem get_new (below : List Name) : t'.get? (comps ++ below) = new.bind (get? below) := by
  induction h with
  | last =>
    rw [cons_append, get?, entries, entry_updated, if_pos rfl]
    rfl
  | step hread hchild h ih =>
    rw [cons_append, get?, entries, entry_updated, if_pos rfl]
    exact ih

variable {q : List Name}

/-- **Everywhere else nothing changes**, but for the entries of the directories on the way. -/
theorem view_of_not_prefix (hq : ¬comps <+: q) : (t'.get? q).map view = (t.get? q).map view := by
  induction h generalizing q with
  | @last owner mode entries name =>
    cases q with
    | nil => rfl
    | cons n q =>
      have hne : n ≠ name := fun he => hq (he ▸ ⟨q, rfl⟩)
      rw [get?, get?, Tree.entries, Tree.entries, entry_updated, if_neg hne]
  | @step owner mode entries name rest child child' old new hread hchild h ih =>
    cases q with
    | nil => rfl
    | cons n =>
      rw [get?, get?, Tree.entries, Tree.entries, entry_updated]
      by_cases hn : n = name
      · subst hn
        rw [if_pos rfl, hchild]
        exact ih fun hprefix => hq (cons_prefix_cons.mpr ⟨rfl, hprefix⟩)
      · rw [if_neg hn]

/-- Every directory on the way may be read. -/
theorem readable (hq : q <+: comps)
    (hne : q ≠ comps) : ∃ owner mode entries, t.get? q = some (.directory owner mode entries) ∧
      Fs.permits owner mode access.user false = true := by
  induction h generalizing q with
  | @last owner mode entries name new hread =>
    cases q with
    | nil => exact ⟨owner, mode, entries, rfl, hread⟩
    | cons =>
      obtain ⟨rfl, hnil⟩ := cons_prefix_cons.mp hq
      rw [prefix_nil.mp hnil] at hne
      contradiction
  | @step owner mode entries name rest child child' old new hread hchild h ih =>
    cases q with
    | nil => exact ⟨owner, mode, entries, rfl, hread⟩
    | cons =>
      obtain ⟨rfl, hrest⟩ := cons_prefix_cons.mp hq
      obtain ⟨o, m, es, hget, hpermits⟩ := ih hrest fun he => hne (he ▸ rfl)
      refine ⟨o, m, es, ?_, hpermits⟩
      rw [get?, Tree.entries, hchild]
      exact hget

theorem ne_nil : comps ≠ [] := by
  cases h <;> exact cons_ne_nil _ _

/-- The directory the last name is in. -/
theorem parent (hchanges : access.changesParent = true) :
    ∃ owner mode entries, t.get? comps.dropLast = some (.directory owner mode entries) ∧
      Fs.permits owner mode access.user true = true := by
  induction h with
  | @last owner mode entries name new hread hwrite =>
    exact ⟨owner, mode, entries, rfl, hwrite hchanges⟩
  | @step owner mode entries name rest child child' old new hread hchild h ih =>
    obtain ⟨o, m, es, hget, hpermits⟩ := ih
    refine ⟨o, m, es, ?_, hpermits⟩
    rw [dropLast_cons_of_ne_nil h.ne_nil, get?, Tree.entries, hchild]
    exact hget

/-- **Directories keep their sizes**, but for the one the last name is in. -/
theorem size_of_ne (hunique : t.Unique) (hq : ¬comps <+: q) (hparent : q ≠ comps.dropLast) :
    (t'.get? q).map size = (t.get? q).map size := by
  induction h generalizing q with
  | @last owner mode entries name =>
    cases q with
    | nil => exact absurd rfl hparent
    | cons n q =>
      have hne : n ≠ name := fun he => hq (he ▸ ⟨q, rfl⟩)
      rw [get?, get?, Tree.entries, Tree.entries, entry_updated, if_neg hne]
  | @step owner mode entries name rest child child' old new hread hchild h ih =>
    cases q with
    | nil =>
      show some (updated name (some child') entries).length = some entries.length
      rw [length_updated child' hunique.nodup hchild]
    | cons n =>
      rw [get?, get?, Tree.entries, Tree.entries, entry_updated]
      by_cases hn : n = name
      · subst hn
        rw [if_pos rfl, hchild]
        refine ih (hunique.child hchild) (fun hprefix => ?_) fun he => ?_
        · exact hq (cons_prefix_cons.mpr ⟨rfl, hprefix⟩)
        · rw [dropLast_cons_of_ne_nil h.ne_nil, ← he] at hparent
          exact hparent rfl
      · rw [if_neg hn]

end

end Rewrites

/-! ## Names -/

/-- The names of every directory of the tree have a property. -/
def Every (P : List Name → Prop) (t : Tree) : Prop :=
  ∀ path owner mode entries, t.get? path = some (.directory owner mode entries) →
    P (entries.map fst)

variable {P : List Name → Prop}

theorem every_file (owner : UserId) (mode : BitVec 16)
    (contents : List Byte) : (Tree.file owner mode contents).Every P := by
  intro path o m es hget
  cases path with
  | nil => exact nomatch Option.some.inj hget
  | cons => contradiction

theorem every_directory : (Tree.directory owner mode entries).Every P ↔
      P (entries.map fst) ∧ ∀ name child, entry name entries = some child → child.Every P := by
  constructor
  · intro h
    refine ⟨h [] owner mode entries rfl, fun name child hchild path o m es hget => ?_⟩
    refine h (name :: path) o m es ?_
    rw [get?, Tree.entries, hchild]
    exact hget
  rintro ⟨hown, hchildren⟩ path o m es hget
  cases path with
  | nil =>
    cases hget
    exact hown
  | cons name path =>
    obtain ⟨child, hchild, hget⟩ := Option.bind_eq_some_iff.mp hget
    exact hchildren name child hchild path o m es hget

/-- **A property of names survives a rewrite** if it survives taking out a name and putting
in one of the path's. -/
theorem Rewrites.every {old new : Option Tree} (h : Rewrites access comps t t' old new)
    (hupdated : ∀ name ∈ comps, ∀ (replacement : Option Tree) (entries : List (Name × Tree)),
      P (entries.map fst) → P ((updated name replacement entries).map fst))
    (ht : t.Every P) (hnew : (∀ node, old = some node → node.Every P) →
      ∀ node, new = some node → node.Every P) : t'.Every P := by
  induction h with
  | @last owner mode entries name =>
    obtain ⟨hown, hchildren⟩ := every_directory.mp ht
    refine every_directory.mpr ⟨hupdated name mem_cons_self _ _ hown, fun n child hchild => ?_⟩
    rw [entry_updated] at hchild
    split at hchild
    · exact hnew (fun node hnode => hchildren name node hnode) child hchild
    · exact hchildren n child hchild
  | @step owner mode entries name rest child child' old new hread hchild h ih =>
    obtain ⟨hown, hchildren⟩ := every_directory.mp ht
    refine every_directory.mpr ⟨hupdated name mem_cons_self _ _ hown, fun n node hnode => ?_⟩
    rw [entry_updated] at hnode
    split at hnode
    · cases hnode
      exact ih (fun n hn => hupdated n (mem_cons_of_mem _ hn)) (hchildren name child hchild) hnew
    · exact hchildren n node hnode

theorem nodup_updated (name : Name) (replacement : Option Tree) (entries : List (Name × Tree))
    (h : (entries.map fst).Nodup) : ((updated name replacement entries).map fst).Nodup := by
  rw [names_updated, nodup_append]
  refine ⟨h.filter _, ?_, ?_⟩
  · cases replacement with
    | none => exact nodup_nil
    | some => exact nodup_singleton name
  intro a ha b hb he
  subst he
  cases replacement with
  | none => simp at hb
  | some =>
    rw [mem_filter] at ha
    simp_all

theorem valid_updated (hname : validUtf8 name = true) (replacement : Option Tree)
    (entries : List (Name × Tree)) (h : ∀ n ∈ entries.map fst, validUtf8 n = true) :
    ∀ n ∈ (updated name replacement entries).map fst, validUtf8 n = true := by
  intro n hn
  rw [names_updated] at hn
  rcases mem_append.mp hn with hn | hn
  · exact h n (mem_filter.mp hn).1
  cases replacement with
  | none => simp at hn
  | some =>
    obtain rfl : n = name := by simpa using hn
    exact hname

end Tree

/-! ## Operations -/

/-- The path an operation is about. -/
def Op.path : Op → Str
  | .create path .. | .createOwnedBy path .. | .writeFile path .. | .remove path _
  | .setMode path .. | .readFile path _ | .list path _ | .stat path _ | .owner path _ => path

/-- Who performs it; no user is the kernel itself. -/
def Op.user : Op → Option UserId
  | .create _ _ user | .writeFile _ _ user | .remove _ user | .setMode _ _ user
  | .readFile _ user | .list _ user | .stat _ user | .owner _ user => user
  | .createOwnedBy .. => none

/-- The change adds or removes a name. -/
def Op.changesParent : Op → Bool
  | .create .. | .createOwnedBy .. | .remove .. => true
  | _ => false

/-- What a change does to the node it is about. -/
inductive Effect (op : Op) : Option Tree → Option Tree → Prop
  | created (kind : NodeKind) (owner : UserId) (hop : op.changesParent = true) :
      Effect op none (some (Tree.empty kind owner))
  | written {path : Str} {user : Option UserId} {owner : UserId} {mode : BitVec 16}
      {contents data : List Byte} (hop : op = .writeFile path data user)
      (h : Fs.permits owner mode op.user true = true) :
      Effect op (some (.file owner mode contents)) (some (.file owner mode data))
  | removed {node : Tree} (hop : op.changesParent = true) (h : node.entries = []) :
      Effect op (some node) none
  | chmod {node : Tree} {mode : BitVec 16} (h : ∀ user, op.user = some user → user = node.owner) :
      Effect op (some node) (some (node.withMode mode))

namespace Tree

variable {op : Op} {t t' : Tree}

variable {path : Str}

theorem changeAt_ok {access : Access}
    {act : Tree.Act} (h : t.changeAt path access act = .ok t') :
    ∃ old new, act old = .ok new ∧ Rewrites access (components path) t t' old new := by
  rw [changeAt] at h
  split at h
  · contradiction
  · exact rewrites_of_rewrite h

theorem named_ok {out : Except FsError Tree} (h : named path out = .ok t') : out = .ok t' := by
  rw [named] at h
  split at h
  · contradiction
  split at h
  · exact h
  · contradiction

/-- **What a change is**: one rewrite along its path, with one of four effects. -/
theorem change_ok (hop : op.reads = false) (h : t.change op = .ok t') :
    ∃ old new, Effect op old new ∧
      Rewrites ⟨op.user, op.changesParent⟩ (components op.path) t t' old new := by
  cases op with
  | create path kind =>
    obtain ⟨old, new, hact, hr⟩ := changeAt_ok (named_ok h)
    refine ⟨old, new, ?_, hr⟩
    cases old with
    | some => contradiction
    | none => exact Except.ok.inj hact ▸ .created kind _ rfl
  | createOwnedBy path kind owner =>
    obtain ⟨old, new, hact, hr⟩ := changeAt_ok (named_ok h)
    refine ⟨old, new, ?_, hr⟩
    cases old with
    | some => contradiction
    | none => exact Except.ok.inj hact ▸ .created kind owner rfl
  | writeFile path data user =>
    rw [change] at h
    split at h
    · contradiction
    obtain ⟨old, new, hact, hr⟩ := changeAt_ok h
    refine ⟨old, new, ?_, hr⟩
    cases old with
    | none => contradiction
    | some node =>
      cases node with
      | directory => contradiction
      | file owner mode contents =>
        rw [write] at hact
        split at hact
        · contradiction
        rename_i hwrite
        have hpermits : Fs.permits owner mode user true = true := by simpa using hwrite
        exact Except.ok.inj hact ▸ .written rfl hpermits
  | remove path user =>
    obtain ⟨old, new, hact, hr⟩ := changeAt_ok (named_ok h)
    refine ⟨old, new, ?_, hr⟩
    cases old with
    | none => contradiction
    | some node =>
      cases node with
      | file => exact Except.ok.inj hact ▸ .removed rfl rfl
      | directory owner mode entries =>
        rw [remove] at hact
        split at hact
        · contradiction
        rename_i hempty
        have hnil : entries = [] := eq_nil_of_length_eq_zero (by omega)
        exact Except.ok.inj hact ▸ .removed rfl hnil
  | setMode path mode user =>
    rw [change] at h
    split at h
    · contradiction
    obtain ⟨old, new, hact, hr⟩ := changeAt_ok h
    refine ⟨old, new, ?_, hr⟩
    cases old with
    | none => contradiction
    | some node =>
      rw [setMode] at hact
      split at hact
      · contradiction
      rename_i howner
      refine Except.ok.inj hact ▸ .chmod fun u hu => ?_
      obtain rfl : user = some u := hu
      simpa using howner
  | readFile | list | stat | owner => contradiction

variable {old new : Option Tree}

/-- Nothing below the node changes. -/
theorem effect_below (h : Effect op old new) {q : List Name} (hq : q ≠ []) :
    new.bind (get? q) = old.bind (get? q) := by
  cases q with
  | nil => exact absurd rfl hq
  | cons name q =>
    cases h with
    | created kind => cases kind <;> rfl
    | written => rfl
    | @removed node hop hempty =>
      show none = (entry name node.entries).bind (get? q)
      rw [hempty]
      rfl
    | @chmod node mode =>
      show (entry name (node.withMode mode).entries).bind (get? q) =
        (entry name node.entries).bind (get? q)
      cases node <;> rfl

theorem effect_every {P : List Name → Prop} (hP : P [])
    (h : Effect op old new) (hold : ∀ node, old = some node → node.Every P) :
    ∀ node, new = some node → node.Every P := by
  intro node hnode
  cases h with
  | created kind =>
    cases hnode
    cases kind with
    | file => exact every_file _ _ _
    | directory => exact every_directory.mpr ⟨hP, fun name child hchild => by contradiction⟩
  | written =>
    cases hnode
    exact every_file _ _ _
  | removed => contradiction
  | @chmod old =>
    cases hnode
    have := hold old rfl
    cases old with
    | file => exact every_file _ _ _
    | directory => exact every_directory.mpr (every_directory.mp this)

/-- Everything but the node at a path is as it was, and directories other than the one it
is in have as many entries. -/
structure OnlyAt (target : List Name) (t t' : Tree) : Prop where
  view : ∀ q, q ≠ target → (t'.get? q).map Tree.view = (t.get? q).map Tree.view
  size : ∀ q, q ≠ target → q ≠ target.dropLast →
    (t'.get? q).map Tree.size = (t.get? q).map Tree.size

/-- **A change is local.** -/
theorem onlyAt_of_change (hop : op.reads = false) (h : t.change op = .ok t') (hunique : t.Unique) :
    OnlyAt (components op.path) t t' := by
  obtain ⟨_, _, heffect, hr⟩ := change_ok hop h
  -- Below the node the tree is the same.
  have hbelow : ∀ q, q ≠ components op.path → components op.path <+: q → t'.get? q = t.get? q := by
    rintro q hne ⟨_, rfl⟩
    rw [hr.get_new, hr.get_old, effect_below heffect]
    rintro rfl
    simp at hne
  refine ⟨fun q hq => ?_, fun q hq hparent => ?_⟩
  · by_cases hprefix : components op.path <+: q
    · rw [hbelow q hq hprefix]
    · exact hr.view_of_not_prefix hprefix
  · by_cases hprefix : components op.path <+: q
    · rw [hbelow q hq hprefix]
    · exact hr.size_of_ne hunique hprefix hparent

/-- Names are unique and valid in every directory. -/
structure WellNamed (t : Tree) : Prop where
  unique : t.Unique
  valid : t.Every fun names => ∀ n ∈ names, validUtf8 n = true

theorem change_of_reads (hop : op.reads = true) : t.change op = .ok t := by
  cases op with
  | create | createOwnedBy | writeFile | remove | setMode => contradiction
  | readFile | list | stat | owner => rfl

theorem WellNamed.change (hw : t.WellNamed) (h : t.change op = .ok t') : t'.WellNamed := by
  cases hop : op.reads with
  | true =>
    obtain rfl := Except.ok.inj ((change_of_reads hop).symm.trans h)
    exact hw
  | false =>
    obtain ⟨_, _, heffect, hr⟩ := change_ok hop h
    constructor
    · exact hr.every (fun name _ replacement entries hnodup =>
        nodup_updated name replacement entries hnodup) hw.unique (effect_every nodup_nil heffect)
    · exact hr.every (fun name hname replacement entries hvalid =>
        valid_updated (valid_of_mem_components hname) replacement entries hvalid) hw.valid
        (effect_every (by simp) heffect)

/-! ## Walks -/

variable {comps : List Name} {node : Tree}

theorem get_of_walk {user : Option UserId}
    (h : t.walk user comps = .ok node) : t.get? comps = some node := by
  induction comps generalizing t with
  | nil => exact congrArg some (Except.ok.inj h)
  | cons name rest ih =>
    cases t with
    | file => contradiction
    | directory owner mode entries =>
      rw [walk] at h
      split at h
      · contradiction
      rw [get?, Tree.entries]
      cases hchild : entry name entries with
      | none =>
        rw [hchild] at h
        contradiction
      | some =>
        rw [hchild] at h
        exact ih h

/-- The kernel may go everywhere. -/
theorem walk_of_get (h : t.get? comps = some node) : t.walk none comps = .ok node := by
  induction comps generalizing t with
  | nil => exact congrArg Except.ok (Option.some.inj h)
  | cons name rest ih =>
    obtain ⟨child, hchild, hget⟩ := Option.bind_eq_some_iff.mp h
    cases t with
    | file => contradiction
    | directory owner mode entries =>
      have hentry : entry name entries = some child := hchild
      rw [walk, hentry]
      exact ih hget

end Tree

end Panda.Fs
