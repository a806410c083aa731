import PandaProof.FileSystem

/-!
# The tree a filesystem stands for

What the filesystem is for, with no blocks in it: files with contents and directories
with named entries, each with an owner and permission bits.  `Tree.rewrite` is what a
change does to such a tree along a path; the four changes are four actions at its end.
-/
namespace Panda.Fs

inductive Tree
  | file (owner : UserId) (mode : BitVec 16) (contents : List Byte)
  | directory (owner : UserId) (mode : BitVec 16) (entries : List (Name × Tree))

/-- The first entry of that name. -/
def entry (name : Name) (entries : List (Name × Tree)) : Option Tree :=
  (entries.find? fun e => e.1 = name).map Prod.snd

namespace Tree

def owner : Tree → UserId
  | file owner _ _ => owner
  | directory owner _ _ => owner

def mode : Tree → BitVec 16
  | file _ mode _ => mode
  | directory _ mode _ => mode

def kind : Tree → NodeKind
  | file .. => .file
  | directory .. => .directory

/-- Bytes of a file, entries of a directory. -/
def size : Tree → Nat
  | file _ _ contents => contents.length
  | directory _ _ entries => entries.length

def entries : Tree → List (Name × Tree)
  | file .. => []
  | directory _ _ entries => entries

def withMode (mode : BitVec 16) : Tree → Tree
  | file owner _ contents => file owner mode contents
  | directory owner _ entries => directory owner mode entries

def permits (t : Tree) (user : Option UserId) (write : Bool) : Bool :=
  Fs.permits t.owner t.mode user write

/-- The node at the end of a path. -/
def get? : List Name → Tree → Option Tree
  | [], t => some t
  | name :: rest, t => (entry name t.entries).bind (get? rest)

/-- A directory with its entry of that name replaced, or removed. -/
def replaced (owner : UserId) (mode : BitVec 16) (entries : List (Name × Tree)) (name : Name)
    (replacement : Option Tree) : Except FsError Tree :=
  let entries := entries.filter (fun e => e.1 ≠ name) ++ (replacement.map fun t => (name, t)).toList
  if directBlocks * entriesPerBlock < entries.length then .error .tooLarge
  else .ok (.directory owner mode entries)

/-- What a change makes of the node a path names, or of there being none. -/
abbrev Act : Type := Option Tree → Except FsError (Option Tree)

/-- The change `act` at the end of a path. -/
def rewrite (access : Access) (act : Act) :
    List Name → Tree → Except FsError Tree
  | _, .file .. => .error .wrongType
  | [], .directory owner mode _ =>
    if !Fs.permits owner mode access.user false then .error .denied else .error .badName
  | [name], .directory owner mode entries =>
    if !Fs.permits owner mode access.user false then .error .denied
    else if access.changesParent ∧ !Fs.permits owner mode access.user true then .error .denied
    else do
      let replacement ← act (entry name entries)
      replaced owner mode entries name replacement
  | name :: next :: rest, .directory owner mode entries =>
    if !Fs.permits owner mode access.user false then .error .denied
    else match entry name entries with
      | none => .error .notFound
      | some child => do
        let child ← rewrite access act (next :: rest) child
        replaced owner mode entries name (some child)

/-! ## The changes -/

/-- An empty file or directory. -/
def empty (kind : NodeKind) (owner : UserId) : Tree :=
  match kind with
  | .file => .file owner defaultMode []
  | .directory => .directory owner defaultMode []

def create (kind : NodeKind) (owner : UserId) : Act
  | some _ => .error .exists
  | none => .ok (some (empty kind owner))

def write (data : List Byte) (user : Option UserId) : Act
  | none => .error .notFound
  | some (.directory ..) => .error .wrongType
  | some (.file owner mode _) =>
    if !Fs.permits owner mode user true then .error .denied
    else .ok (some (.file owner mode data))

def remove : Act
  | none => .error .notFound
  | some (.file ..) => .ok none
  | some (.directory _ _ entries) => if 0 < entries.length then .error .notEmpty else .ok none

def setMode (mode : BitVec 16) (user : Option UserId) : Act
  | none => .error .notFound
  | some t => if user.any (· ≠ t.owner) then .error .denied else .ok (some (t.withMode mode))

/-- What a path is refused for before the tree is looked at. -/
def named (path : Str) (out : Except FsError Tree) : Except FsError Tree :=
  match finalName path with
  | none => .error .badName
  | some name => if nameOk name then out else .error .badName

/-- The change at a path. -/
def changeAt (path : Str) (access : Access) (act : Act)
    (t : Tree) : Except FsError Tree :=
  if components path = [] then .error .badName else rewrite access act (components path) t

/-- What an operation makes of the tree; reads leave it alone. -/
def change : Op → Tree → Except FsError Tree
  | .create path kind user, t =>
    named path (changeAt path ⟨user, true⟩ (create kind (user.getD systemUser)) t)
  | .createOwnedBy path kind owner, t =>
    named path (changeAt path ⟨none, true⟩ (create kind owner) t)
  | .writeFile path data user, t =>
    if directBlocks < (data.length + (blockSize - 1)) / blockSize then .error .tooLarge
    else changeAt path ⟨user, false⟩ (write data user) t
  | .remove path user, t => named path (changeAt path ⟨user, true⟩ remove t)
  | .setMode path mode user, t =>
    if mode &&& ~~~allPermissions ≠ 0 then .error .badName
    else changeAt path ⟨user, false⟩ (setMode mode user) t
  | _, t => .ok t

/-! ## The reads -/

/-- The node at the end of a path, every directory on the way being readable. -/
def walk (user : Option UserId) : List Name → Tree → Except FsError Tree
  | [], t => .ok t
  | _ :: _, .file .. => .error .wrongType
  | name :: rest, .directory owner mode entries =>
    if !Fs.permits owner mode user false then .error .denied
    else match entry name entries with
      | none => .error .notFound
      | some child => walk user rest child

/-- What `read_file` makes of a node. -/
def bytes (user : Option UserId) : Tree → Except FsError (List Byte)
  | .directory .. => .error .wrongType
  | .file owner mode contents =>
    if !Fs.permits owner mode user false then .error .denied else .ok contents

/-- What `list` makes of a node. -/
def names (user : Option UserId) : Tree → Except FsError (List Name)
  | .file .. => .error .wrongType
  | .directory owner mode entries =>
    if !Fs.permits owner mode user false then .error .denied
    else .ok ((entries.map Prod.fst).filter validUtf8)

/-- What an operation answers. -/
def answer : Op → Tree → Except FsError Answer
  | .readFile path user, t => do
    let bytes ← walk user (components path) t >>= bytes user
    .ok (.contents bytes)
  | .list path user, t => do
    let names ← walk user (components path) t >>= names user
    .ok (.names names)
  | .stat path user, t => do
    let node ← walk user (components path) t
    .ok (.status node.kind node.size)
  | .owner path user, t => do
    let node ← walk user (components path) t
    .ok (.ownership node.owner node.mode)
  | op, t => do
    let _ ← change op t
    .ok .done

end Tree
end Panda.Fs
