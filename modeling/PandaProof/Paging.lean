import PandaProof.KernelState

/-!
# Address spaces

The kernel's own functions over the page tables: new spaces, mapping, flags.  `writeByte` is
the processor storing through the tables that are loaded.
-/
namespace Panda.Memory

variable {M : Mapper} {ε : Type}

/-! ## Flags -/

def present : UInt64 := 1
def writable : UInt64 := 2
def userAccessible : UInt64 := 4
def noExecute : UInt64 := 0x8000000000000000

/-- `contains`: all of these flags are set. -/
def has (flags wanted : UInt64) : Bool := flags &&& wanted == wanted

/-! ## Spaces -/

/-- The level 4 index of a page. -/
def p4Index (page : Nat) : Nat := page / 134217728 % 512

/-- Level 4 index covering the whole user region. -/
def userL4Index : Nat := 64

def zeroTable (level4 : Nat) : Code M ε Unit :=
  Prog.modify fun k => { k with tables := M.zero level4 k.tables }

/-- Entries copied from one level 4 table to another. -/
def copyEntries (source destination : Nat) : List Nat → Code M ε Unit
  | [] => pure ()
  | index :: rest => do
    Prog.modify fun k => { k with tables := M.cloneEntry source destination index k.tables }
    copyEntries source destination rest

/-- A new space that shares every kernel mapping but has its own, empty, user region. -/
def newUser : Code M ε (Option Nat) := do
  match ← allocateFrame with
  | none => pure none
  | some frame =>
    let b ← book
    zeroTable frame
    copyEntries b.active frame ((List.range 512).filter (· ≠ userL4Index))
    pure (some frame)

/-- Load a space into CR3. -/
def activate (space : Nat) : Code M ε Unit := modifyBook fun b => { b with active := space }

/-! ## Mapping -/

/-- Errors from establishing a mapping. -/
inductive MapError
  | outOfFrames | alreadyMapped | hugePageInTheWay
  deriving DecidableEq

/-- `From<MapToError>`. -/
def MapError.from : MapToError → MapError
  | .frameAllocationFailed => .outOfFrames
  | .pageAlreadyMapped => .alreadyMapped
  | .parentEntryHugePage => .hugePageInTheWay

/-- `map_to`, with the kernel's frame allocator. -/
def mapTo (level4 page target : Nat) (flags : UInt64) : Code M MapToError Unit := fun k =>
  let (result, tables, allocator) := M.mapTo level4 page target flags k.tables k.allocator
  (result.mapError .error, { k with allocator, tables })

/-- Map `page` to a fresh frame inside `space`. -/
def mapIn (space page : Nat) (flags : UInt64) : Code M MapError Nat := do
  match ← allocateFrame with
  | none => fail .outOfFrames
  | some target =>
    Prog.tryCatch (do mapTo space page target flags; pure target) fun
      | .error e => do deallocateFrame target; fail (.from e)
      | _ => panicking

/-- Map `page` to a specific frame inside `space`. -/
def mapToFrameIn (space page target : Nat) (flags : UInt64) : Code M MapError Unit :=
  mapErr .from (mapTo space page target flags)

/-- Page flags for an address within `space`. -/
def flagsIn (space page : Nat) : Code M ε (Option UInt64) :=
  Prog.gets fun k => (M.translate space page k.tables).flags

/-- Change permissions on an existing mapping inside `space`. -/
def setFlagsIn (space page : Nat) (flags : UInt64) : Code M FlagUpdateError Unit := fun k =>
  let (result, tables) := M.updateFlags space page flags k.tables
  (result.mapError .error, { k with tables })

/-! ## The processor -/

/-- The frame behind a page whose entry has the flags `need`. -/
def Paged.resolve (k : Paged M) (space page : Nat) (need : UInt64) : Option Nat :=
  match M.translate space page k.tables with
  | .mapped frame flags => if has flags need then some frame else none
  | _ => none

/-- One byte stored by the kernel at a virtual address; a fault is a panic. -/
def writeByte (address : Nat) (b : UInt8) : FullCode M ε Unit := do
  let k ← Prog.get
  match k.resolve k.active (address / 4096) (present ||| writable) with
  | none => panicking
  | some frame =>
    Prog.modify fun k => { k with
      memory := Function.update k.memory (4096 * frame + address % 4096) b }

/-! ## What the page tables promise -/

/-- What the operations on page tables do to what `translate` reports: `map_to` enters at
most the one page, a zeroed level 4 table maps nothing, and a copied entry is about the pages
below its index. -/
structure Mapper.Lawful (M : Mapper) : Prop where
  mapTo : ∀ level4 page target flags tables allocator space page',
    let tables' := (M.mapTo level4 page target flags tables allocator).2.1
    M.translate space page' tables' = M.translate space page' tables ∨
      page' = page ∧ M.translate space page' tables' = .mapped target flags
  zero : ∀ level4 tables space page, M.translate space page (M.zero level4 tables) =
    if space = level4 then .notMapped else M.translate space page tables
  cloneEntry : ∀ source destination index tables space page, p4Index page ≠ index →
    M.translate space page (M.cloneEntry source destination index tables) =
      M.translate space page tables

/-- Page tables as functions: the entry of each page, and the tables that exist below each
level 4 table, by their level and the leading part of the page numbers they cover. -/
structure PlainTables where
  entry : (level4 page : Nat) → TranslateResult
  table : (level4 level key : Nat) → Bool

namespace PlainTables

def none : PlainTables := ⟨fun _ _ => .notMapped, fun _ _ _ => false⟩

def setEntry (t : PlainTables) (level4 page : Nat) (e : TranslateResult) : PlainTables :=
  { t with entry := fun s p => if s = level4 ∧ p = page then e else t.entry s p }

/-- The tables on the way to a page, each made from a new frame if it is missing. -/
def grow (level4 : Nat) : List (Nat × Nat) → PlainTables → BitmapFrameAllocator →
    Except MapToError Unit × PlainTables × BitmapFrameAllocator
  | [], t, allocator => (.ok (), t, allocator)
  | (level, key) :: rest, t, allocator =>
    if t.table level4 level key then grow level4 rest t allocator
    else match allocator.allocate with
      | Option.none => (.error .frameAllocationFailed, t, allocator)
      | some (_, allocator) =>
        grow level4 rest { t with table := fun s l i =>
          (s == level4 && l == level && i == key) || t.table s l i } allocator

def mapTo (level4 page target : Nat) (flags : UInt64) (t : PlainTables)
    (allocator : BitmapFrameAllocator) :
    Except MapToError Unit × PlainTables × BitmapFrameAllocator :=
  match grow level4 [(3, page / 134217728), (2, page / 262144), (1, page / 512)] t allocator with
  | (.error e, t, allocator) => (.error e, t, allocator)
  | (.ok (), t, allocator) =>
    if t.entry level4 page = .notMapped then
      (.ok (), t.setEntry level4 page (.mapped target flags), allocator)
    else (.error .pageAlreadyMapped, t, allocator)

def updateFlags (level4 page : Nat) (flags : UInt64) (t : PlainTables) :
    Except FlagUpdateError Unit × PlainTables := match t.entry level4 page with
  | .mapped frame _ => (.ok (), t.setEntry level4 page (.mapped frame flags))
  | _ => (.error .pageNotMapped, t)

def zero (level4 : Nat) (t : PlainTables) : PlainTables where
  entry := fun s p => if s = level4 then .notMapped else t.entry s p
  table := fun s l i => s != level4 && t.table s l i

def cloneEntry (source destination index : Nat) (t : PlainTables) : PlainTables where
  entry := fun s p => t.entry (if s = destination ∧ p4Index p = index then source else s) p
  table := fun s l i =>
    let below := if l = 3 then i else if l = 2 then i / 512 else i / 262144
    t.table (if s = destination ∧ below % 512 = index then source else s) l i

theorem entry_grow (level4 : Nat) (keys : List (Nat × Nat)) (t : PlainTables)
    (allocator : BitmapFrameAllocator) : (grow level4 keys t allocator).2.1.entry = t.entry := by
  induction keys generalizing t allocator with
  | nil => rfl
  | cons key rest ih =>
    unfold grow
    split
    · exact ih t allocator
    split
    · rfl
    · exact ih ..

end PlainTables

/-- Page tables that are functions. -/
def plainMapper : Mapper where
  Tables := PlainTables
  mapTo := PlainTables.mapTo
  updateFlags := PlainTables.updateFlags
  translate := fun level4 page t => t.entry level4 page
  zero := PlainTables.zero
  cloneEntry := PlainTables.cloneEntry

theorem lawful_plainMapper : plainMapper.Lawful where
  mapTo := by
    intro level4 page target flags t allocator space page'
    have hgrow := PlainTables.entry_grow level4
      [(3, page / 134217728), (2, page / 262144), (1, page / 512)] t allocator
    dsimp only [plainMapper, PlainTables.mapTo]
    split
    · rename_i hrun
      rw [hrun] at hgrow
      exact .inl (congrFun (congrFun hgrow space) page')
    rename_i hrun
    rw [hrun] at hgrow
    rw [← hgrow]
    split
    · dsimp only [PlainTables.setEntry]
      split
      · rename_i hsame
        exact .inr ⟨hsame.2, rfl⟩
      · exact .inl rfl
    · exact .inl rfl
  zero := fun _ _ _ _ => rfl
  cloneEntry := fun _ _ _ t space page hne =>
    congrArg (t.entry · page) (if_neg fun h => hne h.2)

end Panda.Memory
