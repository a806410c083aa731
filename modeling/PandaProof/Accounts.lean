import Mathlib.Data.Vector.Defs
import PandaProof.FsRefinement

/-!
# Accounts

The account database is a file of the root filesystem, a line per account.  It is read back
by splitting it into lines and the lines at their colons, so what has to be shown is that no
line that is written can be taken for another, for two, or for none.
-/
namespace Panda.Accounts

open Fs Prog
open List hiding Vector

/-! ## Text -/

def plus : Byte := 0x2B
def colon : Byte := 0x3A
def newline : Byte := 0x0A
def carriageReturn : Byte := 0x0D

/-- A character of ASCII as a byte. -/
def byteOf (c : Char) : Byte := BitVec.ofNat 8 c.toNat

/-- The value of a digit (`char::to_digit`). -/
def toDigit (radix : Nat) (b : Byte) : Option Nat :=
  let value := if 0x30 ≤ b.toNat ∧ b.toNat ≤ 0x39 then b.toNat - 0x30
    else if 0x61 ≤ b.toNat ∧ b.toNat ≤ 0x7A then b.toNat - 0x61 + 10
    else if 0x41 ≤ b.toNat ∧ b.toNat ≤ 0x5A then b.toNat - 0x41 + 10
    else radix
  if value < radix then some value else none

/-- One more digit of a number below `limit`. -/
def digitStep (radix limit value : Nat) (b : Byte) : Option Nat := do
  let digit ← toDigit radix b
  if value * radix + digit < limit then some (value * radix + digit) else none

/-- A sign that is followed by something is skipped. -/
def unsigned : List Byte → List Byte
  | b :: c :: rest => if b = plus then c :: rest else b :: c :: rest
  | short => short

/-- `from_str_radix` of the unsigned type whose values are those below `limit`. -/
def fromStrRadix (radix limit : Nat) (text : List Byte) : Option Nat :=
  if text = [] then none else (unsigned text).foldlM (digitStep radix limit) 0

/-- The first number that does not fit a `u32`. -/
def userLimit : Nat := 0x100000000

/-- A number as `{}` writes it. -/
def decimal (n : Nat) : List Byte := (Nat.toDigits 10 n).map byteOf

/-- A byte as `{:02x}` writes it. -/
def hexByte (b : Byte) : List Byte :=
  [byteOf (Nat.digitChar (b.toNat / 16)), byteOf (Nat.digitChar (b.toNat % 16))]

def hex (bytes : List Byte) : List Byte := bytes.flatMap hexByte

/-- `chunks_exact(2)`. -/
def pairs : List Byte → List (List Byte)
  | a :: b :: rest => [a, b] :: pairs rest
  | _ => []

def unhexPair (pair : List Byte) : Option Byte :=
  if validUtf8 pair then (fromStrRadix 16 256 pair).map (BitVec.ofNat 8) else none

def unhex (n : Nat) (text : List Byte) : Option (Vector Byte n) :=
  if text.length ≠ 2 * n then none
  else do
    let bytes ← (pairs text).mapM unhexPair
    if h : bytes.toArray.size = n then some ⟨bytes.toArray, h⟩ else none

/-- A line without the return before its end. -/
def stripReturn (line : List Byte) : List Byte :=
  if line.getLast? = some carriageReturn then line.dropLast else line

/-- `str::lines`: what follows the last newline is a line unless it is empty. -/
def lines (text : List Byte) : List (List Byte) :=
  (text.splitOn newline).dropLast.map stripReturn ++
    (text.splitOn newline).getLast?.toList.filter (· ≠ [])

/-! ## Accounts -/

structure Account where
  name : List Byte
  user : UserId
  salt : Vector Byte 16
  hash : Vector Byte 32
  deriving DecidableEq

/-- One line of the database, if it is an account. -/
def parseAccount (line : List Byte) : Option Account :=
  match line.splitOn colon with
  | name :: user :: salt :: hash :: rest => do
    let user ← fromStrRadix 10 userLimit user
    let salt ← unhex 16 salt
    let hash ← unhex 32 hash
    if rest = [] then some ⟨name, BitVec.ofNat 32 user, salt, hash⟩ else none
  | _ => none

def accounts (database : List Byte) : List Account :=
  (lines (if validUtf8 database then database else [])).filterMap parseAccount

/-- An account's line, up to its end. -/
def Account.body (a : Account) : List Byte :=
  a.name ++ colon :: (decimal a.user.toNat ++ colon :: (hex a.salt.toList ++
    colon :: hex a.hash.toList))

def Account.line (a : Account) : List Byte := a.body ++ [newline]

/-! ## What is written is read -/

/-- A byte that ends neither a field nor a line. -/
def Plain (b : Byte) : Prop :=
  b.toNat ≤ 0x7F ∧ b ≠ colon ∧ b ≠ newline ∧ b ≠ carriageReturn

instance (b : Byte) : Decidable (Plain b) :=
  inferInstanceAs (Decidable (_ ∧ _))

theorem digit_plain : ∀ d < 16, Plain (byteOf (Nat.digitChar d)) := by decide

theorem digit_ne_plus : ∀ d < 16, byteOf (Nat.digitChar d) ≠ plus := by decide

theorem toDigit_digitChar : ∀ d < 10, toDigit 10 (byteOf (Nat.digitChar d)) = some d := by decide

theorem unhexPair_hexByte : ∀ b : Byte, unhexPair (hexByte b) = some b := by decide +kernel

theorem hexByte_plain (b : Byte) : ∀ x ∈ hexByte b, Plain x := by
  intro x hx
  simp only [hexByte, mem_cons, not_mem_nil, or_false] at hx
  have hlt := b.isLt
  rcases hx with rfl | rfl
  · exact digit_plain _ (by omega)
  · exact digit_plain _ (by omega)

theorem hex_plain (bytes : List Byte) : ∀ x ∈ hex bytes, Plain x := by
  intro x hx
  obtain ⟨b, -, hb⟩ := mem_flatMap.mp hx
  exact hexByte_plain b x hb

variable {n : Nat}

/-- A number is digits, and its last one is written last. -/
theorem decimal_of_le (h : 10 ≤ n) :
    decimal n = decimal (n / 10) ++ [byteOf (Nat.digitChar (n % 10))] := by
  rw [decimal, Nat.toDigits_of_base_le (by omega) h, map_append]
  rfl

theorem decimal_of_lt (h : n < 10) : decimal n = [byteOf (Nat.digitChar n)] := by
  rw [decimal, Nat.toDigits_of_lt_base h]
  rfl

theorem decimal_digits (n : Nat) :
    decimal n ≠ [] ∧ ∀ b ∈ decimal n, ∃ d < 10, b = byteOf (Nat.digitChar d) := by
  induction n using Nat.strongRecOn with
  | ind n ih =>
    rcases Nat.lt_or_ge n 10 with hlt | hle
    · rw [decimal_of_lt hlt]
      exact ⟨cons_ne_nil _ _, fun b hb => ⟨n, hlt, mem_singleton.mp hb⟩⟩
    rw [decimal_of_le hle]
    refine ⟨append_ne_nil_of_right_ne_nil _ (cons_ne_nil _ _), fun b hb => ?_⟩
    rcases mem_append.mp hb with hb | hb
    · exact (ih (n / 10) (by omega)).2 b hb
    · exact ⟨n % 10, by omega, mem_singleton.mp hb⟩

theorem decimal_plain (n : Nat) : ∀ x ∈ decimal n, Plain x := by
  intro x hx
  obtain ⟨d, _, rfl⟩ := (decimal_digits n).2 x hx
  exact digit_plain d (by omega)

/-- Without a sign, every byte is a digit to be read. -/
theorem unsigned_of_ne {text : List Byte} (h : ∀ b ∈ text, b ≠ plus) : unsigned text = text := by
  match text with
  | [] => rfl
  | [_] => rfl
  | b :: c :: rest => exact if_neg (h b mem_cons_self)

variable {limit : Nat}

theorem foldlM_decimal (n : Nat) (h : n < limit) :
    (decimal n).foldlM (digitStep 10 limit) 0 = some n := by
  induction n using Nat.strongRecOn with
  | ind n ih =>
    rcases Nat.lt_or_ge n 10 with hlt | hle
    · rw [decimal_of_lt hlt, foldlM_cons, digitStep, toDigit_digitChar n hlt]
      simp [h]
    · rw [decimal_of_le hle, foldlM_append, ih (n / 10) (by omega) (by omega)]
      have hvalue : n / 10 * 10 + n % 10 = n := by omega
      simp [digitStep, toDigit_digitChar (n % 10) (by omega), hvalue, h]

/-- A number that fits is read as what was written. -/
theorem fromStrRadix_decimal (h : n < limit) : fromStrRadix 10 limit (decimal n) = some n := by
  have hunsigned : unsigned (decimal n) = decimal n := unsigned_of_ne fun b hb => by
    obtain ⟨d, _, rfl⟩ := (decimal_digits n).2 b hb
    exact digit_ne_plus d (by omega)
  rw [fromStrRadix, if_neg (decimal_digits n).1, hunsigned, foldlM_decimal n h]

theorem pairs_hex (bytes : List Byte) : pairs (hex bytes) = bytes.map hexByte := by
  induction bytes with
  | nil => rfl
  | cons b bytes ih => exact congrArg (hexByte b :: ·) ih

theorem length_hex (bytes : List Byte) : (hex bytes).length = 2 * bytes.length := by
  induction bytes with
  | nil => rfl
  | cons b bytes ih =>
    rw [hex, flatMap_cons, length_append, ← hex, ih]
    simp only [hexByte, length_cons, length_nil]
    omega

theorem mapM_unhexPair (bytes : List Byte) : (bytes.map hexByte).mapM unhexPair = some bytes := by
  induction bytes with
  | nil => rfl
  | cons b bytes ih => simp [mapM_cons, unhexPair_hexByte, ih]

theorem unhex_hex (v : Vector Byte n) : unhex n (hex v.toList) = some v := by
  have hlength : (hex v.toList).length = 2 * n := by
    rw [length_hex, Vector.length_toList]
  rw [unhex, if_neg (by omega), pairs_hex, mapM_unhexPair]
  simp [Vector.toList]

/-- Every field of an account is plain. -/
def Account.Written (a : Account) : Prop := ∀ b ∈ a.name, Plain b

variable {a : Account}

theorem Account.Written.body (h : a.Written) : ∀ b ∈ a.body, b = colon ∨ Plain b := by
  intro b hb
  simp only [Account.body, mem_append, mem_cons] at hb
  rcases hb with hb | rfl | hb | rfl | hb | rfl | hb
  · exact .inr (h b hb)
  · exact .inl rfl
  · exact .inr (decimal_plain _ b hb)
  · exact .inl rfl
  · exact .inr (hex_plain _ b hb)
  · exact .inl rfl
  · exact .inr (hex_plain _ b hb)

theorem splitOn_plain {field rest : List Byte} (h : ∀ b ∈ field, Plain b) :
    (field ++ colon :: rest).splitOn colon = field :: rest.splitOn colon :=
  splitOn_append_cons_self_of_not_mem (fun hmem => (h colon hmem).2.1 rfl) rest

/-- **An account's line is read as the account.** -/
theorem parseAccount_body (h : a.Written) : parseAccount a.body = some a := by
  have hsplit : a.body.splitOn colon =
      [a.name, decimal a.user.toNat, hex a.salt.toList, hex a.hash.toList] := by
    rw [Account.body, splitOn_plain h, splitOn_plain (decimal_plain _), splitOn_plain (hex_plain _),
      splitOn_eq_singleton fun hmem => (hex_plain _ colon hmem).2.1 rfl]
  have huser : fromStrRadix 10 userLimit (decimal a.user.toNat) = some a.user.toNat :=
    fromStrRadix_decimal a.user.isLt
  rw [parseAccount, hsplit]
  simp [huser, unhex_hex]

theorem stripReturn_body (h : a.Written) : stripReturn a.body = a.body := by
  refine if_neg fun hlast => ?_
  rcases h.body _ (mem_of_getLast? hlast) with heq | hplain
  · revert heq
    decide
  · exact hplain.2.2.2 rfl

/-- The database with these accounts. -/
def text (added : List Account) : List Byte := added.flatMap Account.line

variable {added : List Account}

theorem splitOn_text (h : ∀ a ∈ added, a.Written) :
    (text added).splitOn newline = added.map Account.body ++ [[]] := by
  induction added with
  | nil => rfl
  | cons a added ih =>
    have hnot : newline ∉ a.body := fun hmem => by
      rcases (h a mem_cons_self).body _ hmem with heq | hplain
      · revert heq
        decide
      · exact hplain.2.2.1 rfl
    have htext : text (a :: added) = a.body ++ newline :: text added := by
      rw [text, flatMap_cons, Account.line, append_assoc]
      rfl
    rw [htext, splitOn_append_cons_self_of_not_mem hnot, ih fun b hb => h b (mem_cons_of_mem _ hb)]
    rfl

theorem lines_text (h : ∀ a ∈ added, a.Written) : lines (text added) = added.map Account.body := by
  rw [lines, splitOn_text h, dropLast_concat, getLast?_concat, map_map]
  simp only [Option.toList_some, ne_eq, decide_not, filter_cons, decide_true, Bool.not_true,
    Bool.false_eq_true, if_false, filter_nil, append_nil]
  exact map_congr_left fun a ha => stripReturn_body (h a ha)

theorem foldlM_utf8_ascii {bytes : List Byte} (h : ∀ b ∈ bytes, b.toNat ≤ 0x7F) :
    bytes.foldlM utf8Next [] = some [] := by
  induction bytes with
  | nil => rfl
  | cons b bytes ih =>
    have hnext : utf8Next [] b = some [] := if_pos (h b mem_cons_self)
    rw [foldlM_cons, hnext]
    exact ih fun c hc => h c (mem_cons_of_mem _ hc)

theorem validUtf8_text (h : ∀ a ∈ added, a.Written) : validUtf8 (text added) = true := by
  rw [validUtf8, foldlM_utf8_ascii]
  · rfl
  intro b hb
  obtain ⟨a, ha, hb⟩ := mem_flatMap.mp hb
  rcases mem_append.mp hb with hb | hb
  · rcases (h a ha).body b hb with rfl | hplain
    · decide
    · exact hplain.1
  · rw [mem_singleton.mp hb]
    decide

/-- **What was written is what is read**, account by account and in order. -/
theorem accounts_text (h : ∀ a ∈ added, a.Written) : accounts (text added) = added := by
  rw [accounts, if_pos (validUtf8_text h), lines_text h, filterMap_map]
  calc added.filterMap (parseAccount ∘ Account.body)
      = added.filterMap some := filterMap_congr fun a ha => parseAccount_body (h a ha)
    _ = added := filterMap_some

/-! ## Threads and their users -/

inductive AccountError
  | noFileSystem
  | badName
  | badPassword
  | exists
  | incorrect
  | fs (e : FsError)
  deriving DecidableEq

/-- Why a call stops: it returns an error, or the kernel panics. -/
inductive Failure
  | error (e : AccountError)
  | panic
  deriving DecidableEq

/-- The root filesystem, and the users of the threads that are not the system's. -/
structure Kernel where
  root : Option World
  users : Nat → Option UserId

def system : UserId := 0

namespace Kernel

/-- The user a thread runs as. -/
def of (k : Kernel) (thread : Nat) : UserId := (k.users thread).getD system

/-- Run `thread` as `user`. -/
def assign (thread : Nat) (user : UserId) (k : Kernel) : Kernel :=
  { k with
    users := fun other =>
      if other = thread then if user = system then none else some user else k.users other }

theorem of_assign (thread : Nat) (user : UserId) (k : Kernel) :
    (k.assign thread user).of thread = user := by
  by_cases h : user = system
  · simp [of, assign, h]
  · simp [of, assign, h]

end Kernel

variable {A : Type}

/-- A call of the root filesystem; its error is for the caller to look at. -/
def onRoot (p : Code A) : Prog Kernel Failure (Except FsError A) := fun k =>
  match k.root with
  | none => (.error (.error .noFileSystem), k)
  | some w =>
    match p w with
    | (.ok a, w') => (.ok (.ok a), { k with root := some w' })
    | (.error (.error e), w') => (.ok (.error e), { k with root := some w' })
    | (.error .panic, w') => (.error .panic, { k with root := some w' })

/-- A call of the root filesystem whose error is the caller's too (`?`). -/
def callRoot (p : Code A) : Prog Kernel Failure A := do
  match ← onRoot p with
  | .ok a => pure a
  | .error e => throw (.error (.fs e))

/-- `/users`. -/
def databasePath : Str := ⟨[0x2F, 0x75, 0x73, 0x65, 0x72, 0x73], rfl⟩

/-- The user that owns the database (`ACCOUNTS`). -/
def accountsUser : UserId := 0xFFFFFFFF

def iterations : Nat := 10000
def maxName : Nat := 32
def maxPassword : Nat := 128

/-- A letter, a digit, `_` or `-`. -/
def validName (b : Byte) : Bool :=
  (0x30 ≤ b.toNat && b.toNat ≤ 0x39) || (0x41 ≤ b.toNat && b.toNat ≤ 0x5A) ||
    (0x61 ≤ b.toNat && b.toNat ≤ 0x7A) || b == 0x5F || b == 0x2D

/-- Equal, in time that depends only on the length. -/
def same (a b : List Byte) : Bool :=
  a.length == b.length && (a.zip b).foldl (fun acc x => acc ||| (x.1 ^^^ x.2)) 0 == 0

section Calls

variable (pbkdf2 : List Byte → List Byte → Nat → Vector Byte 32) (env : Block.Env)

/-- The database, made where there is none. -/
def openDatabase : Prog Kernel Failure (List Byte) := do
  match ← onRoot (readFileAs env databasePath none) with
  | .ok database => pure database
  | .error .notFound => do
    callRoot (createOwnedBy env databasePath .file accountsUser)
    callRoot (setModeAs env databasePath 0 none)
    pure []
  | .error e => throw (.error (.fs e))

/-- What `add_account` is called with, and the salt it draws. -/
structure Call where
  name : Str
  user : UserId
  password : Str
  salt : Vector Byte 16

/-- The account a call adds. -/
def Call.account (c : Call) : Account :=
  ⟨c.name.bytes, c.user, c.salt, pbkdf2 c.password.bytes c.salt.toList iterations⟩

def addAccount (c : Call) : Prog Kernel Failure Unit :=
  -- a character outside ASCII has no byte that `validName` accepts
  if c.name.bytes = [] ∨ maxName < c.name.bytes.length ∨ c.name.bytes.all validName = false then
    throw (.error .badName)
  else if c.password.bytes = [] ∨ maxPassword < c.password.bytes.length then
    throw (.error .badPassword)
  else if c.user = accountsUser then throw (.error .exists)
  else do
    let database ← openDatabase env
    if (accounts database).any fun a => a.name = c.name.bytes || a.user = c.user then
      throw (.error .exists)
    else
      callRoot (writeFileAs env databasePath (database ++ (c.account pbkdf2).line) none)

/-- The database as `login` reads it. -/
def readDatabase : Prog Kernel Failure (List Byte) := do
  match ← onRoot (readFileAs env databasePath none) with
  | .ok database => pure database
  | .error .notFound => pure []
  | .error e => throw (.error (.fs e))

/-- An unknown name costs as much as a known one. -/
def login (thread : Nat) (name password : Str) : Prog Kernel Failure UserId := do
  let database ← readDatabase env
  let account := (accounts database).find? fun a => a.name = name.bytes
  let (salt, expected) :=
    account.elim (Vector.replicate 16 0, Vector.replicate 32 0) fun a => (a.salt, a.hash)
  let hash := pbkdf2 password.bytes salt.toList iterations
  match account with
  | some a =>
    if password.bytes.length ≤ maxPassword ∧ same hash.toList expected.toList = true then do
      modify (Kernel.assign thread a.user)
      pure a.user
    else throw (.error .incorrect)
  | none => throw (.error .incorrect)

end Calls

/-! ## The database through the calls -/

section Specs

variable {pbkdf2 : List Byte → List Byte → Nat → Vector Byte 32} {env : Block.Env}
  {k k' : Kernel} {w : World} {t : Tree} {blocks : List Nat}

variable {R : Failure → Kernel → Prop}

theorem wp_onRoot (hroot : k.root = some w) {p : Code A} {Q : Except FsError A → Kernel → Prop} :
    Wp (onRoot p) k Q R ↔ Wp p w (fun a w' => Q (.ok a) { k with root := some w' }) fun e w' =>
        match e with
        | .error e => Q (.error e) { k with root := some w' }
        | .panic => R .panic { k with root := some w' } := by
  unfold Wp
  rcases hp : p w with ⟨(e | _) | a, w'⟩
  · simp [onRoot, hroot, hp]
  · simp [onRoot, hroot, hp]
  · simp [onRoot, hroot, hp]

theorem readFileAs_spec (hs : Sound env w t blocks) : Wp (readFileAs env databasePath none) w
      (fun bytes w' => t.answer (.readFile databasePath none) = .ok (.contents bytes) ∧
        Sound env w' t blocks) (fun e w' => Unread env (t.answer (.readFile databasePath none)) e ∧
        Sound env w' t blocks) := by
  have hspec := perform_spec (.readFile databasePath none) hs.layout hs.owned
  rw [perform, wp_bind] at hspec
  simp only [wp_pure] at hspec
  refine hspec.mono (fun bytes w' h => ?_) (fun e w' h => ?_)
  · exact ⟨h.answer, hs.quiet (h.read rfl)⟩
  · exact ⟨(h.read rfl).2, hs.quiet (h.read rfl).1⟩

/-- A change that returns does to the tree what it is there for. -/
theorem perform_changes (hs : Sound env w t blocks) (op : Op) : Wp (perform env op) w
      (fun _ w' => ∃ t' blocks', t.change op = .ok t' ∧ Sound env w' t' blocks')
      (fun _ _ => True) := by
  unfold Wp
  rcases hrun : perform env op w with ⟨e | a, w'⟩
  · trivial
  · obtain ⟨t', blocks', hchange, hs', -⟩ := hs.operate hrun
    exact ⟨t', blocks', hchange, hs'⟩

/-- A call that changes the root filesystem and returns. -/
theorem wp_callRoot (hroot : k.root = some w) (hs : Sound env w t blocks) (op : Op) {p : Code Unit}
    {Q : Unit → Kernel → Prop} (hop : perform env op = p >>= fun _ => pure .done)
    (hQ : ∀ w' t' blocks', t.change op = .ok t' → Sound env w' t' blocks' →
      Q () { k with root := some w' }) : Wp (callRoot p) k Q (fun _ _ => True) := by
  have hspec := perform_changes hs op
  rw [hop, wp_bind] at hspec
  simp only [wp_pure] at hspec
  rw [callRoot, wp_bind, wp_onRoot hroot]
  refine hspec.mono (fun _ w' h => ?_) (fun e w' _ => ?_)
  · obtain ⟨t', blocks', hchange, hs'⟩ := h
    exact wp_pure.mpr (hQ w' t' blocks' hchange hs')
  · cases e with
    | error => exact wp_throw.mpr trivial
    | panic => trivial

/-- The root filesystem is sound, whatever it holds. -/
def Mounted (env : Block.Env) (k : Kernel) : Prop :=
  ∃ w t blocks, k.root = some w ∧ Sound env w t blocks

/-- The root filesystem is sound, and its database is that of these accounts. -/
def Holds (env : Block.Env) (k : Kernel) (added : List Account) : Prop :=
  ∃ w t blocks, k.root = some w ∧ Sound env w t blocks ∧
    (t.answer (.readFile databasePath none) = .ok (.contents (text added)) ∨
      added = [] ∧ t.answer (.readFile databasePath none) = .error .notFound)

variable {added : List Account}

/-- The device failed. -/
def DeviceFailed (env : Block.Env) (e : Failure) : Prop :=
  ¬env.Reliable ∧ ∃ error, e = .error (.fs (.device error))

/-- Reading the database finds what it holds, or that there is none. -/
theorem wp_readDatabase (h : Holds env k added) {f : Except FsError (List Byte) →
    Prog Kernel Failure A} {Q : A → Kernel → Prop}
    (hfound : ∀ k', Holds env k' added → k'.users = k.users → Wp (f (.ok (text added))) k' Q R)
    (hnone : ∀ k', Holds env k' added → k'.users = k.users → added = [] →
      Wp (f (.error .notFound)) k' Q R)
    (hfailed : ∀ k' error, ¬env.Reliable → Wp (f (.error (.device error))) k' Q R) :
    Wp (onRoot (readFileAs env databasePath none) >>= f) k Q R := by
  obtain ⟨w, t, blocks, hroot, hs, hanswer⟩ := h
  rw [wp_bind, wp_onRoot hroot]
  refine (readFileAs_spec hs).mono (fun bytes w' h => ?_) (fun e w' h => ?_)
  · obtain ⟨hread, hs'⟩ := h
    rcases hanswer with hanswer | ⟨-, hanswer⟩
    · obtain rfl := Answer.contents.inj (Except.ok.inj (hread.symm.trans hanswer))
      exact hfound _ ⟨w', t, blocks, rfl, hs', .inl hanswer⟩ rfl
    · rw [hanswer] at hread
      contradiction
  obtain ⟨hunread, hs'⟩ := h
  cases hunread with
  | refused hrefused =>
    rcases hanswer with hanswer | ⟨hnil, hanswer⟩
    · rw [hanswer] at hrefused
      contradiction
    · cases hanswer.symm.trans hrefused
      exact hnone _ ⟨w', t, blocks, rfl, hs', .inr ⟨hnil, hanswer⟩⟩ rfl hnil
  | broken hbroken =>
    obtain ⟨hunreliable, error, rfl⟩ := hbroken
    exact hfailed _ error hunreliable

theorem readDatabase_spec (h : Holds env k added) :
    Wp (readDatabase env) k (fun database k' => database = text added ∧ k'.users = k.users)
      (fun e _ => DeviceFailed env e) := by
  rw [readDatabase]
  apply wp_readDatabase h
  · intro k' _ husers
    exact wp_pure.mpr ⟨rfl, husers⟩
  · rintro k' - husers rfl
    exact wp_pure.mpr ⟨rfl, husers⟩
  · intro k' error hunreliable
    exact wp_throw.mpr ⟨hunreliable, error, rfl⟩

theorem openDatabase_spec (h : Holds env k added) :
    Wp (openDatabase env) k (fun database k' => database = text added ∧ Mounted env k')
      (fun _ _ => True) := by
  rw [openDatabase]
  apply wp_readDatabase h
  · rintro k' ⟨w, t, blocks, hroot, hs, -⟩ -
    exact wp_pure.mpr ⟨rfl, w, t, blocks, hroot, hs⟩
  · rintro k' ⟨w, t, blocks, hroot, hs, -⟩ - rfl
    refine wp_bind.mpr (wp_callRoot hroot hs
      (.createOwnedBy databasePath .file accountsUser) rfl fun w₁ t₁ blocks₁ _ hs₁ => ?_)
    refine wp_bind.mpr (wp_callRoot rfl hs₁ (.setMode databasePath 0 none) rfl
      fun w₂ t₂ blocks₂ _ hs₂ => ?_)
    exact wp_pure.mpr ⟨rfl, w₂, t₂, blocks₂, rfl, hs₂⟩
  · intro k' error hunreliable
    exact wp_throw.mpr trivial

/-- What `add_account` checks before an account is added to others. -/
structure Admitted (added : List Account) (c : Call) : Prop where
  name : ∀ b ∈ c.name.bytes, validName b = true
  password : c.password.bytes.length ≤ maxPassword
  user : c.user ≠ accountsUser
  fresh : ∀ a ∈ added, a.name ≠ c.name.bytes ∧ a.user ≠ c.user

theorem plain_of_validName : ∀ b : Byte, validName b = true → Plain b := by decide +kernel

theorem text_append (a : Account) : text (added ++ [a]) = text added ++ a.line := by
  rw [text, flatMap_append, flatMap_singleton]
  rfl

/-- **One account more.** -/
theorem addAccount_spec (h : Holds env k added) (hw : ∀ a ∈ added, a.Written) (c : Call) :
    Wp (addAccount pbkdf2 env c) k
      (fun _ k' => Holds env k' (added ++ [c.account pbkdf2]) ∧ Admitted added c)
      (fun _ _ => True) := by
  rw [addAccount]
  split_ifs with hname hpassword huser
  · exact wp_throw.mpr trivial
  · exact wp_throw.mpr trivial
  · exact wp_throw.mpr trivial
  rw [wp_bind]
  refine (openDatabase_spec h).mono (fun database k₁ h₁ => ?_) fun _ _ _ => trivial
  obtain ⟨rfl, w, t, _, hroot, hs⟩ := h₁
  rw [accounts_text hw]
  split_ifs with hexists
  · exact wp_throw.mpr trivial
  apply wp_callRoot hroot hs (.writeFile databasePath _ none) rfl
  intro w' t' blocks' hchange hs'
  obtain ⟨_, _, hget⟩ := Tree.get_of_write hchange
  refine ⟨⟨w', t', blocks', rfl, hs', .inl ?_⟩, ?_⟩
  · rw [Tree.answer_readFile_none hget, text_append]
  refine ⟨fun b hb => ?_, by omega, huser, fun a ha => ?_⟩
  · have hall : c.name.bytes.all validName = true := by
      rcases hvalid : c.name.bytes.all validName with _ | _
      · exact absurd (.inr (.inr hvalid)) hname
      · rfl
    exact all_eq_true.mp hall b hb
  · have hnone := any_eq_false.mp (Bool.eq_false_iff.mpr hexists) a ha
    simpa using hnone

/-! ## Runs -/

/-- Add these accounts, one after the other; every call returns. -/
def addAll (pbkdf2 : List Byte → List Byte → Nat → Vector Byte 32) (env : Block.Env) :
    List Call → Kernel → Option Kernel
  | [], k => some k
  | c :: calls, k =>
    match addAccount pbkdf2 env c k with
    | (.ok _, k') => addAll pbkdf2 env calls k'
    | (.error _, _) => none

/-- What is true of the calls that have returned. -/
structure Registered (calls : List Call) : Prop where
  name : ∀ c ∈ calls, ∀ b ∈ c.name.bytes, validName b = true
  password : ∀ c ∈ calls, c.password.bytes.length ≤ maxPassword
  user : ∀ c ∈ calls, c.user ≠ accountsUser
  names : (calls.map fun c => c.name.bytes).Nodup
  users : (calls.map fun c => c.user).Nodup

theorem Registered.nil : Registered [] :=
  ⟨nofun, nofun, nofun, nodup_nil, nodup_nil⟩

variable {calls : List Call}

theorem Registered.written (h : Registered calls) :
    ∀ a ∈ calls.map (Call.account pbkdf2), a.Written := by
  intro a ha b hb
  obtain ⟨c, hc, rfl⟩ := mem_map.mp ha
  exact plain_of_validName b (h.name c hc b hb)

variable {c : Call}

theorem nodup_snoc {B : Type} {f : Call → B} (h : (calls.map f).Nodup)
    (hfresh : ∀ a ∈ calls, f a ≠ f c) : ((calls ++ [c]).map f).Nodup := by
  rw [map_append]
  refine nodup_append.mpr ⟨h, nodup_singleton _, fun x hx y hy => ?_⟩
  obtain ⟨a, ha, rfl⟩ := mem_map.mp hx
  exact mem_singleton.mp hy ▸ hfresh a ha

theorem Registered.snoc (h : Registered calls)
    (hc : Admitted (calls.map (Call.account pbkdf2)) c) : Registered (calls ++ [c]) where
  name := by
    simpa [or_imp, forall_and] using ⟨h.name, hc.name⟩
  password := by
    simpa [or_imp, forall_and] using ⟨h.password, hc.password⟩
  user := by
    simpa [or_imp, forall_and] using ⟨h.user, hc.user⟩
  names := nodup_snoc h.names fun a ha => (hc.fresh _ (mem_map_of_mem ha)).1
  users := nodup_snoc h.users fun a ha => (hc.fresh _ (mem_map_of_mem ha)).2

theorem addAll_spec {before : List Call}
    (h : Holds env k (before.map (Call.account pbkdf2))) (hbefore : Registered before)
    (hall : addAll pbkdf2 env calls k = some k') :
    Holds env k' ((before ++ calls).map (Call.account pbkdf2)) ∧ Registered (before ++ calls) := by
  induction calls generalizing before k with
  | nil =>
    cases hall
    rw [append_nil]
    exact ⟨h, hbefore⟩
  | cons c calls ih =>
    rw [addAll] at hall
    rcases hrun : addAccount pbkdf2 env c k with ⟨e | a, _⟩
    · rw [hrun] at hall
      contradiction
    rw [hrun] at hall
    obtain ⟨h₁, hc⟩ := (addAccount_spec h hbefore.written c).of_ok hrun
    rw [append_cons]
    refine ih ?_ (hbefore.snoc hc) hall
    rw [map_append]
    exact h₁

theorem same_self (bytes : List Byte) : same bytes bytes = true := by
  have hzero : (bytes.zip bytes).foldl (fun acc x => acc ||| (x.1 ^^^ x.2)) (0 : Byte) = 0 := by
    induction bytes with
    | nil => rfl
    | cons b bytes ih =>
      rw [zip_cons_cons, foldl_cons, BitVec.xor_self]
      exact ih
  rw [same, hzero]
  simp

/-- The first account of a name is the only one. -/
theorem find_account (h : Registered calls) (hc : c ∈ calls) :
    (calls.map (Call.account pbkdf2)).find? (fun a => decide (a.name = c.name.bytes)) =
      some (c.account pbkdf2) := by
  have hnames := h.names
  clear h
  induction calls with
  | nil => contradiction
  | cons d calls ih =>
    rw [map_cons, nodup_cons] at hnames
    rw [map_cons, find?_cons]
    rcases mem_cons.mp hc with rfl | hc
    · simp [Call.account]
    have hne : d.name.bytes ≠ c.name.bytes := fun heq =>
      hnames.1 (mem_map.mpr ⟨c, hc, heq.symm⟩)
    have hfalse : decide ((d.account pbkdf2).name = c.name.bytes) = false := decide_eq_false hne
    rw [hfalse]
    exact ih hc hnames.2

theorem login_spec (h : Holds env k (calls.map (Call.account pbkdf2)))
    (hcalls : Registered calls) (hc : c ∈ calls) (thread : Nat) :
    Wp (login pbkdf2 env thread c.name c.password) k
      (fun user k' => user = c.user ∧ k'.of thread = c.user) (fun e _ => DeviceFailed env e) := by
  rw [login, wp_bind]
  refine (readDatabase_spec h).mono (fun database k₁ h₁ => ?_) fun _ _ he => he
  obtain ⟨rfl, -⟩ := h₁
  rw [accounts_text hcalls.written]
  simp only [find_account hcalls hc, Option.elim_some, Call.account]
  rw [if_pos ⟨hcalls.password c hc, same_self _⟩, wp_bind, wp_modify, wp_pure]
  exact ⟨rfl, Kernel.of_assign thread c.user k₁⟩

theorem login_unknown (h : Holds env k (calls.map (Call.account pbkdf2)))
    (hcalls : Registered calls) {name : Str} (hname : ∀ c ∈ calls, c.name.bytes ≠ name.bytes)
    (thread : Nat) (password : Str) :
    Wp (login pbkdf2 env thread name password) k (fun _ _ => False)
      (fun e k' => e = .error .incorrect ∧ k'.users = k.users ∨ DeviceFailed env e) := by
  rw [login, wp_bind]
  refine (readDatabase_spec h).mono (fun database k₁ h₁ => ?_) fun _ _ he => .inr he
  obtain ⟨rfl, husers⟩ := h₁
  have hnone : (calls.map (Call.account pbkdf2)).find? (fun a => decide (a.name = name.bytes)) =
      none := by
    rw [find?_eq_none]
    intro a ha
    obtain ⟨c, hc, rfl⟩ := mem_map.mp ha
    exact fun heq => hname c hc (of_decide_eq_true heq)
  rw [accounts_text hcalls.written]
  simp only [hnone]
  exact wp_throw.mpr (.inl ⟨rfl, husers⟩)

/-- A filesystem is sound whatever its device does from now on. -/
theorem sound_of_sectorCount {env' : Block.Env} (h : Sound env' w t blocks)
    (hcount : env'.sectorCount = env.sectorCount) : Sound env w t blocks :=
  ⟨{ h.layout with total := h.layout.total.trans hcount }, h.live, h.owned, h.durable, h.retired⟩

/-- **Accounts round-trip**: on a filesystem without a database that nothing else writes,
after any calls of `add_account` that return, the database is read as the accounts they
added, in order.  Names and users are distinct and no account is the database's owner.  Each
name logs in with its password, as its user, and no other name does.  Only a device that
fails a read keeps any of it from being seen. -/
theorem accounts_round_trip {v : Volume}
    (hv : (volumes (Block.Env.reliable env.sectorCount)).Reachable v)
    (hroot : k.root = some v.world)
    (hnone : (perform (Block.Env.reliable env.sectorCount) (.readFile databasePath none)
      v.world).1 = .error (.error .notFound))
    {calls : List Call} (hcalls : addAll pbkdf2 env calls k = some k') : Wp (readDatabase env) k'
        (fun database _ => accounts database = calls.map (Call.account pbkdf2))
        (fun e _ => DeviceFailed env e) ∧
      (calls.map fun c => c.name.bytes).Nodup ∧ (calls.map fun c => c.user).Nodup ∧
      (∀ c ∈ calls, c.user ≠ accountsUser) ∧
      (∀ c ∈ calls, ∀ thread, Wp (login pbkdf2 env thread c.name c.password) k'
        (fun user k'' => user = c.user ∧ k''.of thread = c.user) (fun e _ => DeviceFailed env e)) ∧
      ∀ name, (∀ c ∈ calls, c.name.bytes ≠ name.bytes) → ∀ thread password,
        Wp (login pbkdf2 env thread name password) k' (fun _ _ => False)
          (fun e k'' => e = .error .incorrect ∧ k''.users = k'.users ∨ DeviceFailed env e) := by
  have hr := Block.Env.reliable_reliable env.sectorCount
  obtain ⟨t, blocks, hcalm⟩ := calm_of_reachable hr hv
  have hanswer : t.answer (.readFile databasePath none) = .error .notFound := by
    rw [hcalm.sound.reads hr rfl] at hnone
    rcases hout : t.answer (.readFile databasePath none) with e | a
    · rw [hout] at hnone
      exact congrArg Except.error (Stop.error.inj (Except.error.inj hnone))
    · rw [hout] at hnone
      contradiction
  have hholds : Holds env k (map (Call.account pbkdf2) []) :=
    ⟨v.world, t, blocks, hroot, sound_of_sectorCount hcalm.sound rfl, .inr ⟨rfl, hanswer⟩⟩
  obtain ⟨hall, hreg⟩ := addAll_spec hholds .nil hcalls
  rw [nil_append] at hall hreg
  refine ⟨?_, hreg.names, hreg.users, hreg.user, fun c hc thread => login_spec hall hreg hc thread,
    fun name hname thread password => login_unknown hall hreg hname thread password⟩
  refine (readDatabase_spec hall).mono (fun database k'' h => ?_) fun _ _ he => he
  rw [h.1, accounts_text hreg.written]

end Specs

/-- `ann`, user 7, and `bob`, user 1000. -/
def sampleCalls : List Call :=
  [⟨⟨[0x61, 0x6E, 0x6E], rfl⟩, 7, ⟨[0x78], rfl⟩, Vector.replicate 16 0xA5⟩,
    ⟨⟨[0x62, 0x6F, 0x62], rfl⟩, 1000, ⟨[0x3A, 0x0A], rfl⟩, Vector.replicate 16 0x0F⟩]

/-- A stand-in for the hash: the password's first byte, over and over. -/
def sampleHash (password _ : List Byte) (_ : Nat) : Vector Byte 32 :=
  Vector.replicate 32 (password.headD 0)

/-- Two accounts added to a fresh filesystem; both log in. -/
theorem accounts_round_trip_two : ∃ w k',
    formatted (Block.Env.reliable 4096) ⟨fun _ _ => 0, 0, []⟩ = some w ∧
    addAll sampleHash (Block.Env.reliable 4096) sampleCalls ⟨some w, fun _ => none⟩ = some k' ∧
    ∀ c ∈ sampleCalls, ∀ thread,
      Wp (login sampleHash (Block.Env.reliable 4096) thread c.name c.password) k'
        (fun user k'' => user = c.user ∧ k''.of thread = c.user) (fun _ _ => False) := by
  have hrun : ((formatted (Block.Env.reliable 4096) ⟨fun _ _ => 0, 0, []⟩).bind fun w =>
      addAll sampleHash (Block.Env.reliable 4096) sampleCalls ⟨some w, fun _ => none⟩).isSome =
      true := by
    decide +kernel
  obtain ⟨k', hk'⟩ := Option.isSome_iff_exists.mp hrun
  obtain ⟨w, hw, hcalls⟩ := Option.bind_eq_some_iff.mp hk'
  have hinit : (volumes (Block.Env.reliable 4096)).Init ⟨fun _ _ => 0, w⟩ := format_of_formatted hw
  have hnone : (perform (Block.Env.reliable 4096) (.readFile databasePath none) w).1 =
      .error (.error .notFound) := by
    have hfresh := ((format_spec (Block.Env.reliable_reliable 4096) _).of_ok
      (format_of_formatted hw)).2.2.1
    rw [hfresh.reads (Block.Env.reliable_reliable 4096) rfl]
    decide +kernel
  have hround := @accounts_round_trip sampleHash (Block.Env.reliable 4096) ⟨some w, fun _ => none⟩
    k' ⟨fun _ _ => 0, w⟩ (.init hinit) rfl hnone sampleCalls hcalls
  refine ⟨w, k', hw, hcalls, fun c hc thread => ?_⟩
  exact (hround.2.2.2.2.1 c hc thread).mono (fun _ _ h => h) fun _ _ he =>
    he.1 (Block.Env.reliable_reliable 4096)

end Panda.Accounts
