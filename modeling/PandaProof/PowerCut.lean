import PandaProof.BlockDevice

/-!
# Power cuts

What a device holds when the power comes back.  Writes that were followed by a completed
flush are on the medium.  Of the others any may be missing, each for itself, and a sector
that was being written may hold bytes that are neither the old nor the new ones.  Which
bytes those can be is a parameter.
-/
namespace Panda.Block

open List

/-- What became of a write that no flush followed. -/
inductive Fate
  | lost
  | landed
  | torn (left : Sector)

section Survive

variable (garbled : Nat → Sector → Bool)

/-- The sector after the write.  A torn write leaves only what `garbled` allows there. -/
def Fate.leaves (old : Sector) (lba : Nat) (data : Sector) : Fate → Sector
  | .lost => old
  | .landed => data
  | .torn left => if garbled lba left then left else old

/-- The medium after writes that no flush followed, each with its own fate. -/
def survive : Disk → List Event → (Nat → Fate) → Disk
  | d, [], _ => d
  | d, .write lba data :: rest, fates =>
    survive (Function.update d lba ((fates 0).leaves garbled (d lba) lba data)) rest
      fun n => fates (n + 1)
  | d, .flush :: rest, fates => survive d rest fates

/-- What is on the medium for certain, and the writes since the last completed flush. -/
def settle : Disk × List Event → List Event → Disk × List Event
  | s, [] => s
  | (d, pending), .write lba data :: rest => settle (d, pending ++ [.write lba data]) rest
  | (d, pending), .flush :: rest => settle (replay d pending, []) rest

/-- What the medium holds after these events and a power cut. -/
def powerCut (d : Disk) (events : List Event) (fates : Nat → Fate) : Disk :=
  survive garbled (settle (d, []) events).1 (settle (d, []) events).2 fates

/-- **A sector after a power cut** is the old one, one that was sent, or a torn one. -/
theorem survive_cases (d : Disk) (events : List Event) (fates : Nat → Fate) (b : Nat) :
    survive garbled d events fates b = d b ∨ ∃ data, .write b data ∈ events ∧
      (survive garbled d events fates b = data ∨ garbled b (survive garbled d events fates b)) := by
  induction events generalizing d fates with
  | nil => exact .inl rfl
  | cons e events ih =>
    cases e with
    | flush =>
      rcases ih d fates with h | ⟨data, hmem, h⟩
      · exact .inl h
      · exact .inr ⟨data, mem_cons_of_mem _ hmem, h⟩
    | write lba new =>
      rw [survive]
      rcases ih (Function.update d lba ((fates 0).leaves garbled (d lba) lba new))
        (fun n => fates (n + 1)) with h | ⟨data, hmem, h⟩
      · rw [h]
        by_cases hb : b = lba
        · subst hb
          rw [Function.update_self]
          cases fates 0 with
          | lost => exact .inl rfl
          | landed => exact .inr ⟨new, mem_cons_self, .inl rfl⟩
          | torn left =>
            rw [Fate.leaves]
            split
            · rename_i hgarbled
              exact .inr ⟨new, mem_cons_self, .inr hgarbled⟩
            · exact .inl rfl
        · rw [Function.update_of_ne hb]
          exact .inl rfl
      · exact .inr ⟨data, mem_cons_of_mem _ hmem, h⟩

theorem survive_of_not_written {d : Disk} {events : List Event} {fates : Nat → Fate} {b : Nat}
    (h : ∀ data, .write b data ∉ events) : survive garbled d events fates b = d b := by
  rcases survive_cases garbled d events fates b with hold | ⟨data, hmem, -⟩
  · exact hold
  · exact absurd hmem (h data)

/-- Everything landing is one of the ways it can end. -/
theorem survive_landed (d : Disk) (events : List Event) :
    survive garbled d events (fun _ => .landed) = replay d events := by
  induction events generalizing d with
  | nil => rfl
  | cons e events ih =>
    cases e with
    | write | flush => exact ih _

end Survive

/-! ## What is on the medium for certain -/

theorem settle_append (s : Disk × List Event) (first rest : List Event) :
    settle s (first ++ rest) = settle (settle s first) rest := by
  induction first generalizing s with
  | nil => rfl
  | cons e first ih =>
    cases e with
    | write | flush => exact ih _

variable {events : List Event}

/-- Without a flush everything stays pending. -/
theorem settle_of_writes (h : .flush ∉ events) (d : Disk)
    (pending : List Event) : settle (d, pending) events = (d, pending ++ events) := by
  induction events generalizing pending with
  | nil => rw [append_nil, settle]
  | cons e events ih =>
    cases e with
    | flush => exact absurd mem_cons_self h
    | write =>
      rw [settle, ih (fun hmem => h (mem_cons_of_mem _ hmem)), append_assoc]
      rfl

theorem replay_settle (s : Disk × List Event) (events : List Event) :
    replay (settle s events).1 (settle s events).2 = replay (replay s.1 s.2) events := by
  induction events generalizing s with
  | nil => rfl
  | cons e events ih =>
    cases e with
    | write => rw [settle, ih, replay_append]; rfl
    | flush => rw [settle, ih]; rfl

/-- **After a flush nothing is pending.** -/
theorem settle_flush (d : Disk) (events : List Event) :
    settle (d, []) (events ++ [.flush]) = (replay d events, []) := by
  rw [settle_append]
  show (replay (settle (d, []) events).1 (settle (d, []) events).2, []) = _
  rw [replay_settle]
  rfl

/-- A power cut before any flush. -/
theorem powerCut_of_writes (garbled : Nat → Sector → Bool)
    (h : .flush ∉ events) (d : Disk) (k : Nat) (fates : Nat → Fate) :
    powerCut garbled d (events.take k) fates = survive garbled d (events.take k) fates := by
  rw [powerCut, settle_of_writes fun hmem => h (mem_of_mem_take hmem)]
  rfl

/-- **A power cut around a flush** comes before it, or after everything sent earlier is on
the medium. -/
theorem powerCut_take (garbled : Nat → Sector → Bool) {first : List Event}
    (h : .flush ∉ first) (d : Disk) (rest : List Event) (k : Nat) (fates : Nat → Fate) :
    powerCut garbled d ((first ++ .flush :: rest).take k) fates =
        survive garbled d (first.take k) fates ∨
      ∃ j, powerCut garbled d ((first ++ .flush :: rest).take k) fates =
        powerCut garbled (replay d first) (rest.take j) fates := by
  rw [take_append]
  cases hk : k - first.length with
  | zero =>
    refine .inl ?_
    rw [take_zero, append_nil]
    exact powerCut_of_writes garbled h d k fates
  | succ j =>
    refine .inr ⟨j, ?_⟩
    rw [take_of_length_le (by omega), take_succ_cons, powerCut, settle_append,
      settle_of_writes h]
    rfl

/-- Everything the device was sent since `base` was its contents has been flushed. -/
structure AtRest (base : Disk) (d : Device) : Prop where
  disk : d.disk = replay base d.log
  flushed : d.log = [] ∨ ∃ events, d.log = events ++ [.flush]

variable {base : Disk} {d : Device}

theorem AtRest.settle (h : AtRest base d) : settle (base, []) d.log = (d.disk, []) := by
  rcases h.flushed with hnil | ⟨_, hlog⟩
  · rw [h.disk, hnil]
    rfl
  · rw [h.disk, hlog, settle_flush, replay_append]
    rfl

theorem disk_store (h : d.disk = replay base d.log) (lba sectors : Nat) (data : Disk) :
    (d.asked.store lba sectors data).disk = replay base (d.asked.store lba sectors data).log := by
  rw [store_disk, store_log, replay_append, asked_disk, asked_log, h]

theorem atRest_flushed (h : d.disk = replay base d.log) : AtRest base d.flushed where
  disk := by
    rw [flushed_log, replay_append, flushed_disk, h]
    rfl
  flushed := .inr ⟨d.log, rfl⟩

variable {d' : Device}

/-- More was sent, and flushed. -/
theorem AtRest.append (h : AtRest base d)
    (hlog : d'.log = d.log ++ (events ++ [.flush])) (hdisk : d'.disk = replay d.disk events) :
    AtRest base d' where
  disk := by
    rw [hlog, hdisk, h.disk, replay_append, replay_append]
    rfl
  flushed := .inr ⟨d.log ++ events, by rw [hlog, append_assoc]⟩

theorem AtRest.of_eq (h : AtRest base d) (hlog : d'.log = d.log)
    (hdisk : d'.disk = d.disk) : AtRest base d' where
  disk := by rw [hdisk, hlog, h.disk]
  flushed := by rw [hlog]; exact h.flushed

/-- A power cut while more is being sent. -/
theorem powerCut_of_atRest (garbled : Nat → Sector → Bool)
    (h : AtRest base d) (events : List Event) (fates : Nat → Fate) :
    powerCut garbled base (d.log ++ events) fates = powerCut garbled d.disk events fates := by
  rw [powerCut, powerCut, settle_append, h.settle]

end Panda.Block
