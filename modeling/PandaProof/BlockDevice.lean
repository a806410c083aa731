import PandaProof.Prog
import PandaProof.Bytes

/-!
# Block devices

A device stores numbered sectors of 512 bytes and gives them back.  Any request may fail:
which ones do is an argument of the model, by the number of the request, and a failed
write may leave anything in the sectors it was aimed at.  The device also records what
reached it, in order; the record is read by no code and says what a power cut can leave.
-/
namespace Panda.Block

open Prog

/-- The bytes of one sector, by position; only the first 512 are ever read. -/
abbrev Sector := Bytes.Row

/-- The sectors of a device, by number. -/
abbrev Disk := Nat → Sector

inductive BlockError
  | notPresent
  | outOfRange
  | unaligned
  | deviceFault
  | outOfMemory
  | readOnly
  | busy
  deriving DecidableEq

/-- What reached the medium: one sector, or the order to make everything before durable. -/
inductive Event
  | write (lba : Nat) (data : Sector)
  | flush

structure Device where
  /-- What a read returns. -/
  disk : Disk
  /-- Requests made so far. -/
  calls : Nat
  /-- What reached the medium, oldest first. -/
  log : List Event

/-- The requests that fail, by number. -/
structure Faults where
  read : Nat → Option BlockError
  /-- The error, and what the failed write leaves in the sectors it was aimed at. -/
  write : Nat → Option (BlockError × Disk)
  flush : Nat → Option BlockError

/-- A device as code finds it: its size, and which requests fail. -/
structure Env where
  sectorCount : Nat
  faults : Faults

/-- No request ever fails. -/
structure Env.Reliable (env : Env) : Prop where
  read : ∀ n, env.faults.read n = none
  write : ∀ n, env.faults.write n = none
  flush : ∀ n, env.faults.flush n = none

/-- A device of this size on which nothing fails. -/
def Env.reliable (sectorCount : Nat) : Env :=
  ⟨sectorCount, fun _ => none, fun _ => none, fun _ => none⟩

theorem Env.reliable_reliable (sectorCount : Nat) : (Env.reliable sectorCount).Reliable :=
  ⟨fun _ => rfl, fun _ => rfl, fun _ => rfl⟩

/-- Code that makes requests of a device. -/
abbrev Requests (A : Type) : Type := Prog Device BlockError A

/-- Reject a request for `sectors` sectors before it reaches hardware. -/
def validate (deviceSectors lba sectors : Nat) : Option BlockError :=
  if sectors = 0 then some .unaligned
  else if deviceSectors < lba + sectors then some .outOfRange
  else none

/-- The number of the next request. -/
def request : Requests Nat := do
  let call ← gets Device.calls
  modify fun d => { d with calls := d.calls + 1 }
  pure call

def orElseThrow {A : Type} (error : Option BlockError) (p : Requests A) : Requests A :=
  match error with
  | some e => throw e
  | none => p

/-- Put sectors on the medium from `lba`. -/
def Device.store (d : Device) (lba sectors : Nat) (data : Disk) : Device :=
  { d with
    disk := fun b => if lba ≤ b ∧ b < lba + sectors then data (b - lba) else d.disk b
    log := d.log ++ (List.range sectors).map fun k => .write (lba + k) (data k) }

/-- Read `sectors` sectors from `lba`. -/
def read (env : Env) (lba sectors : Nat) : Requests Disk := do
  let call ← request
  orElseThrow (validate env.sectorCount lba sectors) do
    orElseThrow (env.faults.read call) do
      gets fun d k => d.disk (lba + k)

/-- Write `sectors` sectors from `lba`. -/
def write (env : Env) (lba sectors : Nat) (data : Disk) : Requests Unit := do
  let call ← request
  orElseThrow (validate env.sectorCount lba sectors) do
    match env.faults.write call with
    | some (error, left) => do
      modify fun d => d.store lba sectors left
      throw error
    | none => modify fun d => d.store lba sectors data

/-- Make sure everything written so far has reached the medium. -/
def flush (env : Env) : Requests Unit := do
  let call ← request
  orElseThrow (env.faults.flush call) do
    modify fun d => { d with log := d.log ++ [.flush] }

/-! ## What a request can do -/

/-- The device must answer this request: it is in range and nothing fails. -/
def Env.Serves (env : Env) (lba sectors : Nat) : Prop :=
  env.Reliable ∧ 0 < sectors ∧ lba + sectors ≤ env.sectorCount

/-- The device one request later, if the request changed nothing. -/
def Device.asked (d : Device) : Device := { d with calls := d.calls + 1 }

@[simp] theorem asked_disk (d : Device) : d.asked.disk = d.disk := rfl
@[simp] theorem asked_log (d : Device) : d.asked.log = d.log := rfl

/-- The device after a flush. -/
def Device.flushed (d : Device) : Device := ⟨d.disk, d.calls + 1, d.log ++ [.flush]⟩

@[simp] theorem flushed_disk (d : Device) : d.flushed.disk = d.disk := rfl
@[simp] theorem flushed_log (d : Device) : d.flushed.log = d.log ++ [.flush] := rfl

section Specs

variable (env : Env) (d : Device)

theorem wp_request {Q : Nat → Device → Prop} {R : BlockError → Device → Prop} :
    Prog.Wp request d Q R ↔ Q d.calls d.asked := by
  simp only [request, wp_bind, wp_gets, wp_modify, wp_pure]
  rfl

variable {env}

theorem not_serves_of_validate {lba sectors : Nat} {e : BlockError}
    (h : validate env.sectorCount lba sectors = some e) : ¬env.Serves lba sectors := by
  rintro ⟨-, _, _⟩
  rw [validate, if_neg (by omega), if_neg (by omega)] at h
  contradiction

variable (env)

theorem read_spec (lba sectors : Nat) : Prog.Wp (read env lba sectors) d
      (fun data d' => data = (fun k => d.disk (lba + k)) ∧ d' = d.asked)
      (fun _ d' => d' = d.asked ∧ ¬env.Serves lba sectors) := by
  simp only [read, wp_bind, wp_request, orElseThrow]
  split
  case h_1 e he => simpa using not_serves_of_validate he
  split
  case h_1 e he =>
    simp only [wp_throw, true_and]
    rintro ⟨hreliable, -⟩
    simp [hreliable.read] at he
  simp

/-- A read that is answered was in range. -/
theorem read_inRange (lba sectors : Nat) :
    Prog.Wp (read env lba sectors) d (fun _ _ => 0 < sectors ∧ lba + sectors ≤ env.sectorCount)
      fun _ _ => True := by
  simp only [read, wp_bind, wp_request, orElseThrow, validate]
  split_ifs
  · exact wp_throw.mpr trivial
  · exact wp_throw.mpr trivial
  · exact Prog.wp_of_all (fun _ _ => by omega) fun _ _ => trivial

/-- A write does what it was asked, or fails; where it fails, only the sectors it was
aimed at may have changed. -/
theorem write_spec (lba sectors : Nat) (data : Disk) : Prog.Wp (write env lba sectors data) d
      (fun _ d' => d' = d.asked.store lba sectors data)
      (fun _ d' => (d' = d.asked ∨ ∃ left, d' = d.asked.store lba sectors left) ∧
        ¬env.Serves lba sectors) := by
  simp only [write, wp_bind, wp_request, orElseThrow]
  split
  case h_1 e he => simpa using not_serves_of_validate he
  split
  case h_1 error left hfault =>
    simp only [wp_bind, wp_modify, wp_throw]
    refine ⟨.inr ⟨left, rfl⟩, ?_⟩
    rintro ⟨hreliable, -⟩
    simp [hreliable.write] at hfault
  simp

theorem flush_spec : Prog.Wp (flush env) d (fun _ d' => d' = d.flushed)
      (fun _ d' => d' = d.asked ∧ ¬env.Reliable) := by
  simp only [flush, wp_bind, wp_request, orElseThrow]
  split
  case h_1 e he =>
    simp only [wp_throw, true_and]
    intro hreliable
    simp [hreliable.flush] at he
  simp only [wp_modify]
  rfl

end Specs

theorem store_inside {d : Device} {lba sectors b : Nat} {data : Disk}
    (h : lba ≤ b ∧ b < lba + sectors) : (d.store lba sectors data).disk b = data (b - lba) :=
  if_pos h

theorem store_outside {d : Device} {lba sectors b : Nat} {data : Disk}
    (h : ¬(lba ≤ b ∧ b < lba + sectors)) : (d.store lba sectors data).disk b = d.disk b := if_neg h

/-! ## The record and the contents -/

/-- The disk after these events, everything reaching the medium. -/
def replay : Disk → List Event → Disk
  | d, [] => d
  | d, .write lba data :: rest => replay (Function.update d lba data) rest
  | d, .flush :: rest => replay d rest

theorem replay_append (d : Disk) (first rest : List Event) :
    replay d (first ++ rest) = replay (replay d first) rest := by
  induction first generalizing d with
  | nil => rfl
  | cons e first ih =>
    cases e with
    | write | flush => exact ih _

/-- The events of one write. -/
def writes (lba sectors : Nat) (data : Disk) : List Event :=
  (List.range sectors).map fun k => .write (lba + k) (data k)

theorem mem_writes {lba sectors : Nat} {data : Disk} {e : Event} (h : e ∈ writes lba sectors data) :
    ∃ k, k < sectors ∧ e = .write (lba + k) (data k) := by
  obtain ⟨k, hk, rfl⟩ := List.mem_map.mp h
  exact ⟨k, List.mem_range.mp hk, rfl⟩

theorem replay_writes (d : Disk) (lba sectors : Nat) (data : Disk) (b : Nat) :
    replay d (writes lba sectors data) b =
      if lba ≤ b ∧ b < lba + sectors then data (b - lba) else d b := by
  induction sectors with
  | zero =>
    rw [if_neg (by omega)]
    rfl
  | succ n ih =>
    have hlast : replay d (writes lba (n + 1) data) =
        Function.update (replay d (writes lba n data)) (lba + n) (data n) := by
      rw [writes, List.range_succ, List.map_append, replay_append]
      rfl
    rw [hlast]
    by_cases hb : b = lba + n
    · rw [hb, Function.update_self, if_pos ⟨by omega, by omega⟩]
      congr 1
      omega
    rw [Function.update_of_ne hb, ih]
    by_cases hin : lba ≤ b ∧ b < lba + n
    · rw [if_pos hin, if_pos ⟨hin.1, by omega⟩]
    · rw [if_neg hin, if_neg (by omega)]

theorem store_log (d : Device) (lba sectors : Nat) (data : Disk) :
    (d.store lba sectors data).log = d.log ++ writes lba sectors data := rfl

theorem store_disk (d : Device) (lba sectors : Nat) (data : Disk) :
    (d.store lba sectors data).disk = replay d.disk (writes lba sectors data) := by
  funext b
  rw [replay_writes]
  rfl

end Panda.Block
