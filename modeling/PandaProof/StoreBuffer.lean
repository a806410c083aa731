import Mathlib.Logic.Function.Basic

/-!
# Store buffers

Memory as several processors see it when each of them may delay its own stores
(total store order): a store goes to the end of the processor's buffer, a load
takes the processor's own newest buffered value or else what is in memory, the
oldest buffered store reaches memory at a moment of its own choosing, and a
locked exchange waits for the buffer to be empty.
-/
namespace Panda

open Function

/-- Memory, and the stores each processor has issued that have not reached it,
oldest first. -/
structure StoreBuffer (P L V : Type) where
  memory : L → V
  buffer : P → List (L × V)

namespace StoreBuffer
variable {P L V : Type} [DecidableEq P] [DecidableEq L]

/-- What processor `p` reads at `l`. -/
def load (m : StoreBuffer P L V) (p : P) (l : L) : V :=
  (((m.buffer p).reverse.find? fun x => x.1 = l).map Prod.snd).getD (m.memory l)

/-- Processor `p` stores `v` at `l`. -/
def store (m : StoreBuffer P L V) (p : P) (l : L) (v : V) : StoreBuffer P L V :=
  { m with buffer := update m.buffer p (m.buffer p ++ [(l, v)]) }

/-- The oldest store of `p` reaches memory. -/
def drain (m : StoreBuffer P L V) (p : P) : Option (StoreBuffer P L V) :=
  match m.buffer p with
  | [] => none
  | (l, v) :: rest => some { memory := update m.memory l v, buffer := update m.buffer p rest }

/-- Every store of `p` has reached memory. -/
def drained (m : StoreBuffer P L V) (p : P) : Bool := (m.buffer p).isEmpty

/-- A locked exchange of `v` for what is at `l`. -/
def exchange (m : StoreBuffer P L V) (p : P) (l : L) (v : V) : Option (V × StoreBuffer P L V) :=
  if m.drained p then some (m.memory l, { m with memory := update m.memory l v })
  else none

variable {m : StoreBuffer P L V} {p : P}

omit [DecidableEq P] [DecidableEq L] in
theorem drained_iff : m.drained p = true ↔ m.buffer p = [] := by
  simp [drained]

omit [DecidableEq P] in
/-- A processor that has not stored to `l` reads it from memory. -/
theorem load_of_not_stored {l : L} (h : ∀ x ∈ m.buffer p, x.1 ≠ l) : m.load p l = m.memory l := by
  have hnone : (m.buffer p).reverse.find? (fun x => x.1 = l) = none := by
    simpa using h
  simp [load, hnone]

/-- A processor reads what it has just stored. -/
@[simp] theorem load_store_self (m : StoreBuffer P L V) (p : P) (l : L) (v : V) :
    (m.store p l v).load p l = v := by
  simp [load, store]

variable {m' : StoreBuffer P L V}

/-- Draining does not change what the processor itself reads. -/
theorem load_drain (h : m.drain p = some m') (l : L) : m'.load p l = m.load p l := by
  unfold drain at h
  split at h
  · cases h
  rename_i l₀ v rest hbuf
  cases h
  simp only [load, hbuf, update_self, List.reverse_cons, List.find?_append]
  cases hf : rest.reverse.find? (fun x => x.1 = l) with
  | some => simp
  | none =>
    by_cases hl : l₀ = l
    · subst hl
      simp
    · simp [hl, update_of_ne (Ne.symm hl)]

theorem drain_eq_some (h : m.drain p = some m') : ∃ l v rest, m.buffer p = (l, v) :: rest ∧
      m' = ⟨update m.memory l v, update m.buffer p rest⟩ := by
  unfold drain at h
  split at h
  · cases h
  · rename_i l v rest hbuf
    exact ⟨l, v, rest, hbuf, (Option.some.inj h).symm⟩

omit [DecidableEq P] in
theorem exchange_eq_some {l : L} {v old : V} (h : m.exchange p l v = some (old, m')) :
    m.buffer p = [] ∧ old = m.memory l ∧ m' = { m with memory := update m.memory l v } := by
  unfold exchange at h
  split at h
  · rename_i hd
    cases h
    exact ⟨drained_iff.mp hd, rfl, rfl⟩
  · cases h

end StoreBuffer
end Panda
