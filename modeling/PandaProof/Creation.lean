import PandaProof.FrameAllocator
import PandaProof.Ring

/-!
# What a refused creation leaves behind

`ipc::create` enters the endpoint before it asks whether the owner may hold another capability,
and `ring::create` makes the endpoint before it asks for frames.  Neither takes the endpoint out
again when the later step is refused.  The frames a ring did get are given back.
-/
namespace Panda.Creation

open Function List
open Ipc (ThreadId Endpoint)
open Quotas (Quota)
open Memory (BitmapFrameAllocator)

structure World where
  registry : Ipc.Registry
  rings : Ring.Table
  frames : BitmapFrameAllocator

inductive Error
  | ipc (e : Ipc.Error)
  | outOfMemory
  deriving DecidableEq

/-- The loop of `ring::create` with the frames it has got; when there are no more it gives them
back. -/
def takeFrames : Nat → List Nat → BitmapFrameAllocator → Option (List Nat) × BitmapFrameAllocator
  | 0, got, a => (some got, a)
  | n + 1, got, a =>
    match a.allocate with
    | some (frame, a) => takeFrames n (got ++ [frame]) a
    | none => (none, got.foldl (fun a frame => (a.deallocate frame).getD a) a)

def createEndpoint (quota : Quota) (w : World) (owner : ThreadId) (capacity : Nat) :
    Except Error Nat × World := match w.registry.create quota owner capacity with
  | (result, registry) => (result.mapError .ipc, { w with registry := registry })

/-- `ring::create`; what it writes into the frames is left out. -/
def createRing (quota : Quota) (w : World) (owner : ThreadId) (slots : BitVec 32) :
    Except Error Nat × World :=
  if slots < 2 ∨ BitVec.ofNat 32 Ring.maxSlots < slots then (.error (.ipc .invalidArgument), w)
  else
    match createEndpoint quota w owner 1 with
    | (.error e, w) => (.error e, w)
    | (.ok endpoint, w) =>
      match takeFrames (Ring.pages slots.toNat) [] w.frames with
      | (none, a) => (.error .outOfMemory, { w with frames := a })
      | (some frames, a) =>
        (.ok endpoint, { w with
          frames := a
          rings := update w.rings endpoint (some (.fresh owner frames slots)) })

/-- What a thread may ask for. -/
inductive Request
  | endpoint (capacity : Nat)
  | ring (slots : BitVec 32)

def create (quota : Quota) (w : World) (owner : ThreadId) : Request → Except Error Nat × World
  | .endpoint capacity => createEndpoint quota w owner capacity
  | .ring slots => createRing quota w owner slots

/-- The argument is out of range. -/
def Request.Invalid : Request → Prop
  | .endpoint capacity => capacity = 0 ∨ Ipc.maxCapacity < capacity
  | .ring slots => slots < 2 ∨ BitVec.ofNat 32 Ring.maxSlots < slots

/-- The endpoints, the capabilities, the rings, what everybody owns and the free frames are what
they were. -/
structure Kept (w w' : World) : Prop where
  endpoints : w'.registry.endpoints = w.registry.endpoints
  capabilities : w'.registry.capabilities = w.registry.capabilities
  owned : ∀ t, w'.registry.endpointsOwnedBy t = w.registry.endpointsOwnedBy t
  rings : w'.rings = w.rings
  frames : ∀ f, w'.frames.Free f ↔ w.frames.Free f

theorem Kept.refl (w : World) : Kept w w := ⟨rfl, rfl, fun _ => rfl, rfl, fun _ => .rfl⟩

variable {quota : Quota} {w : World} {owner : ThreadId} {e : Error}

/-- Frames are given back one by one. -/
theorem free_foldl_deallocate {got : List Nat} {a : BitmapFrameAllocator}
    (hlt : ∀ f ∈ got, f < a.totalFrames) (f : Nat) :
    (got.foldl (fun a frame => (a.deallocate frame).getD a) a).Free f ↔ a.Free f ∨ f ∈ got := by
  induction got generalizing a with
  | nil => simp
  | cons frame got ih =>
    obtain ⟨hframe, hrest⟩ := forall_mem_cons.mp hlt
    rw [foldl_cons, mem_cons, ← or_assoc]
    cases ha : a.deallocate frame with
    | none =>
      have hfree : a.Free frame := ⟨hframe, by simpa [BitmapFrameAllocator.deallocate] using ha⟩
      rw [Option.getD_none, ih hrest, or_iff_left_of_imp (b := f = frame) fun h => h ▸ hfree]
    | some a' =>
      obtain ⟨htotal, hfree⟩ := BitmapFrameAllocator.deallocate_spec ha
      rw [Option.getD_some, ih (by rwa [htotal]), hfree, and_iff_left hframe]

/-- When there are not enough frames, those that are free are the same as before. -/
theorem free_takeFrames {n : Nat} {got : List Nat} {a₀ a a' : BitmapFrameAllocator}
    (hlt : ∀ f ∈ got, f < a.totalFrames) (hfree : ∀ f, a.Free f ∨ f ∈ got ↔ a₀.Free f)
    (h : takeFrames n got a = (none, a')) (f : Nat) : a'.Free f ↔ a₀.Free f := by
  induction n generalizing got a with
  | zero => simp [takeFrames] at h
  | succ n ih =>
    rw [takeFrames] at h
    split at h
    · rename_i frame a₁ ha
      obtain ⟨hframe, htotal, hfree₁⟩ := BitmapFrameAllocator.allocate_spec ha
      refine ih (fun f hf => ?_) (fun f => ?_) h
      · rw [htotal]
        rcases mem_append.mp hf with hf | hf
        · exact hlt f hf
        · exact mem_singleton.mp hf ▸ hframe.1
      · rw [← hfree f, hfree₁ f, mem_append, mem_singleton]
        by_cases hf : f = frame
        · simp [hf, hframe]
        · simp [hf]
    · obtain rfl := (Prod.mk.inj h).2
      rw [free_foldl_deallocate hlt, hfree]

/-- The creation is refused for its argument or the quota of endpoints. -/
def Early (quota : Quota) (w : World) (owner : ThreadId) (request : Request) : Prop :=
  request.Invalid ∨ quota.endpoints ≤ w.registry.endpointsOwnedBy owner

theorem createEndpoint_early {capacity : Nat} (h : Early quota w owner (.endpoint capacity)) :
    ∃ e, createEndpoint quota w owner capacity = (.error e, w) := by
  rw [createEndpoint, Ipc.Registry.create]
  by_cases hcap : capacity = 0 ∨ Ipc.maxCapacity < capacity
  · rw [if_pos hcap]
    exact ⟨_, rfl⟩
  · rw [if_neg hcap, if_pos (h.resolve_left hcap)]
    exact ⟨_, rfl⟩

/-- Past these checks the endpoint is entered, whatever becomes of the rights. -/
theorem createEndpoint_late {capacity : Nat} (h : ¬ Early quota w owner (.endpoint capacity)) :
    (createEndpoint quota w owner capacity).2.registry.endpoints =
      update w.registry.endpoints w.registry.nextId (some ⟨[], capacity, [], owner⟩) := by
  obtain ⟨hcap, hquota⟩ := not_or.mp h
  rw [Request.Invalid] at hcap
  change (w.registry.create quota owner capacity).2.endpoints = _
  rw [Ipc.Registry.create, if_neg hcap, if_neg hquota]
  dsimp only
  split
  · rfl
  · rename_i hadd
    exact (Ipc.Registry.addRights_ok hadd).1

/-- The queue the endpoint of a request would have. -/
def Request.capacity : Request → Nat
  | .endpoint capacity => capacity
  | .ring _ => 1

/-- **What a refused creation leaves behind**: nothing, if it is refused for its argument or the
quota of endpoints; otherwise an endpoint, but no ring and no frame. -/
theorem refused_creation {request : Request} (h : (create quota w owner request).1 = .error e) :
    (Early quota w owner request → Kept w (create quota w owner request).2) ∧
    (¬ Early quota w owner request →
      (create quota w owner request).2.registry.endpoints = update w.registry.endpoints
        w.registry.nextId (some ⟨[], request.capacity, [], owner⟩) ∧
      (create quota w owner request).2.rings = w.rings ∧
      ∀ f, (create quota w owner request).2.frames.Free f ↔ w.frames.Free f) := by
  cases request with
  | endpoint capacity =>
    refine ⟨fun hearly => ?_, fun hlate => ⟨createEndpoint_late hlate, rfl, fun _ => .rfl⟩⟩
    obtain ⟨e, hw⟩ := createEndpoint_early hearly
    rw [create, hw]
    exact .refl w
  | ring slots =>
    rw [create, createRing] at h ⊢
    by_cases hslots : slots < 2 ∨ BitVec.ofNat 32 Ring.maxSlots < slots
    · rw [if_pos hslots]
      exact ⟨fun _ => .refl w, fun hlate => absurd (.inl hslots) hlate⟩
    rw [if_neg hslots] at h ⊢
    refine ⟨fun hearly => ?_, fun hlate => ?_⟩
    · have hquota : Early quota w owner (.endpoint 1) := .inr (hearly.resolve_left hslots)
      obtain ⟨e, hw⟩ := createEndpoint_early hquota
      rw [hw]
      exact .refl w
    have hroom : ¬ Early quota w owner (.endpoint 1) := not_or.mpr
      ⟨by simp [Request.Invalid, Ipc.maxCapacity], fun hquota => hlate (.inr hquota)⟩
    have hnew := createEndpoint_late hroom
    cases hw : createEndpoint quota w owner 1 with
    | mk result w' =>
    have hrest : w'.rings = w.rings ∧ w'.frames = w.frames := by
      rw [← (Prod.mk.inj hw).2]
      exact ⟨rfl, rfl⟩
    rw [hw] at h hnew
    cases result with
    | error e => exact ⟨hnew, hrest.1, fun _ => by rw [hrest.2]⟩
    | ok endpoint =>
      dsimp only at h ⊢
      cases hframes : takeFrames (Ring.pages slots.toNat) [] w'.frames with
      | mk frames a =>
      rw [hframes] at h
      cases frames with
      | some frames => cases h
      | none =>
        refine ⟨hnew, hrest.1, fun f => ?_⟩
        rw [← hrest.2]
        exact free_takeFrames (by simp) (by simp) hframes f

/-- A world with nothing in it but `n` free frames. -/
def blank (n : Nat) : World := ⟨.new, fun _ => none, ⟨fun _ => 0, n, 0, 0⟩⟩

/-- A thread without a quota is refused an endpoint, and nothing has changed. -/
theorem refused_creation_quota : Kept (blank 8) (create ⟨0, 8, 0, 0⟩ (blank 8) 1 (.endpoint 4)).2 :=
  (refused_creation (e := .ipc .quotaExceeded) (by decide)).1 (.inr (by decide))

/-- A thread that may hold no capability is refused an endpoint and owns one more; a ring for
which there are no frames leaves an endpoint and a capability. -/
theorem refused_creation_consumes :
    ((create ⟨1, 0, 0, 0⟩ (blank 8) 1 (.endpoint 4)).1 = .error (.ipc .quotaExceeded) ∧
      (blank 8).registry.endpointsOwnedBy 1 = 0 ∧
      (create ⟨1, 0, 0, 0⟩ (blank 8) 1 (.endpoint 4)).2.registry.endpointsOwnedBy 1 = 1) ∧
    (create ⟨1, 1, 0, 0⟩ (blank 2) 1 (.ring 2)).1 = .error .outOfMemory ∧
      (create ⟨1, 1, 0, 0⟩ (blank 2) 1 (.ring 2)).2.registry.endpointsOwnedBy 1 = 1 ∧
      ((create ⟨1, 1, 0, 0⟩ (blank 2) 1 (.ring 2)).2.registry.capabilities 1).length = 1 := by
  decide +kernel

end Panda.Creation
