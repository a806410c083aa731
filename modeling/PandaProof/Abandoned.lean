import PandaProof.Capabilities
import PandaProof.Ring

/-!
# Sleeping on what is gone

The loops of `receive` and of `ring::wait` next to the exits that take away what they
sleep on.  The state is the one of `IpcWakeup` with the ring table beside it; threads
create rings, map their sides, write the counters in them, wait, wake each other and
exit, in any order.  An exit withdraws from the rings first and then from the endpoints,
in two critical sections.

Neither `release_thread` wakes anybody.  A thread parked in `receive` on an endpoint
whose owner exits stays parked, and so does a thread parked in `wait` on a ring whose
other side exits; `wait` will even park on a ring whose other side has exited already
(`bereft_reachable`).  If no thread exits on somebody who sleeps, and none goes to sleep
on a ring the other side has left, every sleeper has something to wait for
(`nobody_bereft`).
-/
namespace Panda

open Function Option Parking List

/-! ## Sleeping in `receive` -/

namespace Ipc

/-- No wake is on its way to `t`, which has parked or is about to. -/
def Unwoken (s : State) (t : ThreadId) (parked : Bool) : Prop :=
  t ∉ s.owed ∧ if parked then s.parking.blocked t = true else s.parking.wakePending t = false

/-- `t` sleeps in `receive` on `e`, or is past the point where it could still notice that
the endpoint is gone. -/
def DozesOn (s : State) (t : ThreadId) (e : Nat) : Prop :=
  s.pc t = .registered e ∧ Unwoken s t false ∨ s.pc t = .parked e ∧ Unwoken s t true

variable {p : Parking ThreadId} {t u : ThreadId}

open State

theorem not_woken_of_unblock
    (h : (p.unblock u).wakePending t = false) : p.wakePending t = false := by
  by_contra hw
  exact absurd h (by simp [unblock_wakePending_of_true (by simpa using hw)])

variable {s s' : State} {parked : Bool}

/-- An unblocked thread is not without a wake. -/
theorem Unwoken.of_unblock {x : ThreadId}
    (h : Unwoken s' t parked) (hpark : s'.parking = s.parking.unblock x)
    (howed : ∀ u, u ≠ x → u ∈ s.owed → u ∈ s'.owed)
    (hb : parked = false → s.parking.blocked t = false) : Unwoken s t parked := by
  obtain ⟨hnot, hsleep⟩ := h
  rw [hpark] at hsleep
  have hne : t ≠ x := by
    rintro rfl
    cases parked with
    | true => simp at hsleep
    | false => simp [unblock_wakePending_self (hb rfl)] at hsleep
  refine ⟨fun hin => hnot (howed t hne hin), ?_⟩
  cases parked with
  | true => exact blocked_of_unblock hsleep
  | false => exact not_woken_of_unblock hsleep

theorem Unwoken.of_owe {woken : Option ThreadId} (h : Unwoken (s.owe woken) t parked) :
    Unwoken s t parked := ⟨fun hin => h.1 (mem_append_right _ hin), h.2⟩

variable {l : Label}

/-- Whatever others do, a thread that is without a wake afterwards was before. -/
theorem unwoken_of_step (h : step s l = some s') (hact : l.actor ≠ some t)
    (hb : parked = false → s.parking.blocked t = false) (hu : Unwoken s' t parked) :
    Unwoken s t parked := by
  have hblock : ∀ {u : ThreadId}, u ≠ t → s'.owed = s.owed →
      s'.parking = (s.parking.blockCurrent u).1 → Unwoken s t parked := by
    intro u hut howed hpark
    simpa only [Unwoken, howed, hpark, blockCurrent_blocked_of_ne (Ne.symm hut),
      blockCurrent_wakePending_of_ne (Ne.symm hut)] using hu
  cases step_cases h with
  | deliver => exact hu.of_owe
  | wake =>
    exact hu.of_unblock rfl (fun u hne hin => (mem_erase_of_ne hne).mpr hin) hb
  | stray => exact hu.of_unblock rfl (fun _ _ hin => hin) hb
  | blockWoken | blockPark | elsewhere => exact hblock (fun hut => hact (hut ▸ rfl)) rfl rfl
  | _ => exact hu

/-- Threads move by their own steps. -/
theorem pc_of_step (h : step s l = some s') (hact : l.actor ≠ some t) : s'.pc t = s.pc t := by
  have hne : ∀ {u : ThreadId}, l.actor = some u → t ≠ u := by
    rintro u hu rfl
    exact hact hu
  cases step_cases h with
  | receive | lookError | lookTake | lookAgain | lookRegister | blockWoken | blockPark | resume
  | exit => exact goto_pc_of_ne _ (hne rfl) _
  | _ => rfl

/-- A thread that dozes after a step did before, or has just seen the endpoint. -/
theorem dozesOn_of_step (hi : Settled s) (h : step s l = some s') {e : Nat} (hd : DozesOn s' t e) :
    DozesOn s t e ∨ (s'.registry.endpoints e).isSome = true := by
  by_cases hact : l.actor = some t
  · -- The thread's own step: it ends up dozing only past a look, or by parking.
    have hpc' : s'.pc t = .registered e ∨ s'.pc t = .parked e := hd.imp And.left And.left
    cases step_cases h with
    | refused | create | grant | tryTake => exact .inl hd
    | deliver => exact .inl (hd.imp (And.imp_right .of_owe) (And.imp_right .of_owe))
    | wake | stray => cases hact
    | lookAgain hpc hr hq =>
      cases hact
      obtain rfl : _ = e := by simpa using hpc'
      exact .inr (isSome_iff_exists.mpr ⟨_, hq⟩)
    | lookRegister =>
      cases hact
      obtain rfl : _ = e := by simpa using hpc'
      exact .inr (by simp [setEndpoint])
    | blockPark hpc hw =>
      cases hact
      obtain rfl : _ = e := by simpa using hpc'
      refine .inl (.inl ⟨hpc, ?_, hw⟩)
      rcases hd with hd | hd
      · exact hd.2.1
      · exact hd.2.1
    | elsewhere hf =>
      cases hact
      simp [(free_iff.mp hf).2] at hpc'
    | receive | lookError | lookTake | blockWoken | resume | exit => cases hact; simp at hpc'
  · left
    rw [DozesOn, pc_of_step h hact] at hd
    rcases hd with ⟨hpc, hu⟩ | ⟨hpc, hu⟩
    · exact .inl ⟨hpc, unwoken_of_step h hact
        (fun _ => hi.not_blocked (by simp [hpc]) (by simp [hpc])) hu⟩
    · exact .inr ⟨hpc, unwoken_of_step h hact (by simp) hu⟩

/-- Nobody dozes on an endpoint that does not exist. -/
def Attended (s : State) : Prop := ∀ t e, DozesOn s t e → (s.registry.endpoints e).isSome = true

theorem attended_step (hi : Settled s) (ha : Attended s) (h : step s l = some s')
    (hok : ∀ u, l = .exit u → ∀ t e, DozesOn s t e → ∀ q ∈ s.registry.endpoints e, q.owner ≠ u) :
    Attended s' := by
  intro t e hd
  rcases dozesOn_of_step hi h hd with hold | hsome
  · have hsome := ha t e hold
    by_cases hexit : ∃ u, l = .exit u
    · obtain ⟨u, rfl⟩ := hexit
      obtain ⟨-, rfl⟩ := Machine.of_guard h
      obtain ⟨q, hq⟩ := isSome_iff_exists.mp hsome
      simp [Registry.releaseThread, hq, hok u rfl t e hold q hq]
    · exact endpoints_step h (fun u hu => hexit ⟨u, hu⟩) hsome
  · exact hsome

/-- A thread blocks by its own steps. -/
theorem blocked_of_step (h : step s l = some s')
    (hact : l.actor ≠ some t) (hb : s'.parking.blocked t = true) : s.parking.blocked t = true := by
  have hblock : ∀ {u : ThreadId}, l.actor = some u →
      (s.parking.blockCurrent u).1.blocked t = true → s.parking.blocked t = true := by
    intro u hu hb
    have htu : t ≠ u := fun htu => hact (htu ▸ hu)
    rwa [blockCurrent_blocked_of_ne htu] at hb
  cases step_cases h with
  | wake | stray => exact blocked_of_unblock hb
  | blockWoken | blockPark | elsewhere => exact hblock rfl hb
  | _ => exact hb

end Ipc

/-! ## The system with rings -/

namespace Ring

open Ipc (ThreadId Unwoken)

/-- Where a thread is with respect to rings. -/
inductive Pc
  /-- In none of the functions below. -/
  | outside
  /-- In `create`: the endpoint exists, the ring is not in the table yet. -/
  | creating (e : Nat) (slots : BitVec 32)
  /-- In `map`, the right to the side having been checked. -/
  | claiming (e : Nat) (side : Side)
  /-- At the top of the loop of `wait`. -/
  | looking (e : Nat)
  /-- Found nothing to do and is recorded as sleeping, about to call `block_current`. -/
  | registered (e : Nat)
  /-- `block_current` marked it `Blocked`; it goes on once it is unblocked. -/
  | parked (e : Nat)
  /-- Did not park, about to look once more. -/
  | checking (e : Nat)
  /-- In `exit_current`, withdrawn from every ring. -/
  | leaving
  deriving DecidableEq

structure State where
  ipc : Ipc.State
  rings : Table
  /-- The counter in each side's page: the sender's tail, the receiver's head. -/
  counter : Nat → Side → BitVec 32
  pc : ThreadId → Pc
  /-- History: the last thread that had this side mapped has exited. -/
  departed : Nat → Side → Bool

inductive Label
  /-- A step that has nothing to do with rings, or the second part of an exit. -/
  | ipc (l : Ipc.Label)
  | create (t : ThreadId) (quota : Quotas.Quota) (slots : BitVec 32)
  /-- `create` enters the ring into the table, unless it got no frames. -/
  | insert (t : ThreadId) (frames : Option (List Nat))
  | map (t : ThreadId) (e : Nat) (side : Side)
  /-- The critical section of `map`. -/
  | claim (t : ThreadId) (address : Option Nat)
  /-- A process writes the counter of a side it has mapped. -/
  | publish (t : ThreadId) (e : Nat) (side : Side) (value : BitVec 32)
  | wait (t : ThreadId) (e : Nat)
  | look (t : ThreadId)
  | block (t : ThreadId)
  | resume (t : ThreadId)
  | check (t : ThreadId)
  | wake (t : ThreadId) (e : Nat)
  /-- The first part of an exit. -/
  | exit (t : ThreadId)

namespace State

def initial : State :=
  ⟨Ipc.initial, fun _ => none, fun _ _ => 0, fun _ => .outside, fun _ _ => false⟩

@[simp] def goto (s : State) (t : ThreadId) (pc : Pc) : State :=
  { s with pc := update s.pc t pc }

/-- A thread that runs and is in no blocking call. -/
def free (s : State) (t : ThreadId) : Bool := s.ipc.free t && s.pc t = .outside

/-- Threads at a ring do nothing else; an exit goes on to the endpoints. -/
def mayCall (s : State) : Ipc.Label → Bool
  | .exit t => s.pc t = .leaving
  | l => l.actor.all fun t => s.pc t = .outside

/-- Does `t` have this side of the ring mapped? -/
def maps (s : State) (t : ThreadId) (e : Nat) (side : Side) : Bool :=
  (s.rings e).any fun ring => ring.holder side = some t

end State

/-- One atomic step. -/
def step (s : State) : Label → Option State
  | .ipc l => if s.mayCall l then (Ipc.step s.ipc l).map fun i => { s with ipc := i } else none
  | .create t quota slots =>
    if s.pc t = .outside then
      if 2 ≤ slots.toNat ∧ slots.toNat ≤ maxSlots then
        (Ipc.step s.ipc (.create t quota 1)).map fun i =>
          match (s.ipc.registry.create quota t 1).1 with
          | .error _ => { s with ipc := i }
          | .ok e => { s with ipc := i }.goto t (.creating e slots)
      else some s
    else none
  | .insert t frames =>
    match s.pc t, frames with
    | .creating _ _, none => some (s.goto t .outside)
    | .creating e slots, some frames =>
      if frames.length = pages slots.toNat then
        some ({ s with
          rings := update s.rings e (some (fresh t frames slots))
          counter := update s.counter e fun _ => 0
          departed := update s.departed e fun _ => false }.goto t .outside)
      else none
    | _, _ => none
  | .map t e side =>
    if s.free t then
      some (if (s.ipc.registry.rightsOf t e).contains side.right then s.goto t (.claiming e side)
        else s)
    else none
  | .claim t address =>
    match s.pc t with
    | .claiming e side =>
      match claim s.rings t e side address with
      | .error _ => some (s.goto t .outside)
      | .ok (_, rings) => some ({ s with
          rings := rings
          departed := update s.departed e (update (s.departed e) side false) }.goto t .outside)
    | _ => none
  | .publish t e side value =>
    if s.free t && s.maps t e side then
      some { s with counter :=
        Function.update s.counter e (Function.update (s.counter e) side value) }
    else none
  | .wait t e => if s.free t then some (s.goto t (.looking e)) else none
  | .look t =>
    match s.pc t with
    | .looking e =>
      match waitRound s.rings t e (s.counter e .sender) (s.counter e .receiver) with
      | .error _ => some (s.goto t .outside)
      | .ok (park, rings) =>
        some ({ s with rings := rings }.goto t (if park then .registered e else .checking e))
    | _ => none
  | .block t =>
    match s.pc t with
    | .registered e =>
      (Ipc.step s.ipc (.elsewhere t)).map fun i =>
        { s with ipc := i }.goto t
          (if (s.ipc.parking.blockCurrent t).2 then .parked e else .checking e)
    | _ => none
  | .resume t =>
    match s.pc t with
    | .parked e => if s.ipc.parking.blocked t then none else some (s.goto t (.looking e))
    | _ => none
  | .check t =>
    match s.pc t with
    | .checking e =>
      match recheck s.rings t e (s.counter e .sender) (s.counter e .receiver) with
      | .ok false => some (s.goto t (.looking e))
      | _ => some (s.goto t .outside)
    | _ => none
  | .wake t e =>
    if s.free t then
      match wake s.rings t e with
      | .error _ => some s
      | .ok (sleeper, rings) => some { s with rings := rings, ipc := s.ipc.owe sleeper }
    else none
  | .exit t =>
    if s.free t then
      some ({ s with
        rings := releaseThread s.rings t
        departed := fun e side => s.departed e side || s.maps t e side }.goto t .leaving)
    else none

/-- All threads, endpoints and rings. -/
def machine : Machine State Label where
  Init s := s = .initial
  step := step

/-- `t` sleeps in `wait` on ring `e`, or is past the point where it could still notice
that the other side is gone. -/
def DozesOn (s : State) (t : ThreadId) (e : Nat) : Prop :=
  s.pc t = .registered e ∧ Unwoken s.ipc t false ∨ s.pc t = .parked e ∧ Unwoken s.ipc t true

/-! ## Two sleepers nobody will wake -/

/-- Thread 1 receives on endpoint 1 of thread 0, which exits.  Thread 2 makes ring 2, maps
its receiving side and waits; thread 3 has the sending side and exits. -/
def bereavingSchedule : List Label :=
  [.ipc (.create 0 ⟨1, 1, 0, 0⟩ 4), .ipc (.grant 0 1 1 1 .receive),
    .ipc (.receive 1 1), .ipc (.look 1), .ipc (.block 1), .exit 0, .ipc (.exit 0),
    .create 2 ⟨1, 1, 0, 0⟩ 2, .insert 2 (some [10, 11, 12, 13]), .ipc (.grant 2 3 1 2 .send),
    .map 2 2 .receiver, .claim 2 (some 4096), .map 3 2 .sender, .claim 3 (some 8192),
    .wait 2 2, .look 2, .block 2, .exit 3, .ipc (.exit 3)]

/-- **Threads can sleep on what is gone.**  Thread 1 is parked in `receive` on an endpoint
that was destroyed, thread 2 in `wait` on a ring whose sender has exited, and no wake is
on its way to either. -/
theorem bereft_reachable : ∃ s, machine.Reachable s ∧
    (s.ipc.pc 1 = .parked 1 ∧ Unwoken s.ipc 1 true ∧ s.ipc.registry.endpoints 1 = none) ∧
    ∃ ring, s.pc 2 = .parked 2 ∧ Unwoken s.ipc 2 true ∧ s.rings 2 = some ring ∧
      ring.sideOf 2 = .ok .receiver ∧ s.departed 2 .sender = true := by
  obtain ⟨s, hs, h1, h2, h3, h4, h5, h6, h7, h8⟩ := machine.exists_reachable
    bereavingSchedule
    (fun s => s.ipc.pc 1 = .parked 1 ∧ s.ipc.parking.blocked 1 = true ∧
      (s.ipc.registry.endpoints 1).isNone = true ∧ s.pc 2 = .parked 2 ∧
      s.ipc.parking.blocked 2 = true ∧ s.ipc.owed = [] ∧
      ((s.rings 2).any fun ring => (ring.sideOf 2).toOption = some .receiver) = true ∧
      s.departed 2 .sender = true) rfl (by decide)
  have hunowed : ∀ t, t ∉ s.ipc.owed := fun t => by simp [h6]
  obtain ⟨ring, hring, hside⟩ := (any_eq_true _ _).mp h7
  have hok : ring.sideOf 2 = .ok .receiver := by
    have hopt := of_decide_eq_true hside
    cases hr : ring.sideOf 2 with
    | error => simp [hr, Except.toOption] at hopt
    | ok => simpa [hr, Except.toOption] using hopt
  exact ⟨s, hs, ⟨h1, ⟨hunowed 1, h2⟩, isNone_iff_eq_none.mp h3⟩, ring, h4, ⟨hunowed 2, h5⟩,
    hring, hok, h8⟩

/-! ## What a step can do -/

/-- Places of a thread that is neither asleep nor about to change the table. -/
def Pc.idle : Pc → Bool
  | .outside | .claiming _ _ | .looking _ | .checking _ => true
  | _ => false

/-- The steps, one constructor for each thing that can happen to the table, to a thread's
position or to its parking. -/
inductive Move (s : State) : Label → State → Prop
  | refused {l : Label} : Move s l s
  | ipc {l : Ipc.Label} {i : Ipc.State} (hmay : s.mayCall l = true)
      (h : Ipc.step s.ipc l = some i) : Move s (.ipc l) { s with ipc := i }
  | createRefused {t : ThreadId} {quota : Quotas.Quota} {slots : BitVec 32} {i : Ipc.State}
      (hout : s.pc t = .outside) (h : Ipc.step s.ipc (.create t quota 1) = some i) :
      Move s (.create t quota slots) { s with ipc := i }
  | created {t : ThreadId} {quota : Quotas.Quota} {slots : BitVec 32} {i : Ipc.State}
      (hout : s.pc t = .outside) (h : Ipc.step s.ipc (.create t quota 1) = some i)
      (hid : i.registry.nextId = s.ipc.registry.nextId + 1) : Move s (.create t quota slots)
        ({ s with ipc := i }.goto t (.creating s.ipc.registry.nextId slots))
  /-- A thread that is not parked moves. -/
  | moved {l : Label} {t : ThreadId} {pc : Pc} (hpc : pc.idle = true)
      (hb : s.ipc.parking.blocked t = false ∨ s.pc t ≠ .outside ∧ ∀ e, s.pc t ≠ .parked e) :
      Move s l (s.goto t pc)
  | inserted {t : ThreadId} {e : Nat} {slots : BitVec 32} {frames : List Nat}
      (hpc : s.pc t = .creating e slots) : Move s (.insert t (some frames)) ({ s with
        rings := update s.rings e (some (fresh t frames slots))
        counter := update s.counter e fun _ => 0
        departed := update s.departed e fun _ => false }.goto t .outside)
  | claimed {t : ThreadId} {e : Nat} {side : Side} {address : Option Nat} {res : List Nat × Nat}
      {rings : Table} (hpc : s.pc t = .claiming e side)
      (h : Ring.claim s.rings t e side address = .ok (res, rings)) :
      Move s (.claim t address) ({ s with
        rings := rings
        departed := update s.departed e (update (s.departed e) side false) }.goto t .outside)
  | published {l : Label} {counter : Nat → Side → BitVec 32} :
      Move s l { s with counter := counter }
  | registered {t : ThreadId} {e : Nat} {ring : Ring} {side : Side} (hpc : s.pc t = .looking e)
      (hring : s.rings e = some ring) (hside : ring.sideOf t = .ok side)
      (hready : ring.readyFor (s.counter e .sender) (s.counter e .receiver) side = false) :
      Move s (.look t) ({ s with rings := update s.rings e (some { ring with
        sleeping := update ring.sleeping side (some t) }) }.goto t (.registered e))
  | blockWoken {t : ThreadId} {e : Nat} {i : Ipc.State} (hpc : s.pc t = .registered e)
      (h : Ipc.step s.ipc (.elsewhere t) = some i) (hw : s.ipc.parking.wakePending t = true) :
      Move s (.block t) ({ s with ipc := i }.goto t (.checking e))
  | blockParked {t : ThreadId} {e : Nat} {i : Ipc.State} (hpc : s.pc t = .registered e)
      (h : Ipc.step s.ipc (.elsewhere t) = some i) (hw : s.ipc.parking.wakePending t = false) :
      Move s (.block t) ({ s with ipc := i }.goto t (.parked e))
  | woken {t : ThreadId} {e : Nat} {sleeper : Option ThreadId} {rings : Table}
      (h : Ring.wake s.rings t e = .ok (sleeper, rings)) :
      Move s (.wake t e) { s with rings := rings, ipc := s.ipc.owe sleeper }
  | exit {t : ThreadId} (hf : s.free t = true) : Move s (.exit t) ({ s with
      rings := releaseThread s.rings t
      departed := fun e side => s.departed e side || s.maps t e side }.goto t .leaving)

variable {s : State} {t : ThreadId}

theorem State.free_iff : s.free t = true ↔
    s.ipc.parking.blocked t = false ∧ s.ipc.pc t = .outside ∧ s.pc t = .outside := by
  simp [free, Ipc.State.free_iff, and_assoc]

variable {s' : State} {l : Label}

theorem step_cases (h : step s l = some s') : Move s l s' := by
  cases l with
  | ipc =>
    obtain ⟨hmay, h⟩ := ite_none_right_eq_some.mp h
    obtain ⟨i, hi, rfl⟩ := map_eq_some_iff.mp h
    exact .ipc hmay hi
  | create t quota slots =>
    obtain ⟨hout, h⟩ := ite_none_right_eq_some.mp h
    split at h
    case isFalse =>
      cases h
      exact .refused
    obtain ⟨i, hi, rfl⟩ := map_eq_some_iff.mp h
    split
    · exact .createRefused hout hi
    rename_i e hres
    obtain ⟨rfl, hid, -⟩ := Ipc.Registry.create_ok hres
    refine .created hout hi ?_
    obtain ⟨-, rfl⟩ := Machine.of_guard hi
    exact hid
  | insert t frames =>
    simp only [step] at h
    split at h
    · rename_i e slots hpc
      cases h
      exact .moved rfl (.inr (by simp [hpc]))
    · rename_i e slots frames hpc
      obtain ⟨-, rfl⟩ := Machine.of_guard h
      exact .inserted hpc
    · cases h
  | map =>
    obtain ⟨hf, rfl⟩ := Machine.of_guard h
    split
    · exact .moved rfl (.inl (State.free_iff.mp hf).1)
    · exact .refused
  | claim t address =>
    simp only [step] at h
    split at h
    case h_2 => cases h
    rename_i e side hpc
    split at h
    · cases h
      exact .moved rfl (.inr (by simp [hpc]))
    · rename_i res rings hclaim
      cases h
      exact .claimed hpc hclaim
  | publish =>
    obtain ⟨-, rfl⟩ := Machine.of_guard h
    exact .published
  | wait =>
    obtain ⟨hf, rfl⟩ := Machine.of_guard h
    exact .moved rfl (.inl (State.free_iff.mp hf).1)
  | look t =>
    simp only [step] at h
    split at h
    case h_2 => cases h
    rename_i e hpc
    split at h
    · cases h
      exact .moved rfl (.inr (by simp [hpc]))
    rename_i park rings hround
    cases h
    obtain ⟨ring, side, hring, hside, hpark, ⟨rfl, rfl⟩ | ⟨rfl, rfl⟩⟩ := waitRound_ok hround
    · exact .moved rfl (.inr (by simp [hpc]))
    · exact .registered hpc hring hside (by simpa using hpark.symm)
  | block t =>
    simp only [step] at h
    split at h
    case h_2 => cases h
    rename_i e hpc
    obtain ⟨i, hi, rfl⟩ := map_eq_some_iff.mp h
    cases hw : s.ipc.parking.wakePending t with
    | true =>
      rw [blockCurrent_of_wake hw]
      exact .blockWoken hpc hi hw
    | false =>
      rw [blockCurrent_of_no_wake hw]
      exact .blockParked hpc hi hw
  | resume t =>
    simp only [step] at h
    split at h
    case h_2 => cases h
    split at h
    case isTrue => cases h
    rename_i hb
    cases h
    exact .moved rfl (.inl (by simpa using hb))
  | check t =>
    simp only [step] at h
    split at h
    case h_2 => cases h
    rename_i e hpc
    split at h
    · cases h
      exact .moved rfl (.inr (by simp [hpc]))
    · cases h
      exact .moved rfl (.inr (by simp [hpc]))
  | wake t e =>
    obtain ⟨-, h⟩ := ite_none_right_eq_some.mp h
    split at h
    · cases h
      exact .refused
    · rename_i sleeper rings hwake
      cases h
      exact .woken hwake
  | exit =>
    obtain ⟨hf, rfl⟩ := Machine.of_guard h
    exact .exit hf

/-! ## Runs without bereavement -/

/-- Nobody exits on somebody who sleeps, and nobody goes to sleep on a ring the other side
has left. -/
def Considerate (s : State) : Label → Prop
  | .ipc (.exit t) => ∀ u e, Ipc.DozesOn s.ipc u e → ∀ q ∈ s.ipc.registry.endpoints e, q.owner ≠ t
  | .exit t => ∀ u e, DozesOn s u e → ∀ ring ∈ s.rings e, ∀ side, ring.holder side ≠ some t
  | .look t => ∀ e, s.pc t = .looking e → ∀ ring ∈ s.rings e, ∀ side,
    ring.sideOf t = .ok side → s.departed e side.other = true →
    ring.readyFor (s.counter e .sender) (s.counter e .receiver) side = true
  | _ => True

/-- A thread that sleeps on a ring has a side of it, and the other side has not exited. -/
def Company (s : State) (t : ThreadId) (e : Nat) : Prop :=
  ∃ ring side, s.rings e = some ring ∧ ring.sideOf t = .ok side ∧ s.departed e side.other = false

/-- What every state of a considerate run satisfies. -/
structure Inv (s : State) : Prop where
  settled : Ipc.Settled s.ipc
  attended : Ipc.Attended s.ipc
  /-- Threads park in `wait`, or outside of it. -/
  awake : ∀ t, s.ipc.parking.blocked t = true → s.pc t = .outside ∨ ∃ e, s.pc t = .parked e
  /-- Rings have ids that were handed out. -/
  known : ∀ e, (s.rings e).isSome = true → e < s.ipc.registry.nextId
  /-- A ring that is being made is not in the table, and has one maker. -/
  making : ∀ t e slots, s.pc t = .creating e slots →
    e < s.ipc.registry.nextId ∧ s.rings e = none ∧ ∀ u slots', s.pc u = .creating e slots' → u = t
  company : ∀ t e, DozesOn s t e → Company s t e

theorem initial_inv : Inv .initial where
  settled := Ipc.initial_inv.toSettled
  attended t e hd := by simp [State.initial, Ipc.initial, Ipc.DozesOn] at hd
  awake t ht := .inl rfl
  known e he := by simp [State.initial] at he
  making t e slots h := by simp [State.initial] at h
  company t e hd := by simp [State.initial, DozesOn] at hd

/-- A thread at any other place is not blocked. -/
theorem Inv.not_blocked (hi : Inv s) (h : s.pc t ≠ .outside ∧ ∀ e, s.pc t ≠ .parked e) :
    s.ipc.parking.blocked t = false := by
  by_contra hb
  rcases hi.awake t (by simpa using hb) with ho | ⟨e, hp⟩
  · exact h.1 ho
  · exact h.2 e hp

theorem goto_pc_of_ne (s : State) {u : ThreadId} (h : u ≠ t) (pc : Pc) :
    (s.goto t pc).pc u = s.pc u := by
  simp [h]

@[simp] theorem goto_pc_self (s : State) (t : ThreadId) (pc : Pc) : (s.goto t pc).pc t = pc := by
  simp

/-- The steps of `receive`'s side: what becomes of endpoints and of who sleeps on them. -/
theorem ipc_step (hi : Inv s) (hok : Considerate s l)
    (h : Move s l s') : Ipc.Settled s'.ipc ∧ Ipc.Attended s'.ipc := by
  cases h with
  | @ipc l i hmay h =>
    refine ⟨Ipc.settled_step hi.settled h, Ipc.attended_step hi.settled hi.attended h ?_⟩
    rintro u rfl
    exact hok
  | createRefused hout h | created hout h | blockWoken hpc h | blockParked hpc h =>
    exact ⟨Ipc.settled_step hi.settled h, Ipc.attended_step hi.settled hi.attended h (by simp)⟩
  | woken =>
    refine ⟨⟨hi.settled.fresh, hi.settled.known, hi.settled.parks⟩, fun t e hd => ?_⟩
    exact hi.attended t e (hd.imp (And.imp_right .of_owe) (And.imp_right .of_owe))
  | _ => exact ⟨hi.settled, hi.attended⟩

/-- A step of somebody at the endpoints is by a thread that is at no ring, or the second
half of an exit. -/
theorem outside_of_mayCall {l : Ipc.Label} (h : s.mayCall l = true)
    (ht : l.actor = some t) : s.pc t = .outside ∨ l = .exit t ∧ s.pc t = .leaving := by
  cases l with
  | exit =>
    cases ht
    exact .inr ⟨rfl, of_decide_eq_true h⟩
  | _ =>
    left
    simpa [State.mayCall, ht] using h

theorem awake_step (hi : Inv s) (h : Move s l s') :
    s'.ipc.parking.Rests s'.pc fun pc => pc = .outside ∨ ∃ e, pc = .parked e := by
  have hrests : s.ipc.parking.Rests s.pc fun pc => pc = .outside ∨ ∃ e, pc = .parked e := hi.awake
  cases h with
  | @ipc l i hmay h =>
    intro t hb
    by_cases hact : l.actor = some t
    · rcases outside_of_mayCall hmay hact with hout | ⟨rfl, _⟩
      · exact .inl hout
      · -- It exits, which parks nobody.
        obtain ⟨-, rfl⟩ := Machine.of_guard h
        exact hi.awake t hb
    · exact hi.awake t (Ipc.blocked_of_step h hact hb)
  | @createRefused u quota slots i hout h =>
    intro t hb
    by_cases hut : t = u
    · exact .inl (hut ▸ hout)
    · exact hi.awake t (Ipc.blocked_of_step h (by simpa [Ipc.Label.actor] using Ne.symm hut) hb)
  | created hout h =>
    obtain ⟨hf, rfl⟩ := Machine.of_guard h
    exact hrests.goto (.inl (Ipc.State.free_iff.mp hf).1)
  | blockWoken hpc h hw =>
    obtain ⟨hf, rfl⟩ := Machine.of_guard h
    exact hrests.block_goto (.inl ⟨(Ipc.State.free_iff.mp hf).1, hw⟩)
  | blockParked hpc h =>
    obtain ⟨-, rfl⟩ := Machine.of_guard h
    exact hrests.block_goto (.inr (.inr ⟨_, rfl⟩))
  | moved hpc hu => exact hrests.goto (.inl (hu.elim id hi.not_blocked))
  | inserted hpc | claimed hpc | registered hpc =>
    exact hrests.goto (.inl (hi.not_blocked (by simp [hpc])))
  | exit hf => exact hrests.goto (.inl (State.free_iff.mp hf).1)
  | refused | published | woken => exact hrests

/-! ### The table and its makers -/

/-- Steps other than `create` leave rings where they are, put one under an id that was
taken for it, or take rings away. -/
theorem rings_step (h : Move s l s') (e : Nat) : (s.rings e = none → s'.rings e = none) ∨
      ∃ t slots, s.pc t = .creating e slots ∧ s'.pc t = .outside := by
  have hupdate : ∀ {e₀ : Nat} {ring ring' : Ring}, s.rings e₀ = some ring → s.rings e = none →
      update s.rings e₀ (some ring') e = none := by
    intro e₀ ring ring' hring hnone
    rw [update_of_ne]
    · exact hnone
    · rintro rfl
      cases hring.symm.trans hnone
  cases h with
  | @inserted t e₀ slots frames hpc =>
    by_cases he : e = e₀
    · subst he
      exact .inr ⟨t, slots, hpc, goto_pc_self _ _ _⟩
    · exact .inl fun hnone => by simpa [he] using hnone
  | claimed hpc h =>
    rcases claim_ok h with rfl | ⟨ring, a, hring, -, rfl⟩
    · exact .inl id
    · exact .inl (hupdate hring)
  | registered hpc hring => exact .inl (hupdate hring)
  | woken h =>
    obtain ⟨ring, _, hring, rfl⟩ := wake_ok h
    exact .inl (hupdate hring)
  | exit => exact .inl fun hnone => by simp [releaseThread, hnone]
  | _ => exact .inl id

theorem nextId_step (h : Move s l s') : s.ipc.registry.nextId ≤ s'.ipc.registry.nextId := by
  cases h with
  | ipc hmay h | createRefused hout h | created hout h | blockWoken hpc h | blockParked hpc h =>
    exact Ipc.nextId_step h
  | _ => exact le_rfl

variable {e : Nat}

/-- A thread that is making a ring was already, or has just been given the next id. -/
theorem creating_of_step (h : Move s l s') {slots : BitVec 32} (hpc : s'.pc t = .creating e slots) :
    s.pc t = .creating e slots ∨ e = s.ipc.registry.nextId ∧ s'.ipc.registry.nextId = e + 1 ∧
        (∀ u, u ≠ t → s'.pc u = s.pc u) ∧ s'.rings = s.rings := by
  have hold : ∀ {u : ThreadId} {pc : Pc} {s₀ : State}, s₀.pc = s.pc →
      (∀ e slots, pc ≠ .creating e slots) → (s₀.goto u pc).pc t = .creating e slots →
      s.pc t = .creating e slots := by
    intro u pc s₀ hpc₀ hnot h
    by_cases htu : t = u
    · subst htu
      exact absurd ((goto_pc_self _ _ _).symm.trans h) (hnot e slots)
    · rwa [goto_pc_of_ne _ htu, hpc₀] at h
  cases h with
  | @created u quota slots' i hout h hid =>
    by_cases htu : t = u
    · subst htu
      obtain ⟨rfl, rfl⟩ : s.ipc.registry.nextId = e ∧ slots' = slots := by
        simpa using hpc
      exact .inr ⟨rfl, hid, fun u hu => goto_pc_of_ne _ hu _, rfl⟩
    · rw [goto_pc_of_ne _ htu] at hpc
      exact .inl hpc
  | moved hidle => exact .inl (hold rfl (by rintro e slots rfl; cases hidle) hpc)
  | inserted | claimed | registered | blockWoken | blockParked | exit =>
    exact .inl (hold rfl (by simp) hpc)
  | _ => exact .inl hpc

theorem known_step (hi : Inv s) (h : Move s l s') :
    ∀ e, (s'.rings e).isSome = true → e < s'.ipc.registry.nextId := by
  intro e he
  refine Nat.lt_of_lt_of_le ?_ (nextId_step h)
  rcases rings_step h e with hnone | ⟨t, slots, hpc, -⟩
  · refine hi.known e ?_
    by_contra hn
    simp [hnone (by simpa using hn)] at he
  · exact (hi.making t e slots hpc).1

theorem making_step (hi : Inv s) (h : Move s l s') :
    ∀ t e slots, s'.pc t = .creating e slots → e < s'.ipc.registry.nextId ∧ s'.rings e = none ∧
      ∀ u slots', s'.pc u = .creating e slots' → u = t := by
  intro t e slots hpc
  rcases creating_of_step h hpc with hold | ⟨rfl, _, hothers, hrings⟩
  · obtain ⟨hlt, hnone, huniq⟩ := hi.making t e slots hold
    refine ⟨hlt.trans_le (nextId_step h), ?_, fun u slots' hu => ?_⟩
    · rcases rings_step h e with hkeep | ⟨u, slots', hu, hout⟩
      · exact hkeep hnone
      · -- Nobody else puts a ring there, and `t` is still at it.
        obtain rfl := huniq u slots' hu
        cases hpc.symm.trans hout
    · rcases creating_of_step h hu with hold' | ⟨rfl, -⟩
      · exact huniq u slots' hold'
      · exact absurd hlt (lt_irrefl _)
  · refine ⟨by omega, ?_, fun u slots' hu => ?_⟩
    · rw [hrings]
      by_contra hne
      exact absurd (hi.known _ (isSome_iff_ne_none.mpr hne)) (lt_irrefl _)
    · by_contra hut
      rw [hothers u hut] at hu
      exact absurd (hi.making u _ slots' hu).1 (lt_irrefl _)

/-! ### Who is asleep, and on what -/

/-- Company lasts while the thread keeps its side and nobody on the other side exits. -/
theorem Company.mono (h : Company s t e)
    (hrings : ∀ ring, s.rings e = some ring → ∃ ring', s'.rings e = some ring' ∧
      ∀ side, ring'.holder side = some t ↔ ring.holder side = some t)
    (hdeparted : ∀ side, s.departed e side = false → s'.departed e side = false) :
    Company s' t e := by
  obtain ⟨ring, side, hring, hside, hother⟩ := h
  obtain ⟨ring', hring', hholder⟩ := hrings ring hring
  exact ⟨ring', side, hring', (sideOf_congr hholder).trans hside, hdeparted _ hother⟩

/-- The record of who is sleeping does not matter for who has which side. -/
theorem Company.sleeping {e₀ : Nat} (h : Company s t e)
    {ring : Ring} {sleeping : Side → Option ThreadId} (hring : s.rings e₀ = some ring)
    (hrings : s'.rings = update s.rings e₀ (some { ring with sleeping := sleeping }))
    (hdeparted : s'.departed = s.departed) : Company s' t e := by
  refine h.mono (fun ring₁ hring₁ => ?_) (fun side hd => by rw [hdeparted]; exact hd)
  rw [hrings]
  by_cases he : e = e₀
  · subst he
    cases hring.symm.trans hring₁
    exact ⟨_, update_self .., fun _ => Iff.rfl⟩
  · exact ⟨ring₁, by rw [update_of_ne he, hring₁], fun _ => Iff.rfl⟩

theorem DozesOn.pc (h : DozesOn s t e) : s.pc t = .registered e ∨ s.pc t = .parked e :=
  h.imp And.left And.left

/-- A thread that dozes after others have moved dozed before. -/
theorem DozesOn.before (hi : Inv s) (h : DozesOn s' t e) (hpc : s'.pc t = s.pc t)
    (hu : ∀ parked, (parked = false → s.ipc.parking.blocked t = false) →
      Unwoken s'.ipc t parked → Unwoken s.ipc t parked) : DozesOn s t e := by
  rw [DozesOn, hpc] at h
  rcases h with ⟨hp, hw⟩ | ⟨hp, hw⟩
  · exact .inl ⟨hp, hu false (fun _ => hi.not_blocked (by simp [hp])) hw⟩
  · exact .inr ⟨hp, hu true (by simp) hw⟩

theorem company_step (hi : Inv s) (hok : Considerate s l)
    (h : Move s l s') : ∀ t e, DozesOn s' t e → Company s' t e := by
  intro t e hd
  have hpc' := hd.pc
  -- A thread that went elsewhere is not the sleeper.
  have hne : ∀ {u : ThreadId} {pc : Pc} {s₀ : State}, s' = s₀.goto u pc →
      pc ≠ .registered e → pc ≠ .parked e → t ≠ u := by
    rintro u pc s₀ rfl hreg hpark rfl
    rw [goto_pc_self] at hpc'
    exact hpc'.elim hreg hpark
  -- A bystander dozed before.
  have hby : ∀ {u : ThreadId} {pc : Pc} {s₀ : State}, s' = s₀.goto u pc → s₀.pc = s.pc → t ≠ u →
      (∀ parked, (parked = false → s.ipc.parking.blocked t = false) →
        Unwoken s'.ipc t parked → Unwoken s.ipc t parked) → DozesOn s t e := by
    rintro u pc s₀ rfl hs₀ htu
    exact hd.before hi ((goto_pc_of_ne _ htu _).trans (by rw [hs₀]))
  cases h with
  | refused | published => exact hi.company t e hd
  | @ipc l i hmay h =>
    have hact : l.actor ≠ some t := by
      intro hact
      rcases outside_of_mayCall hmay hact with ho | ⟨-, ho⟩ <;>
        rcases hpc' with hp | hp <;> cases hp.symm.trans ho
    exact hi.company t e (hd.before hi rfl fun _ hb hu => Ipc.unwoken_of_step h hact hb hu)
  | @createRefused u quota slots i hout h =>
    have htu : u ≠ t := by
      rintro rfl
      rcases hpc' with hp | hp <;> cases hp.symm.trans hout
    exact hi.company t e (hd.before hi rfl fun _ hb hu =>
      Ipc.unwoken_of_step h (by simpa [Ipc.Label.actor] using htu) hb hu)
  | @created u quota slots i hout h | @blockWoken u e₀ i hpc h =>
    have htu := hne rfl (by simp) (by simp)
    exact hi.company t e (hby rfl rfl htu fun _ hb hu =>
      Ipc.unwoken_of_step h (by simpa [Ipc.Label.actor] using Ne.symm htu) hb hu)
  | @moved l u pc hidle =>
    have htu := hne rfl (by rintro rfl; cases hidle) (by rintro rfl; cases hidle)
    exact hi.company t e (hby rfl rfl htu fun _ _ hu => hu)
  | @inserted u e₀ slots frames hpc =>
    have htu := hne rfl (by simp) (by simp)
    have hc := hi.company t e (hby rfl rfl htu fun _ _ hu => hu)
    -- The ring that is entered was not in the table, so it is another one.
    have he : e ≠ e₀ := by
      rintro rfl
      obtain ⟨ring, -, hring, -⟩ := hc
      exact absurd (hring.symm.trans (hi.making u e slots hpc).2.1) (by simp)
    refine hc.mono (fun ring hring => ⟨ring, ?_, fun _ => Iff.rfl⟩) fun side hdep => ?_
    · simpa [he] using hring
    · simpa [he] using hdep
  | @claimed u e₀ side₀ address res rings hpc h =>
    have htu := hne rfl (by simp) (by simp)
    have hc := hi.company t e (hby rfl rfl htu fun _ _ hu => hu)
    refine hc.mono (fun ring hring => ?_) fun side hdep => ?_
    · rcases claim_ok h with rfl | ⟨ring₀, a, hring₀, hfree, rfl⟩
      · exact ⟨ring, hring, fun _ => Iff.rfl⟩
      by_cases he : e = e₀
      · subst he
        cases hring₀.symm.trans hring
        refine ⟨_, update_self .., fun side => ?_⟩
        by_cases hs : side = side₀
        · subst hs
          simp [holder, hfree, Ne.symm htu]
        · simp [holder, hs]
      · exact ⟨ring, (update_of_ne he ..).trans hring, fun _ => Iff.rfl⟩
    · by_cases he : e = e₀
      · subst he
        by_cases hs : side = side₀
        · subst hs
          simp
        · simpa [hs] using hdep
      · simpa [he] using hdep
  | @registered u e₀ ring side hpc hring hside hready =>
    by_cases htu : t = u
    · subst htu
      obtain rfl : e₀ = e := by simpa using hpc'
      refine ⟨_, side, update_self .., hside, ?_⟩
      by_contra hdep
      have hgone : s.departed e₀ side.other = true := by simpa using hdep
      exact absurd (hready.symm.trans (hok e₀ hpc ring hring side hside hgone)) (by simp)
    · have hc := hi.company t e (hby rfl rfl htu fun _ _ hu => hu)
      exact hc.sleeping hring rfl rfl
  | @blockParked u e₀ i hpc h hw =>
    by_cases htu : t = u
    · subst htu
      obtain rfl : e₀ = e := by simpa using hpc'
      obtain ⟨-, rfl⟩ := Machine.of_guard h
      have hnot : t ∉ s.ipc.owed := by
        rcases hd with hd | hd
        · exact hd.2.1
        · exact hd.2.1
      exact hi.company t e₀ (.inl ⟨hpc, hnot, hw⟩)
    · exact hi.company t e (hby rfl rfl htu fun _ hb hu =>
        Ipc.unwoken_of_step h (by simpa [Ipc.Label.actor] using Ne.symm htu) hb hu)
  | @woken u e₀ sleeper rings h =>
    obtain ⟨ring, _, hring, rfl⟩ := wake_ok h
    have hc := hi.company t e (hd.before hi rfl fun _ _ hu => hu.of_owe)
    exact hc.sleeping hring rfl rfl
  | @exit u =>
    have htu := hne rfl (by simp) (by simp)
    have hold := hby rfl rfl htu fun _ _ hu => hu
    obtain ⟨ring, side, hring, hside, hdep⟩ := hi.company t e hold
    refine ⟨ring.withdraw u, side, ?_, ?_, ?_⟩
    · exact releaseThread_of_holder htu hring (holder_of_sideOf hside)
    · exact (sideOf_congr fun x => holder_withdraw htu x).trans hside
    · have hmaps : s.maps u e side.other = false := by
        simpa [State.maps, hring] using hok t e hold ring hring side.other
      simp [hdep, hmaps]

theorem inv_step (hi : Inv s) (hok : Considerate s l) (h : step s l = some s') : Inv s' :=
  have hm := step_cases h
  ⟨(ipc_step hi hok hm).1, (ipc_step hi hok hm).2, awake_step hi hm, known_step hi hm,
    making_step hi hm, company_step hi hok hm⟩

/-- **Nobody sleeps on what is gone** in a run in which no thread exits while another
sleeps on one of its endpoints or on the other side of one of its rings, and none goes to
sleep on a ring the other side of which has exited: every thread that is parked without
a wake on its way is parked on an endpoint that exists, or on a ring it has a side of and
whose other side has not exited. -/
theorem nobody_bereft {s : State} (h : machine.Reaches Considerate s) :
    (∀ t e, s.ipc.pc t = .parked e → Unwoken s.ipc t true →
      (s.ipc.registry.endpoints e).isSome = true) ∧
    ∀ t e, s.pc t = .parked e → Unwoken s.ipc t true →
      ∃ ring side, s.rings e = some ring ∧ ring.sideOf t = .ok side ∧
        s.departed e side.other = false := by
  have hi : Inv s := h.invariant_from initial_inv inv_step
  exact ⟨fun t e hpc hu => hi.attended t e (.inr ⟨hpc, hu⟩),
    fun t e hpc hu => hi.company t e (.inr ⟨hpc, hu⟩)⟩

/-- Nobody exits. -/
def Staying (s : State) : Label → Bool
  | .exit _ | .ipc (.exit _) => false
  | .look t =>
    match s.pc t with
    | .looking e => !s.departed e .sender && !s.departed e .receiver
    | _ => true
  | _ => true

theorem considerate_of_staying (h : Staying s l = true) : Considerate s l := by
  cases l with
  | exit => cases h
  | ipc l =>
    cases l with
    | exit => cases h
    | _ => trivial
  | look =>
    intro e hpc ring _ side _ hdep
    simp only [Staying, hpc, Bool.and_eq_true, Bool.not_eq_true'] at h
    cases side <;> simp [Side.other, h] at hdep
  | _ => trivial

/-- The receiver of a ring is parked, and its sender is there. -/
theorem nobody_bereft_receiver : ∃ s, machine.Reaches Considerate s ∧
    (s.pc 0 = .parked 1 ∧ Unwoken s.ipc 0 true) ∧
    ∃ ring side, s.rings 1 = some ring ∧ ring.sideOf 0 = .ok side ∧
      s.departed 1 side.other = false := by
  obtain ⟨s, hs, hpc, hb, howed⟩ := machine.exists_reaches (fun s l => Staying s l = true)
    [.create 0 ⟨1, 1, 0, 0⟩ 2, .insert 0 (some [10, 11, 12, 13]), .ipc (.grant 0 1 1 1 .send),
      .map 0 1 .receiver, .claim 0 (some 4096), .map 1 1 .sender, .claim 1 (some 8192),
      .wait 0 1, .look 0, .block 0]
    (fun s => s.pc 0 = .parked 1 ∧ s.ipc.parking.blocked 0 = true ∧ s.ipc.owed = []) rfl (by decide)
  have hreach : machine.Reaches Considerate s := hs.mono fun _ _ => considerate_of_staying
  have hu : Unwoken s.ipc 0 true := ⟨by simp [howed], hb⟩
  exact ⟨s, hreach, ⟨hpc, hu⟩, (nobody_bereft hreach).2 0 1 hpc hu⟩

end Ring
end Panda
