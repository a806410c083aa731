import PandaProof.RingChannel

/-!
# One side running alone

What a call does when the other side stands still: an attempt that finds something to
do copies the whole slot and publishes, one that does not is repeated until the side
goes to sleep.  These runs are the pieces from which particular schedules are put
together.
-/
namespace Panda.Channel

open Function State
open Ipc (ThreadId)
open Panda.Ring (Side)

variable {c : Config} {s s' : State} {side : Side}

/-- What a side does alone. -/
abbrev Goes (c : Config) (side : Side) : State → State → Prop :=
  (machine c).Leads fun _ l => l = .go side

/-- Whether a side that looks now finds something to do. -/
abbrev finds (c : Config) (s : State) (side : Side) : Bool :=
  (queued c (s.counter .sender) (s.counter .receiver)).any (ready c side)

theorem leads_go (hs : go c s side = some s') : Goes c side s s' :=
  .step (a := Label.go side) .refl rfl hs

theorem setPc_setPc (s : State) (side : Side) (pc pc' : Pc) :
    (s.setPc side pc).setPc side pc' = s.setPc side pc' := by
  simp [setPc]

@[simp] theorem setPc_self (s : State) (side : Side) (pc : Pc) :
    (s.setPc side pc).pc side = pc := by
  simp [setPc]

theorem setPc_of_ne {x : Side} (s : State) (pc : Pc) (h : x ≠ side) :
    (s.setPc side pc).pc x = s.pc x := by
  simp [setPc, h]

section

variable (hrun : s.parking.blocked (c.thread side) = false)
include hrun

/-- The first two loads of an attempt. -/
theorem leads_loads (hpc : s.pc side = .start) : Goes c side s
      (s.setPc side (.loadHead (s.counter side) (s.counter .sender))) := by
  have hstart : go c s side = some (s.setPc side (.loadTail (s.counter side))) := by
    simp [go, hrun, hpc]
  have htail : go c (s.setPc side (.loadTail (s.counter side))) side =
      some (s.setPc side (.loadHead (s.counter side) (s.counter .sender))) := by
    simp [go, hrun, setPc]
  exact (leads_go hstart).trans (leads_go htail)

/-- An attempt that finds something to do. -/
theorem leads_copy (hpc : s.pc side = .start)
    (hready : finds c s side = true) :
    Goes c side s (s.setPc side (.copy (s.counter side) 0)) := by
  refine (leads_loads hrun hpc).trans (leads_go ?_)
  simp [go, hrun, setPc, hready]

/-- An attempt that does not. -/
theorem leads_failed (hpc : s.pc side = .start)
    (hready : finds c s side = false) :
    Goes c side s
      ((s.setPc side (.loadHead (s.counter side) (s.counter .sender))).failed side) := by
  refine (leads_loads hrun hpc).trans (leads_go ?_)
  simp [go, hrun, setPc, hready]

/-- A call that waits tries `spins` times and then goes to sleep. -/
theorem leads_raise (hpc : s.pc side = .start)
    (hready : finds c s side = false)
    {k : Nat} (hk : k < spins) (hattempts : s.attempts side = some k) :
    Goes c side s
      ({ s with attempts := update s.attempts side (some (spins - 1)) }.setPc side .raise) := by
  -- By induction on the attempts left.
  obtain ⟨n, _⟩ : ∃ n, k + 1 + n = spins := ⟨spins - (k + 1), by omega⟩
  induction n generalizing s k with
  | zero =>
    have h := leads_failed hrun hpc hready
    have hlast : spins - 1 = k := by omega
    have hsame : update s.attempts side (some (spins - 1)) = s.attempts := by
      rw [hlast, ← hattempts, update_eq_self]
    have hstate : (s.setPc side (.loadHead (s.counter side) (s.counter .sender))).failed side =
        s.setPc side .raise := by
      simp [failed, setPc, hattempts, show ¬k + 1 < spins by omega]
    rw [hstate] at h
    rw [hsame]
    exact h
  | succ n ih =>
    have hk' : k + 1 < spins := by omega
    have h := leads_failed hrun hpc hready
    have hstate : (s.setPc side (.loadHead (s.counter side) (s.counter .sender))).failed side =
        { s with attempts := update s.attempts side (some (k + 1)) }.setPc side .start := by
      simp [failed, setPc, hattempts, hk']
    rw [hstate] at h
    have hrest := ih
      (s := { s with attempts := update s.attempts side (some (k + 1)) }.setPc side .start)
      hrun (setPc_self _ _ _) (by simpa only [setPc] using hready) hk' (update_self ..) (by omega)
    have hstate' : { { s with
          attempts := update s.attempts side (some (k + 1)) }.setPc side .start with
            attempts := update (update s.attempts side (some (k + 1))) side
              (some (spins - 1)) }.setPc side .raise =
        { s with attempts := update s.attempts side (some (spins - 1)) }.setPc side .raise := by
      simp [setPc, update_idem]
    rw [← hstate']
    exact h.trans hrest

/-- The slot, or the receiver's buffer, after the bytes from `i` on were copied. -/
def copyFrom (c : Config) (s : State) (side : Side) (mine : BitVec 32) (i : Nat) : State :=
  let slot := slotOf c mine
  match side with
  | .sender => { s with
      data := update s.data slot
        fun b => if i ≤ b.val then s.message .sender b else s.data slot b }
  | .receiver => { s with
      message := update s.message .receiver
        fun b => if i ≤ b.val then s.data slot b else s.message .receiver b }

theorem go_copy {mine : BitVec 32} {i : Fin 64}
    (hpc : s.pc side = .copy mine i) : go c s side = some ((copyByte c s side mine i).setPc side
      (.afterByte mine i)) := by
  simp [go, hrun, hpc]

end

/-- Copying one byte leaves the bytes after it. -/
theorem copyFrom_copyByte (s : State) (side : Side) (mine : BitVec 32) (i : Fin 64) (pc : Pc) :
    copyFrom c ((copyByte c s side mine i).setPc side pc) side mine (i.val + 1) =
      (copyFrom c s side mine i.val).setPc side pc := by
  have hbytes : ∀ (new old : Slot), (fun b : Fin 64 => if i.val + 1 ≤ b.val then new b else
      update old i (new i) b) = fun b => if i.val ≤ b.val then new b else old b := by
    intro new old
    funext b
    rcases Nat.lt_trichotomy i.val b.val with hb | hb | hb
    · rw [if_pos (by omega), if_pos (by omega)]
    · obtain rfl := Fin.ext hb
      simp
    · have hne : b ≠ i := fun heq => by subst heq; omega
      rw [if_neg (by omega), if_neg (by omega), update_of_ne hne]
  cases side <;>
    simp only [copyFrom, copyByte, setPc, update_self, update_idem, hbytes]

theorem copyFrom_all (s : State) (side : Side) (mine : BitVec 32) :
    copyFrom c s side mine 64 = s := by
  have hbytes : ∀ (new old : Slot), (fun b : Fin 64 => if 64 ≤ b.val then new b else old b) =
      old := by
    intro new old
    funext b
    exact if_neg (by omega)
  cases side <;> simp only [copyFrom, hbytes, update_eq_self]

/-- The copy goes through. -/
theorem leads_copied {mine : BitVec 32} {i : Fin 64}
    (hrun : s.parking.blocked (c.thread side) = false) (hpc : s.pc side = .copy mine i) :
    Goes c side s
      ((copyFrom c s side mine i.val).setPc side (.publish mine)) := by
  obtain ⟨n, _⟩ : ∃ n, i.val + 1 + n = 64 := ⟨63 - i.val, by omega⟩
  induction n generalizing s i with
  | zero =>
    have h := go_copy hrun hpc
    rw [Pc.afterByte, dif_neg (by omega)] at h
    have hlast : i.val + 1 = 64 := by omega
    have hall := copyFrom_copyByte (c := c) s side mine i (.publish mine)
    rw [hlast, copyFrom_all] at hall
    rw [← hall]
    exact leads_go h
  | succ n ih =>
    have h := go_copy hrun hpc
    have hlt : i.val + 1 < 64 := by omega
    rw [Pc.afterByte, dif_pos hlt] at h
    have hrun' : ((copyByte c s side mine i).setPc side
        (.copy mine ⟨i.val + 1, hlt⟩)).parking.blocked (c.thread side) = false := by
      cases side <;> exact hrun
    have hrest := ih hrun' (setPc_self _ _ _) (by show i.val + 1 + 1 + n = 64; omega)
    rw [copyFrom_copyByte, setPc_setPc] at hrest
    exact (leads_go h).trans hrest

/-- A call that found something to do, once it has published. -/
def exchanged (c : Config) (s : State) (side : Side) : State :=
  advance (copyFrom c s side (s.counter side) 0) side (s.counter side)

theorem exchanged_sender (s : State) : exchanged c s .sender = { s with
    data := update s.data (slotOf c (s.counter .sender)) (s.message .sender)
    counter := update s.counter .sender (s.counter .sender + 1)
    sent := s.sent ++ [s.message .sender] } := by
  simp [exchanged, copyFrom, advance]

theorem exchanged_receiver (s : State) : exchanged c s .receiver = { s with
    message := update s.message .receiver (s.data (slotOf c (s.counter .receiver)))
    counter := update s.counter .receiver (s.counter .receiver + 1)
    received := s.received ++ [s.data (slotOf c (s.counter .receiver))] } := by
  simp [exchanged, copyFrom, advance]

/-- An attempt that finds something to do goes through. -/
theorem leads_exchanged (hrun : s.parking.blocked (c.thread side) = false)
    (hpc : s.pc side = .start)
    (hready : finds c s side = true) :
    Goes c side s ((exchanged c s side).setPc side .loadFlag) := by
  have hcopied := leads_copied (s := s.setPc side (.copy (s.counter side) 0)) hrun
    (setPc_self _ _ _)
  have hstate : (copyFrom c (s.setPc side (.copy (s.counter side) 0)) side (s.counter side)
      (0 : Fin 64).val).setPc side (.publish (s.counter side)) =
        (copyFrom c s side (s.counter side) 0).setPc side (.publish (s.counter side)) := by
    cases side <;> simp [copyFrom, setPc]
  rw [hstate] at hcopied
  have hrun' : ((copyFrom c s side (s.counter side) 0).setPc side
      (.publish (s.counter side))).parking.blocked (c.thread side) = false := by
    cases side <;> exact hrun
  have hpublish : go c ((copyFrom c s side (s.counter side) 0).setPc side
      (.publish (s.counter side))) side = some ((exchanged c s side).setPc side .loadFlag) := by
    simp only [go, hrun', setPc_self, exchanged]
    cases side <;> simp [setPc, advance, copyFrom]
  exact ((leads_copy hrun hpc hready).trans hcopied).trans (leads_go hpublish)

theorem exchanged_setPc (s : State) (side : Side) (pc : Pc) :
    exchanged c (s.setPc side pc) side = (exchanged c s side).setPc side pc := by
  cases side <;> rfl

theorem setPc_eq_self {pc : Pc} (h : s.pc side = pc) : s.setPc side pc = s := by
  simp [setPc, ← h]

/-- With the other side awake, nothing is left to do after publishing. -/
theorem go_loadFlag_awake (hrun : s.parking.blocked (c.thread side) = false)
    (hpc : s.pc side = .loadFlag) (hflag : s.flag side.other = 0) :
    go c s side = some (s.setPc side .idle) := by
  simp [go, hrun, hpc, hflag]

/-- A call that does not wait, before its first attempt. -/
abbrev begun (s : State) (side : Side) (message : Slot) : State :=
  { s with attempts := update s.attempts side none, message := update s.message side message }

/-- A whole call of `try_send` or `try_receive` that succeeds, with the other side awake. -/
theorem leads_call (hrun : s.parking.blocked (c.thread side) = false) (hpc : s.pc side = .idle)
    (hready : finds c s side = true)
    (hflag : s.flag side.other = 0) (message : Slot) :
    (machine c).Leads (fun _ _ => True) s (exchanged c (begun s side message) side) := by
  have hcall : step c s (.call side false message) =
      some ((begun s side message).setPc side .start) := by
    simp [step, hpc, hrun]
  have hexchanged := leads_exchanged (s := (begun s side message).setPc side .start) hrun
    (setPc_self _ _ _) (by simpa only [setPc] using hready)
  rw [exchanged_setPc, setPc_setPc] at hexchanged
  have hflag' : go c ((exchanged c (begun s side message) side).setPc side .loadFlag) side =
      some (exchanged c (begun s side message) side) := by
    rw [go_loadFlag_awake (by cases side <;> exact hrun) (setPc_self _ _ _)
      (by cases side <;> exact hflag), setPc_setPc]
    congr 1
    exact setPc_eq_self (by cases side <;> exact hpc)
  exact ((Machine.Leads.step (a := Label.call side false message) .refl trivial hcall).trans
    (hexchanged.mono fun _ _ _ => trivial)).trans ((leads_go hflag').mono fun _ _ _ => trivial)

end Panda.Channel
