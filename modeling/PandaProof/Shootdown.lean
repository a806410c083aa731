import Mathlib.Data.Fintype.Basic
import Mathlib.Data.List.Basic
import PandaProof.Machine

/-!
# TLB shootdown

`broadcast_shootdown` and `service_shootdown_request` of `apic.rs`.  A caller
merges what it wants forgotten into the request word of every other processor
that is online, interrupts them, and waits until each of those words reads
`NOTHING`; a processor carries out a request by exchanging its word for `NOTHING`
and then invalidating.

Any number of calls run at once, each on a processor of its own choice, several
of them on one processor when an interrupt lands inside a call.  Every load,
compare-and-exchange, swap and invalidation is one step, and what happened is
recorded in a log, so that "after the request was posted" can be said.

The word is cleared **before** the invalidation, so a caller may see it cleared
and report completion while the target still holds the translation
(`returns_early`).  A call whose targets have no request in hand when it returns
is right to return (`returns_complete`).
-/
namespace Panda.Shootdown

open Function List Option

/-- No request outstanding. -/
def nothing : Nat := 0

/-- Reload CR3 and discard the lot. -/
def everything : Nat := 0xffffffffffffffff

def maxCpus : Nat := 16

/-- `NO_CPU` of `smp.rs`: the table has no processor under this index. -/
def noCpu : Nat := 0xff

/-- An invalidation for `request` covers `what`. -/
def Covers (request what : Nat) : Prop := request = what ∨ request = everything

instance (request what : Nat) : Decidable (Covers request what) :=
  inferInstanceAs (Decidable (_ ∨ _))

/-- How a request is merged into a word that may hold another. -/
def merge (what pending : Nat) : Nat :=
  if pending = nothing then what else if pending = what then pending else everything

/-- The processors ACPI reported. -/
structure Topology where
  processors : Nat
  apicIdOf : Nat → Nat

/-- The indices `for_each_other_online_processor` visits, in order. -/
def otherOnline (topology : Topology) (mask self : Nat) : List Nat :=
  if ((range 64).filter mask.testBit).length ≤ 1 then []
  else (range (min topology.processors maxCpus)).filter fun index =>
    index ≠ self && topology.apicIdOf index ≠ noCpu && mask.testBit index

/-- What a call has to remember: what it wants forgotten, and whom it told. -/
structure Call where
  what : Nat
  targeted : List Nat
  deriving DecidableEq

/-- Where a call is. -/
inductive Pc
  /-- Not called yet. -/
  | idle
  /-- In the posting loop, with the processors still to be told. -/
  | posting (call : Call) (rest : List Nat)
  /-- Inside `try_update` on the word of `target`, having loaded `pending`. -/
  | updating (call : Call) (target : Nat) (rest : List Nat) (pending : Nat)
  /-- At the top of the waiting loop, with `left` rounds in the budget. -/
  | waiting (call : Call) (left : Nat)
  /-- Swapped `request` out of its processor's word and has not invalidated yet;
  the waiting loop goes on afterwards, or, without `call`, the handler returns. -/
  | flushing (request : Nat) (call : Option Call) (left : Nat)
  /-- Looking for a target outstanding, with the words of `rest` still to load. -/
  | scanning (call : Call) (rest : List Nat) (left : Nat)
  /-- Returned because no target was outstanding. -/
  | returned (call : Call)
  /-- The budget ran out, or there was nobody to tell, or the handler is done. -/
  | finished
  deriving DecidableEq

/-- The call in progress, or the one that returned. -/
@[simp] def Pc.call : Pc → Option Call
  | .posting c _ | .updating c _ _ _ | .waiting c _ | .scanning c _ _ | .returned c => some c
  | .flushing _ c _ => c
  | _ => none

/-- What happened.  `A` names the calls. -/
inductive Event (A : Type)
  /-- Call `a` posted its request to the word of processor `p`. -/
  | posted (a : A) (p : Nat)
  /-- Processor `p` invalidated what `request` asks for. -/
  | invalidated (p request : Nat)
  deriving DecidableEq

structure State (A : Type) where
  /-- `APIC_VIRT` is set. -/
  mapped : Bool
  onlineMask : Nat
  /-- `SHOOTDOWN_REQUEST`. -/
  request : Nat → Nat
  pc : A → Pc
  /-- Most recent first. -/
  log : List (Event A)

variable {A : Type} [DecidableEq A]

/-- Only the boot processor is online, and nothing is asked of anybody. -/
def initial : State A := ⟨false, 1, fun _ => nothing, fun _ => .idle, []⟩

@[simp] def State.goto (s : State A) (a : A) (pc : Pc) : State A :=
  { s with pc := update s.pc a pc }

@[simp] def State.setRequest (s : State A) (p request : Nat) : State A :=
  { s with request := update s.request p request }

@[simp] def State.record (s : State A) (e : Event A) : State A := { s with log := e :: s.log }

/-- Rounds of the waiting loop. -/
def budget : Nat := 50000000

inductive Label (A : Type)
  /-- The local APIC is mapped. -/
  | map
  /-- A processor comes online. -/
  | online (p : Nat)
  /-- `shoot_down_page(address)`. -/
  | page (a : A) (address : Nat)
  /-- `broadcast_tlb_shootdown()`. -/
  | all (a : A)
  /-- `service_shootdown_request()` from the interrupt handler: its swap. -/
  | service (a : A)
  /-- A call goes on; `weak` makes a compare-and-exchange fail spuriously. -/
  | go (a : A) (weak : Bool)

/-- `broadcast_shootdown(what)` up to its first load of a request word. -/
def broadcastShootdown (topology : Topology) (s : State A) (a : A) (self what : Nat) : State A :=
  if s.mapped then
    s.goto a (.posting ⟨what, []⟩ (otherOnline topology s.onlineMask self))
  else s.goto a .finished

/-- The swap of `service_shootdown_request` on processor `self`, called from the
waiting loop of `call`, or from the handler. -/
def serviceShootdownRequest (s : State A) (a : A) (self : Nat) (call : Option Call) (left : Nat) :
    State A := if self < maxCpus then
    (s.setRequest self nothing).goto a (.flushing (s.request self) call left)
  else s.goto a (.flushing nothing call left)

/-- Where the waiting loop goes on once its own request is served. -/
def afterFlush (call : Option Call) (left : Nat) : Pc :=
  match call with
  | some c => .scanning c c.targeted left
  | none => .finished

/-- The next step of a call. -/
def go (s : State A) (a : A) (self : Nat) (weak : Bool) : Option (State A) :=
  match s.pc a with
  | .posting c (p :: rest) => some (s.goto a (.updating c p rest (s.request p)))
  | .posting c [] =>
    some (s.goto a (if c.targeted = [] then .finished else .waiting c budget))
  | .updating c p rest pending =>
    if s.request p = pending ∧ weak = false then
      some (((s.setRequest p (merge c.what pending)).record (.posted a p)).goto a
        (.posting ⟨c.what, c.targeted ++ [p]⟩ rest))
    else some (s.goto a (.updating c p rest (s.request p)))
  | .waiting _ 0 => some (s.goto a .finished)
  | .waiting c (left + 1) => some (serviceShootdownRequest s a self (some c) left)
  | .flushing request call left =>
    let s' := if request = nothing then s else s.record (.invalidated self request)
    some (s'.goto a (afterFlush call left))
  | .scanning c (p :: rest) left =>
    if s.request p = nothing then some (s.goto a (.scanning c rest left))
    else some (s.goto a (.waiting c left))
  | .scanning c [] _ => some (s.goto a (.returned c))
  | _ => none

/-- One atomic step; `home` says which processor each call runs on. -/
def step (topology : Topology) (home : A → Nat) (s : State A) : Label A → Option (State A)
  | .map => some { s with mapped := true }
  | .online p => some { s with onlineMask := s.onlineMask ||| 1 <<< p }
  | .page a address =>
    if s.pc a = .idle then
      some (broadcastShootdown topology s a (home a)
        (if address = nothing then everything else address))
    else none
  | .all a =>
    if s.pc a = .idle then some (broadcastShootdown topology s a (home a) everything) else none
  | .service a =>
    if s.pc a = .idle then some (serviceShootdownRequest s a (home a) none 0) else none
  | .go a weak => go s a (home a) weak

/-- All the calls on all the processors. -/
def machine (topology : Topology) (home : A → Nat) : Machine (State A) (Label A) where
  Init s := s = initial
  step := step topology home

/-- Since call `a` posted its request to processor `p`, `p` has executed an
invalidation that covers `what`. -/
def InvalidatedSince (log : List (Event A)) (a : A) (p what : Nat) : Prop :=
  ∃ l₁ l₂ request, log = l₁ ++ .invalidated p request :: l₂ ∧ Event.posted a p ∈ l₂ ∧
    Covers request what

/-- Every call that returned because no target was outstanding had every target
invalidate first. -/
def Complete (s : State A) : Prop :=
  ∀ a c, s.pc a = .returned c → ∀ p ∈ c.targeted, InvalidatedSince s.log a p c.what

/-! ## A call that returns too early -/

/-- Two processors. -/
def twoProcessors : Topology := ⟨2, fun index => index⟩

/-- Call 0 on processor 0 asks processor 1 to forget a page; call 1 is the handler
on processor 1.  The handler takes the request out of the word, and before it
invalidates anything the caller reads the word and returns. -/
def earlySchedule : List (Label (Fin 2)) :=
  [.map, .online 1, .page 0 4096, .go 0 false, .go 0 false, .go 0 false, .service 1,
   .go 0 false, .go 0 false, .go 0 false, .go 0 false]

open State

/-- **A shootdown can be reported complete before it is**: the call returned, and
the processor it targeted has not invalidated anything at all. -/
theorem returns_early : ∃ s, (machine twoProcessors (Fin.val : Fin 2 → Nat)).Reachable s ∧
    s.pc 0 = .returned ⟨4096, [1]⟩ ∧ s.log = [.posted 0 1] ∧ ¬ Complete s := by
  obtain ⟨s, hs, hpc, hlog⟩ :=
    (machine twoProcessors (Fin.val : Fin 2 → Nat)).exists_reachable
      earlySchedule
      (fun s => s.pc 0 = .returned ⟨4096, [1]⟩ ∧ s.log = [.posted 0 1]) rfl (by decide)
  refine ⟨s, hs, hpc, hlog, fun hc => ?_⟩
  obtain ⟨_, _, request, hsplit, -, -⟩ := hc 0 _ hpc 1 (by simp)
  rw [hlog] at hsplit
  have hmem : Event.invalidated 1 request ∈ [Event.posted (0 : Fin 2) 1] := by
    rw [hsplit]
    simp
  simp at hmem

/-! ## What a step can do -/

/-- What a call can do, one constructor for each way the state can change. -/
inductive Goes (home : A → Nat) (s : State A) (a : A) : State A → Prop
  | skip (hpc : s.pc a = .idle) : Goes home s a (s.goto a .finished)
  | begin {what : Nat} {targets : List Nat} (hpc : s.pc a = .idle) (hw : what ≠ nothing) :
      Goes home s a (s.goto a (.posting ⟨what, []⟩ targets))
  | swap {call : Option Call} {left : Nat}
      (hpc : s.pc a = .idle ∧ call = none ∨ ∃ c, call = some c ∧ s.pc a = .waiting c (left + 1)) :
      Goes home s a
        ((s.setRequest (home a) nothing).goto a (.flushing (s.request (home a)) call left))
  | noSlot {call : Option Call} {left : Nat}
      (hpc : s.pc a = .idle ∧ call = none ∨ ∃ c, call = some c ∧ s.pc a = .waiting c (left + 1)) :
      Goes home s a (s.goto a (.flushing nothing call left))
  | load {c : Call} {p : Nat} {rest : List Nat} (hpc : s.pc a = .posting c (p :: rest)) :
      Goes home s a (s.goto a (.updating c p rest (s.request p)))
  | told {c : Call} {pc : Pc} (hpc : s.pc a = .posting c [])
      (hto : pc = .finished ∨ pc = .waiting c budget) : Goes home s a (s.goto a pc)
  | post {c : Call} {p : Nat} {rest : List Nat} (hpc : s.pc a = .updating c p rest (s.request p)) :
      Goes home s a (((s.setRequest p (merge c.what (s.request p))).record (.posted a p)).goto a
        (.posting ⟨c.what, c.targeted ++ [p]⟩ rest))
  | reload {c : Call} {p pending : Nat} {rest : List Nat}
      (hpc : s.pc a = .updating c p rest pending) :
      Goes home s a (s.goto a (.updating c p rest (s.request p)))
  | giveUp {c : Call} (hpc : s.pc a = .waiting c 0) : Goes home s a (s.goto a .finished)
  | noFlush {call : Option Call} {left : Nat} (hpc : s.pc a = .flushing nothing call left) :
      Goes home s a (s.goto a (afterFlush call left))
  | flush {request : Nat} {call : Option Call} {left : Nat}
      (hpc : s.pc a = .flushing request call left) :
      Goes home s a ((s.record (.invalidated (home a) request)).goto a (afterFlush call left))
  | clear {c : Call} {p left : Nat} {rest : List Nat} (hpc : s.pc a = .scanning c (p :: rest) left)
      (hp : s.request p = nothing) : Goes home s a (s.goto a (.scanning c rest left))
  | outstanding {c : Call} {p left : Nat} {rest : List Nat}
      (hpc : s.pc a = .scanning c (p :: rest) left) : Goes home s a (s.goto a (.waiting c left))
  | ret {c : Call} {left : Nat} (hpc : s.pc a = .scanning c [] left) :
      Goes home s a (s.goto a (.returned c))

variable {topology : Topology} {home : A → Nat} {s : State A} {a : A} {what : Nat}

theorem broadcastShootdown_goes (hpc : s.pc a = .idle) (hw : what ≠ nothing) :
    Goes home s a (broadcastShootdown topology s a (home a) what) := by
  unfold broadcastShootdown
  split
  · exact .begin hpc hw
  · exact .skip hpc

theorem serviceShootdownRequest_goes {call : Option Call} {left : Nat}
    (hpc : s.pc a = .idle ∧ call = none ∨ ∃ c, call = some c ∧ s.pc a = .waiting c (left + 1)) :
    Goes home s a (serviceShootdownRequest s a (home a) call left) := by
  unfold serviceShootdownRequest
  split
  · exact .swap hpc
  · exact .noSlot hpc

variable {s' : State A}

theorem go_goes {weak : Bool} (h : go s a (home a) weak = some s') : Goes home s a s' := by
  unfold go at h
  split at h
  · rename_i c p rest hpc
    exact some.inj h ▸ .load hpc
  · rename_i c hpc
    refine some.inj h ▸ .told hpc ?_
    split
    · exact .inl rfl
    · exact .inr rfl
  · rename_i c p rest pending hpc
    split at h
    · rename_i heq
      obtain ⟨rfl, -⟩ := heq
      exact some.inj h ▸ .post hpc
    · exact some.inj h ▸ .reload hpc
  · rename_i c hpc
    exact some.inj h ▸ .giveUp hpc
  · rename_i c left hpc
    exact some.inj h ▸ serviceShootdownRequest_goes (.inr ⟨c, rfl, hpc⟩)
  · rename_i request call left hpc
    cases h
    by_cases hr : request = nothing
    · subst hr
      simpa using .noFlush hpc
    · simpa [hr] using .flush hpc
  · rename_i c p rest left hpc
    split at h
    · exact some.inj h ▸ .clear hpc ‹_›
    · exact some.inj h ▸ .outstanding hpc
  · rename_i c left hpc
    exact some.inj h ▸ .ret hpc
  · cases h

variable {l : Label A}

/-- The call that goes on in a step. -/
def Label.goer : Label A → Option A
  | .go a _ => some a
  | _ => none

/-- A step of the machine is one of a call, or leaves the calls alone; a call starts where it
is idle. -/
theorem step_cases (h : step topology home s l = some s') :
    (∃ mapped mask, s' = { s with mapped := mapped, onlineMask := mask }) ∨
      ∃ a, Goes home s a s' ∧ (l.goer = some a ∨ s.pc a = .idle) := by
  cases l with
  | map | online => exact .inl ⟨_, _, (some.inj h).symm⟩
  | page a address =>
    obtain ⟨hpc, rfl⟩ := Machine.of_guard h
    refine .inr ⟨a, broadcastShootdown_goes hpc ?_, .inr hpc⟩
    split
    · decide
    · assumption
  | all a =>
    obtain ⟨hpc, rfl⟩ := Machine.of_guard h
    exact .inr ⟨a, broadcastShootdown_goes hpc (by decide), .inr hpc⟩
  | service a =>
    obtain ⟨hpc, rfl⟩ := Machine.of_guard h
    exact .inr ⟨a, serviceShootdownRequest_goes (.inl ⟨hpc, rfl⟩), .inr hpc⟩
  | go a => exact .inr ⟨a, go_goes h, .inl rfl⟩

/-! ## Requests are kept until they are carried out -/

theorem covers_merge_self (what pending : Nat) : Covers (merge what pending) what := by
  unfold merge Covers
  split
  · exact .inl rfl
  split
  · rename_i h
    exact .inl h
  · exact .inr rfl

variable {w : Nat}

/-- Merging drops no request that was already there. -/
theorem covers_merge_of_covers {pending : Nat} (what : Nat) (hw : w ≠ nothing)
    (h : Covers pending w) : Covers (merge what pending) w := by
  unfold merge
  split
  · rename_i hn
    rcases h with h | h
    · exact absurd (h.symm.trans hn) hw
    · cases h.symm.trans hn
  · split
    · exact h
    · exact .inr rfl

theorem not_covers_nothing (hw : w ≠ nothing) : ¬ Covers nothing w := by
  rintro (h | h)
  · exact hw h.symm
  · cases h

variable {p : Nat}

omit [DecidableEq A] in
theorem InvalidatedSince.cons {log : List (Event A)}
    (h : InvalidatedSince log a p what) (e : Event A) : InvalidatedSince (e :: log) a p what := by
  obtain ⟨l₁, l₂, request, rfl, hpost, hcov⟩ := h
  exact ⟨e :: l₁, l₂, request, rfl, hpost, hcov⟩

/-- Some call on `p` has a request in hand that covers `what`: it is out of the
word, and not carried out yet. -/
def InHand (home : A → Nat) (s : State A) (p what : Nat) : Prop :=
  ∃ b request call left, home b = p ∧ s.pc b = .flushing request call left ∧ Covers request what

/-- The request call `a` posted to `p` is in hand there, or has been carried out. -/
def Secured (home : A → Nat) (s : State A) (a : A) (p what : Nat) : Prop :=
  InHand home s p what ∨ InvalidatedSince s.log a p what

/-- The request call `a` posted to `p` still stands in the word, or is secured. -/
def Kept (home : A → Nat) (s : State A) (a : A) (p what : Nat) : Prop :=
  Covers (s.request p) what ∨ Secured home s a p what

variable {b : A}

/-- A call that has no request in hand goes anywhere else. -/
theorem InHand.goto {pc : Pc}
    (h : InHand home s p what) (hb : ∀ r call left, s.pc b ≠ .flushing r call left) :
    InHand home (s.goto b pc) p what := by
  obtain ⟨d, request, call, left, hd, hpc, hcov⟩ := h
  have hdb : d ≠ b := by
    rintro rfl
    exact hb _ _ _ hpc
  exact ⟨d, request, call, left, hd, by simpa [hdb] using hpc, hcov⟩

theorem Secured.goto {pc : Pc}
    (h : Secured home s a p what) (hb : ∀ r call left, s.pc b ≠ .flushing r call left) :
    Secured home (s.goto b pc) a p what := h.imp_left fun h => h.goto hb

/-- **A secured request stays secured.** -/
theorem Secured.step
    (hw : what ≠ nothing) (hpost : Event.posted a p ∈ s.log) (h : Secured home s a p what)
    (hs : Goes home s b s') : Secured home s' a p what := by
  cases hs with
  | skip hpc | begin hpc | load hpc | told hpc | reload hpc | giveUp hpc | clear hpc
  | outstanding hpc | ret hpc => exact h.goto (by simp [hpc])
  | swap hpc =>
    refine Secured.goto (s := s.setRequest _ nothing) h ?_
    rcases hpc with ⟨hpc, -⟩ | ⟨c, -, hpc⟩ <;> simp [hpc]
  | noSlot hpc =>
    refine h.goto ?_
    rcases hpc with ⟨hpc, -⟩ | ⟨c, -, hpc⟩ <;> simp [hpc]
  | @post c q rest hpc =>
    refine Secured.goto (s := (s.setRequest q _).record (.posted b q)) ?_ (by simp [hpc])
    exact h.imp id fun h => h.cons _
  | noFlush hpc =>
    rcases h with ⟨d, request, call', left', hd, hdpc, hcov⟩ | h
    · refine .inl ⟨d, request, call', left', hd, ?_, hcov⟩
      have hdb : d ≠ b := by
        rintro rfl
        cases hpc.symm.trans hdpc
        exact not_covers_nothing hw hcov
      simpa [hdb] using hdpc
    · exact .inr h
  | @flush request call left hpc =>
    rcases h with ⟨d, request', call', left', hd, hdpc, hcov⟩ | h
    · by_cases hdb : d = b
      · -- This is the call that had it in hand: it is carried out now.
        subst hdb
        cases hpc.symm.trans hdpc
        exact .inr ⟨[], s.log, request, by rw [← hd]; rfl, hpost, hcov⟩
      · exact .inl ⟨d, request', call', left', hd, by simpa [hdb] using hdpc, hcov⟩
    · exact .inr (h.cons _)

/-- **A request is never dropped**: it stays in the word until somebody on that
processor takes it in hand. -/
theorem Kept.step
    (hw : what ≠ nothing) (hpost : Event.posted a p ∈ s.log) (h : Kept home s a p what)
    (hs : Goes home s b s') : Kept home s' a p what := by
  rcases h with hreq | hsec
  · cases hs with
    | @swap call left =>
      by_cases hb : home b = p
      · refine .inr (.inl ⟨b, s.request (home b), call, left, hb, ?_, hb ▸ hreq⟩)
        simp
      · refine .inl ?_
        simpa [Ne.symm hb] using hreq
    | @post c q =>
      refine .inl ?_
      by_cases hq : p = q
      · subst hq
        simpa using covers_merge_of_covers c.what hw hreq
      · simpa [hq] using hreq
    | _ => exact .inl hreq
  · exact .inr (hsec.step hw hpost hs)

theorem log_step (hs : Goes home s b s') {e : Event A} (he : e ∈ s.log) : e ∈ s'.log := by
  cases hs with
  | post | flush => exact mem_cons_of_mem _ he
  | _ => exact he

theorem InvalidatedSince.step (h : InvalidatedSince s.log a p what) (hs : Goes home s b s') :
    InvalidatedSince s'.log a p what := by
  cases hs with
  | post | flush => exact h.cons _
  | _ => exact h

/-! ## Calls that return when their targets are done -/

/-- The call a step would let return. -/
def Pc.returning : Pc → Option Call
  | .scanning c [] _ => some c
  | _ => none

/-- The request a call has taken out of the word and not carried out. -/
def Pc.inHand : Pc → Option Nat
  | .flushing request _ _ => some request
  | _ => none

/-- A call that returns has no target with a covering request in hand. -/
def ReturnsServed (home : A → Nat) (s : State A) (l : Label A) : Prop :=
  ∀ a ∈ l.goer, ∀ c ∈ (s.pc a).returning, ∀ b, home b ∈ c.targeted →
    ∀ request ∈ (s.pc b).inHand, ¬ Covers request c.what

instance [Fintype A] (home : A → Nat) (s : State A) (l : Label A) :
    Decidable (ReturnsServed home s l) :=
  inferInstanceAs (Decidable (∀ a ∈ l.goer, ∀ c ∈ (s.pc a).returning, ∀ b, home b ∈ c.targeted →
    ∀ request ∈ (s.pc b).inHand, ¬ Covers request c.what))

/-- What a call at a place relies on. -/
structure Served (home : A → Nat) (s : State A) (a : A) (pc : Pc) : Prop where
  /-- Every request it posted is kept. -/
  asked : ∀ c, pc.call = some c → c.what ≠ nothing ∧
    ∀ p ∈ c.targeted, Event.posted a p ∈ s.log ∧ Kept home s a p c.what
  /-- Whoever was seen with an empty word has the request in hand or carried it
  out. -/
  scanned : ∀ c rest left, pc = .scanning c rest left →
    ∃ seen, c.targeted = seen ++ rest ∧ ∀ p ∈ seen, Secured home s a p c.what
  complete : ∀ c, pc = .returned c → ∀ p ∈ c.targeted, InvalidatedSince s.log a p c.what

namespace Served

variable {pc pc' : Pc} (h : Served home s a pc)
include h

/-- It can rely on it after any call has gone on. -/
theorem step (hs : Goes home s b s') : Served home s' a pc where
  asked c hc := by
    obtain ⟨hw, hp⟩ := h.asked c hc
    exact ⟨hw, fun p hp' => ⟨log_step hs (hp p hp').1, (hp p hp').2.step hw (hp p hp').1 hs⟩⟩
  scanned c rest left hpc := by
    obtain ⟨seen, hseen, hsec⟩ := h.scanned c rest left hpc
    obtain ⟨hw, hpost⟩ := h.asked c (by rw [hpc]; rfl)
    refine ⟨seen, hseen, fun p hp => (hsec p hp).step hw (hpost p ?_).1 hs⟩
    rw [hseen]
    exact mem_append_left _ hp
  complete c hpc p hp := (h.complete c hpc p hp).step hs

omit [DecidableEq A] in
/-- It is the call it was, with the targets it had, and neither scans nor returns. -/
theorem of_call (hcall : ∀ c, pc'.call = some c → pc.call = some c)
    (hscan : ∀ c rest left, pc' ≠ .scanning c rest left) (hret : ∀ c, pc' ≠ .returned c) :
    Served home s a pc' :=
  ⟨fun c hc => h.asked c (hcall c hc), fun c rest left hpc => absurd hpc (hscan c rest left),
    fun c hpc => absurd hpc (hret c)⟩

end Served

theorem served_step (hi : ∀ a, Served home s a (s.pc a)) (hok : ReturnsServed home s l)
    (h : step topology home s l = some s') : ∀ a, Served home s' a (s'.pc a) := by
  rcases step_cases h with ⟨mapped, mask, rfl⟩ | ⟨b, hs, hl⟩
  · exact fun a => { hi a with }
  have hkeep := fun a => (hi a).step hs
  have hb := hkeep b
  have hself : ∀ {pc : Pc}, s'.pc = update s.pc b pc → Served home s' b pc →
      ∀ a, Served home s' a (s'.pc a) := by
    intro pc hpc hself
    rw [hpc]
    exact (forall_update_iff s.pc (Served home s')).mpr ⟨hself, fun a _ => hkeep a⟩
  cases hs with
  | skip | giveUp => exact hself rfl (hb.of_call (by simp) (by simp) (by simp))
  | begin hpc hw =>
    refine hself rfl ⟨?_, by simp, by simp⟩
    rintro _ ⟨⟩
    exact ⟨hw, by simp⟩
  | swap hpc | noSlot hpc =>
    refine hself rfl (hb.of_call (fun c hc => ?_) (by simp) (by simp))
    rcases hpc with ⟨-, rfl⟩ | ⟨c', rfl, hpc⟩
    · simp at hc
    · simpa [hpc] using hc
  | load hpc | reload hpc | outstanding hpc =>
    exact hself rfl (hb.of_call (by simp [hpc]) (by simp) (by simp))
  | told hpc hto =>
    refine hself rfl (hb.of_call ?_ ?_ ?_) <;> rcases hto with rfl | rfl <;> simp [hpc]
  | @post c q rest hpc =>
    refine hself rfl ⟨?_, by simp, by simp⟩
    rintro _ ⟨⟩
    obtain ⟨hw, hp⟩ := hb.asked c (by rw [hpc]; rfl)
    refine ⟨hw, fun p hp' => ?_⟩
    rcases mem_append.mp hp' with hp' | hp'
    · exact hp p hp'
    · obtain rfl := mem_singleton.mp hp'
      refine ⟨mem_cons_self, .inl ?_⟩
      simpa using covers_merge_self c.what _
  | @noFlush call left hpc | @flush request call left hpc =>
    -- A scan starts with nobody seen.
    refine hself rfl ⟨fun c hc => hb.asked c ?_, ?_, ?_⟩ <;> cases call
    · simp [afterFlush] at hc
    · simpa [hpc, afterFlush] using hc
    · simp [afterFlush]
    · rintro _ _ _ ⟨⟩
      exact ⟨[], rfl, by simp⟩
    · simp [afterFlush]
    · simp [afterFlush]
  | @clear c q left rest hpc hq =>
    refine hself rfl ⟨fun c' hc => hb.asked c' (by simpa [hpc] using hc), ?_, by simp⟩
    rintro _ _ _ ⟨⟩
    obtain ⟨seen, hseen, hsec⟩ := hb.scanned c (q :: rest) left hpc
    obtain ⟨hw, hpost⟩ := (hi b).asked c (by rw [hpc]; rfl)
    refine ⟨seen ++ [q], by simp [hseen], fun p hp => ?_⟩
    rcases mem_append.mp hp with hp | hp
    · exact hsec p hp
    obtain rfl := mem_singleton.mp hp
    -- The word reads `NOTHING`, so the request is no longer in it.
    rcases (hpost p (by simp [hseen])).2 with hreq | hsec
    · rw [hq] at hreq
      exact absurd hreq (not_covers_nothing hw)
    · exact hsec.goto (by simp [hpc])
  | @ret c left hpc =>
    refine hself rfl ⟨fun c' hc => hb.asked c' (by simpa [hpc] using hc), by simp, ?_⟩
    rintro _ ⟨⟩ p hp
    obtain ⟨_, hseen, hsec⟩ := (hi b).scanned c [] left hpc
    rcases hsec p (by simpa [hseen] using hp) with ⟨d, request, call, _, hd, hdpc, hcov⟩ | h
    · have hgoer : l.goer = some b := hl.resolve_right (by simp [hpc])
      exact absurd hcov (hok b hgoer c (by rw [hpc]; rfl) d (hd ▸ hp) request (by rw [hdpc]; rfl))
    · exact h

/-- **A call that returns is right to return**, in every run where no call returns
while one of its targets has a covering request in hand: every processor it
targeted has, after the request was posted, invalidated what was asked. -/
theorem returns_complete {topology : Topology} {home : A → Nat} {s : State A}
    (h : (machine topology home).Reaches (ReturnsServed home) s) : Complete s := by
  have hi : ∀ a, Served home s a (s.pc a) := by
    refine h.invariant_from (fun a => ?_) served_step
    exact ⟨by simp [initial], by simp [initial], by simp [initial]⟩
  exact fun a c => (hi a).complete c

/-- The handler on processor 1 is done before the caller looks. -/
theorem returns_complete_served :
    ∃ s, (machine twoProcessors (Fin.val : Fin 2 → Nat)).Reaches (ReturnsServed Fin.val) s ∧
      s.pc 0 = .returned ⟨4096, [1]⟩ ∧ Complete s := by
  obtain ⟨s, hs, hpc⟩ := (machine twoProcessors (Fin.val : Fin 2 → Nat)).exists_reaches
      (ReturnsServed Fin.val)
      [.map, .online 1, .page 0 4096, .go 0 false, .go 0 false, .go 0 false, .service 1,
        .go 1 false, .go 0 false, .go 0 false, .go 0 false, .go 0 false]
      (fun s => s.pc 0 = .returned ⟨4096, [1]⟩) rfl (by decide)
  exact ⟨s, hs, hpc, returns_complete hs⟩

end Panda.Shootdown
