import Mathlib.Data.List.Perm.Basic
import Mathlib.Data.List.Nodup
import PandaProof.IpcWakeup

/-!
# Where capabilities come from, and where they stay

The capability table over whole histories of the registry.

Rights only ever enter the table in `create`, which gives the creator all of them,
and in `grant`, which passes on rights the granter holds next to `GRANT`.  `Derived`
is that provenance, with the grants chained back to the creator, and every right in
the table of any run has it (`capability_confinement`).

Rights leave the table only with the thread that holds them.  `release_thread`
removes the endpoints of an exiting thread and the thread's own list, but not the
entries other threads hold for those endpoints, and `grant` does not ask whether its
target is still there; so entries outlive both what they name and who holds them
(`stale_capabilities`), and they count against a quota for ever.  A run in which no
exit leaves entries behind and no grant goes to a thread that has exited has no such
entries, and only such a run has none (`capabilities_live`).
-/
namespace Panda.Ipc

open Quotas (Quota)
open Function List Option State Registry

/-! ## Rights, bit by bit -/

namespace Rights

/-- Right number `i` is in the set. -/
def has (a : Rights) (i : Nat) : Bool := a.bits.testBit i

@[simp] theorem has_union (a b : Rights) (i : Nat) : (a.union b).has i = (a.has i || b.has i) :=
  Nat.testBit_or ..

@[simp] theorem has_intersection (a b : Rights) (i : Nat) :
    (a.intersection b).has i = (a.has i && b.has i) := Nat.testBit_and ..

@[simp] theorem not_has_none (i : Nat) : Rights.none.has i = false :=
  Nat.zero_testBit i

/-- `GRANT` is right number 2. -/
theorem has_of_contains_grant {a : Rights} (h : a.contains .grant = true) : a.has 2 = true := by
  have hand : a.bits &&& 4 = 4 := of_decide_eq_true h
  have hbit := congrArg (Nat.testBit · 2) hand
  simpa [has, Nat.testBit_and, show Nat.testBit 4 2 = true by decide] using hbit

/-- There are three rights. -/
theorem lt_of_has_all {i : Nat} (h : ((send.union receive).union grant).has i = true) : i < 3 := by
  by_contra hi
  have hbound : ((send.union receive).union grant).bits < 2 ^ i :=
    (show 7 < 2 ^ 3 by decide).trans_le (Nat.pow_le_pow_right (by decide) (by omega))
  exact absurd h (by simp [has, Nat.testBit_lt_two_pow hbound])

end Rights

namespace Registry

/-! ## The entries of the table -/

variable {r : Registry} {t : ThreadId} {e : Nat}

theorem mem_of_rightsOf {i : Nat} (h : (r.rightsOf t e).has i = true) :
    ∃ held, (e, held) ∈ r.capabilities t ∧ held.has i = true := by
  unfold rightsOf at h
  cases hf : (r.capabilities t).find? fun c => c.1 = e with
  | none => simp [hf] at h
  | some c =>
    have he : c.1 = e := by simpa using find?_some hf
    refine ⟨c.2, he ▸ mem_of_find?_eq_some hf, ?_⟩
    simpa [hf] using h

variable {rights : Rights}

theorem mem_widen {x : Nat} {held : Rights} {list : List (Nat × Rights)}
    (h : (x, held) ∈ widen e rights list) :
    (x, held) ∈ list ∨ x = e ∧ ∃ old, (x, old) ∈ list ∧ held = old.union rights := by
  induction list with
  | nil => exact .inl h
  | cons c list ih =>
    obtain ⟨_, old⟩ := c
    unfold widen at h
    split at h
    · rename_i hid
      rcases mem_cons.mp h with heq | h
      · cases heq
        exact .inr ⟨hid, old, mem_cons_self, rfl⟩
      · exact .inl (mem_cons_of_mem _ h)
    · rcases mem_cons.mp h with heq | h
      · exact .inl (heq ▸ mem_cons_self)
      · rcases ih h with h | ⟨hx, old', hmem, hheld⟩
        · exact .inl (mem_cons_of_mem _ h)
        · exact .inr ⟨hx, old', mem_cons_of_mem _ hmem, hheld⟩

theorem widen_ids (e : Nat) (rights : Rights) (list : List (Nat × Rights)) :
    (widen e rights list).map Prod.fst = list.map Prod.fst := by
  induction list with
  | nil => rfl
  | cons c list ih =>
    obtain ⟨_, _⟩ := c
    unfold widen
    split
    · rfl
    · simp [ih]

/-- The endpoints a thread has entries for. -/
def named (r : Registry) (t : ThreadId) : List Nat := (r.capabilities t).map Prod.fst

theorem mem_named : e ∈ r.named t ↔ ∃ held, (e, held) ∈ r.capabilities t := by
  simp [named]

variable {allowance : Nat} {r' : Registry} {thread : ThreadId} {endpoint : Nat}

/-- What `add_rights` does to the table: the rights of one thread over one endpoint
are widened, in place or with a new entry at the end. -/
theorem addRights_entries (h : r.addRights allowance thread endpoint rights = .ok r') :
    (∀ t, t ≠ thread → r'.capabilities t = r.capabilities t) ∧
      (endpoint ∈ r.named thread ∧ r'.named thread = r.named thread ∨
        endpoint ∉ r.named thread ∧ r'.named thread = r.named thread ++ [endpoint]) ∧
      ∀ e held i, (e, held) ∈ r'.capabilities thread → held.has i = true →
        (∃ old, (e, old) ∈ r.capabilities thread ∧ old.has i = true) ∨
          e = endpoint ∧ rights.has i = true := by
  unfold addRights at h
  simp only at h
  split at h
  · rename_i hany
    cases h
    refine ⟨fun t ht => update_of_ne ht .., .inl ⟨?_, ?_⟩, fun e held i hmem hi => ?_⟩
    · obtain ⟨c, hc, he⟩ := any_eq_true.mp hany
      exact mem_named.mpr ⟨c.2, of_decide_eq_true he ▸ hc⟩
    · simp [named, widen_ids]
    simp only [update_self] at hmem
    rcases mem_widen hmem with hin | ⟨rfl, old, hin, rfl⟩
    · exact .inl ⟨held, hin, hi⟩
    · rcases (Bool.or_eq_true _ _).mp (Rights.has_union .. ▸ hi) with hold | hnew
      · exact .inl ⟨old, hin, hold⟩
      · exact .inr ⟨rfl, hnew⟩
  · split at h
    · cases h
    rename_i hnone _
    cases h
    refine ⟨fun t ht => update_of_ne ht .., .inr ⟨?_, ?_⟩, fun e held i hmem hi => ?_⟩
    · intro hin
      obtain ⟨held, hmem⟩ := mem_named.mp hin
      exact hnone (any_eq_true.mpr ⟨_, hmem, decide_eq_true rfl⟩)
    · simp [named]
    simp only [update_self] at hmem
    rcases mem_append.mp hmem with hmem | hmem
    · exact .inl ⟨held, hmem, hi⟩
    · cases mem_singleton.mp hmem
      exact .inr ⟨rfl, hi⟩

theorem addRights_of_lt (h : (r.named thread).length < allowance) :
    ∃ r', r.addRights allowance thread endpoint rights = .ok r' := by
  have hlen : ¬ allowance ≤ (r.capabilities thread).length := by
    rw [named, length_map] at h
    omega
  unfold addRights
  simp only [if_neg hlen]
  split
  · exact ⟨_, rfl⟩
  · exact ⟨_, rfl⟩

variable {quota : Quota} {owner : ThreadId} {capacity : Nat}

/-- A successful `create` has added an endpoint and all the rights over it. -/
theorem create_ok (h : (r.create quota owner capacity).1 = .ok e) :
    e = r.nextId ∧ (r.create quota owner capacity).2.nextId = r.nextId + 1 ∧
      ∃ r₀ : Registry, r₀.capabilities = r.capabilities ∧ (r₀.endpoints e).isSome = true ∧
      r₀.addRights quota.capabilities owner e ((Rights.send.union .receive).union .grant) =
        .ok (r.create quota owner capacity).2 := by
  unfold create at h ⊢
  split at h
  · cases h
  split at h
  · cases h
  simp only at h ⊢
  rename_i hcap hquota
  rw [if_neg hcap, if_neg hquota]
  split at h
  · cases h
  rename_i r' hadd
  cases h
  exact ⟨rfl, (addRights_ok hadd).2.1,
    { r with nextId := r.nextId + 1 }.setEndpoint r.nextId ⟨[], capacity, [], owner⟩,
    rfl, by simp, hadd⟩

/-- A `create` that fails leaves the table alone. -/
theorem create_error {err : Error} (h : (r.create quota owner capacity).1 = .error err) :
    (r.create quota owner capacity).2.capabilities = r.capabilities := by
  unfold create at h ⊢
  split
  · rfl
  split
  · rfl
  simp only
  rename_i hcap hquota
  rw [if_neg hcap, if_neg hquota] at h
  simp only at h
  split
  · rfl
  · rename_i hadd
    simp only [hadd] at h
    cases h

end Registry

/-! ## What a step does to the table -/

/-- The step hands `t` the rights over `e`. -/
inductive Gives (s : State) : Label → ThreadId → Nat → Rights → Prop
  | created {t : ThreadId} {quota : Quota} {capacity e : Nat}
      (h : (s.registry.create quota t capacity).1 = .ok e) :
      Gives s (.create t quota capacity) t e ((Rights.send.union .receive).union .grant)
  | granted {g t : ThreadId} {allowance e : Nat} {rights : Rights} {r : Registry}
      (h : s.registry.grant allowance g t e rights = .ok r) :
      Gives s (.grant g t allowance e rights) t e (rights.intersection (s.registry.rightsOf g e))

variable {s s' : State} {l : Label}

/-- The table changes when somebody exits and when a step gives rights. -/
theorem capabilities_step (h : step s l = some s') : (∃ t, l = .exit t ∧
      s' = { s with registry := s.registry.releaseThread t }.goto t .exited) ∨
      (∃ t e rights allowance, ∃ r : Registry, Gives s l t e rights ∧
        r.capabilities = s.registry.capabilities ∧
        r.addRights allowance t e rights = .ok s'.registry) ∨
      ((∀ t, l ≠ .exit t) ∧ (∀ t e rights, ¬ Gives s l t e rights) ∧
        s'.registry.capabilities = s.registry.capabilities) := by
  cases l with
  | create t quota capacity =>
    obtain ⟨-, rfl⟩ := Machine.of_guard h
    cases hres : (s.registry.create quota t capacity).1 with
    | error =>
      refine .inr (.inr ⟨by simp, ?_, create_error hres⟩)
      rintro t e rights ⟨hok⟩
      cases hres.symm.trans hok
    | ok e =>
      obtain ⟨-, -, r₀, hcap, -, hadd⟩ := create_ok hres
      exact .inr (.inl ⟨t, e, _, _, r₀, .created hres, hcap, hadd⟩)
  | grant g t allowance e rights =>
    obtain ⟨-, h⟩ := ite_none_right_eq_some.mp h
    split at h
    · rename_i err herr
      cases h
      refine .inr (.inr ⟨by simp, ?_, rfl⟩)
      rintro t e rights ⟨⟩
      rename_i hok
      cases herr.symm.trans hok
    · rename_i r hr
      cases h
      exact .inr (.inl ⟨t, e, _, allowance, s.registry, .granted hr, rfl, (grant_iff.mp hr).2.2.2⟩)
  | exit t =>
    obtain ⟨-, rfl⟩ := Machine.of_guard h
    exact .inl ⟨t, rfl, rfl⟩
  | _ =>
    refine .inr (.inr ⟨by simp, by rintro t e rights ⟨⟩, ?_⟩)
    cases step_cases h <;> rfl

variable {t : ThreadId} {e i : Nat}

/-- A right in the table was there before the step, or the step gave it. -/
theorem mem_step (h : step s l = some s')
    {held : Rights} (hmem : (e, held) ∈ s'.registry.capabilities t) (hi : held.has i = true) :
    (∃ old, (e, old) ∈ s.registry.capabilities t ∧ old.has i = true) ∨
      ∃ rights, Gives s l t e rights ∧ rights.has i = true := by
  rcases capabilities_step h with ⟨u, -, rfl⟩ | ⟨u, _, rights, _, r, hgives, hcap, hadd⟩ |
    ⟨-, -, hsame⟩
  · by_cases hu : t = u
    · subst hu
      simp [releaseThread] at hmem
    · exact .inl ⟨held, by simpa [releaseThread, hu] using hmem, hi⟩
  · obtain ⟨hother, -, hself⟩ := addRights_entries hadd
    rw [hcap] at hother hself
    by_cases hu : t = u
    · subst hu
      rcases hself e held i hmem hi with hold | ⟨rfl, hnew⟩
      · exact .inl hold
      · exact .inr ⟨rights, hgives, hnew⟩
    · exact .inl ⟨held, hother t hu ▸ hmem, hi⟩
  · exact .inl ⟨held, hsame ▸ hmem, hi⟩

/-! ## Provenance -/

/-- In the history `p`, newest step first, `t` came by right `i` over endpoint `e`: it
created the endpoint, or it was granted the right by a thread that at that moment held
both the right and `GRANT`, and had come by both. -/
inductive Derived : List (State × Label) → ThreadId → Nat → Nat → Prop
  | created {p : List (State × Label)} {s : State} {t : ThreadId} {quota : Quota}
      {capacity e i : Nat} (h : (s.registry.create quota t capacity).1 = .ok e) (hi : i < 3) :
      Derived ((s, .create t quota capacity) :: p) t e i
  | granted {p : List (State × Label)} {s : State} {g t : ThreadId} {allowance e i : Nat}
      {rights : Rights} {r : Registry} (h : s.registry.grant allowance g t e rights = .ok r)
      (hi : rights.has i = true) (hright : (s.registry.rightsOf g e).has i = true)
      (hgrant : (s.registry.rightsOf g e).contains .grant = true)
      (right : Derived p g e i) (grant : Derived p g e 2) :
      Derived ((s, .grant g t allowance e rights) :: p) t e i
  | earlier {p : List (State × Label)} {x : State × Label} {t : ThreadId} {e i : Nat}
      (h : Derived p t e i) : Derived (x :: p) t e i

variable {p : List (State × Label)}

theorem derived_of_path (h : machine.Path p s) :
    ∀ {t : ThreadId} {e i : Nat} {held : Rights}, (e, held) ∈ s.registry.capabilities t →
      held.has i = true → Derived p t e i := by
  induction h with
  | @init s h =>
    obtain rfl : s = initial := h
    intro t e i held hmem
    simp [initial, new] at hmem
  | @step s s' l p _ hs ih =>
    intro t e i held hmem hi
    rcases mem_step hs hmem hi with ⟨_, hold, hi⟩ | ⟨rights, hgives, hi⟩
    · exact .earlier (ih hold hi)
    cases hgives with
    | created hres => exact .created hres (Rights.lt_of_has_all hi)
    | @granted g _ allowance _ rights r hres =>
      obtain ⟨hasked, hright⟩ : rights.has i = true ∧ (s.registry.rightsOf g e).has i = true :=
        (Bool.and_eq_true _ _).mp (Rights.has_intersection .. ▸ hi)
      have hgrant := (grant_iff.mp hres).2.1
      obtain ⟨_, hmem₁, hi₁⟩ := mem_of_rightsOf hright
      obtain ⟨_, hmem₂, hi₂⟩ := mem_of_rightsOf (Rights.has_of_contains_grant hgrant)
      exact .granted hres hasked hright hgrant (ih hmem₁ hi₁) (ih hmem₂ hi₂)

/-- Threads that no grant of right `i` over `e` reaches from the outside. -/
structure Sealed (p : List (State × Label)) (e i : Nat) (inside : ThreadId → Prop) : Prop where
  /-- The creator is outside. -/
  creator : ∀ s o quota capacity, (s, .create o quota capacity) ∈ p →
    (s.registry.create quota o capacity).1 = .ok e → ¬ inside o
  /-- Those who pass the right in are inside themselves. -/
  granter : ∀ s g t allowance rights r, (s, .grant g t allowance e rights) ∈ p →
    s.registry.grant allowance g t e rights = .ok r → rights.has i = true →
    (s.registry.rightsOf g e).has i = true →
    (s.registry.rightsOf g e).contains .grant = true → inside t → inside g

variable {inside : ThreadId → Prop}

theorem Sealed.tail {x : State × Label} (h : Sealed (x :: p) e i inside) : Sealed p e i inside :=
  ⟨fun s o quota capacity hmem => h.creator s o quota capacity (mem_cons_of_mem _ hmem),
    fun s g t allowance rights r hmem =>
      h.granter s g t allowance rights r (mem_cons_of_mem _ hmem)⟩

theorem Derived.not_inside (h : Derived p t e i) (hs : Sealed p e i inside) : ¬ inside t := by
  induction h with
  | created h => exact hs.creator _ _ _ _ mem_cons_self h
  | granted h hi hright hgrant _ _ ihright =>
    intro ht
    exact ihright hs.tail (hs.granter _ _ _ _ _ _ mem_cons_self h hi hright hgrant ht)
  | earlier _ ih => exact ih hs.tail

/-- **Capability confinement.**  After any history of the registry, every right in the
capability table is derivable: its holder created the endpoint, or was granted the right
by a thread that held it and `GRANT` at that moment and had derived both; and no thread
has a right that no such grant could bring to it. -/
theorem capability_confinement {p : List (State × Label)} {s : State} (h : machine.Path p s)
    {t : ThreadId} {e i : Nat} {held : Rights} (hmem : (e, held) ∈ s.registry.capabilities t)
    (hi : held.has i = true) :
    Derived p t e i ∧ ∀ inside : ThreadId → Prop, Sealed p e i inside → ¬ inside t := by
  have hd := derived_of_path h hmem hi
  exact ⟨hd, fun inside hs => hd.not_inside hs⟩

/-- Thread 0 lets thread 1 receive and pass that on, and thread 1 lets thread 2. -/
theorem capability_confinement_passed_on : ∃ p s, machine.Path p s ∧
    (1, Rights.receive) ∈ s.registry.capabilities 2 ∧ Derived p 2 1 1 := by
  obtain ⟨s, hs⟩ := isSome_iff_exists.mp (show (machine.exec (fun _ _ => True) initial
      [.create 0 ⟨1, 1, 0, 0⟩ 4, .grant 0 1 1 1 (Rights.receive.union .grant),
        .grant 1 2 1 1 .receive]).isSome = true by decide)
  have hmem : (machine.exec (fun _ _ => True) initial
      [.create 0 ⟨1, 1, 0, 0⟩ 4, .grant 0 1 1 1 (Rights.receive.union .grant),
        .grant 1 2 1 1 .receive]).any
      (fun s => (1, Rights.receive) ∈ s.registry.capabilities 2) = true := by decide
  have hcap : (1, Rights.receive) ∈ s.registry.capabilities 2 := by simpa [hs] using hmem
  obtain ⟨q, hpath, -⟩ := (Machine.Path.init (M := machine) rfl).append_exec hs
  exact ⟨_, s, hpath, hcap, (capability_confinement hpath hcap (by decide)).1⟩

/-! ## Entries that outlive what they name -/

/-- Every entry belongs to a thread that has not exited and names an endpoint that
exists. -/
def EntriesLive (s : State) : Prop :=
  ∀ t, ∀ e ∈ s.registry.named t, s.pc t ≠ .exited ∧ (s.registry.endpoints e).isSome = true

/-- The endpoints that exist and that `t` can name. -/
def Registry.liveNames (r : Registry) (t : ThreadId) : List Nat :=
  (range r.nextId).filter fun e => (r.endpoints e).isSome && (r.named t).contains e

/-- Thread 0 lets thread 2 send to endpoint 1 and exits; thread 1 then gives thread 0 a
right over endpoint 2. -/
def staleSchedule : List Label :=
  [.create 0 ⟨1, 1, 0, 0⟩ 4, .grant 0 2 1 1 .send, .exit 0, .create 1 ⟨1, 1, 0, 0⟩ 4,
   .grant 1 0 1 2 .send]

/-- **Entries outlive endpoints and threads**: thread 2 keeps an entry for an endpoint
that was destroyed, thread 0 has an entry although it exited; and thread 2, which can
name no endpoint and may name one, is refused the right the owner of endpoint 2 wants
to give it. -/
theorem stale_capabilities : ∃ s, machine.Reachable s ∧
    (1 ∈ s.registry.named 2 ∧ s.registry.endpoints 1 = none) ∧
    (2 ∈ s.registry.named 0 ∧ s.pc 0 = .exited) ∧ (s.registry.liveNames 2).length < 1 ∧
    (s.registry.rightsOf 1 2).contains (Rights.send.union .grant) = true ∧
    ∀ r, s.registry.grant 1 1 2 2 .send ≠ .ok r := by
  obtain ⟨s, hs, h1, h2, h3, h4, h5, h6, h7⟩ := machine.exists_reachable
    staleSchedule
    (fun s => 1 ∈ s.registry.named 2 ∧ (s.registry.endpoints 1).isNone = true ∧
      2 ∈ s.registry.named 0 ∧ s.pc 0 = .exited ∧ (s.registry.liveNames 2).length < 1 ∧
      (s.registry.rightsOf 1 2).contains (Rights.send.union .grant) = true ∧
      (s.registry.grant 1 1 2 2 .send).toOption.isNone = true) rfl (by decide)
  refine ⟨s, hs, ⟨h1, isNone_iff_eq_none.mp h2⟩, ⟨h3, h4⟩, h5, h6, fun r hr => ?_⟩
  simp [hr, Except.toOption] at h7

/-! ## Runs that leave no stale entry -/

/-- Nobody else has an entry for an endpoint of a thread that exits, and nothing is
granted to a thread that has exited. -/
def Tidy (s : State) : Label → Prop
  | .exit t => ∀ u, u ≠ t → ∀ e ∈ s.registry.named u, ∀ q ∈ s.registry.endpoints e, q.owner ≠ t
  | .grant g t allowance e rights =>
    (∃ r, s.registry.grant allowance g t e rights = .ok r) → s.pc t ≠ .exited
  | _ => True

/-- Endpoints go only when somebody exits. -/
theorem endpoints_step (h : step s l = some s')
    (hl : ∀ t, l ≠ .exit t) (he : (s.registry.endpoints e).isSome = true) :
    (s'.registry.endpoints e).isSome = true := by
  have hset : ∀ {e₀ : Nat} {q : Endpoint},
      ((s.registry.setEndpoint e₀ q).endpoints e).isSome = true := by
    intro e₀ q
    by_cases hne : e = e₀
    · subst hne
      simp
    · rw [setEndpoint_of_ne _ hne]
      exact he
  cases step_cases h with
  | create hid hend =>
    simp only [hend, update_apply]
    split
    · rfl
    · exact he
  | grant hid hend =>
    simp only [hend]
    exact he
  | deliver | tryTake | lookTake | lookRegister => exact hset
  | exit => exact absurd rfl (hl _)
  | _ => exact he

/-- Threads exit by exiting, for good. -/
theorem exited_step (h : step s l = some s')
    (hl : ∀ t, l ≠ .exit t) (t : ThreadId) : s'.pc t = .exited ↔ s.pc t = .exited := by
  have hgoto : ∀ {u : ThreadId} {pc : Pc}, s.pc u ≠ .exited → pc ≠ .exited →
      (update s.pc u pc t = .exited ↔ s.pc t = .exited) := by
    intro u pc hu hpc
    by_cases htu : t = u
    · subst htu
      simp [hu, hpc]
    · simp [htu]
  cases step_cases h with
  | receive hf => exact hgoto (by simp [(free_iff.mp hf).2]) (by simp)
  | lookError hpc | lookTake hpc | lookAgain hpc | lookRegister hpc | blockWoken hpc
  | blockPark hpc | resume hpc => exact hgoto (by simp [hpc]) (by simp)
  | exit => exact absurd rfl (hl _)
  | _ => exact Iff.rfl

/-- Whoever is given rights over an endpoint can name it, and it exists. -/
theorem endpoint_of_gives (h : step s l = some s') {rights : Rights} (hg : Gives s l t e rights) :
    (s'.registry.endpoints e).isSome = true := by
  cases hg with
  | @created _ quota capacity _ hres =>
    obtain ⟨-, rfl⟩ := Machine.of_guard h
    obtain ⟨-, -, _, -, hsome, hadd⟩ := create_ok hres
    simp only [(addRights_ok hadd).1]
    exact hsome
  | granted hres => exact endpoints_step h (by simp) (grant_iff.mp hres).1

/-- A step from a state without stale entries leaves none exactly if it is tidy. -/
theorem entriesLive_step (hlive : EntriesLive s)
    (h : step s l = some s') : EntriesLive s' ↔ Tidy s l := by
  rcases capabilities_step h with ⟨t, rfl, rfl⟩ | ⟨t, e, rights, allowance, r, hgives, hcap, hadd⟩ |
    ⟨hexit, hgives, hsame⟩
  · have hnamed : ∀ u, u ≠ t → (s.registry.releaseThread t).named u = s.registry.named u :=
      fun u hu => by simp [named, releaseThread, hu]
    constructor
    · intro hlive' u hu e he q hq hown
      have hgone := (hlive' u e (by simpa [hnamed u hu] using he)).2
      simp [releaseThread, mem_def.mp hq, hown] at hgone
    intro htidy u e he
    by_cases hu : u = t
    · subst hu
      simp [named, releaseThread] at he
    have he' : e ∈ s.registry.named u := by simpa [hnamed u hu] using he
    obtain ⟨hpc, hsome⟩ := hlive u e he'
    obtain ⟨q, hq⟩ := isSome_iff_exists.mp hsome
    refine ⟨by rwa [goto_pc_of_ne _ hu], ?_⟩
    simp [releaseThread, hq, htidy u hu e he' q hq]
  · have hexit : ∀ u, l ≠ .exit u := by
      rintro u rfl
      cases hgives
    have hsome := endpoint_of_gives h hgives
    obtain ⟨hother, hnamed, -⟩ := addRights_entries hadd
    have hthere : ∀ u, r.named u = s.registry.named u := fun u => by simp [named, hcap]
    rw [hthere] at hnamed
    have hin : e ∈ s'.registry.named t := by
      rcases hnamed with ⟨hin, hsame⟩ | ⟨-, hnew⟩
      · exact hsame ▸ hin
      · simp [hnew]
    -- Only the one who is given the rights can be the reason for a stale entry.
    have hiff : EntriesLive s' ↔ s.pc t ≠ .exited := by
      refine ⟨fun hlive' hpc => (hlive' t e hin).1 ((exited_step h hexit t).mpr hpc), ?_⟩
      intro hpc u x hx
      by_cases hu : u = t
      · subst hu
        refine ⟨fun hpc' => hpc ((exited_step h hexit u).mp hpc'), ?_⟩
        rcases hnamed with ⟨-, hsame⟩ | ⟨-, hnew⟩
        · exact endpoints_step h hexit (hlive u x (hsame ▸ hx)).2
        rw [hnew] at hx
        rcases mem_append.mp hx with hx | hx
        · exact endpoints_step h hexit (hlive u x hx).2
        · exact mem_singleton.mp hx ▸ hsome
      · have hx' : x ∈ s.registry.named u := by
          rw [← hthere]
          simpa [named, hother u hu] using hx
        obtain ⟨hpc', hsome'⟩ := hlive u x hx'
        exact ⟨fun hp => hpc' ((exited_step h hexit u).mp hp), endpoints_step h hexit hsome'⟩
    rw [hiff]
    cases hgives with
    | created =>
      obtain ⟨hfree, h⟩ := ite_none_right_eq_some.mp h
      simp [Tidy, (free_iff.mp hfree).2]
    | @granted g _ allowance _ rights r hres =>
      exact ⟨fun hpc _ => hpc, fun htidy => htidy ⟨r, hres⟩⟩
  · have htidy : Tidy s l := by
      cases l with
      | exit t => exact absurd rfl (hexit t)
      | grant g t allowance e =>
        rintro ⟨r, hr⟩
        exact absurd (Gives.granted hr) (hgives t e _)
      | _ => trivial
    refine ⟨fun _ => htidy, fun _ u e he => ?_⟩
    have he' : e ∈ s.registry.named u := by simpa [named, hsame] using he
    obtain ⟨hpc, hsome⟩ := hlive u e he'
    exact ⟨fun hp => hpc ((exited_step h hexit u).mp hp), endpoints_step h hexit hsome⟩

/-- No thread has two entries for one endpoint. -/
theorem named_nodup (h : machine.Reachable s) : ∀ t, (s.registry.named t).Nodup := by
  refine h.invariant_from (I := fun s => ∀ t, (s.registry.named t).Nodup) ?_ ?_
  · exact fun _ => nodup_nil
  intro r l r' hi _ hs u
  rcases capabilities_step hs with ⟨t, -, rfl⟩ |
    ⟨t, e, rights, allowance, r₀, -, hcap, hadd⟩ | ⟨-, -, hsame⟩
  · by_cases hu : u = t
    · subst hu
      simp [named, releaseThread]
    · simpa [named, releaseThread, hu] using hi u
  · obtain ⟨hother, hnamed, -⟩ := addRights_entries hadd
    have hthere : ∀ u, r₀.named u = r.registry.named u := fun u => by
      simp [named, hcap]
    rw [hthere] at hnamed
    by_cases hu : u = t
    · subst hu
      rcases hnamed with ⟨-, hsame⟩ | ⟨hnot, hnew⟩
      · exact hsame ▸ hi u
      · rw [hnew]
        exact nodup_append.mpr ⟨hi u, nodup_singleton e, fun x hx y hy hxy =>
          hnot (mem_singleton.mp hy ▸ hxy ▸ hx)⟩
    · rw [named, hother u hu, hcap]
      exact hi u
  · rw [named, hsame]
    exact hi u

/-- Without stale entries, a thread's entries are the live endpoints it can name. -/
theorem named_perm_liveNames (h : machine.Reachable s) (hlive : EntriesLive s)
    (t : ThreadId) : (s.registry.named t).Perm (s.registry.liveNames t) := by
  refine (perm_ext_iff_of_nodup (named_nodup h t) (nodup_range.filter _)).mpr fun e => ?_
  simp only [mem_filter, mem_range, Bool.and_eq_true, contains_iff_mem]
  refine ⟨fun he => ⟨?_, (hlive t e he).2, he⟩, fun he => he.2.2⟩
  by_contra hge
  have hnone := (settled_of_reachable h).fresh e (Nat.le_of_not_lt hge)
  simpa [hnone] using (hlive t e he).2

/-- **Capabilities of the living, over what exists.**  In a run in which nobody exits
while others hold capabilities over its endpoints, and nothing is granted to a thread
that has exited, every entry belongs to a thread that has not exited and names an
endpoint that exists; what is compared with a thread's quota is the number of live
endpoints it can name; and while that is below the quota, the thread can be granted any
right its granter may give.  The next step keeps this exactly if it is such a step. -/
theorem capabilities_live {s : State} (h : machine.Reaches Tidy s) : EntriesLive s ∧
    (∀ t, (s.registry.capabilities t).length = (s.registry.liveNames t).length) ∧
    (∀ allowance g t e rights, (s.registry.endpoints e).isSome = true →
      (s.registry.rightsOf g e).contains .grant = true →
      (rights.intersection (s.registry.rightsOf g e)).isEmpty = false →
      (s.registry.liveNames t).length < allowance →
      ∃ r, s.registry.grant allowance g t e rights = .ok r) ∧
    ∀ l s', step s l = some s' → (EntriesLive s' ↔ Tidy s l) := by
  have hreach : machine.Reachable s := h.mono fun _ _ _ => trivial
  have hlive : EntriesLive s := by
    refine h.invariant_from ?_ fun hi hok hs => (entriesLive_step hi hs).mpr hok
    intro t e he
    simp [initial, new, named] at he
  have hcount : ∀ t, (s.registry.named t).length = (s.registry.liveNames t).length :=
    fun t => (named_perm_liveNames hreach hlive t).length_eq
  refine ⟨hlive, fun t => ?_, fun allowance g t e rights he hg hne hlt => ?_,
    fun l s' hs => entriesLive_step hlive hs⟩
  · rw [← hcount, named, length_map]
  · obtain ⟨r, hr⟩ : ∃ r', s.registry.addRights allowance t e
        (rights.intersection (s.registry.rightsOf g e)) = .ok r' := addRights_of_lt (hcount t ▸ hlt)
    exact ⟨r, grant_iff.mpr ⟨he, hg, hne, hr⟩⟩

/-- Grants to threads that are there, and nobody exits. -/
def Staying (s : State) : Label → Bool
  | .exit _ => false
  | .grant _ t _ _ _ => s.pc t ≠ .exited
  | _ => true

theorem tidy_of_staying (h : Staying s l = true) : Tidy s l := by
  cases l with
  | exit => cases h
  | grant => exact fun _ => of_decide_eq_true h
  | _ => trivial

/-- A client is given a right by its server and exits: the server's entry for its one
endpoint is all its quota is charged for. -/
theorem capabilities_live_client : ∃ s, machine.Reaches Tidy s ∧ s.pc 1 = .exited ∧
    (s.registry.capabilities 0).length = (s.registry.liveNames 0).length := by
  obtain ⟨s, hs, _, hzero, howner, hfree⟩ := machine.exists_reaches
    (fun s l => Staying s l = true) [.create 0 ⟨1, 1, 0, 0⟩ 4, .grant 0 1 1 1 .send]
    (fun s => s.registry.nextId = 2 ∧ (s.registry.endpoints 0).isNone = true ∧
      (s.registry.endpoints 1).all (fun q => q.owner = 0) = true ∧ s.free 1 = true) rfl (by decide)
  have hreach : machine.Reaches Tidy s := hs.mono fun _ _ => tidy_of_staying
  have htidy : Tidy s (.exit 1) := by
    intro u _ e _ q hq howned
    have hlt : e < 2 := by
      by_contra hge
      have hnone := (settled_of_reachable (hs.mono fun _ _ _ => trivial)).fresh e (by omega)
      cases hnone.symm.trans hq
    obtain rfl | rfl : e = 0 ∨ e = 1 := by omega
    · exact absurd (mem_def.mp hq) (by simp [isNone_iff_eq_none.mp hzero])
    · simp [mem_def.mp hq, howned] at howner
  have hexit : machine.step s (.exit 1) =
      some ({ s with registry := s.registry.releaseThread 1 }.goto 1 .exited) := if_pos hfree
  have hreach' := Machine.Reaches.step hreach htidy hexit
  exact ⟨_, hreach', by simp, (capabilities_live hreach').2.1 0⟩

end Panda.Ipc
