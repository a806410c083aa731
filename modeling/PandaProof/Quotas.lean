import PandaProof.Machine

/-!
# Quotas down the spawn tree

The table of `quota.rs` and the threads of the scheduler that it is about.  `grant`
narrows what it is asked for to what the granter holds, so a quota handed on never
exceeds the one it was handed on from, and none exceeds the default, from which all of
them descend.  A thread nobody granted anything to has the default, though, whatever its
spawner holds: `spawn` does not consult the table.  So quotas only narrow down the tree
in the runs in which every spawner still holds the whole default when it spawns, and in
no others (`narrowed_iff_spawners_unrestricted`).
-/
namespace Panda.Quotas

open List Option

abbrev ThreadId := Nat

/-- What one thread may hold at once. -/
structure Quota where
  /-- Endpoints it may own. -/
  endpoints : Nat
  /-- Distinct endpoints it may hold capabilities for. -/
  capabilities : Nat
  /-- Graphics buffers it may own at once. -/
  buffers : Nat
  /-- Total bytes across those buffers. -/
  bufferBytes : Nat
  deriving DecidableEq

namespace Quota

/-- What a thread gets when nobody said otherwise. -/
def default : Quota := ⟨32, 128, 16, 64 * 1024 * 1024⟩

def nothing : Quota := ⟨0, 0, 0, 0⟩

/-- The most this quota can grant: each field capped by `self`. -/
def narrowTo (self requested : Quota) : Quota where
  endpoints := min requested.endpoints self.endpoints
  capabilities := min requested.capabilities self.capabilities
  buffers := min requested.buffers self.buffers
  bufferBytes := min requested.bufferBytes self.bufferBytes

/-- Field by field. -/
instance : LE Quota where
  le a b := a.endpoints ≤ b.endpoints ∧ a.capabilities ≤ b.capabilities ∧
    a.buffers ≤ b.buffers ∧ a.bufferBytes ≤ b.bufferBytes

instance (a b : Quota) : Decidable (a ≤ b) :=
  inferInstanceAs (Decidable (_ ∧ _ ∧ _ ∧ _))

theorem le_refl (a : Quota) : a ≤ a := ⟨Nat.le_refl _, Nat.le_refl _, Nat.le_refl _, Nat.le_refl _⟩

theorem le_trans {a b c : Quota} (h : a ≤ b) (h' : b ≤ c) : a ≤ c :=
  ⟨Nat.le_trans h.1 h'.1, Nat.le_trans h.2.1 h'.2.1, Nat.le_trans h.2.2.1 h'.2.2.1,
    Nat.le_trans h.2.2.2 h'.2.2.2⟩

/-- **Authority narrows.** -/
theorem narrowTo_le (self requested : Quota) : self.narrowTo requested ≤ self :=
  ⟨Nat.min_le_right .., Nat.min_le_right .., Nat.min_le_right .., Nat.min_le_right ..⟩

end Quota

/-! ## The table -/

/-- `ASSIGNED`: threads with a quota other than the default. -/
abbrev Assigned := List (ThreadId × Quota)

/-- What `thread` may hold. -/
def Assigned.of (assigned : Assigned) (thread : ThreadId) : Quota :=
  ((assigned.find? fun entry => entry.1 = thread).map Prod.snd).getD .default

/-- The first entry of `target` replaced. -/
def Assigned.replace (target : ThreadId) (allowed : Quota) : Assigned → Assigned
  | [] => []
  | entry :: rest =>
    if entry.1 = target then (entry.1, allowed) :: rest else entry :: replace target allowed rest

/-- Give `target` a quota, capped by what `granter` itself holds. -/
def Assigned.grant (assigned : Assigned) (granter target : ThreadId) (requested : Quota) :
    Assigned := let allowed := (assigned.of granter).narrowTo requested
  if assigned.any fun entry => entry.1 = target then assigned.replace target allowed
  else assigned ++ [(target, allowed)]

/-- Forget a thread's quota. -/
def Assigned.releaseThread (assigned : Assigned) (thread : ThreadId) : Assigned :=
  assigned.filter fun entry => entry.1 ≠ thread

namespace Assigned

variable {assigned : Assigned} {thread : ThreadId}

/-- A quota is the default or an entry of the table. -/
theorem of_cases (assigned : Assigned) (thread : ThreadId) :
    (∀ entry ∈ assigned, entry.1 ≠ thread) ∧ assigned.of thread = .default ∨
      (thread, assigned.of thread) ∈ assigned := by
  unfold of
  cases hfind : assigned.find? fun entry => entry.1 = thread with
  | none =>
    refine .inl ⟨fun entry hentry => ?_, rfl⟩
    simpa using find?_eq_none.mp hfind entry hentry
  | some entry =>
    have hthread : entry.1 = thread := by simpa using find?_some hfind
    refine .inr ?_
    rw [← hthread]
    exact mem_of_find?_eq_some hfind

variable {entry : ThreadId × Quota}

theorem mem_replace {target : ThreadId} {allowed : Quota}
    (h : entry ∈ assigned.replace target allowed) :
    entry ∈ assigned ∨ entry.2 = allowed ∧ ∃ old ∈ assigned, old.1 = entry.1 := by
  induction assigned with
  | nil => exact .inl h
  | cons first rest ih =>
    unfold replace at h
    split at h
    · rcases mem_cons.mp h with rfl | h
      · exact .inr ⟨rfl, first, mem_cons_self, rfl⟩
      · exact .inl (mem_cons_of_mem _ h)
    rcases mem_cons.mp h with rfl | h
    · exact .inl mem_cons_self
    · rcases ih h with h | ⟨hallowed, old, hold, heq⟩
      · exact .inl (mem_cons_of_mem _ h)
      · exact .inr ⟨hallowed, old, mem_cons_of_mem _ hold, heq⟩

/-- An entry after a grant is an old one or has what the granter could give. -/
theorem mem_grant {granter target : ThreadId} {requested : Quota}
    (h : entry ∈ assigned.grant granter target requested) :
    entry ∈ assigned ∨ entry.2 = (assigned.of granter).narrowTo requested ∧
      (entry.1 = target ∨ ∃ old ∈ assigned, old.1 = entry.1) := by
  unfold grant at h
  split at h
  · exact (mem_replace h).imp_right fun ⟨hallowed, hold⟩ => ⟨hallowed, .inr hold⟩
  rcases mem_append.mp h with h | h
  · exact .inl h
  · rw [mem_singleton] at h
    exact .inr ⟨by rw [h], .inl (by rw [h])⟩

/-- No entry exceeds the default. -/
def Bounded (assigned : Assigned) : Prop := ∀ entry ∈ assigned, entry.2 ≤ .default

theorem Bounded.of_le (h : assigned.Bounded) (thread : ThreadId) :
    assigned.of thread ≤ .default := by
  rcases assigned.of_cases thread with ⟨-, hdefault⟩ | hmem
  · rw [hdefault]
    exact Quota.le_refl _
  · exact h _ hmem

/-- **What is granted stays below the default**, whatever was asked for. -/
theorem Bounded.grant (h : assigned.Bounded) (granter target : ThreadId) (requested : Quota) :
    (assigned.grant granter target requested).Bounded := by
  intro entry hentry
  rcases mem_grant hentry with hold | ⟨hallowed, -⟩
  · exact h entry hold
  · rw [hallowed]
    exact Quota.le_trans (Quota.narrowTo_le ..) (h.of_le granter)

theorem Bounded.releaseThread (h : assigned.Bounded) (thread : ThreadId) :
    (assigned.releaseThread thread).Bounded := fun entry hentry => h entry (mem_filter.mp hentry).1

end Assigned

/-! ## Threads -/

/-- The threads so far, in the order of their ids, and the table. -/
structure Tree where
  /-- `THREADS.len()`; ids are not reused. -/
  count : Nat
  /-- Those that have not exited. -/
  live : ThreadId → Bool
  assigned : Assigned
  /-- On record: who spawned a thread, and the spawner's quota at that moment. -/
  spawner : ThreadId → Option (ThreadId × Quota)

inductive Act
  /-- `spawn_inner`, called by a running thread. -/
  | spawn (parent : ThreadId)
  /-- A processor coming up, with a thread of its own that nobody spawned. -/
  | adopt
  | grant (granter target : ThreadId) (requested : Quota)
  | exit (thread : ThreadId)

/-- The boot thread and its idle thread. -/
def Tree.boot : Tree := ⟨2, fun thread => thread < 2, [], fun _ => none⟩

/-- A thread under the next id. -/
def Tree.push (s : Tree) (spawner : Option (ThreadId × Quota)) : Tree :=
  { s with
    count := s.count + 1
    live := Function.update s.live s.count true
    spawner := Function.update s.spawner s.count spawner }

/-- One call; a quota is granted by the spawner only. -/
def Tree.step (s : Tree) : Act → Option Tree
  | .spawn parent =>
    if s.live parent then some (s.push (some (parent, s.assigned.of parent))) else none
  | .adopt => some (s.push none)
  | .grant granter target requested =>
    if s.live granter ∧ s.live target ∧ (s.spawner target).map Prod.fst = some granter then
      some { s with assigned := s.assigned.grant granter target requested }
    else none
  | .exit thread =>
    if s.live thread then
      some { s with
        live := Function.update s.live thread false
        assigned := s.assigned.releaseThread thread }
    else none

def spawning : Machine Tree Act where
  Init s := s = .boot
  step := Tree.step

/-- **Quotas only narrow**: no thread holds more than its spawner did when it spawned
it. -/
def Narrowed (s : Tree) : Prop :=
  ∀ thread, s.live thread = true → ∀ parent held, s.spawner thread = some (parent, held) →
    s.assigned.of thread ≤ held

/-- The spawner, if this step is a spawn, holds the whole default. -/
def Unrestricted (s : Tree) (a : Act) : Prop :=
  ∀ parent, a = .spawn parent → .default ≤ s.assigned.of parent

/-! ## The invariant -/

/-- What holds in every run: ids are handed out in order, and no quota exceeds the
default. -/
structure Ordered (s : Tree) : Prop where
  fresh : ∀ entry ∈ s.assigned, entry.1 < s.count
  live : ∀ thread, s.live thread = true → thread < s.count
  bounded : s.assigned.Bounded

theorem Ordered.boot : Ordered Tree.boot :=
  ⟨by simp [Tree.boot], fun _ h => of_decide_eq_true h, by simp [Tree.boot, Assigned.Bounded]⟩

variable {s : Tree}

theorem Ordered.push (h : Ordered s) (spawner : Option (ThreadId × Quota)) :
    Ordered (s.push spawner) := by
  refine ⟨fun entry hentry => Nat.lt_succ_of_lt (h.fresh entry hentry), fun thread hlive => ?_,
    h.bounded⟩
  by_cases hnew : thread = s.count
  · exact hnew ▸ Nat.lt_succ_self _
  · exact Nat.lt_succ_of_lt (h.live thread (by simpa [Tree.push, hnew] using hlive))

variable {t : Tree} {a : Act}

theorem Ordered.step (h : Ordered s) (hs : s.step a = some t) : Ordered t := by
  cases a with
  | spawn =>
    obtain ⟨-, ⟨⟩⟩ := ite_none_right_eq_some.mp hs
    exact h.push _
  | adopt =>
    cases hs
    exact h.push _
  | grant granter target requested =>
    obtain ⟨⟨-, htarget, -⟩, ⟨⟩⟩ := ite_none_right_eq_some.mp hs
    refine ⟨fun entry hentry => ?_, h.live, h.bounded.grant granter target requested⟩
    rcases Assigned.mem_grant hentry with hold | ⟨-, heq | ⟨old, hold, heq⟩⟩
    · exact h.fresh entry hold
    · exact heq ▸ h.live target htarget
    · exact heq ▸ h.fresh old hold
  | exit thread =>
    obtain ⟨-, ⟨⟩⟩ := ite_none_right_eq_some.mp hs
    refine ⟨fun entry hentry => h.fresh entry (mem_filter.mp hentry).1, fun other hlive => ?_,
      h.bounded.releaseThread thread⟩
    by_cases hsame : other = thread
    · simp [hsame] at hlive
    · exact h.live other (by simpa [hsame] using hlive)

/-- A new thread has the default. -/
theorem Ordered.of_push (h : Ordered s) (spawner : Option (ThreadId × Quota)) :
    (s.push spawner).assigned.of s.count = .default := by
  rcases s.assigned.of_cases s.count with ⟨-, hdefault⟩ | hmem
  · exact hdefault
  · exact absurd (h.fresh _ hmem) (Nat.lt_irrefl _)

/-- Every spawner on record held the whole default. -/
def FromDefault (s : Tree) : Prop :=
  ∀ thread parent held, s.spawner thread = some (parent, held) → .default ≤ held

theorem FromDefault.push (h : FromDefault s) {spawner : Option (ThreadId × Quota)}
    (hnew : ∀ parent held, spawner = some (parent, held) → .default ≤ held) :
    FromDefault (s.push spawner) := by
  intro thread parent held hspawner
  simp only [Tree.push, Function.update_apply] at hspawner
  split at hspawner
  · exact hnew parent held hspawner
  · exact h thread parent held hspawner

theorem FromDefault.step (h : FromDefault s) (hok : Unrestricted s a)
    (hs : s.step a = some t) : FromDefault t := by
  cases a with
  | spawn parent =>
    obtain ⟨-, ⟨⟩⟩ := ite_none_right_eq_some.mp hs
    refine h.push fun other held hnew => ?_
    cases hnew
    exact hok parent rfl
  | adopt =>
    cases hs
    exact h.push fun _ _ hnew => by cases hnew
  | grant | exit =>
    obtain ⟨-, ⟨⟩⟩ := ite_none_right_eq_some.mp hs
    exact h

theorem FromDefault.narrowed (h : FromDefault s) (hs : Ordered s) : Narrowed s :=
  fun thread _ parent held hspawner =>
    Quota.le_trans (hs.bounded.of_le thread) (h thread parent held hspawner)

/-- Right after a spawn the child holds the default, so the spawner must have. -/
theorem unrestricted_of_narrowed (h : Ordered s) (hs : s.step a = some t)
    (ht : Narrowed t) : Unrestricted s a := by
  rintro parent rfl
  obtain ⟨-, ⟨⟩⟩ := ite_none_right_eq_some.mp hs
  have := ht s.count (by simp [Tree.push]) parent (s.assigned.of parent) (by simp [Tree.push])
  rwa [h.of_push] at this

/-! ## Runs -/

/-- What one run says about its quotas, from both sides. -/
theorem path_spec {p : List (Tree × Act)} (h : spawning.Path p s) :
    Ordered s ∧ ((∀ x ∈ p, Unrestricted x.1 x.2) → FromDefault s ∧ ∀ x ∈ p, Narrowed x.1) ∧
      ((∀ x ∈ p, Narrowed x.1) → Narrowed s → ∀ x ∈ p, Unrestricted x.1 x.2) := by
  induction h with
  | init h =>
    obtain rfl : _ = Tree.boot := h
    exact ⟨.boot, fun _ => ⟨fun _ _ _ hnone => (nomatch hnone), by simp⟩, by simp⟩
  | @step s t a p _ hs ih =>
    obtain ⟨hordered, hforward, hback⟩ := ih
    refine ⟨hordered.step hs, fun hok => ?_, fun hnarrowed ht => ?_⟩
    · have hrest := hforward fun x hx => hok x (mem_cons_of_mem _ hx)
      refine ⟨hrest.1.step (hok _ mem_cons_self) hs, fun x hx => ?_⟩
      rcases mem_cons.mp hx with rfl | hx
      · exact hrest.1.narrowed hordered
      · exact hrest.2 x hx
    · intro x hx
      rcases mem_cons.mp hx with rfl | hx
      · exact unrestricted_of_narrowed hordered hs ht
      · exact hback (fun y hy => hnarrowed y (mem_cons_of_mem _ hy))
          (hnarrowed _ mem_cons_self) x hx

/-- **Quotas only narrow down the tree, exactly when every spawner holds the default.**
In any run, no state breaks the hierarchy if and only if each thread that spawned another
held, at that moment, at least the default in every field. -/
theorem narrowed_iff_spawners_unrestricted {p : List (Tree × Act)} {s : Tree}
    (h : spawning.Path p s) :
    ((∀ x ∈ p, Narrowed x.1) ∧ Narrowed s) ↔ ∀ x ∈ p, Unrestricted x.1 x.2 := by
  obtain ⟨hordered, hforward, hback⟩ := path_spec h
  constructor
  · rintro ⟨hp, hs⟩
    exact hback hp hs
  · intro hok
    exact ⟨(hforward hok).2, (hforward hok).1.narrowed hordered⟩

/-- The boot thread spawns a thread and restricts it. -/
theorem narrowed_of_boot_spawning : ∃ p s, spawning.Path p s ∧ p.length = 2 ∧ Narrowed s := by
  have h : spawning.Path _ _ := .step (.step (.init rfl)
    (show spawning.step Tree.boot (.spawn 0) = some _ from rfl))
    (show spawning.step _ (.grant 0 2 .nothing) = some _ from rfl)
  refine ⟨_, _, h, rfl, ((narrowed_iff_spawners_unrestricted h).mpr ?_).2⟩
  intro x hx parent hspawn
  simp only [mem_cons, not_mem_nil, or_false] at hx
  rcases hx with rfl | rfl
  · cases hspawn
  · cases hspawn
    decide

/-- **A restricted thread has unrestricted children**: the boot thread spawns thread 2 and
leaves it nothing, and thread 2 spawns thread 3, which holds the default. -/
theorem child_of_nothing_holds_default :
    ∃ s, spawning.Reachable s ∧ s.spawner 3 = some (2, .nothing) ∧
      s.assigned.of 3 = .default ∧ ¬ Narrowed s := by
  have h : spawning.Reachable _ := .step (.step (.step (.init rfl) trivial
    (show spawning.step Tree.boot (.spawn 0) = some _ from rfl)) trivial
    (show spawning.step _ (.grant 0 2 .nothing) = some _ from rfl)) trivial
    (show spawning.step _ (.spawn 2) = some _ from rfl)
  refine ⟨_, h, rfl, rfl, fun hnarrowed => ?_⟩
  exact absurd (hnarrowed 3 rfl 2 .nothing rfl) (by decide)

end Panda.Quotas
