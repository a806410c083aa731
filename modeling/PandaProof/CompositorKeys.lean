import PandaProof.Compositor

/-!
# Where the compositor sends keys

What the compositor keeps about input and focus, against the messages it was sent.  The
definitions of the first part read the history of a run, newest message first, and nothing the
compositor keeps about it: who the kernel named, which buttons were reported down, who presented
a buffer last and where a thread last asked for its keys.  Only what is drawn where at the time
of a click is taken from the compositor.  The rest shows that the compositor's own fields agree
with the history after every message, and that a click brings the surface on top to the front.
-/
namespace Panda.Compositor

open Function List Option

/-! ## What the messages say -/

/-- The messages handled so far, newest first, and what each was handled with. -/
abbrev History := List (State × Kernel × Message)

/-- The thread the kernel most recently named as input source. -/
def namedSource : History → Option UInt64
  | [] => none
  | (_, _, m) :: p =>
    if m.tag = tagInputSource ∧ fromKernel m then some m.first else namedSource p

/-- Sent by the kernel, or by the thread it named. -/
def Trusted (p : History) (m : Message) : Prop :=
  fromKernel m = true ∨ namedSource p = some m.sender

instance (p : History) (m : Message) : Decidable (Trusted p m) :=
  inferInstanceAs (Decidable (_ ∨ _))

/-- The buttons most recently reported down. -/
def lastButtons : History → UInt64
  | [] => 0
  | (_, _, m) :: p => if m.tag = tagPointer ∧ Trusted p m then m.third else lastButtons p

/-- A trusted sender reports that the left button went down. -/
def Presses (p : History) (m : Message) : Prop :=
  m.tag = tagPointer ∧ Trusted p m ∧ (m.third &&& ~~~lastButtons p) &&& 1 ≠ 0

/-- The buffer is presented and can be reached. -/
def Presents (kernel : Kernel) (m : Message) (buffer : UInt64) : Prop :=
  m.tag = tagPresent ∧ m.first = buffer ∧
    (adopt kernel m.first m.second m.third m.fourth m.sender).isSome

instance (kernel : Kernel) (m : Message) (buffer : UInt64) : Decidable (Presents kernel m buffer) :=
  inferInstanceAs (Decidable (_ ∧ _))

/-- The thread that presented the buffer last. -/
def lastPresenter (buffer : UInt64) : History → Option UInt64
  | [] => none
  | (_, kernel, m) :: p =>
    if Presents kernel m buffer then some m.sender else lastPresenter buffer p

/-- The endpoint the thread last asked for its keys at. -/
def lastListen (thread : UInt64) : History → Option UInt64
  | [] => none
  | (_, _, m) :: p =>
    if m.tag = tagListen ∧ m.sender = thread then some m.first else lastListen thread p

/-- The surface on top at a point: of those that cover it the one of greatest depth, the one in
the higher slot of two that have it. -/
def OnTop (surfaces : Fin maxSurfaces → Surface) (i : Fin maxSurfaces) (x y : UInt64) : Prop :=
  ((surfaces i).buffer ≠ 0 ∧ (boundsOf (surfaces i)).contains x y = true) ∧
    ∀ j, (surfaces j).buffer ≠ 0 → (boundsOf (surfaces j)).contains x y = true →
      (surfaces j).z < (surfaces i).z ∨ (surfaces j).z = (surfaces i).z ∧ j ≤ i

/-- It is on top where the cursor is after a movement. -/
abbrev OnTopAfter (s : State) (dx dy : UInt64) (i : Fin maxSurfaces) : Prop :=
  OnTop s.surfaces i (moveWithin s.cursorX dx s.screen.width.toUInt64)
    (moveWithin s.cursorY dy s.screen.height.toUInt64)

/-- At the most recent press, the thread had last presented the surface on top under the
cursor. -/
def Focused (thread : UInt64) : History → Prop
  | [] => False
  | (s, _, m) :: p =>
    Presses p m ∧ (∃ i, OnTopAfter s m.first m.second i ∧
      lastPresenter (s.surfaces i).buffer p = some thread) ∨
    ¬Presses p m ∧ Focused thread p

/-- The endpoint a key event goes to while a message is handled. -/
def sends (s : State) (m : Message) : Option UInt64 :=
  if m.tag = tagKey ∧ fromInput s m then key s else none

/-! ## The order by depth -/

section Depth
variable (surfaces : Fin maxSurfaces → Surface)

/-- Drawn over it. -/
def Above (i j : Fin maxSurfaces) : Prop :=
  (surfaces j).z < (surfaces i).z ∨ (surfaces j).z = (surfaces i).z ∧ j ≤ i

variable {index i : Fin maxSurfaces} {order : List (Fin maxSurfaces)}

theorem insertByDepth_perm : insertByDepth surfaces index order ~ index :: order := by
  induction order with
  | nil => exact .refl _
  | cons top rest ih =>
    rw [insertByDepth]
    split
    · exact (ih.cons top).trans (.swap ..)
    · exact .refl _

/-- An insertion of a slot past all those in order keeps the order. -/
theorem insertByDepth_sorted
    (horder : order.Pairwise (Above surfaces)) (hlt : ∀ i ∈ order, i < index) :
    (insertByDepth surfaces index order).Pairwise (Above surfaces) := by
  induction order with
  | nil => simp [insertByDepth]
  | cons top rest ih =>
    obtain ⟨htop, hrest⟩ := pairwise_cons.mp horder
    rw [insertByDepth]
    split
    · rename_i hdepth
      refine pairwise_cons.mpr ⟨fun i hi => ?_, ih hrest fun i hi =>
        hlt i (mem_cons_of_mem _ hi)⟩
      rcases mem_cons.mp ((insertByDepth_perm surfaces).mem_iff.mp hi) with rfl | hi
      · exact .inl hdepth
      · exact htop i hi
    rename_i hdepth
    have hfirst : Above surfaces index top := by
      rcases UInt64.lt_or_eq_of_le (UInt64.not_lt.mp hdepth) with hz | hz
      · exact .inl hz
      · exact .inr ⟨hz, (hlt top mem_cons_self).le⟩
    refine pairwise_cons.mpr ⟨fun i hi => ?_, horder⟩
    rcases mem_cons.mp hi with rfl | hi
    · exact hfirst
    rcases hfirst with hz | ⟨hz, hle⟩
    · rcases htop i hi with hz' | ⟨hz', -⟩
      · exact .inl (UInt64.lt_trans hz' hz)
      · exact .inl (hz' ▸ hz)
    · rcases htop i hi with hz' | ⟨hz', hle'⟩
      · exact .inl (hz ▸ hz')
      · exact .inr ⟨hz'.trans hz, hle'.trans hle⟩

/-- The slots inserted so far, in order. -/
theorem foldl_insertByDepth (l order : List (Fin maxSurfaces)) (hl : l.Pairwise (· < ·))
    (horder : order.Pairwise (Above surfaces)) (hlt : ∀ i ∈ order, ∀ j ∈ l, i < j) :
    let result := l.foldl (fun order index =>
      if (surfaces index).buffer = 0 then order else insertByDepth surfaces index order) order
    result.Pairwise (Above surfaces) ∧
      result ~ order ++ l.filter fun i => (surfaces i).buffer ≠ 0 := by
  induction l generalizing order with
  | nil => simpa using horder
  | cons index rest ih =>
    obtain ⟨hindex, hrest⟩ := pairwise_cons.mp hl
    rw [foldl_cons]
    split
    · rename_i hempty
      rw [filter_cons_of_neg (by simpa using hempty)]
      exact ih order hrest horder fun i hi j hj => hlt i hi j (mem_cons_of_mem _ hj)
    rename_i hlive
    rw [filter_cons_of_pos (by simpa using hlive)]
    have hperm := @insertByDepth_perm surfaces index order
    obtain ⟨hsorted, hall⟩ := ih (insertByDepth surfaces index order) hrest
      (insertByDepth_sorted surfaces horder fun i hi => hlt i hi index mem_cons_self)
      fun i hi j hj => by
        rcases mem_cons.mp (hperm.mem_iff.mp hi) with rfl | hi
        · exact hindex j hj
        · exact hlt i hi j (mem_cons_of_mem _ hj)
    exact ⟨hsorted, (hall.trans (hperm.append_right _)).trans perm_middle.symm⟩

/-- `sorted_by_depth` lists the live surfaces, each above those after it. -/
theorem sortedByDepth_spec : (sortedByDepth surfaces).Pairwise (Above surfaces) ∧
    sortedByDepth surfaces ~ (finRange maxSurfaces).filter fun i => (surfaces i).buffer ≠ 0 :=
  foldl_insertByDepth surfaces (finRange maxSurfaces) [] (pairwise_lt_finRange _) .nil (by simp)

theorem mem_sortedByDepth : i ∈ sortedByDepth surfaces ↔ (surfaces i).buffer ≠ 0 := by
  simp [(sortedByDepth_spec surfaces).2.mem_iff]

/-- **A click hits the surface on top.** -/
theorem onTop_of_find {x y : UInt64}
    (h : (sortedByDepth surfaces).find? (fun i => (boundsOf (surfaces i)).contains x y) = some i) :
    OnTop surfaces i x y := by
  have hsorted := (sortedByDepth_spec surfaces).1
  obtain ⟨hhit, _, _, hsplit, hbefore⟩ := find?_eq_some_iff_append.mp h
  refine ⟨⟨(mem_sortedByDepth _).mp (mem_of_find?_eq_some h), hhit⟩, fun j hlive hj => ?_⟩
  have hj' := (mem_sortedByDepth _).mpr hlive
  rw [hsplit] at hj' hsorted
  rcases mem_append.mp hj' with hj' | hj'
  · simpa [hj] using hbefore j hj'
  · rcases mem_cons.mp hj' with rfl | hj'
    · exact .inr ⟨rfl, le_refl _⟩
    · exact (pairwise_cons.mp (pairwise_append.mp hsorted).2.1).1 j hj'

theorem above_antisymm {i j : Fin maxSurfaces}
    (hij : Above surfaces i j) (hji : Above surfaces j i) : i = j := by
  simp only [Above, UInt64.lt_iff_toNat_lt, ← UInt64.toNat_inj, Fin.le_def, Fin.ext_iff] at *
  omega

variable {surfaces}

/-- The surface drawn last over a point is the one on top. -/
theorem find_eq_some_iff {x y : UInt64} : (sortedByDepth surfaces).find?
      (fun i => (boundsOf (surfaces i)).contains x y) = some i ↔ OnTop surfaces i x y := by
  refine ⟨onTop_of_find surfaces, fun h => ?_⟩
  cases hfind : (sortedByDepth surfaces).find? fun i => (boundsOf (surfaces i)).contains x y with
  | none => exact absurd h.1.2 (find?_eq_none.mp hfind i ((mem_sortedByDepth _).mpr h.1.1))
  | some j =>
    obtain ⟨⟨hlive, hhit⟩, habove⟩ := onTop_of_find surfaces hfind
    rw [above_antisymm surfaces (habove i h.1.1 h.1.2) (h.2 j hlive hhit)]

end Depth

/-! ## What a message does -/

/-- The fields about input that `compose` and `track` leave alone. -/
structure SameInput (s s' : State) : Prop where
  inputSource : s'.inputSource = s.inputSource
  buttons : s'.buttons = s.buttons
  focus : s'.focus = s.focus
  listeners : s'.listeners = s.listeners

theorem compose_sameInput (s : State) : SameInput s (compose s) := by
  rw [compose]
  split <;> exact ⟨rfl, rfl, rfl, rfl⟩

theorem track_sameInput (s : State) (surface : Surface) : SameInput s (track s surface) := by
  rw [track]
  split <;> exact ⟨rfl, rfl, rfl, rfl⟩

/-- A click gives the keyboard to the owner of the surface on top, if there is one. -/
theorem raiseAt_spec (s : State) (x y : UInt64) :
    (raiseAt s x y).inputSource = s.inputSource ∧ (raiseAt s x y).buttons = s.buttons ∧
    (raiseAt s x y).listeners = s.listeners ∧ ∀ thread, (raiseAt s x y).focus = some thread →
      ∃ i, OnTop s.surfaces i x y ∧ (s.surfaces i).owner = thread := by
  rw [raiseAt]
  dsimp only
  split
  · rename_i index top rest hfind horder
    by_cases htop : top = index
    · simp only [htop, ne_eq, not_true_eq_false, if_false]
      exact ⟨trivial, trivial, trivial, fun thread h =>
        ⟨index, onTop_of_find _ hfind, some.inj h⟩⟩
    · simp only [ne_eq, htop, not_false_eq_true, if_true]
      refine ⟨trivial, trivial, trivial, fun thread h => ⟨index, onTop_of_find _ hfind, ?_⟩⟩
      simpa using h
  · exact ⟨rfl, rfl, rfl, fun _ h => nomatch h⟩

variable {s s' : State}

/-- A pointer event moves the focus only when the left button goes down. -/
theorem pointer_spec {dx dy buttons : UInt64} (h : pointer s dx dy buttons = some s') :
    s'.inputSource = s.inputSource ∧ s'.buttons = buttons ∧ s'.listeners = s.listeners ∧
    ((buttons &&& ~~~s.buttons) &&& 1 = 0 ∧ s'.focus = s.focus ∨
      (buttons &&& ~~~s.buttons) &&& 1 ≠ 0 ∧ ∀ thread, s'.focus = some thread →
        ∃ i, OnTopAfter s dx dy i ∧ (s.surfaces i).owner = thread) := by
  rw [pointer] at h
  dsimp only at h
  split at h
  · cases h
  cases h
  cases s.cursorVisible <;> simp only [if_true, if_false, Bool.false_eq_true]
  all_goals
    split
    · rename_i hpress
      obtain ⟨hsource, hbuttons, hlisteners, hfocus⟩ := raiseAt_spec _ _ _
      exact ⟨hsource, hbuttons, hlisteners, .inr ⟨hpress, hfocus⟩⟩
    · rename_i hpress
      exact ⟨rfl, rfl, rfl, .inl ⟨not_not.mp hpress, rfl⟩⟩

/-- `listen` writes the first entry of the thread, or else an unused one, and drops the request
where there is neither. -/
theorem listen_spec (s : State) (owner endpoint : UInt64) :
    SameInput s { listen s owner endpoint with listeners := s.listeners } ∧
    ((listen s owner endpoint).listeners = s.listeners ∧ (∀ i, (s.listeners i).1 ≠ owner) ∨
      ∃ k, (listen s owner endpoint).listeners = update s.listeners k (owner, endpoint) ∧
        (∀ i < k, (s.listeners i).1 ≠ owner) ∧
        ((s.listeners k).1 = owner ∨ (s.listeners k).2 = 0 ∧ ∀ i, (s.listeners i).1 ≠ owner)) := by
  rw [listen]
  dsimp only
  cases hown : (finRange maxSurfaces).find? fun i => (s.listeners i).1 = owner with
  | some k =>
    obtain ⟨howner, _, _, hsplit, hbefore⟩ := find?_eq_some_iff_append.mp hown
    refine ⟨⟨rfl, rfl, rfl, rfl⟩, .inr ⟨k, rfl, fun i hi => ?_, .inl (by simpa using howner)⟩⟩
    have hmem := mem_finRange i
    have hsorted := pairwise_lt_finRange maxSurfaces
    rw [hsplit] at hmem hsorted
    rcases mem_append.mp hmem with hmem | hmem
    · simpa using hbefore i hmem
    · rcases mem_cons.mp hmem with rfl | hmem
      · exact absurd hi (lt_irrefl _)
      · exact absurd hi ((pairwise_cons.mp (pairwise_append.mp hsorted).2.1).1 i hmem).asymm
  | none =>
    have hnone : ∀ i, (s.listeners i).1 ≠ owner := fun i => by
      simpa using find?_eq_none.mp hown i (mem_finRange i)
    cases hfree : (finRange maxSurfaces).find? fun i => (s.listeners i).2 = 0 with
    | none => exact ⟨⟨rfl, rfl, rfl, rfl⟩, .inl ⟨rfl, hnone⟩⟩
    | some k =>
      refine ⟨⟨rfl, rfl, rfl, rfl⟩, .inr ⟨k, rfl, fun i _ => hnone i, .inr ⟨?_, hnone⟩⟩⟩
      simpa using find?_some hfree

/-- The turn a message gets in the loop of `main`. -/
inductive Handled (kernel : Kernel) (s : State) (m : Message) : State → Prop
  | source (htag : m.tag = tagInputSource) (hkernel : fromKernel m = true) :
      Handled kernel s m { s with inputSource := some m.first }
  | pointer (htag : m.tag = tagPointer) (hinput : fromInput s m = true) {t : State}
      (ht : Compositor.pointer s m.first m.second m.third = some t) : Handled kernel s m (compose t)
  | listen (htag : m.tag = tagListen) : Handled kernel s m (listen s m.sender m.first)
  | present (htag : m.tag = tagPresent) {surface : Surface}
      (hadopt : adopt kernel m.first m.second m.third m.fourth m.sender = some surface) :
      Handled kernel s m (compose (track s surface))
  | ignored (hsource : ¬(m.tag = tagInputSource ∧ fromKernel m = true))
      (hpointer : ¬(m.tag = tagPointer ∧ fromInput s m = true)) (hlisten : m.tag ≠ tagListen)
      (hpresent : ∀ buffer, ¬Presents kernel m buffer) : Handled kernel s m s

theorem handled_of_handle {kernel : Kernel} {m : Message}
    (h : handle kernel s m = some s') : Handled kernel s m s' := by
  rw [handle] at h
  split at h
  · rename_i hsource
    cases h
    exact .source hsource.1 hsource.2
  rename_i hsource
  split at h
  · cases h
  split at h
  · rename_i hpointer
    obtain ⟨t, ht, rfl⟩ := map_eq_some_iff.mp h
    exact .pointer hpointer.1 hpointer.2 ht
  rename_i hpointer
  split at h
  · rename_i hlisten
    cases h
    exact .listen hlisten
  rename_i hlisten
  split at h
  · rename_i hpresent
    split at h
    · rename_i surface hadopt
      cases h
      exact .present hpresent hadopt
    rename_i hadopt
    cases h
    exact .ignored hsource hpointer hlisten fun buffer hp => by
      obtain ⟨-, -, hsome⟩ := hp
      simp [hadopt] at hsome
  · rename_i hpresent
    cases h
    exact .ignored hsource hpointer hlisten fun buffer hp => hpresent hp.1

/-! ## The compositor agrees with the history -/

/-- What is kept about input is what the messages said. -/
structure Agrees (p : History) (s : State) : Prop where
  source : s.inputSource = namedSource p
  buttons : s.buttons = lastButtons p
  focus : ∀ thread, s.focus = some thread → Focused thread p
  owners : ∀ i, (s.surfaces i).buffer ≠ 0 →
    lastPresenter (s.surfaces i).buffer p = some (s.surfaces i).owner
  /-- An entry in use is the first of its thread. -/
  first : ∀ i, (s.listeners i).2 ≠ 0 → ∀ j < i, (s.listeners j).1 ≠ (s.listeners i).1
  listens : ∀ i, (s.listeners i).2 ≠ 0 → lastListen (s.listeners i).1 p = some (s.listeners i).2

theorem agrees_initial (screen : BufferInfo) : Agrees [] (initial screen) where
  source := rfl
  buttons := rfl
  focus := nofun
  owners := fun _ h => absurd rfl h
  first := fun _ h => absurd rfl h
  listens := fun _ h => absurd rfl h

namespace Agrees
variable {p : History} {s s' : State} {kernel : Kernel} {m : Message} (h : Agrees p s)
include h

theorem fromInput_iff : fromInput s m = true ↔ Trusted p m := by
  simp [fromInput, Trusted, h.source]

/-- Nothing is presented, and where the table changed it is in the depths. -/
theorem owners_of_depths (hpresent : ∀ buffer, ¬Presents kernel m buffer)
    (hsame : ∀ i, (s'.surfaces i).buffer = (s.surfaces i).buffer ∧
      (s'.surfaces i).owner = (s.surfaces i).owner) (i : Fin maxSurfaces)
    (hi : (s'.surfaces i).buffer ≠ 0) :
    lastPresenter (s'.surfaces i).buffer ((s, kernel, m) :: p) = some (s'.surfaces i).owner := by
  rw [lastPresenter, if_neg (hpresent _), (hsame i).1, (hsame i).2]
  exact h.owners i ((hsame i).1 ▸ hi)

/-- The thread that presented a buffer owns its entry, and the other entries are of other
buffers. -/
theorem owners_of_track (hdistinct : Distinct s) {surface : Surface} (htag : m.tag = tagPresent)
    (hadopt : adopt kernel m.first m.second m.third m.fourth m.sender = some surface)
    (i : Fin maxSurfaces) (hi : ((track s surface).surfaces i).buffer ≠ 0) :
    lastPresenter ((track s surface).surfaces i).buffer ((s, kernel, m) :: p) =
      some ((track s surface).surfaces i).owner := by
  obtain ⟨hbuffer, howner⟩ := adopt_eq_some hadopt
  have hpresents : Presents kernel m surface.buffer := ⟨htag, hbuffer.symm, by simp [hadopt]⟩
  have hother : ∀ j, (s.surfaces j).buffer ≠ 0 → (s.surfaces j).buffer ≠ surface.buffer →
      lastPresenter (s.surfaces j).buffer ((s, kernel, m) :: p) = some (s.surfaces j).owner := by
    intro j hlive hne
    rw [lastPresenter, if_neg fun hp => hne (hp.2.1.symm.trans hbuffer.symm)]
    exact h.owners j hlive
  have hentry : ∀ k, (track s surface).surfaces = update s.surfaces k surface →
      (∀ j, j ≠ k → (s.surfaces j).buffer ≠ 0 → (s.surfaces j).buffer ≠ surface.buffer) →
      lastPresenter ((track s surface).surfaces i).buffer ((s, kernel, m) :: p) =
        some ((track s surface).surfaces i).owner := by
    intro k ht hk
    rw [ht] at hi ⊢
    by_cases hik : i = k
    · subst hik
      rw [update_self, lastPresenter, if_pos hpresents, howner]
    · rw [update_of_ne hik] at hi ⊢
      exact hother i hi (hk i hik hi)
  rcases track_cases s surface with ⟨k, hb, ht⟩ | ⟨hall, ht | ⟨k, -, ht⟩⟩
  · exact hentry k ht fun j hjk hlive heq => hjk (hdistinct j k hlive (heq.trans hb.symm))
  · rw [ht] at hi ⊢
    exact hother i hi (hall i)
  · exact hentry k ht fun j _ _ => hall j

variable (kernel) in
/-- What a message that is no `LISTEN` leaves of the listeners. -/
theorem listens_of_ne (htag : m.tag ≠ tagListen) (hsame : s'.listeners = s.listeners) :
    (∀ i, (s'.listeners i).2 ≠ 0 → ∀ j < i, (s'.listeners j).1 ≠ (s'.listeners i).1) ∧
      ∀ i, (s'.listeners i).2 ≠ 0 →
        lastListen (s'.listeners i).1 ((s, kernel, m) :: p) = some (s'.listeners i).2 := by
  rw [hsame]
  refine ⟨h.first, fun i hi => ?_⟩
  rw [lastListen, if_neg fun hm => htag hm.1]
  exact h.listens i hi

variable (kernel) in
/-- What a `LISTEN` makes of them. -/
theorem listens_of_listen (htag : m.tag = tagListen) :
    (∀ i, ((listen s m.sender m.first).listeners i).2 ≠ 0 → ∀ j < i,
      ((listen s m.sender m.first).listeners j).1 ≠ ((listen s m.sender m.first).listeners i).1) ∧
      ∀ i, ((listen s m.sender m.first).listeners i).2 ≠ 0 →
        lastListen ((listen s m.sender m.first).listeners i).1 ((s, kernel, m) :: p) =
          some ((listen s m.sender m.first).listeners i).2 := by
  have hother : ∀ i, (s.listeners i).2 ≠ 0 → (s.listeners i).1 ≠ m.sender →
      lastListen (s.listeners i).1 ((s, kernel, m) :: p) = some (s.listeners i).2 := by
    intro i hi hne
    rw [lastListen, if_neg fun hm => hne hm.2.symm]
    exact h.listens i hi
  rcases (listen_spec s m.sender m.first).2 with ⟨hsame, hnone⟩ | ⟨k, hk, hbefore, hown⟩
  · rw [hsame]
    exact ⟨h.first, fun i hi => hother i hi (hnone i)⟩
  -- An entry in use other than the one written is not of this thread: it would be the first.
  have hne : ∀ i, i ≠ k → (s.listeners i).2 ≠ 0 → (s.listeners i).1 ≠ m.sender := by
    intro i hik hi heq
    rcases hown with hown | ⟨-, hnone⟩
    · rcases lt_or_gt_of_ne hik with hlt | hgt
      · exact hbefore i hlt heq
      · exact h.first i hi k hgt (hown.trans heq.symm)
    · exact hnone i heq
  rw [hk]
  refine ⟨fun i hi j hj => ?_, fun i hi => ?_⟩
  · by_cases hik : i = k
    · subst hik
      rw [update_self, update_of_ne hj.ne]
      exact hbefore j hj
    rw [update_of_ne hik] at hi ⊢
    by_cases hjk : j = k
    · rw [hjk, update_self]
      exact (hne i hik hi).symm
    · rw [update_of_ne hjk]
      exact h.first i hi j hj
  · by_cases hik : i = k
    · subst hik
      rw [update_self, lastListen, if_pos ⟨htag, rfl⟩]
    · rw [update_of_ne hik] at hi ⊢
      exact hother i hi (hne i hik hi)

/-- The focus stays where it is while nothing is pressed. -/
theorem focused_cons (hpress : ¬Presses p m) (hsame : s'.focus = s.focus) (thread : UInt64)
    (hfocus : s'.focus = some thread) : Focused thread ((s, kernel, m) :: p) :=
  .inr ⟨hpress, h.focus thread (hsame ▸ hfocus)⟩

/-- **After every message the compositor agrees with the history.** -/
theorem step (hdistinct : Distinct s) (hs : handle kernel s m = some s') :
    Agrees ((s, kernel, m) :: p) s' := by
  have hsource : ∀ {tag}, m.tag = tag → tag ≠ tagInputSource →
      s.inputSource = namedSource ((s, kernel, m) :: p) := fun htag hne => by
    rw [namedSource, if_neg fun hm => hne (htag.symm.trans hm.1), h.source]
  have hbuttons : ∀ {tag}, m.tag = tag → tag ≠ tagPointer →
      s.buttons = lastButtons ((s, kernel, m) :: p) := fun htag hne => by
    rw [lastButtons, if_neg fun hm => hne (htag.symm.trans hm.1), h.buttons]
  have hpress : ∀ {tag}, m.tag = tag → tag ≠ tagPointer → ¬Presses p m := fun htag hne hm =>
    hne (htag.symm.trans hm.1)
  have hpresent : ∀ {tag}, m.tag = tag → tag ≠ tagPresent → ∀ buffer, ¬Presents kernel m buffer :=
    fun htag hne _ hm => hne (htag.symm.trans hm.1)
  have hlisten : ∀ {tag}, m.tag = tag → tag ≠ tagListen → m.tag ≠ tagListen := fun htag hne =>
    htag ▸ hne
  cases handled_of_handle hs with
  | source htag hkernel =>
    obtain ⟨hfirst, hlistens⟩ := h.listens_of_ne kernel (hlisten htag (by decide))
      (show s.listeners = s.listeners from rfl)
    refine ⟨?_, hbuttons htag (by decide), h.focused_cons (hpress htag (by decide)) rfl,
      h.owners_of_depths (hpresent htag (by decide)) fun i => ⟨rfl, rfl⟩, hfirst, hlistens⟩
    rw [namedSource, if_pos ⟨htag, hkernel⟩]
  | pointer htag hinput ht =>
    rename_i t
    obtain ⟨hsource', hbuttons', hlisteners, hfocus⟩ := pointer_spec ht
    have hcompose := compose_sameInput t
    have htrusted : Trusted p m := h.fromInput_iff.mp hinput
    have hdepths : ∀ i, ((compose t).surfaces i).buffer = (s.surfaces i).buffer ∧
        ((compose t).surfaces i).owner = (s.surfaces i).owner := by
      intro i
      rw [compose_surfaces]
      rcases pointer_surfaces ht with heq | ⟨-, k, z, heq⟩
      · rw [heq]
        exact ⟨rfl, rfl⟩
      rw [heq]
      by_cases hik : i = k
      · rw [hik, update_self]
        exact ⟨rfl, rfl⟩
      · rw [update_of_ne hik]
        exact ⟨rfl, rfl⟩
    obtain ⟨hfirst, hlistens⟩ := h.listens_of_ne kernel (hlisten htag (by decide))
      (hcompose.listeners.trans hlisteners)
    refine ⟨?_, ?_, fun thread hthread => ?_,
      h.owners_of_depths (hpresent htag (by decide)) hdepths, hfirst, hlistens⟩
    · rw [hcompose.inputSource, hsource']
      exact hsource htag (by decide)
    · rw [hcompose.buttons, hbuttons', lastButtons, if_pos ⟨htag, htrusted⟩]
    rcases hfocus with ⟨hup, hsame⟩ | ⟨hdown, hhit⟩
    · refine h.focused_cons (fun hm => hm.2.2 ?_) (hcompose.focus.trans hsame) thread hthread
      rw [← h.buttons, hup]
    · obtain ⟨i, htop, howner⟩ := hhit thread (hcompose.focus ▸ hthread)
      refine .inl ⟨⟨htag, htrusted, h.buttons ▸ hdown⟩, i, htop, ?_⟩
      rw [h.owners i htop.1.1, howner]
  | listen htag =>
    obtain ⟨hsame, -⟩ := listen_spec s m.sender m.first
    obtain ⟨hfirst, hlistens⟩ := h.listens_of_listen kernel htag
    refine ⟨?_, ?_, h.focused_cons (hpress htag (by decide)) hsame.focus,
      h.owners_of_depths (hpresent htag (by decide)) fun i => ?_, hfirst, hlistens⟩
    · exact hsame.inputSource.trans (hsource htag (by decide))
    · exact hsame.buttons.trans (hbuttons htag (by decide))
    · rw [listen_surfaces]
      exact ⟨rfl, rfl⟩
  | present htag hadopt =>
    rename_i surface
    have htrack := track_sameInput s surface
    have hcompose := compose_sameInput (track s surface)
    obtain ⟨hfirst, hlistens⟩ := h.listens_of_ne kernel (hlisten htag (by decide))
      (hcompose.listeners.trans htrack.listeners)
    refine ⟨?_, ?_, h.focused_cons (hpress htag (by decide)) (hcompose.focus.trans htrack.focus),
      fun i hi => ?_, hfirst, hlistens⟩
    · exact (hcompose.inputSource.trans htrack.inputSource).trans (hsource htag (by decide))
    · exact (hcompose.buttons.trans htrack.buttons).trans (hbuttons htag (by decide))
    · rw [compose_surfaces] at hi ⊢
      exact h.owners_of_track hdistinct htag hadopt i hi
  | ignored hnotSource hnotPointer hnotListen hnotPresent =>
    have huntrusted : ¬(m.tag = tagPointer ∧ Trusted p m) := fun hm =>
      hnotPointer ⟨hm.1, h.fromInput_iff.mpr hm.2⟩
    obtain ⟨hfirst, hlistens⟩ := h.listens_of_ne kernel hnotListen
      (show s.listeners = s.listeners from rfl)
    refine ⟨?_, ?_, h.focused_cons (fun hm => huntrusted ⟨hm.1, hm.2.1⟩) rfl,
      h.owners_of_depths hnotPresent fun i => ⟨rfl, rfl⟩, hfirst, hlistens⟩
    · rw [namedSource, if_neg hnotSource, h.source]
    · rw [lastButtons, if_neg huntrusted, h.buttons]

end Agrees

theorem agrees_of_path {screen : BufferInfo} {p : History}
    (h : (machine screen).Path p s) : Agrees p s := by
  induction h with
  | init hinit =>
    obtain rfl := hinit
    exact agrees_initial screen
  | step hpath hs ih =>
    have hreach : (machine screen).Reachable _ := hpath.reaches fun _ _ => trivial
    exact ih.step (distinct_of_reachable hreach) hs

/-- **Keys reach only the focused client.**  After any messages, a key event is sent only for a
key message of a trusted sender, and to the endpoint that the thread last asked for which had
presented the surface on top under the cursor when the left button last went down. -/
theorem key_to_focused {screen : BufferInfo} {p : History} {s : State}
    (h : (machine screen).Path p s) {m : Message} {endpoint : UInt64}
    (hsend : sends s m = some endpoint) : m.tag = tagKey ∧ Trusted p m ∧
      ∃ thread, Focused thread p ∧ lastListen thread p = some endpoint := by
  have hagrees := agrees_of_path h
  rw [sends] at hsend
  split at hsend
  · rename_i hkey
    refine ⟨hkey.1, hagrees.fromInput_iff.mp hkey.2, ?_⟩
    obtain ⟨thread, hfocus, hfind⟩ := bind_eq_some_iff.mp hsend
    obtain ⟨i, hi, rfl⟩ := map_eq_some_iff.mp hfind
    have hentry := find?_some hi
    simp only [Bool.and_eq_true, decide_eq_true_eq] at hentry
    refine ⟨thread, hagrees.focus thread hfocus, ?_⟩
    rw [← hentry.1]
    exact hagrees.listens i hentry.2
  · cases hsend

/-- Thread 7 presents a surface under the cursor and asks for keys at endpoint 5; after a click
the kernel's key event goes there. -/
theorem key_to_focused_sample : ∃ p s, (machine sampleScreen).Path p s ∧
    sends s ⟨tagKey, #v[30, 0, 0, 0], kernelSender⟩ = some 5 ∧
    ∃ thread, Focused thread p ∧ lastListen thread p = some 5 := by
  have hexec : ((machine sampleScreen).exec (fun _ _ => True) (initial sampleScreen)
      [(openKernel, present 7 3 500 370 1), (openKernel, ⟨tagListen, #v[5, 0, 0, 0], 7⟩),
        (openKernel, ⟨tagPointer, #v[0, 0, 1, 0], kernelSender⟩)]).any (fun s =>
      decide (sends s ⟨tagKey, #v[30, 0, 0, 0], kernelSender⟩ = some 5)) = true := by
    decide +kernel
  obtain ⟨s, hs, hsend⟩ := (any_eq_true _ _).mp hexec
  obtain ⟨q, hq, -⟩ := Machine.Path.append_exec (.init rfl) hs
  have hsend := of_decide_eq_true hsend
  exact ⟨q ++ [], s, hq, hsend, (key_to_focused hq hsend).2.2⟩

/-! ## A click raises -/

/-- A slot whose new depth is above every other's comes first, and the rest keep their order. -/
theorem sortedByDepth_raised {surfaces : Fin maxSurfaces → Surface} {i : Fin maxSurfaces}
    (hlive : (surfaces i).buffer ≠ 0) {z : UInt64}
    (hz : ∀ j, (surfaces j).buffer ≠ 0 → (surfaces j).z < z) :
    sortedByDepth (update surfaces i { surfaces i with z := z }) =
      i :: (sortedByDepth surfaces).erase i := by
  set raised := update surfaces i { surfaces i with z := z }
  obtain ⟨hsorted, hall⟩ := sortedByDepth_spec surfaces
  have hnodup : (sortedByDepth surfaces).Nodup := hall.nodup_iff.mpr ((nodup_finRange _).filter _)
  have hsame : ∀ j, (raised j).buffer = (surfaces j).buffer := by
    intro j
    by_cases hj : j = i
    · subst hj
      simp [raised]
    · simp [raised, hj]
  have hold : ∀ {j}, j ∈ (sortedByDepth surfaces).erase i → raised j = surfaces j := fun hj =>
    update_of_ne (hnodup.mem_erase_iff.mp hj).1 ..
  have hperm : sortedByDepth raised ~ i :: (sortedByDepth surfaces).erase i := by
    refine .trans ?_ (perm_cons_erase ((mem_sortedByDepth _).mpr hlive))
    refine (sortedByDepth_spec raised).2.trans (.trans ?_ hall.symm)
    simp only [hsame]
    exact .refl _
  refine hperm.eq_of_pairwise (fun _ _ _ _ => above_antisymm raised) (sortedByDepth_spec raised).1
    (pairwise_cons.mpr ⟨fun j hj => .inl ?_, (hsorted.sublist erase_sublist).imp_of_mem ?_⟩)
  · have hself : raised i = { surfaces i with z := z } := update_self ..
    rw [hold hj, hself]
    exact hz j ((mem_sortedByDepth _).mp (mem_of_mem_erase hj))
  · intro j k hj hk habove
    rwa [Above, hold hj, hold hk]

/-- One whose new depth is below another's does not. -/
theorem sortedByDepth_sunk {surfaces : Fin maxSurfaces → Surface} {i j : Fin maxSurfaces}
    {order : List (Fin maxSurfaces)} {z : UInt64} (hj : j ∈ order) (hne : j ≠ i)
    (hz : z < (surfaces j).z) :
    sortedByDepth (update surfaces i { surfaces i with z := z }) ≠ i :: order := by
  intro heq
  have hsorted := (sortedByDepth_spec (update surfaces i { surfaces i with z := z })).1
  rw [heq] at hsorted
  have habove := (pairwise_cons.mp hsorted).1 j hj
  rw [Above, update_self, update_of_ne hne] at habove
  rcases habove with hlt | ⟨hsame, -⟩
  · exact UInt64.lt_irrefl _ (UInt64.lt_trans hlt hz)
  · exact UInt64.lt_irrefl _ (hsame ▸ hz)

/-- The first surface in drawing order, topmost first, is `i` or has a depth over its own. -/
def RoomAbove (surfaces : Fin maxSurfaces → Surface) (i : Fin maxSurfaces) : Prop :=
  ∀ top ∈ (sortedByDepth surfaces).head?, top = i ∨ (surfaces top).z ≠ 0xffffffffffffffff

/-- A click on the surface on top at a point puts it first, unless the depth over that of the
first does not exist. -/
theorem raiseAt_raises {x y : UInt64} {i : Fin maxSurfaces} (hi : OnTop s.surfaces i x y) :
    (sortedByDepth (raiseAt s x y).surfaces = i :: (sortedByDepth s.surfaces).erase i ∧
      (raiseAt s x y).focus = some (s.surfaces i).owner) ↔ RoomAbove s.surfaces i := by
  have hmem := (mem_sortedByDepth _).mpr hi.1.1
  obtain ⟨hsorted, -⟩ := sortedByDepth_spec s.surfaces
  rw [raiseAt, find_eq_some_iff.mpr hi]
  cases horder : sortedByDepth s.surfaces with
  | nil => simp [horder] at hmem
  | cons top rest =>
    rw [horder] at hsorted
    by_cases htop : top = i
    · subst htop
      simp [horder, RoomAbove]
    simp only [ne_eq, htop, not_false_eq_true, if_true, update_self, and_true]
    have hroom : RoomAbove s.surfaces i ↔ (s.surfaces top).z ≠ 0xffffffffffffffff := by
      simp [RoomAbove, horder, htop]
    rw [hroom]
    constructor
    · intro hraised hlast
      refine sortedByDepth_sunk ?_ htop ?_ hraised
      · exact (mem_erase_of_ne htop).mpr mem_cons_self
      · rw [hlast]
        decide
    intro hlast
    have hup : (s.surfaces top).z < (s.surfaces top).z + 1 := by
      have hne : (s.surfaces top).z.toNat ≠ 0xffffffffffffffff := fun he =>
        hlast (UInt64.toNat_inj.mp he)
      have hlt := (s.surfaces top).z.toNat_lt
      rw [UInt64.lt_iff_toNat_lt, UInt64.toNat_add]
      simp only [UInt64.toNat_one]
      omega
    rw [sortedByDepth_raised hi.1.1, horder]
    intro j hj
    have hj' := (mem_sortedByDepth _).mpr hj
    rw [horder] at hj'
    rcases mem_cons.mp hj' with rfl | hj'
    · exact hup
    · rcases (pairwise_cons.mp hsorted).1 j hj' with hlt | ⟨heq, -⟩
      · exact UInt64.lt_trans hlt hup
      · rwa [heq]

/-- **A click raises**: after a believed press of the left button the surface on top under the
cursor is drawn last, the others as before, and its owner has the keyboard; unless another one is
drawn last at the greatest depth, and only then not. -/
theorem click_raises {kernel : Kernel} {m : Message} (hclick : Clicks s m)
    (h : handle kernel s m = some s') {i : Fin maxSurfaces}
    (hi : OnTopAfter s m.first m.second i) :
    (sortedByDepth s'.surfaces = i :: (sortedByDepth s.surfaces).erase i ∧
      s'.focus = some (s.surfaces i).owner) ↔ RoomAbove s.surfaces i := by
  obtain ⟨htag, hinput, hpress⟩ := hclick
  rw [handle, if_neg (by simp [htag, tagPointer, tagInputSource]),
    if_neg (by simp [htag, tagPointer, tagShutdown]), if_pos ⟨htag, hinput⟩] at h
  obtain ⟨t, ht, rfl⟩ := map_eq_some_iff.mp h
  rw [compose_surfaces, (compose_sameInput t).focus]
  rw [pointer] at ht
  dsimp only at ht
  split at ht
  · cases ht
  obtain rfl := some.inj ht
  cases s.cursorVisible <;> simp only [if_true, if_false, Bool.false_eq_true, if_pos hpress]
  all_goals exact raiseAt_raises hi

/-- The left button goes down where the cursor is. -/
def press : Message := ⟨tagPointer, #v[0, 0, 1, 0], kernelSender⟩

/-- The first surface, by depth, that covers the point. -/
def State.underPress (s : State) : Option (Fin maxSurfaces) :=
  (sortedByDepth s.surfaces).find? fun i => (boundsOf (s.surfaces i)).contains
    (moveWithin s.cursorX press.first s.screen.width.toUInt64)
    (moveWithin s.cursorY press.second s.screen.height.toUInt64)

/-- A surface under the cursor, and one at the given depth elsewhere. -/
def twoSurfaces (z : UInt64) : List (Kernel × Message) :=
  [(openKernel, present 7 3 500 370 1), (openKernel, present 8 4 0 0 z)]

/-- A press on the lower of two surfaces. -/
theorem click_raises_lower : ∃ s s', (machine sampleScreen).Reachable s ∧
    handle openKernel s press = some s' ∧ sortedByDepth s.surfaces = [1, 0] ∧
    sortedByDepth s'.surfaces = 0 :: (sortedByDepth s.surfaces).erase 0 ∧
    s'.focus = some (s.surfaces 0).owner := by
  obtain ⟨s, hs, hhandle, hbuttons, horder, hz, hfind⟩ :=
    (machine sampleScreen).exists_reachable (twoSurfaces 5)
      (fun s => (handle openKernel s press).isSome = true ∧ s.buttons = 0 ∧
        sortedByDepth s.surfaces = [1, 0] ∧ (s.surfaces 1).z = 5 ∧ s.underPress = some 0)
      rfl (by decide +kernel)
  obtain ⟨s', hs'⟩ := isSome_iff_exists.mp hhandle
  refine ⟨s, s', hs, hs', horder,
    (click_raises ⟨rfl, rfl, ?_⟩ hs' (find_eq_some_iff.mp hfind)).mpr ?_⟩
  · rw [hbuttons]
    decide
  · rw [RoomAbove, horder]
    rintro _ ⟨⟩
    exact .inr (by rw [hz]; decide)

/-- **Over the greatest depth there is none**: the surface under the cursor is given depth zero
and stays the lower one. -/
theorem highest_stays : ∃ s s', (machine sampleScreen).Reachable s ∧ Clicks s press ∧
    OnTopAfter s press.first press.second 0 ∧ handle openKernel s press = some s' ∧
    sortedByDepth s'.surfaces = [1, 0] := by
  obtain ⟨s, hs, hbuttons, hany, hfind⟩ :=
    (machine sampleScreen).exists_reachable (twoSurfaces 0xffffffffffffffff)
      (fun s => s.buttons = 0 ∧ ((handle openKernel s press).any fun s' =>
          decide (sortedByDepth s'.surfaces = [1, 0])) = true ∧ s.underPress = some 0)
      rfl (by decide +kernel)
  obtain ⟨s', hs', horder⟩ := (any_eq_true _ _).mp hany
  refine ⟨s, s', hs, ⟨rfl, rfl, ?_⟩, find_eq_some_iff.mp hfind, hs', of_decide_eq_true horder⟩
  rw [hbuttons]
  decide

end Panda.Compositor
