import PandaProof.ElfRegion
import PandaProof.Gbm

/-!
# What an earlier owner left behind

Two kernels that differ only in what the free frames hold go through the same calls.  A page
that becomes readable on the way shows the same in both as long as it lies in a frame that was
in use at the start; a frame that was free goes to the process with whatever is in it.  Which
calls hand one over can be told before they are made: mapping a buffer with such a frame, and
loading a program, since nothing ever clears a stack or a parameter page.
-/
namespace Panda.Memory

open Prog

variable {M : Mapper} {ε A : Type}

/-! ## What a process reads -/

/-- The two kernels differ only in what free frames hold. -/
def DifferInFree (k k' : Kernel M) : Prop :=
  k'.toPaged = k.toPaged ∧ ∀ a, ¬ k.allocator.Free (a / 4096) → k'.memory a = k.memory a

/-- The frame a thread's process sees at a page, from Ring 3. -/
def Paged.userFrame (k : Paged M) (thread page : Nat) : Option Nat :=
  (k.threads thread).join.bind fun space => k.resolve space page (present ||| userAccessible)

/-- The byte a thread's process reads at an offset of a page. -/
def Kernel.reads (k : Kernel M) (thread page offset : Nat) : Option UInt8 :=
  (k.userFrame thread page).map fun frame => k.memory (4096 * frame + offset)

/-- A page of the user region that the calls mapped to `frame` for the thread's process. -/
def NewlyMapped (k : Kernel M) (calls : List Call) (thread page frame : Nat) : Prop :=
  p4Index page = userL4Index ∧ (runCalls calls k).userFrame thread page = some frame ∧
    k.userFrame thread page ≠ some frame

/-! ## Calls that hand over no frame that was free -/

/-- The first program header that is not skipped passes its checks. -/
def findsSegment (headers : ProgramHeaders) (lo hi : Nat) : List Nat → Bool
  | [] => false
  | index :: rest => match inspect headers lo hi index with
    | .ok none => findsSegment headers lo hi rest
    | .ok (some _) => true
    | .error _ => false

/-- The loader gets as far as mapping a page. -/
def begins (image : List UInt8) : Bool :=
  match readHeaders image with
  | .ok headers =>
    findsSegment headers userBase (userBase + slotSize) (List.range headers.count)
  | .error _ => false

/-- Before the call: it maps no page to a frame that was free at the start.  A load is refused
for want of a slot or a frame, or by the headers of the file; a buffer that the thread may map
and has not mapped yet has no such frame. -/
def Call.Spares (start : BitmapFrameAllocator) (b : Book) : Call → Prop
  | .loadElf owner image =>
    b.slotFor owner = none ∨ b.allocator.allocate = none ∨ begins image = false
  | .create _ _ _ => True
  | .map thread buffer => ∀ entry, b.registry.buffers.lookup buffer = some entry →
    entry.mayAccess thread = true → (∀ m ∈ entry.mappings, m.1 ≠ thread) →
      ∀ frame ∈ entry.frames, ¬ start.Free frame
  | .switch _ => True

/-- Every call of a run does so, in the state it finds. -/
def SparingRun (start : BitmapFrameAllocator) : List Call → Kernel M → Prop
  | [], _ => True
  | call :: rest, k => call.Spares start k.toBook ∧
    (halts (perform call k).1 = false → SparingRun start rest (perform call k).2)

/-! ## Code that leaves the mappings alone -/

/-- No thread has another space, and the page tables are as they were. -/
def SameMappings (k k' : Paged M) : Prop := k'.threads = k.threads ∧ k'.tables = k.tables

theorem SameMappings.trans {k k' k'' : Paged M} (h : SameMappings k k') (h' : SameMappings k' k'') :
    SameMappings k k'' := ⟨h'.1.trans h.1, h'.2.trans h.2⟩

/-- Code that keeps the mappings, however it ends. -/
abbrev Keeps (p : Code M ε A) : Prop := Within SameMappings p

theorem keeps_pure (a : A) : Keeps (pure a : Code M ε A) := within_pure (fun _ => ⟨rfl, rfl⟩) a

theorem keeps_throw (e : Stop ε) : Keeps (throw e : Code M ε A) :=
  within_throw (fun _ => ⟨rfl, rfl⟩) e

theorem Keeps.bind {B : Type} {p : Code M ε B} {f : B → Code M ε A} (hp : Keeps p)
    (hf : ∀ b, Keeps (f b)) : Keeps (p >>= f) := Within.bind SameMappings.trans hp hf

theorem keeps_book : Keeps (book : Code M ε Book) := fun _ => wp_gets.mpr ⟨rfl, rfl⟩

theorem keeps_modifyBook {f : Book → Book} (h : ∀ b, (f b).threads = b.threads) :
    Keeps (modifyBook f : Code M ε Unit) := fun k => wp_modify.mpr ⟨h k.toBook, rfl⟩

theorem keeps_allocateFrame : Keeps (allocateFrame : Code M ε _) := by
  refine keeps_book.bind fun b => ?_
  split
  · exact keeps_pure _
  · exact Keeps.bind (keeps_modifyBook fun _ => rfl) fun _ => keeps_pure _

theorem keeps_deallocateAll (frames : List Nat) : Keeps (deallocateAll frames : Code M _ _) := by
  induction frames with
  | nil => exact keeps_pure ()
  | cons frame rest ih =>
    refine Keeps.bind (keeps_book.bind fun b => ?_) fun _ => ih
    split
    · exact keeps_throw _
    · exact keeps_modifyBook fun _ => rfl

theorem keeps_takeFrames (count : Nat) (frames : List Nat) :
    Keeps (takeFrames count frames : Code M _ _) := by
  induction count generalizing frames with
  | zero => exact keeps_pure _
  | succ count ih =>
    refine keeps_allocateFrame.bind fun found => ?_
    cases found with
    | some frame => exact ih _
    | none => exact (keeps_deallocateAll frames).bind fun _ => keeps_throw _

theorem keeps_create (owner : Nat) (width height : UInt32) :
    Keeps (create owner width height : Code M _ _) := by
  unfold create
  split
  · exact keeps_throw _
  refine keeps_book.bind fun b => ?_
  dsimp only
  split
  · exact keeps_throw _
  split
  · exact keeps_throw _
  refine (keeps_takeFrames _ _).bind fun frames => keeps_book.bind fun b => ?_
  exact Keeps.bind (keeps_modifyBook fun _ => rfl) fun _ => keeps_pure _

theorem keeps_claimSlot (owner : Nat) : Keeps (claimSlot owner : Code M ε _) := by
  refine keeps_book.bind fun b => ?_
  split
  · exact keeps_pure _
  · exact Keeps.bind (keeps_modifyBook fun _ => rfl) fun _ => keeps_pure _

theorem keeps_reserve (thread span : Nat) : Keeps (reserve thread span : Code M _ _) := by
  refine (keeps_claimSlot thread).bind fun found => ?_
  cases found with
  | none => exact keeps_throw _
  | some slot =>
    refine keeps_book.bind fun b => Keeps.bind (keeps_modifyBook fun _ => rfl) fun _ => ?_
    split
    · exact keeps_throw _
    · exact Keeps.bind (keeps_modifyBook fun _ => rfl) fun _ => keeps_pure _

/-- `recordMapping` keeps the mappings, and what it hands on are the frames of a buffer that
the thread may map and has not mapped yet. -/
theorem wp_recordMapping (thread buffer : Nat) (k : Paged M) :
    (recordMapping thread buffer).Wp k
      (fun found k' => SameMappings k k' ∧ ∀ frame ∈ found.1, ∃ entry,
        k.registry.buffers.lookup buffer = some entry ∧ entry.mayAccess thread = true ∧
          (∀ m ∈ entry.mappings, m.1 ≠ thread) ∧ frame ∈ entry.frames)
      fun _ k' => SameMappings k k' := by
  unfold recordMapping book
  rw [wp_bind, wp_gets]
  split
  · exact wp_throw.mpr ⟨rfl, rfl⟩
  rename_i entry hentry
  split
  · exact wp_throw.mpr ⟨rfl, rfl⟩
  rename_i haccess
  split
  · exact wp_pure.mpr ⟨⟨rfl, rfl⟩, by simp⟩
  rename_i hmapped
  rw [wp_bind]
  refine (keeps_reserve thread _ k).mono (fun address k' hk => ?_) fun _ _ hk => hk
  rw [wp_bind]
  refine wp_modify.mpr (wp_pure.mpr ⟨hk, fun frame hframe => ?_⟩)
  refine ⟨entry, hentry, by simpa using haccess, ?_, hframe⟩
  simpa using hmapped

/-! ## Pages that become readable -/

/-- A page of the user region that is readable now and was not at the start lies in a frame
that was in use then. -/
def Settled (k₀ k : Paged M) : Prop :=
  ∀ thread page frame, p4Index page = userL4Index → k.userFrame thread page = some frame →
    k₀.userFrame thread page = some frame ∨ ¬ k₀.allocator.Free frame

variable {k₀ k k' : Paged M}

theorem Settled.refl (k : Paged M) : Settled k k := fun _ _ _ _ h => .inl h

theorem Settled.same (h : Settled k₀ k) (hk : SameMappings k k') : Settled k₀ k' := by
  intro thread page frame hpage hframe
  refine h thread page frame hpage ?_
  rw [← hframe, Paged.userFrame, Paged.userFrame, hk.1]
  unfold Paged.resolve
  rw [hk.2]

/-- What can be read at a page of a space comes from its entry. -/
theorem userFrame_eq_some {thread page frame : Nat} : k.userFrame thread page = some frame ↔
    ∃ space flags, (k.threads thread).join = some space ∧
      M.translate space page k.tables = .mapped frame flags ∧
      has flags (present ||| userAccessible) = true := by
  unfold Paged.userFrame Paged.resolve
  rw [Option.bind_eq_some_iff]
  refine exists_congr fun space => ?_
  split
  · rename_i f flags htranslate
    split
    · simp_all
    · simp_all
  · simp_all

/-- The same, where each entry is as it was, maps a frame that was in use, or maps nothing. -/
theorem Settled.entries (h : Settled k₀ k) (hthreads : k'.threads = k.threads)
    (htables : ∀ space page, p4Index page = userL4Index →
      M.translate space page k'.tables = M.translate space page k.tables ∨
      (∃ frame flags, M.translate space page k'.tables = .mapped frame flags ∧
        ¬ k₀.allocator.Free frame) ∨ M.translate space page k'.tables = .notMapped) :
    Settled k₀ k' := by
  intro thread page frame hpage hframe
  obtain ⟨space, flags, hspace, hentry, hflags⟩ := userFrame_eq_some.mp hframe
  rcases htables space page hpage with hsame | ⟨f, flags', hnew, hused⟩ | hnone
  · refine h thread page frame hpage (userFrame_eq_some.mpr ⟨space, flags, ?_, ?_, hflags⟩)
    · rw [← hthreads, hspace]
    · rw [← hsame, hentry]
  · rw [hentry] at hnew
    cases hnew
    exact .inr hused
  · rw [hentry] at hnone
    cases hnone

section Lawful

variable (hM : M.Lawful)
include hM

theorem settled_mapFrames (space : Nat) (flags : UInt64) {frames : List Nat} {page : Nat}
    (hframes : ∀ frame ∈ frames, ¬ k₀.allocator.Free frame) (h : Settled k₀ k) :
    (mapFrames space flags page frames).Wp k (fun _ k' => Settled k₀ k')
      fun _ k' => Settled k₀ k' := by
  induction frames generalizing page k with
  | nil => exact wp_pure.mpr h
  | cons frame rest ih =>
    obtain ⟨hframe, hrest⟩ := List.forall_mem_cons.mp hframes
    unfold mapFrames mapErr mapToFrameIn mapErr
    rw [wp_bind, wp_mapError, wp_mapError]
    have hmapped : Settled k₀ (mapTo space page frame flags k).2 := by
      refine h.entries rfl fun space' page' _ => ?_
      rcases hM.mapTo space page frame flags k.tables k.allocator space' page' with hsame | hnew
      · exact .inl hsame
      · exact .inr (.inl ⟨frame, flags, hnew.2, hframe⟩)
    exact (wp_of_state hmapped).mono (fun _ _ hk => ih hrest hk) fun _ _ hk => hk

theorem settled_map (thread buffer : Nat) (h : Settled k₀ k)
    (hspares : (Call.map thread buffer).Spares k₀.allocator k.toBook) :
    (map thread buffer).Wp k (fun _ k' => Settled k₀ k') fun _ k' => Settled k₀ k' := by
  unfold map
  rw [wp_bind]
  refine (wp_recordMapping thread buffer k).mono ?_ fun _ _ hk => h.same hk
  rintro ⟨frames, size, address⟩ k' ⟨hk, hframes⟩
  dsimp only
  split
  · exact wp_pure.mpr (h.same hk)
  unfold book
  rw [wp_bind, wp_gets, wp_bind]
  refine (settled_mapFrames hM _ _ (fun frame hframe => ?_) (h.same hk)).mono
    (fun _ _ h => wp_pure.mpr h) fun _ _ h => h
  obtain ⟨entry, hentry, haccess, hmappings, hmem⟩ := hframes frame hframe
  exact hspares entry hentry haccess hmappings frame hmem

/-- The entries of a user region come out of the copies as they went in. -/
theorem copyEntries_spec (source destination : Nat) {indices : List Nat}
    (hindices : ∀ index ∈ indices, index ≠ userL4Index) (k : Paged M) :
    (copyEntries source destination indices : Code M ε Unit).Wp k
      (fun _ k' => k'.threads = k.threads ∧ ∀ space page, p4Index page = userL4Index →
        M.translate space page k'.tables = M.translate space page k.tables) fun _ _ => False := by
  induction indices generalizing k with
  | nil => exact wp_pure.mpr ⟨rfl, fun _ _ _ => rfl⟩
  | cons index rest ih =>
    obtain ⟨hindex, hrest⟩ := List.forall_mem_cons.mp hindices
    unfold copyEntries
    rw [wp_bind, wp_modify]
    refine (ih hrest _).mono ?_ fun _ _ h => h
    rintro _ k' ⟨hthreads, hsame⟩
    refine ⟨hthreads, fun space page hpage => (hsame space page hpage).trans ?_⟩
    exact hM.cloneEntry _ _ _ _ _ _ (by rw [hpage]; exact hindex.symm)

/-- The user region of a fresh space is empty. -/
theorem settled_freshSpace (owner : Nat) (h : Settled k₀ k) :
    (freshSpace owner).Wp k (fun _ k' => Settled k₀ k') fun _ k' => Settled k₀ k' := by
  unfold freshSpace newUser
  rw [wp_bind]
  refine (keeps_claimSlot owner k).mono (fun slot k₁ hk₁ => ?_) fun _ _ hk => h.same hk
  cases slot with
  | none => exact wp_throw.mpr (h.same hk₁)
  | some slot =>
    dsimp only
    rw [wp_bind, wp_bind]
    refine (keeps_allocateFrame k₁).mono (fun found k₂ hk₂ => ?_) fun _ _ hk =>
      h.same (hk₁.trans hk)
    have hk := hk₁.trans hk₂
    cases found with
    | none => exact wp_pure.mpr (wp_throw.mpr (h.same hk))
    | some space =>
      dsimp only [book, zeroTable]
      rw [wp_bind, wp_gets, wp_bind, wp_modify, wp_bind]
      refine (copyEntries_spec hM _ _ (by simp) _).mono ?_ fun _ _ hfalse => hfalse.elim
      rintro _ k₃ ⟨hthreads, hsame⟩
      refine wp_pure.mpr (wp_bind.mpr (wp_modify.mpr (wp_bind.mpr (wp_modify.mpr
        (wp_pure.mpr ?_)))))
      intro thread page frame hpage hframe
      obtain ⟨s, flags, hs, hentry, hflags⟩ := userFrame_eq_some.mp hframe
      have hfresh := hsame s page hpage
      rw [hM.zero] at hfresh
      have hother : s ≠ space := by
        rintro rfl
        rw [if_pos rfl] at hfresh
        cases hentry.symm.trans hfresh
      rw [if_neg hother] at hfresh
      refine h.same hk thread page frame hpage (userFrame_eq_some.mpr
        ⟨s, flags, ?_, hfresh.symm.trans hentry, hflags⟩)
      dsimp only at hs
      rw [hthreads] at hs
      split at hs
      · rename_i howner
        cases ht : k₂.threads thread with
        | none =>
          rw [ht] at hs
          cases hs
        | some =>
          rw [ht] at hs
          exact absurd (Option.some.inj hs).symm hother
      · exact hs

end Lawful

/-! ## Loads that are refused -/

/-- Where the first header that is not skipped is refused, or there is none, nothing is mapped
or written. -/
theorem loadSegments_idle (space highest : Nat) {lo hi : Nat} {headers : ProgramHeaders}
    {indices : List Nat} (h : findsSegment headers lo hi indices = false) :
    (∃ e, ∀ k : Kernel M, loadSegments space headers lo hi indices highest k = (.error e, k)) ∨
      (∀ index ∈ indices, inspect headers lo hi index = .ok none) ∧
        ∀ k : Kernel M, loadSegments space headers lo hi indices highest k = (.ok highest, k) := by
  induction indices with
  | nil => exact .inr ⟨by simp, fun _ => rfl⟩
  | cons index rest ih =>
    rw [findsSegment] at h
    rw [loadSegments]
    split at h
    · rename_i hfound
      rw [hfound, List.forall_mem_cons]
      exact (ih h).imp_right fun hrest => ⟨⟨hfound, hrest.1⟩, hrest.2⟩
    · cases h
    · rename_i e hfound
      rw [hfound]
      exact .inl ⟨e, fun _ => rfl⟩

theorem narrowSegments_idle {space lo hi : Nat} {headers : ProgramHeaders} {indices : List Nat}
    (h : ∀ index ∈ indices, inspect headers lo hi index = .ok none) (k : Kernel M) :
    narrowSegments space headers indices k = (.ok (), k) := by
  induction indices with
  | nil => rfl
  | cons index rest ih =>
    obtain ⟨hindex, hrest⟩ := List.forall_mem_cons.mp h
    obtain ⟨flags, hnarrow⟩ := narrowing_of_inspect hindex
    rw [narrowSegments, hnarrow]
    exact ih hrest

/-- A load that does not begin touches nothing: without a segment no address is an entry
point. -/
theorem load_idle {image : List UInt8} (h : begins image = false) (space : Nat) : ∃ e,
    ∀ k : Kernel M, load space image userBase (userBase + slotSize) k = (.error e, k) := by
  unfold load
  rw [begins] at h
  cases hread : readHeaders image with
  | error e => exact ⟨e, fun _ => rfl⟩
  | ok headers =>
    rw [hread] at h
    rcases loadSegments_idle (M := M) space userBase h with ⟨e, he⟩ | ⟨hall, hok⟩
    · exact ⟨e, fun k => (bind_of_ok rfl).trans (bind_of_error (he k))⟩
    · refine ⟨.error .outOfBounds, fun k => ?_⟩
      refine (bind_of_ok (hok k)).trans ((bind_of_ok (narrowSegments_idle hall k)).trans ?_)
      rw [if_pos (Nat.lt_or_ge headers.entry userBase)]
      rfl

/-- A thread gets a fresh space only if there is a slot and a frame for it. -/
theorem freshSpace_ok {owner space : Nat} (h : freshSpace owner k = (.ok space, k')) :
    k.slotFor owner ≠ none ∧ k.allocator.allocate ≠ none := by
  have hwp : (freshSpace owner).Wp k
      (fun _ _ => k.slotFor owner ≠ none ∧ k.allocator.allocate ≠ none) fun _ _ => True := by
    unfold freshSpace claimSlot newUser allocateFrame book modifyBook
    simp only [wp_bind, wp_gets]
    cases hslot : k.slotFor owner with
    | none => exact wp_pure.mpr (wp_throw.mpr trivial)
    | some index =>
      simp only [wp_bind, wp_gets, wp_modify, wp_pure]
      cases hframe : k.allocator.allocate with
      | none => exact wp_pure.mpr (wp_pure.mpr (wp_throw.mpr trivial))
      | some =>
        refine wp_of_all (fun _ _ => wp_of_all (fun _ _ => wp_of_all ?_ ?_) ?_) ?_
        · exact fun _ _ => ⟨by simp, by simp⟩
        all_goals exact fun _ _ => trivial
  exact hwp.of_ok h

/-! ## Two runs -/

/-- The result of code on the book and the page tables does not depend on memory. -/
theorem within_eq (p : Code M ε A) (k : Paged M) (m : Nat → UInt8) :
    within p ⟨k, m⟩ = ((p k).1, ⟨(p k).2, m⟩) := rfl

theorem perform_loadElf {owner : Nat} {image : List UInt8}
    (h : (Call.loadElf owner image).Spares k₀.allocator k.toBook) : ∃ r, ∀ m,
      perform (.loadElf owner image) ⟨k, m⟩ = (r, ⟨(freshSpace owner k).2, m⟩) := by
  rcases hfresh : freshSpace owner k with ⟨e | space, k'⟩
  · refine ⟨.error (e.map fun _ => ()), fun m => ?_⟩
    have hwithin : within (freshSpace owner) ⟨k, m⟩ = (.error e, ⟨k', m⟩) := by
      rw [within_eq, hfresh]
    exact bind_of_error (tryCatch_of_error (bind_of_error hwithin))
  · obtain ⟨hslot, hframe⟩ := freshSpace_ok hfresh
    obtain ⟨e, he⟩ := load_idle (M := M) ((h.resolve_left hslot).resolve_left hframe) space
    refine ⟨.error ((e.map LoadError.elf).map fun _ => ()), fun m => ?_⟩
    have hwithin : within (freshSpace owner) ⟨k, m⟩ = (.ok space, ⟨k', m⟩) := by
      rw [within_eq, hfresh]
    have hload : (mapErr LoadError.elf (load space image userBase (userBase + slotSize))) ⟨k', m⟩ =
        (.error (e.map LoadError.elf), ⟨k', m⟩) := tryCatch_of_error (he _)
    exact bind_of_error (tryCatch_of_error ((bind_of_ok hwithin).trans (bind_of_error hload)))

/-- A call whose result nobody looks at. -/
theorem within_discard (p : Code M ε A) (k : Paged M) : ∃ r, ∀ m,
    (do let _ ← within (mapErr (fun _ => ()) p); pure () : FullCode M Unit Unit) ⟨k, m⟩ =
      (r, ⟨(p k).2, m⟩) := by
  rcases hp : p k with ⟨e | a, k'⟩
  · have herr : mapErr (fun _ => ()) p k = (.error (e.map fun _ => ()), k') :=
      tryCatch_of_error hp
    exact ⟨_, fun m => bind_of_error (by rw [within_eq, herr])⟩
  · have hok : mapErr (fun _ => ()) p k = (.ok a, k') := tryCatch_of_ok hp
    exact ⟨.ok (), fun m => bind_of_ok (by rw [within_eq, hok])⟩

/-- **One call**, in both kernels. -/
theorem perform_settled (hM : M.Lawful) {call : Call} (h : Settled k₀ k)
    (hspares : call.Spares k₀.allocator k.toBook) :
    ∃ r k', Settled k₀ k' ∧ ∀ m, perform call ⟨k, m⟩ = (r, ⟨k', m⟩) := by
  cases call with
  | loadElf owner image =>
    obtain ⟨r, hr⟩ := perform_loadElf hspares
    exact ⟨r, _, (settled_freshSpace hM owner h).state, hr⟩
  | create owner width height =>
    obtain ⟨r, hr⟩ := within_discard (create owner width height) k
    exact ⟨r, _, h.same (keeps_create owner width height k).state, hr⟩
  | map thread buffer =>
    obtain ⟨r, hr⟩ := within_discard (map thread buffer) k
    exact ⟨r, _, (settled_map hM thread buffer h hspares).state, hr⟩
  | switch thread =>
    exact ⟨.ok (), { k with active := k.spaceOf thread }, h.same ⟨rfl, rfl⟩, fun _ => rfl⟩

/-- **Whole runs**: both kernels come to the same book and page tables, and neither has stored
a byte. -/
theorem runCalls_settled (hM : M.Lawful) {calls : List Call} (memory : Nat → UInt8)
    (h : Settled k₀ k) (hspares : SparingRun k₀.allocator calls ⟨k, memory⟩) :
    ∃ k', Settled k₀ k' ∧ ∀ m, runCalls calls ⟨k, m⟩ = ⟨k', m⟩ := by
  induction calls generalizing k with
  | nil => exact ⟨k, h, fun _ => rfl⟩
  | cons call rest ih =>
    obtain ⟨r, k', hk', hrun⟩ := perform_settled hM h hspares.1
    have hrest := hspares.2
    rw [hrun] at hrest
    have hstep : ∀ m, runCalls (call :: rest) ⟨k, m⟩ =
        if halts r then ⟨k', m⟩ else runCalls rest ⟨k', m⟩ := by
      intro m
      rw [runCalls, hrun]
    cases hhalts : halts r with
    | true => exact ⟨k', hk', fun m => by rw [hstep, hhalts]; rfl⟩
    | false =>
      obtain ⟨final, hfinal, heq⟩ := ih hk' (hrest hhalts)
      exact ⟨final, hfinal, fun m => by rw [hstep, hhalts]; exact heq m⟩

/-- **No residue, in a run whose calls hand over no frame that was free**: every page newly
mapped for a process reads the same in both runs. -/
theorem no_residue (hM : M.Lawful) {k k' : Kernel M} (hdiffer : DifferInFree k k')
    {calls : List Call} (hspares : SparingRun k.allocator calls k) {thread page frame : Nat}
    (hnew : NewlyMapped k calls thread page frame) {offset : Nat} (hoffset : offset < 4096) :
    (runCalls calls k').reads thread page offset = (runCalls calls k).reads thread page offset := by
  obtain ⟨final, hsettled, hruns⟩ := runCalls_settled hM k.memory (.refl k.toPaged) hspares
  have hrun : runCalls calls k = ⟨final, k.memory⟩ := hruns k.memory
  have hrun' : runCalls calls k' = ⟨final, k'.memory⟩ := by
    rw [← hruns k'.memory, ← hdiffer.1]
  obtain ⟨hpage, hframe, hother⟩ := hnew
  rw [hrun] at hframe
  have hused : ¬ k.allocator.Free frame :=
    (hsettled thread page frame hpage hframe).resolve_left hother
  have hinside : (4096 * frame + offset) / 4096 = frame := by omega
  rw [hrun, hrun', Kernel.reads, Kernel.reads]
  dsimp only
  rw [hframe]
  exact congrArg some (hdiffer.2 _ (by rwa [hinside]))

/-- Two spaces: the kernel's, in frame 0, and that of thread 1, in frame 1.  There
are 16 frames. -/
def twoSpaces (allocator : BitmapFrameAllocator) (registry : Registry) : Kernel plainMapper where
  allocator := allocator
  kernelSpace := 0
  active := 0
  threads := fun id => if id = 1 then some (some 1) else none
  slots := fun _ => none
  registry := registry
  assigned := []
  bytesPerPixel := 4
  tables := .none
  memory := fun a => if a = 8192 then 7 else 0

/-- A buffer of one pixel that thread 1 has not mapped yet, in frame 2. -/
def unmappedBuffer : Registry :=
  ⟨[(1, ⟨⟨1, 1, 4, 4, 4⟩, [2], true, 1, [], [], false⟩)], 2, fun _ => none⟩

/-- A load that is refused, a second buffer, and the first one mapped: whatever frame 5 holds,
thread 1 reads in the new page what frame 2 held. -/
theorem no_residue_mapped :
    let calls := [.loadElf 1 [0x7F], .create 1 1 1, .map 1 1]
    let k := twoSpaces ⟨fun i => if i = 0 then 7 else 0, 16, 3, 0⟩ unmappedBuffer
    let k' := { k with memory := fun a => if a = 20480 then 0x5A else k.memory a }
    NewlyMapped k calls 1 0x200000100 2 ∧
      (runCalls calls k').reads 1 0x200000100 0 = (runCalls calls k).reads 1 0x200000100 0 := by
  intro calls k k'
  have hdiffer : DifferInFree k k' := by
    refine ⟨rfl, fun a ha => if_neg ?_⟩
    rintro rfl
    exact ha (by decide)
  have hrefused : begins [0x7F] = false := by decide +kernel
  have hspares : SparingRun k.allocator calls k := by
    refine ⟨.inr (.inr hrefused), fun _ => ⟨trivial, fun _ => ⟨?_, fun _ => trivial⟩⟩⟩
    intro entry hentry _ _ frame hframe
    let created := (perform (.create 1 1 1) (perform (.loadElf 1 [0x7F]) k).2).2
    have hfound : created.registry.buffers.lookup 1 =
        some ⟨⟨1, 1, 4, 4, 4⟩, [2], true, 1, [], [], false⟩ := by decide +kernel
    cases hentry.symm.trans hfound
    obtain rfl := List.mem_singleton.mp hframe
    decide
  have hnew : NewlyMapped k calls 1 0x200000100 2 := by
    refine ⟨by decide, ?_, ?_⟩
    · decide +kernel
    · decide +kernel
  exact ⟨hnew, no_residue lawful_plainMapper hdiffer hspares hnew (by decide)⟩

/-- **A fresh buffer shows what its frame held**: thread 1 creates a buffer of one pixel
and maps it; where frame 2 held `0x5A`, it reads `0x5A`. -/
theorem buffer_shows_residue :
    let calls := [.create 1 1 1, .map 1 1]
    let k := twoSpaces ⟨fun i => if i = 0 then 3 else 0, 16, 2, 0⟩ ⟨[], 1, fun _ => none⟩
    let k' := { k with memory := fun a => if a = 8192 then 0x5A else k.memory a }
    DifferInFree k k' ∧ NewlyMapped k calls 1 0x200000100 2 ∧
      (runCalls calls k).reads 1 0x200000100 0 = some 7 ∧
      (runCalls calls k').reads 1 0x200000100 0 = some 0x5A := by
  refine ⟨⟨rfl, fun a ha => ?_⟩, ⟨by decide, ?_, ?_⟩, ?_, ?_⟩
  · refine if_neg ?_
    rintro rfl
    exact ha (by decide)
  · decide +kernel
  · decide +kernel
  · decide +kernel
  · decide +kernel

end Panda.Memory
