import PandaProof.FsSimulation

/-!
# The four changes

Each action at the end of a path does to a node on the disk what its counterpart does to
the node: `create`, `write`, `remove` and `setMode`.
-/
namespace Panda.Fs

open Block List Prog

variable {env : Env} {w : World}

/-! ## New nodes in fresh blocks -/

/-- A node replaced by one in fresh blocks, everything of the old one being given up. -/
theorem moves_replaced {w' : World} {own blocks r : List Nat}
    (hused : ∀ x ∈ own, w.state.isAllocated x = true) (hfresh : ∀ x, Fresh w w' x ↔ x ∈ blocks)
    (hnodup : blocks.Nodup) (hr : ∀ x, x ∈ r ↔ x ∈ own) : Moves True w w' own blocks r where
  nodup := hnodup
  source := fun x hx => .inr ((hfresh x).mpr hx)
  claimed := fun x hx => (hfresh x).mp hx
  gone := by
    intro x hx
    refine ⟨(hr x).mp hx, fun hmem => ?_⟩
    have := ((hfresh x).mpr hmem).free
    simp [hused x ((hr x).mp hx)] at this
  complete := fun _ x hx => .inr ((hr x).mpr hx)

/-- The blocks claimed by two stretches, the second of which claimed one. -/
theorem fresh_cons {w₁ w₂ : World} {fresh r r' : List Nat} {new : Nat} (hg : Grew w w₁ r)
    (hfresh : ∀ x, Fresh w w₁ x ↔ x ∈ fresh) (hg' : Grew w₁ w₂ r')
    (hnew : ∀ x, Fresh w₁ w₂ x ↔ x = new) (hnodup : fresh.Nodup) :
    (∀ x, Fresh w w₂ x ↔ x ∈ new :: fresh) ∧ (new :: fresh).Nodup := by
  constructor
  · intro x
    rw [mem_cons, ← hnew x, ← hfresh x]
    exact ⟨fun h => (hg.fresh_cases h).symm, fun h => h.elim hg.fresh_right hg'.fresh_left⟩
  · refine nodup_cons.mpr ⟨fun hmem => ?_, hnodup⟩
    have := ((hnew new).mpr rfl).free
    simp [((hfresh new).mpr hmem).used] at this

/-- The worlds at both ends of a stretch that claimed nothing. -/
theorem fresh_iff_of_bits {w₁ w₂ : World} {r : List Nat} (hg : Grew w₁ w₂ r)
    (hbits : ∀ x, w₂.state.isAllocated x = w₁.state.isAllocated x) (x : Nat) :
    Fresh w w₂ x ↔ Fresh w w₁ x :=
  ⟨fun h => ⟨h.free, by rw [← hbits]; exact h.used, h.low, h.high⟩, fun h => hg.fresh_left h⟩

/-- What an action that has read its node's inode still has to do. -/
def Owes (env : Env) (w : World) (own : List Nat) (out : Except FsError (Option Tree))
    (code : Code (Option Nat)) : Prop :=
  Prog.Wp code w
    (fun new w' => ∃ t blocks r, out = .ok t ∧ Grew w w' r ∧
      Pictures w'.disk new t blocks ∧ Moves True w w' own blocks r)
    (fun e w' => ∃ r, Grew w w' r ∧ r ⊆ own ∧ Excuse env out e)

/-- An action that refuses a missing node and otherwise starts by reading the inode. -/
theorem Simulates.of_read {action : Option Nat → Code (Option Nat)}
    {act : Tree.Act} {body : Nat → Inode → Code (Option Nat)}
    {e : FsError} (hnone : action none = fail e) (hact : act none = .error e)
    (hsome : ∀ c, action (some c) = readInode env c >>= body c)
    (h : ∀ w c t own inode, Layout env w.state → Owned w c t own →
      Inode.decode (w.disk c) = .ok inode → inode.Sane → Shape w.disk c inode t own →
      Owes env w own (act (some t)) (body c inode)) : Simulates env action act := by
  rintro w (_ | c) old own hl hheld
  · obtain ⟨hp, -, -, -⟩ := hheld
    cases hp
    rw [hnone, wp_fail]
    exact ⟨[], .refl w, nil_subset _, .refused hact⟩
  obtain ⟨t, rfl, ho⟩ := hheld.owned
  obtain ⟨_, hdecode, hsane, hshape⟩ := ho.shows.shape
  rw [hsome, wp_bind]
  refine (readInode_spec (hl.inDevice_of_inArea (ho.area c ho.shows.mem_self)) hdecode).mono ?_
    fun e w' h => ⟨[], h.1.grew, nil_subset _, h.2.excuse⟩
  rintro inode w₁ ⟨rfl, hq⟩
  rw [← hq.disk] at hdecode hshape
  refine (h w₁ c t own inode (hq.grew.layout hl) (ho.grew hq.grew) hdecode hsane hshape).mono ?_ ?_
  · rintro new w' ⟨t', blocks, r, hout, hg, hp, hmoves⟩
    exact ⟨t', blocks, r, hout, hq.grew.nil_trans hg, hp, hmoves.of_quiet hq⟩
  · rintro e w' ⟨r, hg, hr, he⟩
    exact ⟨r, hq.grew.nil_trans hg, hr, he⟩

/-- An inode and the blocks it points at are retired. -/
theorem retireNode_spec {inode : Inode} {c : Nat} (hsane : inode.Sane) :
    Prog.Wp (do retireSlots inode.slots; modifyState fun s => s.retire c) w
      (fun _ w' => Grew w w' (inode.pointers ++ [c]) ∧
        ∀ x, w'.state.isAllocated x = w.state.isAllocated x) (fun _ _ => False) := by
  rw [Inode.slots_eq hsane.used, wp_bind]
  refine (retireSlots_spec hsane.nonzero).mono ?_ fun _ _ h => h.elim
  rintro _ w' ⟨hretire, _, hbits⟩
  rw [wp_modifyState]
  refine ⟨hretire.trans (retire_grew w' c), fun x => ?_⟩
  show (decide (x / 8 < w'.state.bitmapLength) && Bitmap.test w'.state.bitmap x) = _
  rw [hretire.length, hbits]
  rfl

/-- An operation that succeeds on the tree may still run out of room. -/
theorem Exhausted.excuse_of_ok {e : Stop} {α : Type} {out : Except FsError α} {a : α}
    (h : Exhausted env e) (hout : out = .ok a) : Excuse env out e :=
  h.excuse fun _ he => by rw [hout] at he; contradiction

theorem fits_emptyInode (kind : NodeKind) (owner : UserId) : (emptyInode kind owner).Fits := by
  refine ⟨?_, ?_, ?_, Nat.zero_le _, fun p hp => ?_⟩
  · show (if kind = .directory then 1 else 0) ≤ 1
    split <;> decide
  · show defaultMode &&& allPermissions = defaultMode
    decide
  · show 0 < wordLimit
    decide
  have hzero : p = 0 := by
    simp only [emptyInode, directTo, nil_append] at hp
    exact eq_of_mem_replicate (mem_of_mem_take hp)
  rw [hzero]
  decide

theorem nodeKind_emptyInode (kind : NodeKind) (owner : UserId) :
    (emptyInode kind owner).nodeKind = kind := by
  cases kind <;> rfl

/-! ## Create -/

theorem create_simulates (kind : NodeKind) (owner : UserId) :
    Simulates env (createAction env kind owner) (Tree.create kind owner) := by
  rintro w existing old own hl ⟨hp, -, -, -⟩
  cases hp with
  | present =>
    simp only [createAction, Option.isSome_some, if_true, wp_fail]
    exact ⟨[], .refl w, nil_subset _, .refused rfl⟩
  | absent =>
    simp only [createAction, Option.isSome_none, Bool.false_eq_true, if_false, wp_bind, wp_pure]
    refine (writeFresh_spec hl _).mono ?_ ?_
    case refine_2 =>
      rintro e w' ⟨hg, he⟩
      exact ⟨[], hg, nil_subset _, he.excuse_of_ok rfl⟩
    rintro fresh w₁ ⟨hg, hnodup, hfresh, hdata⟩
    refine place_spec (hg.layout hl) _ ?_ ?_
    case refine_2 =>
      intro e w' hg' he
      exact ⟨[], hg.trans_nil hg', nil_subset _, he.excuse_of_ok rfl⟩
    intro new w₂ hg' hnew hinode
    obtain ⟨hfresh', hnodup'⟩ := fresh_cons hg hfresh hg' hnew hnodup
    refine ⟨some (Tree.empty kind owner), new :: fresh, [], rfl, hg.trans_nil hg', .present ?_,
      moves_replaced (by simp) hfresh' hnodup' fun x => Iff.rfl⟩
    have hcount : fresh.length ≤ directBlocks := by
      have hlen := congrArg length hdata
      rw [length_map] at hlen
      rw [hlen]
      split <;> decide
    have hp : ((emptyInode kind owner).holding fresh 0).pointers = fresh :=
      Inode.pointers_holding hcount
    obtain ⟨hdecode, hsane⟩ := decode_holding hinode (fits_emptyInode kind owner)
      (by decide) hcount hl
      fun x hx => ((hfresh x).mpr hx).inArea
    refine Shows.of_shape hdecode hsane ?_
    cases kind with
    | file =>
      have hshape : Shape w₂.disk new ((emptyInode .file owner).holding fresh 0)
          (.file owner defaultMode
            (collect 0 (((emptyInode .file owner).holding fresh 0).pointers.map w₂.disk)))
          (new :: ((emptyInode .file owner).holding fresh 0).pointers) :=
        Shape.file (nodeKind_emptyInode .file owner) (Nat.zero_le _)
      obtain rfl : fresh = [] := map_eq_nil_iff.mp hdata
      rw [hp] at hshape
      exact hshape
    | directory =>
      have hempty : entriesIn w₂.disk fresh = [] := by
        have hsame : ∀ x ∈ fresh, w₂.disk x = w₁.disk x := fun x hx =>
          hg'.disk_of_used ((hfresh x).mpr hx).used
        rw [entriesIn_congr hsame, entriesIn_of_map hdata]
        simp [liveEntries_zeroed]
      have hshape : Shape w₂.disk new ((emptyInode .directory owner).holding fresh 0)
          (.directory owner defaultMode [])
          (new :: ((emptyInode .directory owner).holding fresh 0).pointers ++ []) :=
        Shape.directory (nodeKind_emptyInode .directory owner) (by rw [hp, hempty]; rfl)
          (by rw [hp, hempty]; exact Kids.nil)
      rw [hp, append_nil] at hshape
      exact hshape

/-! ## Write -/

theorem length_dataSectors {data : List Byte}
    (h : (data.length + (blockSize - 1)) / blockSize ≤ directBlocks) :
    (dataSectors data).length ≤ directBlocks ∧
      data.length ≤ blockSize * (dataSectors data).length := by
  have hlen : (data.length + 511) / 512 ≤ 60 := h
  have hcount : data.length ≤ 512 * (chunks blockSize data.length data).length ∧
      512 * (chunks blockSize data.length data).length < data.length + 512 :=
    length_chunks (by decide) (le_rfl)
  rw [dataSectors, length_map]
  show _ ≤ 60 ∧ _ ≤ 512 * _
  omega

theorem write_simulates {data : List Byte} (user : Option UserId)
    (hdata : (data.length + (blockSize - 1)) / blockSize ≤ directBlocks) :
    Simulates env (writeAction env data user) (Tree.write data user) := by
  refine .of_read rfl rfl (fun _ => rfl) fun w c t own inode hl ho hdecode hsane hshape => ?_
  cases hshape with
  | directory hkind =>
    simp only [Owes, hkind, ne_eq, reduceCtorEq, not_false_eq_true, if_true, wp_fail]
    exact ⟨[], .refl w, nil_subset _, .refused rfl⟩
  | file hkind =>
    simp only [Owes, hkind, ne_eq, not_true_eq_false, if_false]
    cases hwrite : inode.permits user true with
    | false =>
      simp only [Bool.not_false, if_true, wp_fail]
      refine ⟨[], .refl w, nil_subset _, .refused ?_⟩
      rw [Inode.permits] at hwrite
      simp [Tree.write, hwrite]
    | true =>
      simp only [Bool.not_true, Bool.false_eq_true, if_false]
      rw [Inode.permits] at hwrite
      have hout : Tree.write data user (some (.file inode.owner inode.mode
          (collect inode.size (inode.pointers.map w.disk)))) =
          .ok (some (.file inode.owner inode.mode data)) := by
        simp [Tree.write, hwrite]
      rw [wp_bind]
      refine (writeFresh_spec hl _).mono ?_ ?_
      case refine_2 =>
        rintro e w' ⟨hg, he⟩
        exact ⟨[], hg, nil_subset _, he.excuse_of_ok hout⟩
      rintro fresh w₁ ⟨hg, hnodup, hfresh, hmap⟩
      -- The file's blocks and then its inode are retired before the new inode is placed.
      rw [← bind_assoc, wp_bind]
      refine (retireNode_spec hsane).mono ?_ fun _ _ h => h.elim
      rintro _ w₂ ⟨hretired, hbits⟩
      simp only [wp_bind, wp_pure]
      have hg₂ := hg.nil_trans hretired
      refine place_spec (hg₂.layout hl) _ ?_ ?_
      case refine_2 =>
        intro e w' hg' he
        refine ⟨inode.pointers ++ [c], hg₂.trans_nil hg', fun x hx => ?_, he.excuse_of_ok hout⟩
        rcases mem_append.mp hx with hx | hx
        · exact mem_cons_of_mem _ hx
        · rw [mem_singleton.mp hx]
          exact mem_cons_self
      intro new w₃ hg' hnew hinode
      obtain ⟨hfresh', hnodup'⟩ := fresh_cons hg₂
        (fun x => (fresh_iff_of_bits hretired hbits x).trans (hfresh x)) hg' hnew hnodup
      refine ⟨some (.file inode.owner inode.mode data), new :: fresh, inode.pointers ++ [c], hout,
        hg₂.trans_nil hg', .present ?_, moves_replaced ho.used hfresh' hnodup' fun x => ?_⟩
      · have hlen : fresh.length = (dataSectors data).length := by
          rw [← hmap, length_map]
        obtain ⟨hcount, hroom⟩ := length_dataSectors hdata
        rw [← hlen] at hcount hroom
        have hsize : data.length < wordLimit := by
          have hsmall : blockSize * directBlocks < wordLimit := by decide
          have := Nat.mul_le_mul_left blockSize hcount
          omega
        obtain ⟨hdecode', hsane'⟩ := decode_holding hinode (Inode.fits_of_decode hdecode hsane.used)
          hsize hcount hl fun x hx => ((hfresh x).mpr hx).inArea
        have hread : fresh.map w₃.disk = dataSectors data := by
          rw [← hmap]
          refine map_congr_left fun x hx => ?_
          exact (hretired.trans hg').disk_of_used ((hfresh x).mpr hx).used
        have hshape : Shape w₃.disk new (inode.holding fresh data.length)
            (.file inode.owner inode.mode
              (collect data.length ((inode.holding fresh data.length).pointers.map w₃.disk)))
            (new :: (inode.holding fresh data.length).pointers) := Shape.file hkind hroom
        rw [Inode.pointers_holding hcount, hread, collect_dataSectors] at hshape
        exact Shows.of_shape hdecode' hsane' hshape
      · rw [mem_append, mem_singleton, mem_cons, or_comm]

/-! ## Remove -/

theorem remove_simulates : Simulates env (removeAction env) Tree.remove := by
  refine .of_read rfl rfl (fun _ => rfl) fun w c t own inode hl ho hdecode hsane hshape => ?_
  -- Whatever is removed takes up its inode and the blocks its pointers name.
  have hfinish : own = c :: inode.pointers → Tree.remove (some t) = .ok none →
      Owes env w own (Tree.remove (some t)) (do
        retireSlots inode.slots
        modifyState fun s => s.retire c
        pure none) := by
    rintro rfl hout
    rw [Owes, ← bind_assoc, wp_bind]
    refine (retireNode_spec hsane).mono ?_ fun _ _ h => h.elim
    rintro _ w' ⟨hretired, hbits⟩
    rw [wp_pure]
    refine ⟨none, [], inode.pointers ++ [c], hout, hretired, .absent,
      moves_replaced ho.used (fun x => ?_) nodup_nil fun x => ?_⟩
    · simp only [not_mem_nil, iff_false]
      intro hx
      simpa [hbits, hx.free] using hx.used
    · rw [mem_append, mem_singleton, mem_cons, or_comm]
  cases hshape with
  | file hkind =>
    simp only [hkind, reduceCtorEq, false_and, if_false]
    exact hfinish rfl rfl
  | directory hkind hsize hkids =>
    have hlen := hkids.length
    by_cases hempty : 0 < inode.size
    · rw [Owes, if_pos ⟨hkind, hempty⟩, wp_fail]
      refine ⟨[], .refl w, nil_subset _, .refused ?_⟩
      rw [Tree.remove, if_pos (by omega)]
    rw [if_neg fun h => hempty h.2]
    have hnone : entriesIn w.disk inode.pointers = [] := length_eq_zero_iff.mp (by omega)
    rw [hnone] at hkids
    obtain ⟨rfl, rfl⟩ := Kids.nil_iff.mp hkids
    exact hfinish (append_nil _) rfl

/-! ## Change of mode -/

/-- An inode's copy in a new block shows the same node with another mode. -/
theorem shows_withMode {d d' : Disk} {c new : Nat} {t : Tree} {own : List Nat} {inode : Inode}
    {mode : BitVec 16} (hmode : mode &&& allPermissions = mode)
    (hdecode : Inode.decode (d c) = .ok inode) (hsane : inode.Sane)
    (hshape : Shape d c inode t own) (hinode : d' new = { inode with mode }.encode) :
    t.owner = inode.owner ∧ ∃ tail, own = c :: tail ∧
      ((∀ x ∈ tail, d' x = d x) → Shows d' new (t.withMode mode) (new :: tail)) := by
  have hfits := Inode.fits_of_decode hdecode hsane.used
  have hdecode' : Inode.decode (d' new) = .ok { inode with mode } := by
    rw [hinode]
    exact Inode.decode_encode ⟨hfits.kind, hmode, hfits.size, hfits.blocksUsed, hfits.direct⟩
  have hsane' : ({ inode with mode } : Inode).Sane := ⟨hsane.used, hsane.nonzero⟩
  cases hshape with
  | file hkind hsize =>
    refine ⟨rfl, inode.pointers, rfl, fun hsame => Shows.of_shape hdecode' hsane' ?_⟩
    have hread : inode.pointers.map d' = inode.pointers.map d := map_congr_left hsame
    have hshape' : Shape d' new { inode with mode }
        (.file inode.owner mode (collect inode.size (inode.pointers.map d')))
        (new :: inode.pointers) := Shape.file hkind hsize
    rw [hread] at hshape'
    exact hshape'
  | directory hkind hsize hkids =>
    refine ⟨rfl, _, rfl, fun hsame => Shows.of_shape hdecode' hsane' ?_⟩
    have hentries : entriesIn d' inode.pointers = entriesIn d inode.pointers :=
      entriesIn_congr fun x hx => hsame x (mem_append_left _ hx)
    refine Shape.directory hkind (hsize.trans (congrArg length hentries.symm)) ?_
    show Kids d' (entriesIn d' inode.pointers) _ _
    rw [hentries]
    exact hkids.frame fun x hx => hsame x (mem_append_right _ hx)

theorem setMode_simulates {mode : BitVec 16} (hmode : mode &&& allPermissions = mode)
    (user : Option UserId) :
    Simulates env (setModeAction env mode user) (Tree.setMode mode user) := by
  refine .of_read rfl rfl (fun _ => rfl) fun w c t own inode hl ho hdecode hsane hshape => ?_
  have howner : t.owner = inode.owner := by
    cases hshape <;> rfl
  by_cases hdenied : user.any (· ≠ inode.owner) = true
  · rw [Owes, if_pos hdenied, wp_fail]
    refine ⟨[], .refl w, nil_subset _, .refused ?_⟩
    rw [Tree.setMode, howner, if_pos hdenied]
  rw [Owes, if_neg hdenied, wp_bind, wp_modifyState]
  have hout : Tree.setMode mode user (some t) = .ok (some (t.withMode mode)) := by
    rw [Tree.setMode, howner, if_neg hdenied]
  simp only [wp_bind, wp_pure]
  have hg := retire_grew w c
  refine place_spec (hg.layout hl) _ ?_ ?_
  case refine_2 =>
    intro e w' hg' he
    refine ⟨[c], hg.trans_nil hg', fun x hx => ?_, he.excuse_of_ok hout⟩
    rw [mem_singleton.mp hx]
    exact ho.shows.mem_self
  intro new w₁ hg' hnew hinode
  obtain ⟨-, tail, rfl, hshows⟩ := shows_withMode hmode hdecode hsane hshape hinode
  have hgrew := hg.trans_nil hg'
  have hfresh : ∀ x, Fresh w w₁ x ↔ x = new := fun x =>
    ⟨fun h => (hnew x).mp ⟨h.free, h.used, h.low, h.high⟩, fun h => hg.fresh_right ((hnew x).mpr h)⟩
  have hnot : ∀ x ∈ c :: tail, x ≠ new := by
    rintro x hx rfl
    have := ((hfresh x).mpr rfl).free
    simp [ho.used x hx] at this
  have hnodup := nodup_cons.mp ho.nodup
  refine ⟨some (t.withMode mode), new :: tail, [c], hout, hgrew, .present (hshows fun x hx => ?_),
    ⟨?_, ?_, ?_, ?_, ?_⟩⟩
  · exact hgrew.disk_of_used (ho.used x (mem_cons_of_mem _ hx))
  · exact nodup_cons.mpr ⟨fun h => hnot new (mem_cons_of_mem _ h) rfl, hnodup.2⟩
  · intro x hx
    rcases mem_cons.mp hx with rfl | hx
    · exact .inr ((hfresh x).mpr rfl)
    · exact .inl (mem_cons_of_mem _ hx)
  · intro x hx
    rw [(hfresh x).mp hx]
    exact mem_cons_self
  · intro x hx
    obtain rfl := mem_singleton.mp hx
    refine ⟨mem_cons_self, fun h => ?_⟩
    rcases mem_cons.mp h with h | h
    · exact hnot x mem_cons_self h
    · exact hnodup.1 h
  · intro _ x hx
    rcases mem_cons.mp hx with rfl | hx
    · exact .inr (mem_singleton.mpr rfl)
    · exact .inl (mem_cons_of_mem _ hx)

end Panda.Fs
