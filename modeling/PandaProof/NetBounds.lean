import PandaProof.NetActs

/-!
# Client commands stay inside their buffers

Every handler touches client memory only inside a buffer of the mappings table, and
every copy into a local array fits it, whatever the tables hold and whatever the four
words of the command are — except one: `send_udp` adds an attacker's length to small
constants before comparing the sums, and a length within 8 of `2^64` makes both sums
wrap.  The theorem at the end says that this is the only way out of bounds.
-/
namespace Panda.Net

open Function Prog List

variable {a : Input} {T : Prop} {w : World}

variable {w' : World}

/-- Only the count of system calls has changed. -/
theorem quiet_of_same (hstack : w'.stack = w.stack) (hlog : w'.log = w.log) : Quiet w w' := by
  cases w
  cases w'
  subst hstack
  subst hlog
  exact ⟨rfl, id, .same rfl⟩

variable {length : UInt64}

theorem runs_readClient (env : Env) {address : UInt64}
    (h : Inside w.stack address.toNat length.toNat) :
    Runs (readClient env address length) w fun bytes w' =>
      bytes.length = length.toNat ∧ w'.stack = w.stack ∧ Quiet w w' := by
  unfold readClient
  refine .getStack ?_
  rw [if_pos h]
  refine wp_bind.mpr (wp_call.mpr ?_)
  exact wp_pure.mpr ⟨by simp, rfl, rfl, id, .same rfl⟩

/-! ## The mappings table -/

/-- `buffer` is mapped at `region`. -/
def Mapped (s : Stack) (buffer : UInt64) (region : Region) : Prop :=
  ∃ i, position (fun i => decide ((s.mappings i).handle = buffer)) = some i ∧
    (s.mappings i).region = region

variable {s : Stack} {buffer : UInt64} {region : Region}

/-- What lies inside a mapped buffer is inside. -/
theorem inside_of_mapped
    (h : Mapped s buffer region) {start length : Nat} (hfits : start + length ≤ region.size.toNat) :
    Inside s (region.base.toNat + start) length := by
  obtain ⟨i, -, rfl⟩ := h
  exact .inr ⟨i, by omega, by omega⟩

theorem inside_of_mapped_start
    (h : Mapped s buffer region) {length : Nat} (hfits : length ≤ region.size.toNat) :
    Inside s region.base.toNat length :=
  inside_of_mapped h (by omega : 0 + length ≤ region.size.toNat)

theorem Mapped.congr {s' : Stack}
    (h : Mapped s buffer region) (hs : s'.mappings = s.mappings) : Mapped s' buffer region := by
  unfold Mapped
  rw [hs]
  exact h

variable (env : Env)

/-- What looking for a buffer comes to: acts on the mappings alone, and a buffer found is a
buffer of the table. -/
structure Finds (a : Input) (T : Prop) (buffer : UInt64) (w : World) (r : Option Region)
    (w' : World) : Prop where
  moves : Moves a T w w'
  rest : ∃ m, w'.view = { w.view with mappings := m }
  found : ∀ region, r = some region → Mapped w'.stack buffer region

theorem Mapped.maps (h : Mapped w.stack buffer region) : Maps w.view.mappings buffer region := by
  obtain ⟨i, hi, rfl⟩ := h
  have hhandle : (w.stack.mappings i).handle = buffer := by simpa using position_some hi
  exact ⟨i, by rw [← hhandle]; rfl⟩

theorem finds_none (h : Quiet w w') : Finds a T buffer w none w' :=
  ⟨Quiet.moves h, ⟨_, h.view⟩, by simp⟩

/-- Mapping a buffer nothing is mapped under. -/
theorem runs_mapInto {slot : Fin 8} (hfree : (w.stack.mappings slot).handle = 0)
    (h : ∀ i, i ≠ slot → (w.stack.mappings i).handle ≠ buffer) :
    Runs (mapInto env slot buffer) w fun r w' => Finds a T buffer w r w' := by
  unfold mapInto
  refine wp_bind.mpr (wp_call.mpr ?_)
  split
  · exact wp_pure.mpr (finds_none (quiet_of_same rfl rfl))
  rename_i region hmap
  have hbuffer : buffer ≠ 0 := by
    rintro rfl
    rw [env.bufferMap_zero] at hmap
    cases hmap
  refine wp_bind.mpr (wp_call.mpr ?_)
  split
  · refine wp_bind.mpr (wp_modifyStack.mpr (wp_pure.mpr ?_))
    refine ⟨⟨.single (.enter (k := slot) hfree hbuffer), fun _ ht => ht, .same rfl⟩, ⟨_, rfl⟩, ?_⟩
    rintro region' hregion
    cases hregion
    refine ⟨slot, position_of_unique (by simp) fun j hj => ?_, by simp⟩
    by_contra hne
    exact h j hne (by simpa [update_of_ne hne] using hj)
  · refine wp_bind.mpr (wp_emit.mpr (wp_pure.mpr ?_))
    have hquiet : Quiet w { w with calls := w.calls + 1 + 1 } := quiet_of_same rfl rfl
    have hemit := quiet_emit (w := { w with calls := w.calls + 1 + 1 }) (e := .bufferUnmap buffer)
      rfl rfl rfl
    exact finds_none ⟨hemit.view, fun ht => hemit.tracked (hquiet.tracked ht),
      hquiet.wired.trans hemit.wired⟩

/-- **`mapping`** returns a buffer of the table. -/
theorem runs_mapping (buffer : UInt64) :
    Runs (mapping env buffer) w fun r w' => Finds a T buffer w r w' := by
  unfold mapping
  refine .getStack ?_
  split
  · rename_i i hi
    exact wp_pure.mpr ⟨.refl, ⟨_, rfl⟩, fun region hregion => ⟨i, hi, Option.some.inj hregion⟩⟩
  rename_i hnone
  have hother : ∀ i, (w.stack.mappings i).handle ≠ buffer := fun i => by
    simpa using position_eq_none.mp hnone i
  split
  · rename_i slot hslot
    exact runs_mapInto env (by simpa using position_some hslot) fun i _ => hother i
  split
  · exact wp_pure.mpr (finds_none (Quiet.refl w))
  rename_i slot hslot
  have hunused : ¬ w.view.Refers (w.stack.mappings slot).region.base := by
    have := position_some hslot
    simpa [refersTo_iff] using this
  refine wp_bind.mpr (wp_emit.mpr (wp_bind.mpr (wp_modifyStack.mpr ?_)))
  refine (runs_mapInto (a := a) (T := T) env (by simp) fun i hi => ?_).mono ?_
  · simpa [update_of_ne hi] using hother i
  intro r w' hr
  have hmoves : Moves a T w { w with
      stack := { w.stack with
        mappings := update w.stack.mappings slot ⟨0, .none⟩ }
      log := .bufferUnmap (w.stack.mappings slot).handle :: w.log } := by
    refine ⟨?_, fun _ => tracked_cons rfl, .cons rfl rfl⟩
    have hview : World.view { w with
        stack := { w.stack with
          mappings := update w.stack.mappings slot ⟨0, .none⟩ }
        log := .bufferUnmap (w.stack.mappings slot).handle :: w.log } =
        { w.view with mappings := update w.view.mappings slot ⟨0, .none⟩ } := rfl
    rw [hview]
    exact .single (.evict hunused)
  obtain ⟨m, hm⟩ := hr.rest
  exact ⟨hmoves.trans hr.moves, ⟨m, hm⟩, hr.found⟩

/-- A buffer that is mapped is found again, and nothing changes. -/
theorem runs_mapping_of_mapped (h : Mapped w.stack buffer region) :
    Runs (mapping env buffer) w fun r w' => r = some region ∧ w' = w := by
  obtain ⟨i, hi, rfl⟩ := h
  unfold mapping
  refine .getStack ?_
  simp [hi]

theorem handles_namedAddress (word buffer : UInt64) :
    Handles a T (namedAddress env word buffer) w := by
  unfold namedAddress
  split
  · exact .pure
  refine Runs.bind (runs_mapping (a := a) (T := T) env buffer) fun r w' hr => ?_
  split
  · exact wp_pure.mpr hr.moves
  rename_i region
  split
  · rename_i hsize
    have hinside := inside_of_mapped_start (hr.found region rfl) (UInt64.le_iff_toNat_le.mp hsize)
    refine .bind (runs_readClient env (by simpa using hinside)) fun _ w'' hread => ?_
    exact wp_pure.mpr (hr.moves.trans hread.2.2.moves)
  · exact wp_pure.mpr hr.moves

variable {word : UInt64}

/-- Naming an address in a buffer that is mapped already. -/
theorem runs_namedAddress_of_mapped (h : Mapped w.stack buffer region) :
    Runs (namedAddress env word buffer) w fun r w' => (w'.stack = w.stack ∧ Quiet w w') ∧
      (r.isSome ↔ word ≠ ipv6Word ∨ 16 ≤ region.size) := by
  unfold namedAddress
  split
  · rename_i hword
    exact wp_pure.mpr ⟨⟨rfl, .refl w⟩, by simp [hword]⟩
  rename_i hword
  refine .bind (runs_mapping_of_mapped env h) ?_
  rintro r w' ⟨rfl, rfl⟩
  dsimp only
  split
  · rename_i hsize
    have hinside := inside_of_mapped_start h (UInt64.le_iff_toNat_le.mp hsize)
    refine .bind (runs_readClient env (by simpa using hinside)) fun _ w' hw' => ?_
    exact wp_pure.mpr ⟨hw'.2, by simp [hsize]⟩
  · rename_i hsize
    exact wp_pure.mpr ⟨⟨rfl, .refl w'⟩, by simp [hword, hsize]⟩

/-! ## The handlers -/

theorem handles_ping (word reply token buffer : UInt64) :
    Handles a T (ping env word reply token buffer) w := by
  unfold ping
  refine .bind (handles_namedAddress env word buffer) fun r w' _ => Sends.handles ?_
  split
  · exact .pure
  refine .getStack ?_
  split
  · exact Does.pure
  refine Sends.bind (wp_modifyStack.mpr ⟨rfl, id, .same rfl⟩) fun _ w' => ?_
  refine Runs.bind (runs_putAll (by simp [echoData])) ?_
  rintro echo w'' ⟨hecho, rfl⟩
  simp only [length_zeros] at hecho
  split
  · refine .bind (runs_put (by simp [hecho])) ?_
    rintro echo' w'' ⟨hecho', rfl⟩
    refine .bind (runs_put (by simp [hecho', hecho])) ?_
    rintro echo'' w'' ⟨-, rfl⟩
    exact sends_sendIpv4 _ (by decide) _
  · refine .bind (runs_put (by simp [hecho])) ?_
    rintro echo' w'' ⟨hecho', rfl⟩
    exact sends_sendIcmpv6 _ (by omega)

theorem handles_bind (port : UInt16) (reply buffer : UInt64) :
    Handles a T (bind env port reply buffer) w := by
  unfold bind
  refine Runs.bind (runs_mapping (a := a) (T := T) env buffer) fun r w' hr => ?_
  split
  · exact wp_pure.mpr hr.moves
  rename_i region
  refine .getStack ?_
  split
  · exact wp_pure.mpr hr.moves
  · refine wp_modifyStack.mpr (hr.moves.trans (Becomes.moves ⟨rfl, id, .same rfl⟩ ?_))
    exact .bind (hr.found region rfl).maps rfl rfl

theorem handles_listen (owner : UInt64) (port : UInt16) (reply buffer : UInt64) :
    Handles a T (listen env owner port reply buffer) w := by
  unfold listen
  refine Runs.bind (runs_mapping (a := a) (T := T) env buffer) fun r w' hr => ?_
  split
  · exact wp_pure.mpr hr.moves
  rename_i region
  refine .getStack ?_
  split
  · exact wp_pure.mpr hr.moves
  · refine wp_modifyStack.mpr (hr.moves.trans (Becomes.moves ⟨rfl, id, .same rfl⟩ ?_))
    exact .listen (hr.found region rfl).maps rfl rfl

theorem sends_config (reply : UInt64) : Sends (config reply) w := by
  unfold config
  refine .getStack ?_
  split
  · exact sends_configured reply
  split
  · exact Does.pure
  · exact wp_modifyStack.mpr ⟨rfl, id, .same rfl⟩

theorem sends_config6 (reply : UInt64) : Sends (config6 reply) w := by
  unfold config6
  refine .getStack ?_
  split
  · exact sends_configured6 reply
  split
  · exact Does.pure
  · exact wp_modifyStack.mpr ⟨rfl, id, .same rfl⟩

variable {m : Message}

theorem handles_connect (htag : m.tag = tagTcpConnect) (word : UInt64)
    (localPort remotePort : UInt16) (reply : UInt64) : Handles (.message m) T
      (connect env m.sender word localPort remotePort reply m.words.2.2.2) w := by
  unfold connect
  refine Runs.bind (runs_mapping (a := .message m) (T := T) env m.words.2.2.2)
    fun found w₁ hfound => ?_
  cases found with
  | none =>
    refine .bind (handles_namedAddress (a := .message m) (T := T) env word m.words.2.2.2)
      fun named w₂ hnamed => ?_
    exact wp_pure.mpr (hfound.moves.trans hnamed)
  | some region =>
    have hmapped := hfound.found region rfl
    refine .bind (runs_namedAddress_of_mapped env hmapped) fun named w₂ hnamed => ?_
    have hmoves : Moves (.message m) T w w₂ :=
      hfound.moves.trans hnamed.1.2.moves
    have hmaps : Maps w₂.view.mappings m.words.2.2.2 region :=
      (hmapped.congr (congrArg Stack.mappings hnamed.1.1)).maps
    cases named with
    | none => exact wp_pure.mpr hmoves
    | some address =>
      refine .mono ?_ fun _ _ h => hmoves.trans h
      refine .getStack ?_
      split
      · exact wp_emit.mpr (Becomes.moves ⟨rfl, tracked_cons rfl, .cons rfl rfl⟩ .noRoom)
      rename_i index hindex
      have hfree : (w₂.view.connections index).state = .free := by
        simpa [World.view] using position_some hindex
      refine Runs.bind (P := fun _ w' => Quiet w₂ w') (wp_modifyStack.mpr ?_) fun _ w₃ h₃ => ?_
      · split <;> exact ⟨rfl, id, .same rfl⟩
      refine .bind (P := fun _ w' => Quiet w₃ w') (wp_call.mpr ⟨rfl, id, .same rfl⟩)
        fun k w₄ h₄ => ?_
      have hview : w₄.view = w₂.view := h₄.view.trans h₃.view
      refine ((gives_modifyConnection.bind_quiet
        (gives_startFlight env syn (.inl rfl) (fits_zero _ _))).runs rfl rfl).mono ?_
      rintro _ w' ⟨-, hbecomes⟩
      refine (Quiet.moves h₃).trans ((Quiet.moves h₄).trans (hbecomes.moves ?_))
      rw [hview]
      exact .connect rfl htag rfl hmaps rfl rfl hfree ⟨rfl, rfl, rfl, rfl⟩

/-- **What `TCP_SEND` comes to**: the buffer is looked for, and then the connection takes
one turn: the data goes out, or the client is told at once that nothing was sent. -/
structure Answered (m : Message) (i : Fin 8) (T : Prop) (w w' : World) : Prop where
  moves : Moves (.message m) T w w'
  answer : ∃ table, Acts (.message m) w.view { w.view with mappings := table } ∧
    (w'.view = { w.view with mappings := table }.turn i
        (w.view.connections i, [sentMessage i (w.view.connections i) 0]) ∨
      ∃ region, Maps table m.words.2.1 region ∧
        Sendable (w.view.connections i) region m.words.2.2.1 ∧
        w'.view = { w.view with mappings := table }.turn i
          (sentOff (launched (w.view.connections i) psh region.base m.words.2.2.1)))

theorem runs_sendTcp {i : Fin 8} (hm : Commands w.view m tagTcpSend i) :
    Runs (sendTcp env i m.words.2.1 m.words.2.2.1) w fun _ w' => Answered m i T w w' := by
  unfold sendTcp
  refine .getStack ?_
  refine Runs.bind (runs_mapping (a := .message m) (T := T) env m.words.2.1) fun r w₁ hr => ?_
  obtain ⟨table, htable⟩ := hr.rest
  have hconnections : w₁.stack.connections = w.stack.connections := congrArg View.connections htable
  have hm₁ : Commands w₁.view m tagTcpSend i := by
    rw [htable]
    exact { hm with }
  have hrefuse : Runs (tell i tagTcpSent (UInt64.ofNat i, 0, 0, 0)) w₁ fun _ w' =>
      Answered m i T w w' := by
    refine ((gives_tell _ (by simp)).runs rfl rfl).mono ?_
    rintro _ w' ⟨-, hbecomes⟩
    refine ⟨hr.moves.trans (hbecomes.moves (.refuse rfl hm₁)), table, htable ▸ hr.moves.acts,
      .inl ?_⟩
    rw [hbecomes.view, htable, hconnections]
    rfl
  split
  · rename_i region
    split
    · rename_i hcond
      obtain ⟨hopen, hidle, hsome, hmss, hsize⟩ := hcond
      have hmapped := hr.found region rfl
      have hinside := inside_of_mapped_start hmapped (UInt64.le_iff_toNat_le.mp hsize)
      have hsend : Sendable (w.view.connections i) region m.words.2.2.1 :=
        ⟨hopen, hidle.1, hidle.2, hsome, hmss, hsize⟩
      refine ((gives_startFlight env psh (inside_iff_covers.mp hinside)
        (fits_flight rfl ((congrFun hconnections i).symm ▸ hmss))).runs rfl rfl).mono ?_
      rintro _ w' ⟨-, hbecomes⟩
      refine ⟨hr.moves.trans (hbecomes.moves ?_), table, htable ▸ hr.moves.acts,
        .inr ⟨region, ?_, hsend, ?_⟩⟩
      · refine .send rfl hm₁ hmapped.maps ?_
        rw [htable]
        exact hsend
      · have hmaps := hmapped.maps
        rw [htable] at hmaps
        exact hmaps
      · rw [hbecomes.view, htable, hconnections]
        rfl
    · exact hrefuse
  · exact hrefuse

/-! ## Lookups -/

/-- The bytes of a name's labels with a length before each. -/
def encodedLength (labels : List Bytes) : Nat := labels.length + labels.flatten.length

theorem encodedLength_cons (label : Bytes) (labels : List Bytes) :
    encodedLength (label :: labels) = 1 + label.length + encodedLength labels := by
  simp only [encodedLength, length_cons, flatten_cons, length_append]
  omega

variable {labels : List Bytes}

theorem encodedLength_modifyHead (b : UInt8) (h : labels ≠ []) :
    encodedLength (labels.modifyHead (b :: ·)) = encodedLength labels + 1 := by
  cases labels with
  | nil => contradiction
  | cons =>
    rw [modifyHead_cons, encodedLength_cons, encodedLength_cons, length_cons]
    omega

/-- Splitting at the dots trades each dot for a length byte, and adds one. -/
theorem encodedLength_splitOnP (p : UInt8 → Bool) (name : Bytes) :
    encodedLength (name.splitOnP p) = name.length + 1 := by
  induction name with
  | nil => rfl
  | cons b name ih =>
    rw [splitOnP_cons_eq_if_modifyHead]
    split
    · rw [encodedLength_cons, ih, length_cons, length_nil]
      omega
    · rw [encodedLength_modifyHead b (splitOnP_ne_nil p name), ih, length_cons]

theorem runs_dnsLabels {query : Bytes} {start : Nat}
    (h : start + encodedLength labels ≤ query.length) :
    Runs (dnsLabels query start labels) w fun r w' => w' = w ∧ ∀ query' start',
      r = some (query', start') →
        query'.length = query.length ∧ start' = start + encodedLength labels := by
  induction labels generalizing query start with
  | nil =>
    refine wp_pure.mpr ⟨rfl, ?_⟩
    rintro query' start' hr
    simp only [Option.some.injEq, Prod.mk.injEq] at hr
    obtain ⟨rfl, rfl⟩ := hr
    exact ⟨rfl, by simp [encodedLength]⟩
  | cons label rest ih =>
    have hcons := encodedLength_cons label rest
    rw [hcons] at h
    unfold dnsLabels
    split
    · simp
    refine .bind (runs_putAll (by simp; omega)) ?_
    rintro query' w' ⟨hlen, rfl⟩
    refine (ih (by omega)).mono fun r w' hr => ⟨hr.1, fun query'' start'' hsome => ?_⟩
    obtain ⟨hlen', _⟩ := hr.2 query'' start'' hsome
    exact ⟨hlen'.trans hlen, by omega⟩

/-- A name of at most 253 bytes fits the query. -/
theorem sends_dnsQuery {slot : Fin 4} (hinside : Inside w.stack (w.stack.resolves slot).base.toNat
      (w.stack.resolves slot).length.toNat)
    (hlen : (w.stack.resolves slot).length.toNat ≤ 253) : Sends (dnsQuery env slot) w := by
  unfold dnsQuery
  refine .getStack ?_
  refine Runs.bind (runs_readClient env hinside) fun name w' hname => ?_
  refine .mono ?_ fun _ w'' h => hname.2.2.trans h
  refine .bind (runs_putAll (by simp [maxQuery])) ?_
  rintro query w'' ⟨hquery, rfl⟩
  simp only [length_zeros, maxQuery] at hquery
  have hencoded := encodedLength_splitOnP (· = 46) name
  refine .bind (runs_dnsLabels (by omega)) ?_
  rintro r w'' ⟨rfl, hr⟩
  split
  · exact Does.pure
  rename_i query' start
  obtain ⟨_, _⟩ := hr query' start rfl
  refine .bind (runs_putAll (by simp; omega)) ?_
  rintro query'' w'' ⟨-, rfl⟩
  refine Sends.bind (sends_sendDatagram _ _ _ ?_) fun _ _ => Does.pure
  rw [length_take]
  omega

theorem handles_resolve (buffer length reply token : UInt64) {kind : UInt16}
    (hkind : kind = 1 ∨ kind = 28) :
    Handles a T (resolve env buffer length reply token kind) w := by
  have hanswer : ∀ status w', Sends (ipcSend reply tagResolved (token, 0, status, 0)) w' :=
    fun _ _ => sends_ipcSend (by
      simp)
  unfold resolve
  refine Runs.bind (runs_mapping (a := a) (T := T) env buffer) fun r w₁ hr => ?_
  refine .mono ?_ fun _ _ h => hr.moves.trans h
  split
  · exact Handles.pure
  rename_i region
  split
  · exact (hanswer ..).handles
  rename_i hname
  simp only [not_or, UInt64.not_lt, not_and] at hname
  obtain ⟨hsome, hshort, hfits, hroom⟩ := hname
  refine .getStack ?_
  split
  · exact (hanswer ..).handles
  split
  · exact (hanswer ..).handles
  rename_i slot _
  refine Runs.bind (P := fun _ w' => Quiet w₁ w' ∧ w'.stack = w₁.stack) (wp_call.mpr
    ⟨⟨rfl, id, .same rfl⟩, rfl⟩) fun k w₂ h₂ => ?_
  refine .mono ?_ fun _ _ h => (Quiet.moves h₂.1).trans h
  have hmapped := (hr.found region rfl).congr (congrArg Stack.mappings h₂.2)
  refine .bind (P := fun _ w' => Moves a T w₂ w' ∧ Mapped w'.stack buffer region ∧
    (w'.stack.resolves slot).base = region.base ∧ (w'.stack.resolves slot).length = length)
    (wp_modifyStack.mpr ⟨?_, hmapped.congr rfl, by simp, by simp⟩) fun _ w₃ h₃ => ?_
  · exact Becomes.moves ⟨rfl, id, .same rfl⟩ (.ask hmapped.maps rfl hfits
      (UInt64.pos_iff_ne_zero.mpr hsome) hshort (hkind.imp_right fun h => ⟨h, hroom h⟩))
  refine .mono ?_ fun _ _ h => h₃.1.trans h
  obtain ⟨-, hmapped, hbase, hlength⟩ := h₃
  have hinside := inside_of_mapped_start hmapped (UInt64.le_iff_toNat_le.mp hfits)
  refine Handles.bind (Sends.handles (sends_dnsQuery env ?_ ?_)) fun sent w₄ _ => ?_
  · rw [hbase, hlength]
    exact hinside
  · rw [hlength]
    exact UInt64.le_iff_toNat_le.mp hshort
  split
  · exact (sends_armTimer env).handles
  · refine .bind (wp_modifyStack.mpr (Becomes.moves ⟨rfl, id, .same rfl⟩ .giveUp)) fun _ w₅ _ => ?_
    exact (hanswer ..).handles

/-! ## `send_udp` -/

/-- The length checks of `send_udp`: `skip + length > size || 8 + length > room`. -/
theorem length_of_checked {skip room : UInt64}
    (hskip : skip = 0 ∨ skip = 16 ∧ length < 0xFFFFFFFFFFFFFFF8) (hroom : room.toNat ≤ 1480)
    (h : ¬ (region.size < skip + length ∨ room < 8 + length)) :
    skip.toNat + length.toNat ≤ region.size.toNat ∧ 8 + length.toNat ≤ 1480 ∧
      (8 + length).toNat = 8 + length.toNat := by
  have hfits := region.fits
  have hlt := length.toNat_lt
  simp only [not_or, UInt64.lt_iff_toNat_lt, not_lt, UInt64.toNat_add] at h
  have h8 : (8 : UInt64).toNat = 8 := rfl
  rw [UInt64.toNat_add, h8]
  rw [h8] at h
  rcases hskip with rfl | ⟨rfl, hlen⟩
  · have h0 : (0 : UInt64).toNat = 0 := rfl
    rw [h0] at h ⊢
    omega
  have h16 : (16 : UInt64).toNat = 16 := rfl
  have hbound : length.toNat < 0xFFFFFFFFFFFFFFF8 := UInt64.lt_iff_toNat_lt.mp hlen
  rw [h16] at h ⊢
  omega

/-- A length that does not wrap keeps `send_udp` in bounds. -/
theorem handles_sendUdp (localPort remote : UInt16)
    (h : word = ipv6Word → 0xFFFFFFFFFFFFFFF8 ≤ length → ∀ region w',
      mapping env buffer w = (.ok (some region), w') → region.size < 16) :
    Handles a T (sendUdp env buffer length word localPort remote) w := by
  unfold sendUdp
  refine Runs.bind (runs_mapping (a := a) (T := T) env buffer).with_eq
    fun found w₁ ⟨hfound, hmap⟩ => ?_
  refine .mono ?_ fun _ _ h => hfound.moves.trans h
  cases found with
  | none =>
    exact Handles.bind (handles_namedAddress env word buffer) fun _ _ _ => Handles.pure
  | some region =>
    have hmapped := hfound.found region rfl
    refine .bind (runs_namedAddress_of_mapped env hmapped) ?_
    rintro named w₂ ⟨⟨hstack, hquiet⟩, hnamed⟩
    refine .mono ?_ fun _ _ h => hquiet.moves.trans h
    cases named with
    | none => exact Handles.pure
    | some destination =>
      refine Sends.handles ?_
      dsimp only
      have hsome : word ≠ ipv6Word ∨ 16 ≤ region.size := hnamed.mp rfl
      generalize hskip : (if word = ipv6Word then 16 else 0 : UInt64) = skip
      generalize hroom : UInt64.ofNat (if skip = 0 then maxFrame - 34 else maxFrame - 54) = room
      have hskip' : skip = 0 ∨ skip = 16 ∧ length < 0xFFFFFFFFFFFFFFF8 := by
        split at hskip
        · rename_i hword
          refine .inr ⟨hskip.symm, ?_⟩
          by_contra hlen
          have hsmall := h hword (UInt64.not_lt.mp hlen) region w₁ hmap
          exact UInt64.not_lt.mpr (hsome.resolve_left fun hne => hne hword) hsmall
        · exact .inl hskip.symm
      have hroom' : room.toNat ≤ 1480 := by
        rw [← hroom]
        split <;> decide
      split
      · exact .pure
      rename_i hchecked
      obtain ⟨hsize, _, hsum⟩ := length_of_checked hskip' hroom' hchecked
      refine Runs.bind (runs_putAll (by simp [maxFrame])) ?_
      rintro datagram w₃ ⟨hdatagram, rfl⟩
      simp only [length_zeros, maxFrame] at hdatagram
      have haddress : (region.base + skip).toNat = region.base.toNat + skip.toNat := by
        have hfits := region.fits
        rw [UInt64.toNat_add]
        omega
      have hinside := inside_of_mapped (hmapped.congr (congrArg Stack.mappings hstack)) hsize
      rw [← haddress] at hinside
      refine .bind (runs_readClient env hinside) fun payload w₄ hpayload => ?_
      refine .mono ?_ fun _ _ h => hpayload.2.2.trans h
      have hpayload := hpayload.1
      refine .bind (runs_put (by omega)) ?_
      rintro datagram' w₅ ⟨_, rfl⟩
      refine sends_sendUdpDatagram _ ?_
      rw [length_take, hsum]
      omega

/-- **A length within 8 of `2^64` gets past the checks**: the copy starts inside the
buffer and runs out of it. -/
theorem faults_sendUdp (localPort remote : UInt16) (hlen : 0xFFFFFFFFFFFFFFF8 ≤ length) {w₁ : World}
    (hmap : mapping env buffer w = (.ok (some region), w₁)) (hsize : 16 ≤ region.size) :
    (sendUdp env buffer length ipv6Word localPort remote).Wp w (fun _ _ => False)
      fun e w' => e = .client (region.base.toNat + 16) length.toNat ∧ Moves a T w w' := by
  have hfits := region.fits
  have hlen' : 0xFFFFFFFFFFFFFFF8 ≤ length.toNat := UInt64.le_iff_toNat_le.mp hlen
  have hlt := length.toNat_lt
  have hsize' : 16 ≤ region.size.toNat := UInt64.le_iff_toNat_le.mp hsize
  unfold sendUdp
  refine wp_bind.mpr (Wp.mono (runs_mapping (a := a) (T := T) env buffer).with_eq ?_
    fun _ _ hf => hf.elim)
  rintro found w₁ ⟨hfound, heq⟩
  cases heq.symm.trans hmap
  refine wp_bind.mpr (Wp.mono (runs_namedAddress_of_mapped env (hfound.found region rfl)) ?_
    fun _ _ hf => hf.elim)
  rintro named w₂ ⟨hsame, hnamed⟩
  obtain ⟨_, rfl⟩ := Option.isSome_iff_exists.mp (hnamed.mpr (.inr hsize))
  dsimp only
  rw [if_pos rfl]
  have hpass : ¬ (region.size < 16 + length ∨
      UInt64.ofNat (if (16 : UInt64) = 0 then maxFrame - 34 else maxFrame - 54) < 8 + length) := by
    have hroom : (UInt64.ofNat
        (if (16 : UInt64) = 0 then maxFrame - 34 else maxFrame - 54)).toNat = 1460 := by decide
    have h16 : (16 : UInt64).toNat = 16 := rfl
    have h8 : (8 : UInt64).toNat = 8 := rfl
    simp only [not_or, UInt64.lt_iff_toNat_lt, not_lt, UInt64.toNat_add, hroom, h16, h8]
    omega
  rw [if_neg hpass]
  refine wp_bind.mpr (Wp.mono (runs_putAll (by simp [maxFrame])) ?_ fun _ _ hf => hf.elim)
  rintro datagram w₃ ⟨-, rfl⟩
  have haddress : (region.base + 16).toNat = region.base.toNat + 16 := by
    have h16 : (16 : UInt64).toNat = 16 := rfl
    rw [UInt64.toNat_add, h16]
    omega
  -- no buffer is that long
  have houtside : ¬ Inside w₃.stack (region.base + 16).toNat length.toNat := by
    rintro (hzero | ⟨i, -, _⟩)
    · omega
    · have := (w₃.stack.mappings i).region.fits
      omega
  rw [haddress] at houtside
  have hquiet : Moves a T w w₃ := hfound.moves.trans hsame.2.moves
  unfold readClient
  simp [houtside, haddress, hquiet]

/-! ## Commands -/

theorem handles_connectionCommand (m : Message) :
    Handles (.message m) T (connectionCommand env m) w := by
  unfold connectionCommand
  refine .getStack ?_
  split
  · rename_i hindex
    dsimp only
    split
    · exact Handles.pure
    rename_i hname
    simp only [not_or, not_not] at hname
    have hcommands : ∀ {tag}, m.tag = tag → Commands w.view m tag ⟨m.words.1.toNat, hindex⟩ :=
      fun htag => ⟨htag, UInt64.ofNat_toNat.symm, hname.1, hname.2⟩
    split
    · rename_i htag
      exact (runs_sendTcp env (hcommands htag)).mono fun _ _ h => h.moves
    split
    · rename_i htag
      exact gives_consumed.handles (.consume rfl (hcommands htag))
    split
    · rename_i htag
      exact (gives_close env).handles (.close rfl (hcommands htag))
    · exact Handles.pure
  · exact Handles.pure

/-- A `UDP_SEND` to IPv6 whose length makes both sums of `send_udp` wrap, with a buffer
that holds an address. -/
def Wraps (w : World) (m : Message) : Prop :=
  m.tag = tagUdpSend ∧ m.words.2.2.1 = ipv6Word ∧ (0xFFFFFFFFFFFFFFF8 : UInt64) ≤ m.words.2.1 ∧
    ∃ region w', mapping env m.words.1 w = (.ok (some region), w') ∧ 16 ≤ region.size

theorem handles_generalCommand (h : ¬ Wraps env w m) :
    Handles (.message m) T (generalCommand env m) w := by
  unfold generalCommand
  dsimp only
  split
  · exact handles_ping ..
  split
  · exact handles_bind ..
  split
  · rename_i htag
    refine handles_sendUdp env _ _ fun hword hlen region w' hmap => ?_
    by_contra hsize
    exact h ⟨htag, hword, hlen, region, w', hmap, UInt64.not_lt.mp hsize⟩
  split
  · rename_i htag
    exact handles_connect env htag ..
  split
  · exact handles_listen ..
  split
  · exact (sends_config _).handles
  split
  · exact handles_resolve env _ _ _ _ (.inl rfl)
  split
  · exact handles_resolve env _ _ _ _ (.inr rfl)
  split
  · exact (sends_config6 _).handles
  · exact .pure

/-- **A command is a few acts**, unless it is a send that wraps. -/
theorem handles_command (h : ¬ Wraps env w m) : Handles (.message m) T (command env m) w :=
  Handles.bind (handles_generalCommand env h) fun _ _ _ => handles_connectionCommand env m

theorem faults_command (htag : m.tag = tagUdpSend) (hword : m.words.2.2.1 = ipv6Word)
    (hlen : (0xFFFFFFFFFFFFFFF8 : UInt64) ≤ m.words.2.1)
    (hmap : mapping env m.words.1 w = (.ok (some region), w')) (hsize : 16 ≤ region.size) :
    (command env m).Wp w (fun _ _ => False) fun e w' =>
      e = .client (region.base.toNat + 16) m.words.2.1.toNat ∧ Moves a T w w' := by
  unfold command generalCommand
  refine wp_bind.mpr ?_
  have h1 : m.tag ≠ tagPing := by rw [htag]; decide
  have h2 : m.tag ≠ tagUdpBind := by rw [htag]; decide
  dsimp only
  rw [if_neg h1, if_neg h2, if_pos htag, hword]
  exact .mono (faults_sendUdp env _ _ hlen hmap hsize) (fun _ _ hf => hf.elim) fun e _ he => he

theorem not_wraps_of_ok (hok : command env m w = (.ok (), w')) : ¬ Wraps env w m := by
  rintro ⟨htag, hword, hlen, _, _, hmap, hsize⟩
  have hfault := faults_command (a := .tick) (T := True) env htag hword hlen hmap hsize
  unfold Wp at hfault
  rw [hok] at hfault
  exact hfault

/-- Whether it is handled to its end or not, a command does nothing but acts. -/
theorem moves_command (m : Message) : Moves (.message m) T w (command env m w).2 := by
  by_cases hwraps : Wraps env w m
  · obtain ⟨htag, hword, hlen, _, _, hmap, hsize⟩ := hwraps
    have hfault := faults_command (a := .message m) (T := T) env htag hword hlen hmap hsize
    unfold Wp at hfault
    split at hfault
    · exact hfault.elim
    · rename_i hrun
      rw [hrun]
      exact hfault.2
  · obtain ⟨⟨⟩, _, hrun, hmoves⟩ := wp_iff_ok.mp (handles_command (T := T) env hwraps)
    rw [hrun]
    exact hmoves

/-! ## From start-up -/

/-- With an empty table a buffer goes where the kernel maps it. -/
theorem runs_mapping_of_empty (hbuffer : buffer ≠ 0)
    (hempty : w.stack.mappings = fun _ => ⟨0, .none⟩)
    (hmap : ∀ k, env.bufferMap k buffer = some region)
    (hinfo : ∀ k, env.bufferInfo k buffer = true) :
    Runs (mapping env buffer) w fun r _ => r = some region := by
  have hnone : position (fun i => decide ((w.stack.mappings i).handle = buffer)) = none := by
    rw [position_eq_none]
    intro i
    simpa [hempty] using hbuffer.symm
  have hfree : position (fun i => decide ((w.stack.mappings i).handle = 0)) = some 0 := by
    simp only [hempty]
    decide
  unfold mapping
  refine .getStack ?_
  simp [hnone, hfree, mapInto, hmap, hinfo]

/-- A daemon with an address of its own, before its start-up, and a kernel that maps
every buffer as one page at 4 MiB. -/
def freshWorld : World :=
  ⟨Stack.start (.replicate 6 2) 1 0x0A000002 0x0A000001 0xFFFFFF00 0 49152 1 49152, 0, []⟩

def onePage : Env where
  bufferMap := fun _ handle => if handle = 0 then none else some ⟨0x400000, 0x1000, by decide⟩
  bufferMap_zero := fun _ => rfl
  bufferInfo := fun _ _ => true
  random := fun _ => 0
  timerSet := fun _ => true
  memory := fun _ _ => 0

/-- **One command drives the daemon out of its buffer**: right after start-up, a client
asks to send `2^64 - 8` bytes to an IPv6 address in a one-page buffer, and the copy
starts at the buffer's seventeenth byte. -/
theorem udp_send_escapes : ∃ w w', boot onePage freshWorld = (.ok (), w) ∧
    command onePage ⟨tagUdpSend, (7, 0xFFFFFFFFFFFFFFF8, ipv6Word, 0), 9⟩ w =
      (.error (.client 0x400010 0xFFFFFFFFFFFFFFF8), w') := by
  obtain ⟨⟨⟩, w, hboot, hquiet⟩ := wp_iff_ok.mp (sends_boot (w := freshWorld) onePage)
  have htable : w.stack.mappings = fun _ => ⟨0, .none⟩ := congrArg View.mappings hquiet.view
  obtain ⟨_, _, hmap, rfl⟩ := wp_iff_ok.mp
    (runs_mapping_of_empty onePage (by decide : (7 : UInt64) ≠ 0) htable (fun _ => rfl)
      fun _ => rfl)
  have hfault := faults_command onePage (a := .tick) (T := True)
    (m := ⟨tagUdpSend, (7, 0xFFFFFFFFFFFFFFF8, ipv6Word, 0), 9⟩) rfl rfl (by decide) hmap
    (by decide)
  unfold Wp at hfault
  split at hfault
  · exact hfault.elim
  rename_i e w' hrun
  refine ⟨w, w', hboot, ?_⟩
  rw [hrun, hfault.1]
  rfl

/-- **Client commands stay in bounds, with one exception.**  From any state of the
daemon, whatever the kernel answers and the clients' memory holds, handling a command
touches client memory only inside mapped buffers and local arrays only inside
themselves, exactly when the command is not a `UDP_SEND` that wraps. -/
theorem command_in_bounds_iff (w : World) (m : Message) :
    (∃ w', command env m w = (.ok (), w')) ↔ ¬ Wraps env w m := by
  constructor
  · rintro ⟨w', hok⟩
    exact not_wraps_of_ok env hok
  · intro h
    obtain ⟨⟨⟩, w', hok, -⟩ := wp_iff_ok.mp (handles_command (T := True) env h)
    exact ⟨w', hok⟩

/-- The same send with a length that does not wrap is handled. -/
theorem command_in_bounds_iff_short :
    ∃ w', command onePage ⟨tagUdpSend, (7, 8, ipv6Word, 0), 9⟩ freshWorld = (.ok (), w') :=
  (command_in_bounds_iff onePage freshWorld _).mpr fun h => absurd h.2.2.1 (by decide)

end Panda.Net
