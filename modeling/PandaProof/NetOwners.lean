import PandaProof.NetPeers

/-!
# Only the owner uses a connection

A command names a connection by a word that the same message uses for other things under
other tags, and looking for a buffer may give up a mapping on the way.  None of it reaches
a connection of somebody else: every act a command can consist of leaves the connections
alone that are in use and not the sender's, and every segment that goes out meanwhile is for
a connection of the sender's.
-/
namespace Panda.Net

/-- Between the two views nothing was done to, or for, a connection in use whose owner is
not `sender`. -/
structure SparesOthers (sender : UInt64) (v v' : View) : Prop where
  kept : ∀ i, (v.connections i).state ≠ .free → (v.connections i).owner ≠ sender →
    v'.connections i = v.connections i
  sent : ∃ es, v'.log = es ++ v.log ∧ OnlyFor (fun c => c.owner = sender) es

variable {sender : UInt64} {v v' v'' : View}

theorem SparesOthers.refl : SparesOthers sender v v := ⟨fun _ _ _ => rfl, [], rfl, onlyFor_nil⟩

theorem SparesOthers.trans (h : SparesOthers sender v v') (h' : SparesOthers sender v' v'') :
    SparesOthers sender v v'' where
  kept := fun i hlive howner => by
    have hsame := h.kept i hlive howner
    rw [← hsame] at hlive howner ⊢
    exact h'.kept i hlive howner
  sent := by
    obtain ⟨es, hlog, hes⟩ := h.sent
    obtain ⟨es', hlog', hes'⟩ := h'.sent
    exact ⟨es' ++ es, by rw [hlog', hlog, List.append_assoc], onlyFor_append.mpr ⟨hes', hes⟩⟩

/-- Acts that leave connections and log alone. -/
theorem sparesOthers_of_eq (hconnections : v'.connections = v.connections) (hlog : v'.log = v.log) :
    SparesOthers sender v v' := ⟨fun i _ _ => congrFun hconnections i, [], hlog, onlyFor_nil⟩

/-- A turn of a free slot, or of a connection of the sender's, with segments for a
connection of the sender's only. -/
theorem sparesOthers_turn {i : Fin 8} {r : Connection × List Event}
    (hi : (v.connections i).state = .free ∨ (v.connections i).owner = sender)
    (hsent : OnlyFor (fun c => c.owner = sender) r.2) : SparesOthers sender v (v.turn i r) where
  kept := fun j hlive howner => by
    refine View.turn_connections_of_ne v r ?_
    rintro rfl
    exact hi.elim hlive howner
  sent := ⟨r.2.reverse, rfl, fun e he => hsent e (List.mem_reverse.mp he)⟩

theorem onlyFor_closeTurn {i : Fin 8} {c : Connection} (h : c.owner = sender) :
    OnlyFor (fun c => c.owner = sender) (closeTurn i c).2 := by
  have hreset : OnlyFor (fun c => c.owner = sender)
      (emission c rst ++ [closedMessage i c closedFinished]) :=
    onlyFor_append.mpr ⟨onlyFor_emission.mpr h, onlyFor_message⟩
  have hfin : OnlyFor (fun c => c.owner = sender) (if c.unacknowledged = c.nextSend then
      sentOff (finned c) else (withRequest c true, [])).2 := by
    split
    · exact onlyFor_emission.mpr h
    · exact onlyFor_nil
  unfold closeTurn
  split
  · exact hreset
  · exact hreset
  · exact hfin
  · exact hfin
  · exact onlyFor_nil

/-- **Every act of a command spares the others.** -/
theorem Act.sparesOthers {m : Message} (h : Act (.message m) v v') :
    SparesOthers m.sender v v' := by
  cases h with
  | evict | enter | bind | listen | ask | wait | giveUp => exact sparesOthers_of_eq rfl rfl
  | connect ha _ howner _ _ _ hfree =>
    cases ha
    exact sparesOthers_turn (.inl hfree) (onlyFor_emission.mpr howner)
  | noRoom => exact ⟨fun _ _ _ => rfl, _, rfl, by simp [OnlyFor, Event.For]⟩
  | accept ha | segment ha | turnAway ha | tick ha | answer ha | deliver ha => cases ha
  | send ha hm _ _ | consume ha hm =>
    cases ha
    exact sparesOthers_turn (.inr hm.owner) (onlyFor_emission.mpr hm.owner)
  | refuse ha hm =>
    cases ha
    exact sparesOthers_turn (.inr hm.owner) onlyFor_message
  | close ha hm =>
    cases ha
    exact sparesOthers_turn (.inr hm.owner) (onlyFor_closeTurn hm.owner)

theorem Acts.sparesOthers {m : Message} (h : Acts (.message m) v v') :
    SparesOthers m.sender v v' := by
  induction h with
  | refl => exact .refl
  | tail _ hact ih => exact ih.trans hact.sparesOthers

/-- **Only the owner uses a connection.**  In any state of the daemon, a command of anybody
but its owner leaves a connection exactly as it is, whether the command is handled to its
end or faults, and every TCP segment in a frame that goes out meanwhile was sent for a connection
of the sender's. -/
theorem command_spares_others (env : Env) (w : World) (m : Message) (i : Fin 8)
    (hlive : (w.stack.connections i).state ≠ .free)
    (howner : (w.stack.connections i).owner ≠ m.sender) :
    (command env m w).2.stack.connections i = w.stack.connections i ∧
      ∀ o ∈ sent w (command env m w).2, ∃ c flags, .segment c flags ∈ added w (command env m w).2 ∧
        o = c.outgoing flags ∧ c.owner = m.sender := by
  have hmoves := moves_command (T := True) (w := w) env m
  have hspares := hmoves.acts.sparesOthers
  obtain ⟨_, hlog, hes⟩ := hspares.sent
  exact ⟨hspares.kept i hlive howner, fun o ho => sent_for hmoves.wired hlog hes ho⟩

/-- The client that connected closes its connection, and a FIN goes out; the connection of
client 10 stays as it is. -/
theorem command_spares_others_close : ∃ w, (daemon ownPages).Reachable w ∧
    ((w.stack.connections 1).state ≠ .free ∧ (w.stack.connections 1).owner ≠ closeCommand.sender ∧
      sent w (command ownPages closeCommand w).2 ≠ []) ∧
    (command ownPages closeCommand w).2.stack.connections 1 = w.stack.connections 1 ∧
    ∀ o ∈ sent w (command ownPages closeCommand w).2, ∃ c flags,
      .segment c flags ∈ added w (command ownPages closeCommand w).2 ∧ o = c.outgoing flags ∧
        c.owner = closeCommand.sender := by
  obtain ⟨w, hreaches, hlive, howner, hsent⟩ := (daemon ownPages).exists_reachable
    [.message (connectCommand 2), .frame arpAnswer,
      .message { connectCommand 3 with sender := 10 }, .frame (peerFrame 100 1 0x12 [])]
    (fun w => (w.stack.connections 1).state ≠ .free ∧
      (w.stack.connections 1).owner ≠ closeCommand.sender ∧
      sent w (command ownPages closeCommand w).2 ≠ []) (init_booted ownPages) (by decide +kernel)
  exact ⟨w, hreaches, ⟨hlive, howner, hsent⟩,
    command_spares_others ownPages w closeCommand 1 hlive howner⟩

end Panda.Net
