import UpsServer.GameRoom.Quiet

open Outcome

namespace UpsServer.Game

/-- The descriptors of the clients a game holds or is about to take. -/
def heldFds (g : Game) : Multiset Int :=
  g.playerFds + (g.gameInput.data.map (·.clientFd) : List Int)

/-- What all handlers of a game have in common: clients move from the input to
the players and are dropped, and the idle room hears of pauses only. -/
structure Settled (g g' : Game) : Prop where
  inputEvfd : g'.gameInput.evfd = g.gameInput.evfd
  input : g'.gameInput.data <:+ g.gameInput.data
  outputEvfd : g'.gameOutput.evfd = g.gameOutput.evfd
  output : ∃ k, g'.gameOutput.data = g.gameOutput.data ++ List.replicate k { newState := .PAUSED }
  sockets : g'.heldFds + g'.closedSockets = g.heldFds + g.closedSockets
  closed : g.closedSockets <+: g'.closedSockets
  running : g'.isRunning = true → g.isRunning = true

theorem Kept.settled {g g' : Game} (h : Kept g g') : Settled g g' where
  inputEvfd := by rw [h.input]
  input := by rw [h.input]
  outputEvfd := h.outputEvfd
  output := h.output
  sockets := by rw [heldFds, heldFds, h.input, add_right_comm, h.sockets, add_right_comm]
  closed := h.closed
  running := h.running

theorem Settled.trans {g g' g'' : Game} (h : Settled g g') (h' : Settled g' g'') :
    Settled g g'' where
  inputEvfd := h'.inputEvfd.trans h.inputEvfd
  input := h'.input.trans h.input
  outputEvfd := h'.outputEvfd.trans h.outputEvfd
  output := exists_pauses_trans h.output h'.output
  sockets := h'.sockets.trans h.sockets
  closed := h.closed.trans h'.closed
  running := h.running ∘ h'.running

/-- Handlers never add descriptors. -/
theorem Settled.heldFds_le {g g' : Game} (h : Settled g g') : g'.heldFds ≤ g.heldFds := by
  obtain ⟨dropped, hdropped⟩ := h.closed
  have hsockets := h.sockets
  rw [← hdropped, ← Multiset.coe_add, ← add_assoc, add_right_comm] at hsockets
  rw [← add_right_cancel hsockets]
  exact Multiset.le_add_right _ _

/-- Nor do they add players, unless one arrives. -/
theorem Kept.playerFds_le {g g' : Game} (h : Kept g g') : g'.playerFds ≤ g.playerFds := by
  have hheld := h.settled.heldFds_le
  rw [heldFds, heldFds, h.input] at hheld
  exact le_of_add_le_add_right hheld

theorem freePlayer_eq_some {g : Game} {ref : PlayerRef} (h : g.freePlayer = some ref) :
    (g.player ref).client = none := by
  simp only [freePlayer, playerOneOnline, playerTwoOnline, Bool.not_eq_true',
    Option.isSome_eq_false_iff, Option.isNone_iff_eq_none] at h
  split at h
  · cases h
    assumption
  · split at h
    · cases h
      assumption
    · cases h

theorem playerFds_arrive {g : Game} {ref : PlayerRef} (hfree : g.freePlayer = some ref)
    (client : ProtocolClient) (gameInput : EventfdQueue ProtocolClient) :
    (g.arrive ref client gameInput).playerFds = client.clientFd ::ₘ g.playerFds := by
  have hother : (g.arrive ref client gameInput).player ref.other = g.player ref.other := by
    cases ref <;> rfl
  rw [playerFds_eq _ ref, playerFds_eq g ref, hother, freePlayer_eq_some hfree, arrive,
    player_modifyPlayer_self, Option.map_none, Option.elim_none, zero_add]
  exact Multiset.singleton_add _ _

theorem settled_arrive {g : Game} {ref : PlayerRef} {client : ProtocolClient}
    {gameInput : EventfdQueue ProtocolClient} (hfree : g.freePlayer = some ref)
    (hpop : g.gameInput.pop = some (client, gameInput)) :
    Settled g (g.arrive ref client gameInput) := by
  obtain ⟨data, hdata, rfl⟩ := EventfdQueue.pop_eq_some.mp hpop
  refine ⟨by simp [arrive], by simp [arrive, hdata], by simp [arrive], ⟨0, by simp [arrive]⟩, ?_,
    by simp [arrive],
    by simp [arrive]⟩
  rw [heldFds, heldFds, playerFds_arrive hfree]
  simp only [arrive, gameInput_modifyPlayer, closedSockets_modifyPlayer, hdata, List.map_cons,
    ← Multiset.cons_coe, Multiset.cons_add, Multiset.add_cons]

theorem settled_registerClient (g : Game) (clientFd : Int) :
    Ends (fun g' => Settled g g' ∧ g'.board = g.board) (g.registerClient clientFd) :=
  (reads_withState g _).bind_ends ⟨(Kept.refl g).settled, rfl⟩ fun _ _ =>
    ⟨⟨rfl, List.suffix_rfl, rfl, ⟨0, by simp⟩, rfl, List.prefix_rfl, id⟩, rfl⟩

theorem settled_unpause (g : Game) : Settled g { g with isPaused := false } :=
  ⟨rfl, List.suffix_rfl, rfl, ⟨0, by simp⟩, rfl, List.prefix_rfl, id⟩

/-- Both players are shown the game and are seen. -/
theorem quiet_greetPlayers (g : Game) (now1 now2 : UInt64) :
    Ends (Quiet g) (g.greetPlayers now1 now2) := by
  unfold greetPlayers
  refine (quiet_sendMsg g .player1 _).bind (fun _ h => h) fun g₁ _ h₁ => ?_
  refine (reads_clientOf g₁ .player1).bind_ends h₁ fun _ _ => ?_
  refine ((quiet_updateClientLastSeen g₁ _ now1).mono fun _ h => h₁.trans h).bind
    (fun _ h => h) fun g₂ _ h₂ => ?_
  refine ((quiet_sendMsg g₂ .player2 _).mono fun _ h => h₂.trans h).bind
    (fun _ h => h) fun g₃ _ h₃ => ?_
  refine (reads_clientOf g₃ .player2).bind_ends h₃ fun _ _ => ?_
  exact (quiet_updateClientLastSeen g₃ _ now2).mono fun _ h => h₃.trans h

/-- Arrivals settle and leave the board alone. -/
theorem settled_takeNewClient (g : Game) (now1 now2 : UInt64) :
    Ends (fun g' => Settled g g' ∧ g'.board = g.board) (g.takeNewClient now1 now2) := by
  unfold takeNewClient
  split
  · exact ⟨(Kept.refl g).settled, rfl⟩
  · exact ⟨(Kept.refl g).settled, rfl⟩
  · rename_i ref client gameInput hfree hpop
    have harrive := settled_arrive hfree hpop
    have hboard : (g.arrive ref client gameInput).board = g.board := by cases ref <;> rfl
    refine (settled_registerClient _ client.clientFd).bind
      (fun _ h => ⟨harrive.trans h.1, h.2.trans hboard⟩) fun g' _ hregister => ?_
    have hsettled := harrive.trans hregister.1
    split
    · exact (quiet_greetPlayers _ now1 now2).mono fun _ h =>
        ⟨(hsettled.trans (settled_unpause g')).trans h.toKept.settled,
          h.board.trans (hregister.2.trans hboard)⟩
    · exact ⟨hsettled, hregister.2.trans hboard⟩

end UpsServer.Game
