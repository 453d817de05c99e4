import UpsServer.GameRoom.GameThread

open Outcome

namespace UpsServer.Game

/-- A game whose event loop begins is empty. -/
theorem start_eq_ok {gameInput : EventfdQueue ProtocolClient}
    {gameOutput : EventfdQueue GameStateChange} {g : Game}
    (h : start gameInput gameOutput = .ok g) :
    ∃ epoll, g = { gameInput := gameInput, gameOutput := gameOutput, epoll := epoll } := by
  obtain ⟨epoll, _, h⟩ := bind_eq_ok.mp h
  cases h
  exact ⟨epoll, rfl⟩

private theorem settled_processClientMessage (g : Game) (msg : ProtocolData) (clientFd : Int)
    (now : UInt64) : Ends (Settled g) (g.processClientMessage msg clientFd now) :=
  (kept_processClientMessage g msg clientFd now).mono fun _ h => h.settled

/-- Two players with different descriptors. -/
theorem distinctPlayers_of_nodup {g : Game} (h : g.heldFds.Nodup) {client1 client2 : ProtocolClient}
    (h1 : g.player1.client = some client1) (h2 : g.player2.client = some client2) :
    client1.clientFd ≠ client2.clientFd := by
  have hplayers : g.playerFds.Nodup := Multiset.nodup_of_le (Multiset.le_add_right _ _) h
  intro heq
  simp only [playerFds, h1, h2, heq, Option.map_some, Option.elim] at hplayers
  simp at hplayers

end UpsServer.Game

namespace UpsServer.GameThread

open Game

/-- What holds however a handler ends holds after the step, when stopping keeps
it. -/
theorem of_ends {P : Game → Prop} {g : Game} {x : Exec Game Game} (hx : Ends P x)
    (hstop : ∀ g, P g → P { g with isRunning := false })
    (h : Ends (fun g' => g = g' ∨ g = { g' with isRunning := false }) x) : P g := by
  cases x with
  | ok g' =>
    rcases h with rfl | rfl
    · exact hx
    · exact hstop _ hx
  | error e =>
    rcases h with rfl | rfl
    · exact hx
    · exact hstop _ hx

private theorem settled_stop {g g' : Game} (h : Settled g g') : Settled g { g' with isRunning := false } :=
  h.trans (quiet_stop g').toKept.settled

/-- Until the game is destroyed, its own steps settle. -/
theorem settled_step {t t' : GameThread} {action : GameAction} (hown : action.isOwn = true)
    (hne : action ≠ .destroy) (h : step t action = some t') : Settled t.game t'.game := by
  cases effect_of_step h with
  | deliver => cases hown
  | output _ hown' =>
    rw [hown] at hown'
    cases hown'
  | newClientEvent _ hgame =>
    rw [hgame]
    exact ⟨rfl, List.suffix_rfl, rfl, ⟨0, by simp⟩, rfl, List.prefix_rfl, id⟩
  | handlerDone _ _ hgame | stop _ hgame =>
    rw [hgame]
    exact (Kept.refl _).settled
  | takeNewClient _ _ hresume =>
    exact of_ends ((settled_takeNewClient _ _ _).mono fun _ h => h.1) (fun _ => settled_stop)
      (resume_eq_some hresume)
  | message _ hresume =>
    exact of_ends (settled_processClientMessage _ _ _ _) (fun _ => settled_stop)
      (resume_eq_some hresume)
  | receive hreceive => exact (quiet_receiveMessages hreceive).toKept.settled
  | receiveThrows _ _ _ hgame =>
    rw [hgame]
    exact (quiet_stop _).toKept.settled
  | disconnect _ hgame =>
    rw [hgame]
    exact (quiet_onClientDisconnect _ _).toKept.settled
  | removeDescriptor _ hgame =>
    rw [hgame]
    exact ⟨rfl, List.suffix_rfl, rfl, ⟨0, by simp⟩, rfl, List.prefix_rfl, id⟩
  | destroy => exact (hne rfl).elim

theorem heldFds_destruct (g : Game) :
    g.destruct.heldFds = (g.gameInput.data.map (·.clientFd) : List Int) := by
  simp [destruct, heldFds, playerFds]

/-- Steps other than a delivery add no client. -/
theorem heldFds_step {t t' : GameThread} {action : GameAction} (h : step t action = some t') :
    t'.game.heldFds ≤ t.game.heldFds ∨ ∃ client : ProtocolClient, client.clientFd ∉ t.game.heldFds ∧
      t'.game.heldFds = t.game.heldFds + {client.clientFd} := by
  have hsettled : action.isOwn = true → action ≠ .destroy → t'.game.heldFds ≤ t.game.heldFds :=
    fun hown hne => (settled_step hown hne h).heldFds_le
  cases effect_of_step h with
  | @deliver client hnew _ hgame =>
    refine .inr ⟨client, hnew, ?_⟩
    rw [hgame]
    simp only [heldFds, EventfdQueue.data_push, List.map_append, ← Multiset.coe_add, ← add_assoc]
    rfl
  | output _ _ _ hgame =>
    rw [hgame]
    exact .inl le_rfl
  | handlerDone _ _ hgame =>
    rw [hgame]
    exact .inl le_rfl
  | destroy _ heq =>
    rw [heq]
    exact .inl (heldFds_destruct t.game ▸ Multiset.le_add_left _ _)
  | _ => exact .inl (hsettled rfl fun heq => by cases heq)

/-- No two clients of a game have the same descriptor. -/
theorem nodup_heldFds {t : GameThread} (h : system.Reachable t) : t.game.heldFds.Nodup := by
  refine h.invariant (P := fun t => t.game.heldFds.Nodup) ?_ ?_
  · rintro t ⟨gameInput, gameOutput, hnodup, hstart, _⟩
    obtain ⟨epoll, hgame⟩ := start_eq_ok hstart
    rw [hgame]
    simpa [heldFds, playerFds] using hnodup
  · intro t action t' _ hnodup hstep
    rcases heldFds_step hstep with hle | ⟨client, hnew, heq⟩
    · exact Multiset.nodup_of_le hle hnodup
    · rw [heq, add_comm, Multiset.singleton_add]
      exact Multiset.nodup_cons.mpr ⟨hnew, hnodup⟩

end UpsServer.GameThread
