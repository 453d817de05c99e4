import Mathlib.Data.Multiset.AddSub
import UpsServer.GameRoom.Game
import UpsServer.Lib.Outcome

open Outcome

namespace UpsServer.Game

/-- The descriptors of the clients who are players. -/
def playerFds (g : Game) : Multiset Int :=
  (g.player1.client.map (·.clientFd)).elim 0 ({·}) +
    (g.player2.client.map (·.clientFd)).elim 0 ({·})

/-- The descriptors in terms of one of the players. -/
theorem playerFds_eq (g : Game) (ref : PlayerRef) :
    g.playerFds = ((g.player ref).client.map (·.clientFd)).elim 0 ({·}) +
      ((g.player ref.other).client.map (·.clientFd)).elim 0 ({·}) := by
  cases ref with
  | player1 => rfl
  | player2 => exact add_comm _ _

/-- The descriptors of the players are those of the clients in their places. -/
theorem mem_playerFds {g : Game} {clientFd : Int} : clientFd ∈ g.playerFds ↔
    ∃ ref client, (g.player ref).client = some client ∧ client.clientFd = clientFd := by
  have hslot : ∀ slot : Option ProtocolClient,
      clientFd ∈ (slot.map (·.clientFd)).elim (0 : Multiset Int) ({·}) ↔
        ∃ client, slot = some client ∧ client.clientFd = clientFd := by
    intro slot
    cases slot with
    | none => simp
    | some client => simp [eq_comm]
  rw [playerFds, Multiset.mem_add, hslot, hslot]
  constructor
  · rintro (hone | htwo)
    · exact ⟨.player1, hone⟩
    · exact ⟨.player2, htwo⟩
  · rintro ⟨ref, hclient⟩
    cases ref with
    | player1 => exact .inl hclient
    | player2 => exact .inr hclient

/-- The graphs of the players and the turn. -/
def board (g : Game) :
    GameGraph GameGraph.GAME_NODE_NUM × GameGraph GameGraph.GAME_NODE_NUM × Bool :=
  (g.player1.myGraph, g.player2.myGraph, g.isPlayerOneTurn)

/-- What the handlers do to the clients of a game: they send messages to
players and drop some, whose sockets are closed. -/
structure Kept (g g' : Game) : Prop where
  input : g'.gameInput = g.gameInput
  outputEvfd : g'.gameOutput.evfd = g.gameOutput.evfd
  output : ∃ k, g'.gameOutput.data = g.gameOutput.data ++ List.replicate k { newState := .PAUSED }
  sockets : g'.playerFds + g'.closedSockets = g.playerFds + g.closedSockets
  closed : g.closedSockets <+: g'.closedSockets
  players : ∀ ref client', (g'.player ref).client = some client' →
    ∃ client, (g.player ref).client = some client ∧ client'.clientFd = client.clientFd ∧
      client'.clientName = client.clientName
  running : g'.isRunning = true → g.isRunning = true
  monitoredFds : g'.epoll.monitoredFds = g.epoll.monitoredFds

/-- A handler that also leaves the board alone. -/
structure Quiet (g g' : Game) : Prop extends Kept g g' where
  board : g'.board = g.board

theorem Kept.refl (g : Game) : Kept g g :=
  ⟨rfl, rfl, ⟨0, by simp⟩, rfl, List.prefix_rfl, fun _ client h => ⟨client, h, rfl, rfl⟩, id, rfl⟩

/-- Pauses that are reported one after another. -/
theorem exists_pauses_trans {data data' data'' : List GameStateChange}
    (h : ∃ k, data' = data ++ List.replicate k { newState := .PAUSED })
    (h' : ∃ k, data'' = data' ++ List.replicate k { newState := .PAUSED }) :
    ∃ k, data'' = data ++ List.replicate k { newState := .PAUSED } := by
  obtain ⟨k, rfl⟩ := h
  obtain ⟨k', rfl⟩ := h'
  exact ⟨k + k', by rw [List.append_assoc, List.replicate_append_replicate]⟩

/-- One handler may call another. -/
theorem Kept.trans {g g' g'' : Game} (h : Kept g g') (h' : Kept g' g'') : Kept g g'' where
  input := h'.input.trans h.input
  outputEvfd := h'.outputEvfd.trans h.outputEvfd
  output := exists_pauses_trans h.output h'.output
  sockets := h'.sockets.trans h.sockets
  closed := h.closed.trans h'.closed
  players := by
    intro ref client'' hclient''
    obtain ⟨client', hclient', hfd', hname'⟩ := h'.players ref client'' hclient''
    obtain ⟨client, hclient, hfd, hname⟩ := h.players ref client' hclient'
    exact ⟨client, hclient, hfd'.trans hfd, hname'.trans hname⟩
  running := h.running ∘ h'.running
  monitoredFds := h'.monitoredFds.trans h.monitoredFds

theorem Quiet.refl (g : Game) : Quiet g g := ⟨.refl g, rfl⟩

theorem Quiet.trans {g g' g'' : Game} (h : Quiet g g') (h' : Quiet g' g'') : Quiet g g'' :=
  ⟨h.toKept.trans h'.toKept, h'.board.trans h.board⟩

/-- Updating a client in place, without touching who he is. -/
theorem quiet_modifyClient (g : Game) (ref : PlayerRef) {f : ProtocolClient → ProtocolClient}
    (hf : ∀ client, (g.player ref).client = some client →
      (f client).clientFd = client.clientFd ∧ (f client).clientName = client.clientName) :
    Quiet g (g.modifyClient ref f) where
  input := by simp [modifyClient]
  outputEvfd := by simp [modifyClient]
  output := ⟨0, by simp [modifyClient]⟩
  sockets := by
    rw [playerFds_eq _ ref, playerFds_eq _ ref]
    cases hclient : (g.player ref).client with
    | none => simp [modifyClient, hclient]
    | some client => simp [modifyClient, hclient, (hf client hclient).1]
  closed := by simp [modifyClient]
  players := by
    intro ref' client' hclient'
    rw [modifyClient, player_modifyPlayer] at hclient'
    split at hclient'
    · rename_i href
      subst href
      obtain ⟨client, hclient, rfl⟩ := Option.map_eq_some_iff.mp hclient'
      exact ⟨client, hclient, hf client hclient⟩
    · exact ⟨client', hclient', rfl, rfl⟩
  running := by simp [modifyClient]
  monitoredFds := by simp [modifyClient]
  board := by cases ref <;> rfl

/-- A client who is dropped has his socket closed. -/
theorem quiet_dropClient (g : Game) (ref : PlayerRef) (clientFd : Int) :
    Quiet g (g.dropClient ref clientFd) := by
  unfold dropClient
  split
  · rename_i hclient
    simp only [Player.hasClient, Option.any_eq_true, beq_iff_eq] at hclient
    obtain ⟨client, hclient, rfl⟩ := hclient
    refine ⟨⟨by simp [closeSocket], by simp [closeSocket], ⟨0, by simp [closeSocket]⟩, ?_,
      by simp [closeSocket], ?_, ?_, ?_⟩, ?_⟩
    · rw [playerFds_eq _ ref, playerFds_eq _ ref]
      simp only [player_modifyPlayer_self, player_modifyPlayer_other, closedSockets_modifyPlayer,
        closeSocket, hclient, Option.map_none, Option.map_some, Option.elim, ← Multiset.coe_add,
        Multiset.coe_singleton]
      ac_rfl
    · intro ref' client' hclient'
      rw [player_modifyPlayer, player_closeSocket, player_closeSocket] at hclient'
      split at hclient'
      · cases hclient'
      · exact ⟨client', hclient', rfl, rfl⟩
    · simp [closeSocket]
    · simp [closeSocket, Epoll.kernelClose]
    · cases ref <;> rfl
  · exact .refl g

theorem quiet_sendGameState (g : Game) (ref : PlayerRef) : Quiet g (g.sendGameState ref) :=
  quiet_modifyClient g ref fun _ _ => ⟨rfl, rfl⟩

theorem quiet_stop (g : Game) : Quiet g { g with isRunning := false } :=
  ⟨⟨rfl, rfl, ⟨0, by simp⟩, rfl, List.prefix_rfl,
    fun ref client h => ⟨client, by cases ref <;> exact h, rfl, rfl⟩, by simp, rfl⟩, rfl⟩

/-- A pause is reported to the idle room. -/
theorem quiet_pause (g : Game) :
    Quiet g { g with gameOutput := g.gameOutput.push { newState := .PAUSED }, isPaused := true } :=
  ⟨⟨rfl, rfl, ⟨1, rfl⟩, rfl, List.prefix_rfl,
    fun ref client h => ⟨client, by cases ref <;> exact h, rfl, rfl⟩, id, rfl⟩, rfl⟩

/-- A player leaves, the game is paused, and the other player is told. -/
theorem quiet_onClientDisconnect (g : Game) (clientFd : Int) :
    Quiet g (g.onClientDisconnect clientFd) := by
  have hdrop := (quiet_dropClient g .player1 clientFd).trans (quiet_dropClient _ .player2 clientFd)
  unfold onClientDisconnect
  simp only
  split
  · exact hdrop.trans (quiet_stop _)
  · exact ((hdrop.trans (quiet_pause _)).trans (quiet_sendGameState _ .player1)).trans
      (quiet_sendGameState _ .player2)

/-- The client found under a descriptor has it. -/
theorem findPlayer_eq_some {g : Game} {clientFd : Int} {ref : PlayerRef}
    (h : g.findPlayer clientFd = some ref) :
    ∃ client, (g.player ref).client = some client ∧ client.clientFd = clientFd := by
  unfold findPlayer at h
  simp only [Player.hasClient, Option.any_eq_true, beq_iff_eq] at h
  split at h
  · rename_i hclient
    cases h
    exact hclient
  · split at h
    · rename_i hclient
      cases h
      exact hclient
    · cases h

theorem clientOf_eq_ok {g : Game} {ref : PlayerRef} {client : ProtocolClient} :
    g.clientOf ref = .ok client ↔ (g.player ref).client = some client := by
  unfold clientOf
  cases (g.player ref).client <;> simp

theorem getPlayer_eq_ok {g : Game} {clientFd : Int} {ref : PlayerRef} :
    g.getPlayer clientFd = .ok ref ↔ g.findPlayer clientFd = some ref := by
  unfold getPlayer
  cases g.findPlayer clientFd <;> simp

theorem derefClient_eq_ok {g : Game} {clientFd : Int} {ref : PlayerRef} :
    g.derefClient clientFd = .ok ref ↔ g.findPlayer clientFd = some ref := by
  unfold derefClient
  cases g.findPlayer clientFd <;> simp

theorem reads_clientOf (g : Game) (ref : PlayerRef) : Reads g (g.clientOf ref) := by
  unfold clientOf
  split <;> simp

theorem reads_getPlayer (g : Game) (clientFd : Int) : Reads g (g.getPlayer clientFd) := by
  unfold getPlayer
  split <;> simp

theorem reads_derefClient (g : Game) (clientFd : Int) : Reads g (g.derefClient clientFd) := by
  unfold derefClient
  split <;> simp

theorem reads_withState {α : Type} (g : Game) (x : Except Fault α) : Reads g (withState g x) := by
  cases x <;> simp

/-- The checks of a command change nothing. -/
theorem reads_isNotOnTurn (g : Game) (clientFd : Int) : Reads g (g.isNotOnTurn clientFd) :=
  (reads_clientOf g _).bind fun _ _ => reads_pure

/-- An edge is looked up in both graphs. -/
theorem reads_checkEdge (g : Game) (ref : PlayerRef) (edge : Str) :
    Reads g (g.checkEdge ref edge) := by
  refine (reads_withState g _).bind fun nodes _ => ?_
  split
  · exact reads_pure
  split
  · exact reads_pure
  refine (reads_withState g _).bind fun _ _ => ?_
  split
  · exact reads_pure
  refine (reads_withState g _).bind fun _ _ => ?_
  split <;> exact reads_pure

/-- The checks of a command change nothing. -/
theorem reads_readMove (g : Game) (msg : ProtocolData) (clientFd : Int) :
    Reads g (g.readMove msg clientFd) := by
  unfold readMove
  split
  · exact reads_pure
  refine (reads_getPlayer g clientFd).bind fun ref _ =>
    (reads_isNotOnTurn g clientFd).bind fun notOnTurn _ => ?_
  split
  · exact reads_pure
  split
  · exact reads_pure
  exact (reads_withState g _).bind fun edge _ => reads_checkEdge g ref edge

/-- A denial is sent, or drops the client who was denied too often. -/
theorem quiet_denyRequest (g : Game) (clientFd : Int) :
    Ends (Quiet g) (g.denyRequest clientFd) := by
  refine (reads_derefClient g clientFd).bind_ends (.refl g) fun ref _ => ?_
  refine (reads_clientOf g ref).bind_ends (.refl g) fun client _ => ?_
  split
  · exact quiet_onClientDisconnect g _
  · exact quiet_modifyClient g ref fun _ _ => ⟨rfl, rfl⟩

/-- A message to a player. -/
theorem quiet_sendMsg (g : Game) (ref : PlayerRef) (msg : ProtocolData) :
    Ends (Quiet g) (g.sendMsg ref msg) :=
  (reads_clientOf g ref).bind_ends (.refl g) fun _ _ =>
    quiet_modifyClient g ref fun _ _ => ⟨rfl, rfl⟩

/-- A ping is returned to its sender. -/
theorem quiet_clientPing (g : Game) (clientFd : Int) : Ends (Quiet g) (g.clientPing clientFd) :=
  (reads_derefClient g clientFd).bind_ends (.refl g) fun ref _ => quiet_sendMsg g ref _

/-- A player who has been silent for too long is dropped. -/
theorem quiet_checkInactivity (g : Game) (ref silent : PlayerRef) :
    Quiet g (g.checkInactivity ref silent) := by
  unfold checkInactivity
  split
  · split
    · exact quiet_onClientDisconnect g _
    · exact .refl g
  · exact .refl g

/-- The time when a player was seen is not part of the board. -/
theorem quiet_setLastSeen (g : Game) (ref : PlayerRef) (now : UInt64) :
    Quiet g (g.modifyPlayer ref fun p => { p with lastSeen := now }) where
  input := by simp
  outputEvfd := by simp
  output := ⟨0, by simp⟩
  sockets := by cases ref <;> rfl
  closed := by simp
  players := by
    intro ref' client' hclient'
    rw [player_modifyPlayer] at hclient'
    split at hclient'
    · rename_i href
      subst href
      exact ⟨client', hclient', rfl, rfl⟩
    · exact ⟨client', hclient', rfl, rfl⟩
  running := by simp
  monitoredFds := by simp
  board := by cases ref <;> rfl

/-- The sender is seen, and both players are checked for inactivity. -/
theorem quiet_updateClientLastSeen (g : Game) (clientFd : Int) (now : UInt64) :
    Ends (Quiet g) (g.updateClientLastSeen clientFd now) := by
  refine (reads_derefClient g clientFd).bind_ends (.refl g) fun _ _ => ?_
  refine (reads_getPlayer g clientFd).bind_ends (.refl g) fun ref _ => ?_
  exact ((quiet_setLastSeen g ref now).trans (quiet_checkInactivity _ ref .player1)).trans
    (quiet_checkInactivity _ ref .player2)

/-- The state that is sent after a move is only read off the game. -/
theorem reads_moveData (g : Game) (move : Move) (playerLost : Bool) :
    Reads g (g.moveData move playerLost) := by
  unfold moveData
  split
  · refine Reads.bind ?_ fun _ _ => reads_pure
    refine (reads_clientOf g _).bind fun _ _ => (reads_clientOf g _).bind fun _ _ => ?_
    split
    · exact reads_clientOf g _
    · exact reads_pure
  · exact reads_pure

/-- A move changes boards and the turn, and no clients. -/
theorem kept_addMove (g : Game) (move : Move) : Kept g (g.addMove move) where
  input := by simp [addMove]
  outputEvfd := by simp [addMove]
  output := ⟨0, by simp [addMove]⟩
  sockets := by
    obtain ⟨ref, _, _⟩ := move
    cases ref <;> rfl
  closed := by simp [addMove]
  players := by
    intro ref client hclient
    refine ⟨client, ?_, rfl, rfl⟩
    obtain ⟨mover, _, _⟩ := move
    cases mover <;> cases ref <;> exact hclient
  running := by simp [addMove]
  monitoredFds := by simp [addMove]

private theorem kept_clearGame (g : Game) : Kept g g.clearGame :=
  ⟨rfl, rfl, ⟨0, by simp [clearGame]⟩, rfl, List.prefix_rfl,
    fun ref client h => ⟨client, by cases ref <;> exact h, rfl, rfl⟩, id, rfl⟩

/-- A move touches the clients no more than any other message. -/
theorem kept_playMove (g : Game) (move : Move) : Ends (Kept g) (g.playMove move) := by
  have hadd := kept_addMove g move
  refine (reads_moveData _ move _).bind_ends hadd fun gameData _ => ?_
  refine ((quiet_sendMsg _ .player1 _).mono fun _ h => hadd.trans h.toKept).bind
    (fun _ h => h) fun g' _ h => ?_
  refine ((quiet_sendMsg g' .player2 _).mono fun _ h' => h.trans h'.toKept).bind
    (fun _ h => h) fun g'' _ h => ?_
  split
  · exact h.trans (kept_clearGame g'')
  · exact h

/-- A command is denied or plays its move. -/
theorem kept_processGameCommand (g : Game) (msg : ProtocolData) (clientFd : Int) :
    Ends (Kept g) (g.processGameCommand msg clientFd) := by
  refine (reads_derefClient g clientFd).bind_ends (.refl g) fun _ _ => ?_
  refine (reads_readMove g msg clientFd).bind_ends (.refl g) fun move _ => ?_
  cases move with
  | none => exact (quiet_denyRequest g clientFd).mono fun _ h => h.toKept
  | some move => exact kept_playMove g move

/-- Each branch of the switch, with the clients in mind. -/
theorem kept_answerMessage (g : Game) (msg : ProtocolData) (clientFd : Int) :
    Ends (Kept g) (g.answerMessage msg clientFd) := by
  unfold answerMessage
  split
  · exact kept_processGameCommand g msg clientFd
  · exact (quiet_stop g).toKept
  · exact (quiet_clientPing g clientFd).mono fun _ h => h.toKept
  · exact (quiet_denyRequest g clientFd).mono fun _ h => h.toKept

/-- A message is answered, and its sender is seen. -/
theorem kept_processClientMessage (g : Game) (msg : ProtocolData) (clientFd : Int) (now : UInt64) :
    Ends (Kept g) (g.processClientMessage msg clientFd now) :=
  (kept_answerMessage g msg clientFd).bind (fun _ h => h) fun g' _ h =>
    (quiet_updateClientLastSeen g' clientFd now).mono fun _ h' => h.trans h'.toKept

/-- Only commands can change the board. -/
theorem quiet_answerMessage (g : Game) {msg : ProtocolData} (clientFd : Int)
    (h : msg.method ≠ .GAME_COMMAND) : Ends (Quiet g) (g.answerMessage msg clientFd) := by
  unfold answerMessage
  split
  · exact (h ‹_›).elim
  · exact quiet_stop g
  · exact quiet_clientPing g clientFd
  · exact quiet_denyRequest g clientFd

theorem reads_receiveMessages (g : Game) (clientFd : Int) (received : Option Str) :
    Reads g (g.receiveMessages clientFd received) := by
  refine (reads_getPlayer g clientFd).bind fun ref _ =>
    (reads_clientOf g ref).bind fun client _ => ?_
  split <;> exact reads_pure

/-- A read drops the client, or leaves his parser with what is left of it. -/
theorem receiveMessages_eq_ok {g g' : Game} {clientFd : Int} {received : Option Str}
    {messages : List ProtocolData} (h : g.receiveMessages clientFd received = .ok (messages, g')) :
    ∃ ref client, (g.player ref).client = some client ∧
      (g' = g.onClientDisconnect client.clientFd ∨
        ∃ parser, g' = g.modifyClient ref fun _ => { client with parser := parser }) := by
  obtain ⟨ref, _, h⟩ := bind_eq_ok.mp h
  obtain ⟨client, hclient, h⟩ := bind_eq_ok.mp h
  rw [clientOf_eq_ok] at hclient
  refine ⟨ref, client, hclient, ?_⟩
  split at h
  · cases h
    exact .inl rfl
  · rename_i client' hreceive
    cases h
    obtain ⟨parser, rfl⟩ := ProtocolClient.receiveMsg_eq_ok hreceive
    exact .inr ⟨parser, rfl⟩

/-- What is read does not reach the board yet. -/
theorem quiet_receiveMessages {g g' : Game} {clientFd : Int} {received : Option Str}
    {messages : List ProtocolData} (h : g.receiveMessages clientFd received = .ok (messages, g')) :
    Quiet g g' := by
  obtain ⟨ref, client, hclient, rfl | ⟨parser, rfl⟩⟩ := receiveMessages_eq_ok h
  · exact quiet_onClientDisconnect g _
  · refine quiet_modifyClient g ref fun client' hclient' => ?_
    cases hclient.symm.trans hclient'
    exact ⟨rfl, rfl⟩

end UpsServer.Game
