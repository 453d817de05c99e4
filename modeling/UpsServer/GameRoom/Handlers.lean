import UpsServer.GameRoom.Identities

open Outcome

namespace UpsServer.Game

/-- The same clients are online, and the pause and what was reported of it are
the same. -/
structure Calm (g g' : Game) : Prop where
  isPaused : g'.isPaused = g.isPaused
  gameOutput : g'.gameOutput = g.gameOutput
  epoll : g'.epoll = g.epoll
  clients : ∀ ref,
    (g'.player ref).client.map (·.identity) = (g.player ref).client.map (·.identity)

/-- A property that depends only on who is online and on the pause, and that the
drop of a player keeps. -/
structure KeptByHandlers (P : Game → Prop) : Prop where
  calm : ∀ g g', Calm g g' → P g → P g'
  drop : ∀ g ref client, (g.player ref).client = some client → P g →
    P (g.onClientDisconnect client.clientFd)

section Calm

variable {g g' : Game}

theorem Calm.trans {g'' : Game} (h : Calm g g') (h' : Calm g' g'') : Calm g g'' :=
  ⟨h'.isPaused.trans h.isPaused, h'.gameOutput.trans h.gameOutput, h'.epoll.trans h.epoll,
    fun ref => (h'.clients ref).trans (h.clients ref)⟩

/-- Whoever is online was there before, as the same client. -/
theorem Calm.exists_client (h : Calm g g') {ref : PlayerRef} {client' : ProtocolClient}
    (hclient' : (g'.player ref).client = some client') :
    ∃ client, (g.player ref).client = some client ∧ client.identity = client'.identity := by
  have hsame := h.clients ref
  rw [hclient', Option.map_some, eq_comm] at hsame
  exact Option.map_eq_some_iff.mp hsame

/-- A client may be updated as long as he stays the same one. -/
theorem calm_modifyClient (g : Game) (ref : PlayerRef) {f : ProtocolClient → ProtocolClient}
    (hf : ∀ client, (g.player ref).client = some client →
      (f client).identity = client.identity) : Calm g (g.modifyClient ref f) :=
  ⟨isPaused_modifyPlayer _ _ _, gameOutput_modifyPlayer _ _ _, epoll_modifyPlayer _ _ _,
    map_client_modifyClient _ g ref hf⟩

theorem calm_sendMsg (g : Game) (ref : PlayerRef) (msg : ProtocolData) :
    Calm g (g.modifyClient ref (·.sendMsg msg)) :=
  calm_modifyClient g ref fun _ _ => rfl

/-- The time when a player was seen is no matter of who is online. -/
theorem calm_setLastSeen (g : Game) (ref : PlayerRef) (now : UInt64) :
    Calm g (g.modifyPlayer ref fun p => { p with lastSeen := now }) :=
  ⟨isPaused_modifyPlayer _ _ _, gameOutput_modifyPlayer _ _ _, epoll_modifyPlayer _ _ _,
    map_client_modifyPlayer g ref _ _ rfl⟩

/-- A move concerns the boards and the turn only. -/
theorem calm_addMove (g : Game) (move : Move) : Calm g (g.addMove move) := by
  obtain ⟨mover, _, _⟩ := move
  cases mover <;> exact ⟨rfl, rfl, rfl, fun ref => by cases ref <;> rfl⟩

/-- So does the clearing of a lost round. -/
theorem calm_clearGame (g : Game) : Calm g g.clearGame :=
  ⟨rfl, rfl, rfl, fun ref => by cases ref <;> rfl⟩

theorem calm_stop (g : Game) : Calm g { g with isRunning := false } :=
  ⟨rfl, rfl, rfl, fun ref => by cases ref <;> rfl⟩

end Calm

namespace KeptByHandlers

variable {P : Game → Prop} (hP : KeptByHandlers P) {g : Game} (h : P g)
include hP h

/-- A denial sends a message, or drops the client who was denied too often. -/
theorem denyRequest (clientFd : Int) : Ends P (g.denyRequest clientFd) := by
  refine (reads_derefClient g clientFd).bind_ends h fun ref _ => ?_
  refine (reads_clientOf g ref).bind_ends h fun client hclient => ?_
  split
  · exact hP.drop g ref client (clientOf_eq_ok.mp hclient) h
  · exact hP.calm _ _ (calm_modifyClient g ref fun _ _ => rfl) h

theorem sendMsg (ref : PlayerRef) (msg : ProtocolData) : Ends P (g.sendMsg ref msg) :=
  (reads_clientOf g ref).bind_ends h fun _ _ => hP.calm _ _ (calm_sendMsg g ref msg) h

/-- A player who has been silent for too long is dropped like any other. -/
theorem checkInactivity (ref silent : PlayerRef) : P (g.checkInactivity ref silent) := by
  unfold Game.checkInactivity
  split
  · split
    · rename_i client hclient
      exact hP.drop g silent client hclient h
    · exact h
  · exact h

/-- The sender is seen, and then both players are checked for inactivity. -/
theorem updateClientLastSeen (clientFd : Int) (now : UInt64) :
    Ends P (g.updateClientLastSeen clientFd now) := by
  refine (reads_derefClient g clientFd).bind_ends h fun _ _ => ?_
  refine (reads_getPlayer g clientFd).bind_ends h fun ref _ => ?_
  have hseen := hP.calm _ _ (calm_setLastSeen g ref now) h
  exact hP.checkInactivity (hP.checkInactivity hseen ref .player1) ref .player2

/-- A move is shown to both players, and a lost round is cleared. -/
theorem playMove (move : Move) : Ends P (g.playMove move) := by
  have hadd := hP.calm _ _ (calm_addMove g move) h
  refine (reads_moveData _ move _).bind_ends hadd fun gameData _ => ?_
  refine (hP.sendMsg hadd .player1 _).bind (fun _ h => h) fun g₁ _ h₁ => ?_
  refine (hP.sendMsg h₁ .player2 _).bind (fun _ h => h) fun g₂ _ h₂ => ?_
  split
  · exact hP.calm _ _ (calm_clearGame g₂) h₂
  · exact h₂

/-- Each branch of the switch denies, moves, stops or sends a ping. -/
theorem answerMessage (msg : ProtocolData) (clientFd : Int) :
    Ends P (g.answerMessage msg clientFd) := by
  unfold Game.answerMessage
  split
  · refine (reads_derefClient g clientFd).bind_ends h fun _ _ => ?_
    refine (reads_readMove g msg clientFd).bind_ends h fun move _ => ?_
    cases move with
    | none => exact hP.denyRequest h clientFd
    | some move => exact hP.playMove h move
  · exact hP.calm _ _ (calm_stop g) h
  · exact (reads_derefClient g clientFd).bind_ends h fun ref _ => hP.sendMsg h ref _
  · exact hP.denyRequest h clientFd

/-- A message is answered, and its sender is seen. -/
theorem processClientMessage (msg : ProtocolData) (clientFd : Int) (now : UInt64) :
    Ends P (g.processClientMessage msg clientFd now) :=
  (hP.answerMessage h msg clientFd).bind (fun _ h => h) fun _ _ h' =>
    hP.updateClientLastSeen h' clientFd now

/-- Both players are shown the game and seen. -/
theorem greetPlayers (now1 now2 : UInt64) : Ends P (g.greetPlayers now1 now2) := by
  unfold Game.greetPlayers
  refine (hP.sendMsg h .player1 _).bind (fun _ h => h) fun g₁ _ h₁ => ?_
  refine (reads_clientOf g₁ .player1).bind_ends h₁ fun _ _ => ?_
  refine (hP.updateClientLastSeen h₁ _ now1).bind (fun _ h => h) fun g₂ _ h₂ => ?_
  refine (hP.sendMsg h₂ .player2 _).bind (fun _ h => h) fun g₃ _ h₃ => ?_
  refine (reads_clientOf g₃ .player2).bind_ends h₃ fun _ _ => ?_
  exact hP.updateClientLastSeen h₃ _ now2

/-- A read updates the parser, or drops the client when it fails. -/
theorem receiveMessages {clientFd : Int} {received : Option Str} {messages : List ProtocolData}
    {g' : Game} (hreceive : g.receiveMessages clientFd received = .ok (messages, g')) : P g' := by
  obtain ⟨ref, client, hclient, rfl | ⟨parser, rfl⟩⟩ := receiveMessages_eq_ok hreceive
  · exact hP.drop g ref client hclient h
  · refine hP.calm _ _ (calm_modifyClient g ref fun client' hclient' => ?_) h
    cases hclient.symm.trans hclient'
    rfl

end KeptByHandlers

end UpsServer.Game
