import UpsServer.GameRoom.View

open Outcome

namespace UpsServer

/-- The data of the game states among messages, in their order. -/
def gameStates (msgs : List ProtocolData) : List (UnorderedMap Str Str) :=
  (msgs.filter (·.method = .GAME_STATE)).map (·.data)

@[simp] theorem gameStates_nil : gameStates [] = [] := rfl

@[simp] theorem gameStates_append (msgs msgs' : List ProtocolData) :
    gameStates (msgs ++ msgs') = gameStates msgs ++ gameStates msgs' := by
  simp [gameStates]

private theorem lastGameState_eq (msgs : List ProtocolData) :
    lastGameState msgs = (gameStates msgs).getLast? := by
  rw [lastGameState, gameStates, List.getLast?_map]

namespace Game

/-- Whoever is online in the place of a player was there before, and has been sent
the game states `shown` since. -/
def SentTo (ref : PlayerRef) (shown : List (UnorderedMap Str Str)) (g g' : Game) : Prop :=
  ∀ client', (g'.player ref).client = some client' →
    ∃ client msgs, (g.player ref).client = some client ∧ client'.sent = client.sent ++ msgs ∧
      gameStates msgs = shown

/-- Both players have been sent the same game states. -/
def Broadcasts (shown : List (UnorderedMap Str Str)) (g g' : Game) : Prop :=
  ∀ ref, SentTo ref shown g g'

/-- Whatever states the players have been sent, both have been sent the same. -/
def SentAlike (g g' : Game) : Prop := ∃ shown, Broadcasts shown g g'

section Broadcast

variable {g g' g'' : Game} {ref ref' : PlayerRef} {shown shown' : List (UnorderedMap Str Str)}

theorem SentTo.trans (h : SentTo ref shown g g') (h' : SentTo ref shown' g' g'') :
    SentTo ref (shown ++ shown') g g'' := by
  intro client'' hclient''
  obtain ⟨client', msgs', hclient', hsent', rfl⟩ := h' client'' hclient''
  obtain ⟨client, msgs, hclient, hsent, rfl⟩ := h client' hclient'
  refine ⟨client, msgs ++ msgs', hclient, ?_, gameStates_append msgs msgs'⟩
  rw [hsent', hsent, List.append_assoc]

theorem Broadcasts.trans (h : Broadcasts shown g g') (h' : Broadcasts shown' g' g'') :
    Broadcasts (shown ++ shown') g g'' := fun ref => (h ref).trans (h' ref)

theorem SentAlike.trans (h : SentAlike g g') (h' : SentAlike g' g'') : SentAlike g g'' := by
  obtain ⟨shown, h⟩ := h
  obtain ⟨shown', h'⟩ := h'
  exact ⟨shown ++ shown', h.trans h'⟩

/-- A change that sends this player nothing. -/
theorem sentTo_of_client (h : (g'.player ref).client = (g.player ref).client) :
    SentTo ref [] g g' :=
  fun client' hclient' => ⟨client', [], h.symm.trans hclient', (List.append_nil _).symm, rfl⟩

private theorem sentTo_of_none (h : (g'.player ref).client = none) : SentTo ref shown g g' := by
  intro client' hclient'
  cases h.symm.trans hclient'

private theorem sentAlike_of_clients (h : ∀ ref, (g'.player ref).client = (g.player ref).client) :
    SentAlike g g' := ⟨[], fun ref => sentTo_of_client (h ref)⟩

theorem SentAlike.refl (g : Game) : SentAlike g g := sentAlike_of_clients fun _ => rfl

private theorem sentTo_modifyClient_of_ne (hne : ref' ≠ ref) (f : ProtocolClient → ProtocolClient) :
    SentTo ref' [] g (g.modifyClient ref f) :=
  sentTo_of_client (by rw [modifyClient, player_modifyPlayer, if_neg hne])

section Send

variable {msg : ProtocolData} {f : ProtocolClient → ProtocolClient}
  (hf : ∀ client, (f client).sent = client.sent ++ [msg])
include hf

private theorem sentTo_modifyClient_self :
    SentTo ref (gameStates [msg]) g (g.modifyClient ref f) := by
  intro client' hclient'
  rw [modifyClient, player_modifyPlayer_self, Option.map_eq_some_iff] at hclient'
  obtain ⟨client, hclient, rfl⟩ := hclient'
  exact ⟨client, [msg], hclient, hf client, rfl⟩

/-- A message that is no game state is seen by one player alone. -/
theorem sentAlike_modifyClient (hmethod : msg.method ≠ .GAME_STATE) :
    SentAlike g (g.modifyClient ref f) := by
  have hnone : gameStates [msg] = [] := by simp [gameStates, hmethod]
  refine ⟨[], fun ref' => ?_⟩
  by_cases hne : ref' = ref
  · subst hne
    exact hnone ▸ sentTo_modifyClient_self hf
  · exact sentTo_modifyClient_of_ne hne f

end Send

private theorem sentTo_setLastSeen (g : Game) (ref ref' : PlayerRef) (now : UInt64) :
    SentTo ref' [] g (g.modifyPlayer ref fun p => { p with lastSeen := now }) := by
  refine sentTo_of_client ?_
  rw [player_modifyPlayer]
  split
  · rename_i href
    rw [href]
  · rfl

private theorem sentTo_state (g : Game) (ref : PlayerRef) (data : UnorderedMap Str Str) :
    SentTo ref [data] g (g.modifyClient ref (·.sendMsg ⟨.GAME_STATE, data⟩)) :=
  @sentTo_modifyClient_self g ref ⟨.GAME_STATE, data⟩ _ fun _ => rfl

/-- One message after the other to both players. -/
theorem broadcasts_showMove (g : Game) (data : UnorderedMap Str Str) :
    Broadcasts [data] g (g.showMove data) := by
  intro ref
  cases ref with
  | player1 =>
    exact (sentTo_state g .player1 data).trans (sentTo_modifyClient_of_ne PlayerRef.noConfusion _)
  | player2 =>
    exact (sentTo_modifyClient_of_ne PlayerRef.noConfusion _).trans (sentTo_state _ .player2 data)

/-- The state message depends on the view only. -/
theorem SameView.serializeGameData_eq (h : SameView g g') :
    g'.serializeGameData = g.serializeGameData := by
  have hfields : g'.stateFields = g.stateFields := by
    have honline : g'.bothPlayersOnline = g.bothPlayersOnline := by
      rw [Bool.eq_iff_iff, bothPlayersOnline_eq_true, bothPlayersOnline_eq_true]
      exact h.online_iff
    have h1 : g'.player1.myGraph = g.player1.myGraph := graph_of_board h.board .player1
    have h2 : g'.player2.myGraph = g.player2.myGraph := graph_of_board h.board .player2
    rw [stateFields, stateFields, honline, h1, h2, h.isPaused, h.nameOf_eq, h.nameOf_eq,
      h.nameOf_eq, onTurn_of_board h.board]
  rw [Game.serializeGameData_eq, Game.serializeGameData_eq, hfields]

private theorem sentAlike_dropClient (g : Game) (ref : PlayerRef) (clientFd : Int) :
    SentAlike g (g.dropClient ref clientFd) := by
  unfold dropClient
  split
  · refine ⟨[], fun ref' => ?_⟩
    by_cases hne : ref' = ref
    · subst hne
      exact sentTo_of_none (by rw [player_modifyPlayer_self])
    · refine sentTo_of_client ?_
      rw [player_modifyPlayer, if_neg hne, player_closeSocket]
  · exact .refl g

/-- The state is serialized anew for the second player, and is the same. -/
theorem sentAlike_sendGameState (g : Game) :
    SentAlike g ((g.sendGameState .player1).sendGameState .player2) := by
  have hview : SameView g (g.sendGameState .player1) :=
    sameView_modifyClient g .player1 fun _ _ => rfl
  have hmove := broadcasts_showMove g g.serializeGameData
  rw [sendGameState, hview.serializeGameData_eq]
  exact ⟨_, hmove⟩

/-- A drop shows the pause to both players alike. -/
theorem sentAlike_onClientDisconnect (g : Game) (clientFd : Int) :
    SentAlike g (g.onClientDisconnect clientFd) := by
  have hdrop := (sentAlike_dropClient g .player1 clientFd).trans
    (sentAlike_dropClient _ .player2 clientFd)
  unfold onClientDisconnect
  simp only
  split
  · exact hdrop.trans (sentAlike_of_clients fun ref => by cases ref <;> rfl)
  · refine (hdrop.trans (sentAlike_of_clients fun ref => ?_)).trans (sentAlike_sendGameState _)
    cases ref <;> rfl

private theorem sentAlike_denyRequest {clientFd : Int} (h : g.denyRequest clientFd = .ok g') :
    SentAlike g g' := by
  obtain ⟨ref, _, h⟩ := bind_eq_ok.mp h
  obtain ⟨client, _, h⟩ := bind_eq_ok.mp h
  split at h
  · cases h
    exact sentAlike_onClientDisconnect g _
  · cases h
    exact sentAlike_modifyClient (f := ProtocolClient.sendReqDeniedMsg) (fun _ => rfl)
      (by simp [newProtocolMessage])

private theorem sentAlike_checkInactivity (g : Game) (ref silent : PlayerRef) :
    SentAlike g (g.checkInactivity ref silent) := by
  unfold checkInactivity
  split
  · split
    · exact sentAlike_onClientDisconnect g _
    · exact .refl g
  · exact .refl g

private theorem sentAlike_updateClientLastSeen {clientFd : Int} {now : UInt64}
    (h : g.updateClientLastSeen clientFd now = .ok g') : SentAlike g g' := by
  obtain ⟨_, _, h⟩ := bind_eq_ok.mp h
  obtain ⟨ref, _, h⟩ := bind_eq_ok.mp h
  cases h
  have hseen : SentAlike g (g.modifyPlayer ref fun p => { p with lastSeen := now }) :=
    ⟨[], fun ref' => sentTo_setLastSeen g ref ref' now⟩
  exact (hseen.trans (sentAlike_checkInactivity _ ref .player1)).trans
    (sentAlike_checkInactivity _ ref .player2)

private theorem sentAlike_playMove {move : Move} (h : g.playMove move = .ok g') : SentAlike g g' := by
  obtain ⟨gameData, _, h⟩ := bind_eq_ok.mp h
  obtain ⟨g₁, hsend1, h⟩ := bind_eq_ok.mp h
  obtain ⟨_, _, hsend1⟩ := bind_eq_ok.mp hsend1
  cases hsend1
  obtain ⟨g₂, hsend2, h⟩ := bind_eq_ok.mp h
  obtain ⟨_, _, hsend2⟩ := bind_eq_ok.mp hsend2
  cases hsend2
  have hadd : SentAlike g (g.addMove move) := sentAlike_of_clients fun ref => by
    obtain ⟨mover, _, _⟩ := move
    cases mover <;> cases ref <;> rfl
  have hshow : SentAlike g ((g.addMove move).showMove gameData) :=
    hadd.trans ⟨_, broadcasts_showMove _ gameData⟩
  change pure (if (g.movedGraph move).hasCycleOfLength3 = true
    then ((g.addMove move).showMove gameData).clearGame
    else (g.addMove move).showMove gameData) = Except.ok g' at h
  cases h
  split
  · exact hshow.trans (sentAlike_of_clients fun ref => by rw [client_clearGame])
  · exact hshow

private theorem sentAlike_answerMessage {msg : ProtocolData} {clientFd : Int}
    (h : g.answerMessage msg clientFd = .ok g') : SentAlike g g' := by
  unfold answerMessage at h
  split at h
  · obtain ⟨_, _, h⟩ := bind_eq_ok.mp h
    obtain ⟨move, _, h⟩ := bind_eq_ok.mp h
    cases move with
    | none => exact sentAlike_denyRequest h
    | some move => exact sentAlike_playMove h
  · cases h
    exact sentAlike_of_clients fun ref => by cases ref <;> rfl
  · obtain ⟨ref, _, h⟩ := bind_eq_ok.mp h
    obtain ⟨_, _, h⟩ := bind_eq_ok.mp h
    cases h
    exact sentAlike_modifyClient (fun _ => rfl) (by simp [newProtocolMessage])
  · exact sentAlike_denyRequest h

private theorem sentAlike_processClientMessage {msg : ProtocolData} {clientFd : Int} {now : UInt64}
    (h : g.processClientMessage msg clientFd now = .ok g') : SentAlike g g' := by
  obtain ⟨_, hanswer, hupdate⟩ := bind_eq_ok.mp h
  exact (sentAlike_answerMessage hanswer).trans (sentAlike_updateClientLastSeen hupdate)

private theorem sentAlike_receiveMessages {clientFd : Int} {received : Option Str}
    {messages : List ProtocolData}
    (h : g.receiveMessages clientFd received = .ok (messages, g')) : SentAlike g g' := by
  obtain ⟨ref, client, hclient, rfl | ⟨parser, rfl⟩⟩ := receiveMessages_eq_ok h
  · exact sentAlike_onClientDisconnect g _
  · refine ⟨[], fun ref' client' hclient' => ?_⟩
    rw [modifyClient, player_modifyPlayer] at hclient'
    split at hclient'
    · rename_i href
      subst href
      obtain ⟨before, hbefore, rfl⟩ := Option.map_eq_some_iff.mp hclient'
      cases hclient.symm.trans hbefore
      exact ⟨client, [], hclient, (List.append_nil _).symm, rfl⟩
    · exact ⟨client', [], hclient', (List.append_nil _).symm, rfl⟩

/-- The players who meet are sent at least one state, and both of them the same. -/
theorem broadcasts_greetPlayers {now1 now2 : UInt64} (h : g.greetPlayers now1 now2 = .ok g') :
    ∃ shown, shown ≠ [] ∧ Broadcasts shown g g' := by
  obtain ⟨g₁, hsend1, h⟩ := bind_eq_ok.mp h
  obtain ⟨_, _, hsend1⟩ := bind_eq_ok.mp hsend1
  cases hsend1
  obtain ⟨client1, hclient1, h⟩ := bind_eq_ok.mp h
  obtain ⟨g₂, hseen1, h⟩ := bind_eq_ok.mp h
  obtain ⟨g₃, hsend2, h⟩ := bind_eq_ok.mp h
  obtain ⟨client2, hclient2, hsend2⟩ := bind_eq_ok.mp hsend2
  cases hsend2
  obtain ⟨_, _, hseen2⟩ := bind_eq_ok.mp h
  rcases updateClientLastSeen_player1 (clientOf_eq_ok.mp hclient1) hseen1 with hnone | rfl
  · cases hnone.symm.trans (clientOf_eq_ok.mp hclient2)
  obtain ⟨shown, hshown⟩ := sentAlike_updateClientLastSeen hseen2
  refine ⟨[g.serializeGameData] ++ shown, by simp, Broadcasts.trans (fun ref => ?_) hshown⟩
  cases ref with
  | player1 =>
    exact ((sentTo_state g .player1 g.serializeGameData).trans
      (sentTo_setLastSeen _ .player1 .player1 now1)).trans
        (sentTo_modifyClient_of_ne PlayerRef.noConfusion _)
  | player2 =>
    exact ((sentTo_modifyClient_of_ne PlayerRef.noConfusion _).trans
      (sentTo_setLastSeen _ .player1 .player2 now1)).trans
        (sentTo_state _ .player2 g.serializeGameData)

/-- The players who are online have been sent the game states `shown` when `base ref`
messages of each are left aside. -/
def SeenSince (base : PlayerRef → Nat) (shown : List (UnorderedMap Str Str)) (g : Game) : Prop :=
  ∀ ref client, (g.player ref).client = some client →
    base ref ≤ client.sent.length ∧ gameStates (client.sent.drop (base ref)) = shown

theorem SeenSince.broadcast {base : PlayerRef → Nat} (h : SeenSince base shown g)
    (hbroadcast : Broadcasts shown' g g') : SeenSince base (shown ++ shown') g' := by
  intro ref client' hclient'
  obtain ⟨client, msgs, hclient, hsent, hshown'⟩ := hbroadcast ref client' hclient'
  obtain ⟨hlength, hshown⟩ := h ref client hclient
  rw [hsent, List.drop_append_of_le_length hlength, gameStates_append, hshown, hshown']
  exact ⟨by rw [List.length_append]; omega, rfl⟩

theorem Broadcasts.online (h : Broadcasts shown g g') (honline : g'.Online) : g.Online := by
  intro ref
  obtain ⟨client', hclient'⟩ := honline ref
  obtain ⟨client, _, hclient, _⟩ := h ref client' hclient'
  exact ⟨client, hclient⟩

/-- When both players are online they have been sent the same states, and at
least one. -/
def SharedView (base : PlayerRef → Nat) (g : Game) : Prop :=
  g.Online → ∃ shown, shown ≠ [] ∧ SeenSince base shown g

theorem SharedView.sentAlike {base : PlayerRef → Nat} (h : SharedView base g)
    (halike : SentAlike g g') : SharedView base g' := by
  intro honline
  obtain ⟨shown', hbroadcast⟩ := halike
  obtain ⟨shown, hne, hseen⟩ := h (hbroadcast.online honline)
  exact ⟨shown ++ shown', by simp [hne], hseen.broadcast hbroadcast⟩

/-- How many messages the player, or the client who is about to take his place, has
been sent. -/
def sentCount (g : Game) (ref : PlayerRef) : Nat :=
  if g.freePlayer = some ref then g.gameInput.data.head?.elim 0 (·.sent.length)
  else (g.player ref).client.elim 0 (·.sent.length)

/-- From the arrival of the second player on both are sent the same states. -/
theorem sharedView_takeNewClient {client : ProtocolClient} {waiting : List ProtocolClient}
    {now1 now2 : UInt64} (hdata : g.gameInput.data = client :: waiting)
    (h : g.takeNewClient now1 now2 = .ok g') : SharedView g.sentCount g' := by
  obtain ⟨ref, arrived, hfree, _, hregister, _, hrest⟩ := takeNewClient_eq_ok hdata h
  have hseen : SeenSince g.sentCount [] { arrived with isPaused := false } := by
    obtain ⟨epoll, _, harrived⟩ := bind_eq_ok.mp hregister
    have hbefore : ∀ ref', (arrived.player ref').client =
        if ref' = ref then some client else (g.player ref').client := by
      cases harrived
      intro ref'
      cases ref <;> cases ref' <;> rfl
    intro ref' client' hclient'
    replace hclient' : (arrived.player ref').client = some client' := by
      cases ref' <;> exact hclient'
    rw [hbefore] at hclient'
    have hbase : g.sentCount ref' = client'.sent.length := by
      unfold sentCount
      split at hclient'
      · rename_i href
        cases hclient'
        rw [if_pos (href ▸ hfree), hdata]
        rfl
      · rename_i hne
        rw [if_neg (by rw [hfree]; simpa using Ne.symm hne), hclient']
        rfl
    rw [hbase, List.drop_length]
    exact ⟨Nat.le_refl _, rfl⟩
  intro honline
  split at hrest
  · obtain ⟨shown, hne, hbroadcast⟩ := broadcasts_greetPlayers hrest
    exact ⟨shown, hne, hseen.broadcast hbroadcast⟩
  · rename_i hboth
    subst hrest
    exact (hboth (bothPlayersOnline_eq_true.mpr honline)).elim

end Broadcast

end Game

namespace GameThread

open Game

/-- How many messages each player had been sent when the last client arrived. -/
def sentAtArrival (steps : List (GameThread × GameAction × GameThread)) (ref : PlayerRef) : Nat :=
  steps.foldl (fun n s => match s.2.1 with
    | .takeNewClient _ _ => s.1.game.sentCount ref
    | _ => n) 0

private theorem sentAtArrival_append (steps : List (GameThread × GameAction × GameThread))
    (t t' : GameThread) {action : GameAction}
    (h : ∀ now1 now2, action ≠ .takeNewClient now1 now2) :
    sentAtArrival (steps ++ [(t, action, t')]) = sentAtArrival steps := by
  funext ref
  rw [sentAtArrival, List.foldl_append]
  cases action with
  | takeNewClient now1 now2 => exact (h now1 now2 rfl).elim
  | _ => rfl

private theorem sentAtArrival_takeNewClient (steps : List (GameThread × GameAction × GameThread))
    (t t' : GameThread) (now1 now2 : UInt64) :
    sentAtArrival (steps ++ [(t, .takeNewClient now1 now2, t')]) = t.game.sentCount := by
  funext ref
  rw [sentAtArrival, List.foldl_append]
  rfl

/-- The players have been shown the game, and both in the same way. -/
structure Seen (base : PlayerRef → Nat) (g : Game) : Prop where
  allShown : AllShown base g
  shared : SharedView base g

private theorem seen_of_players {base : PlayerRef → Nat} {g g' : Game} (h : Seen base g)
    (hplayers : ∀ ref, g'.player ref = g.player ref) (hpaused : g'.isPaused = g.isPaused)
    (hturn : g'.isPlayerOneTurn = g.isPlayerOneTurn) : Seen base g' :=
  ⟨allShown_of_players h.allShown hplayers hpaused hturn,
    h.shared.sentAlike (sentAlike_of_clients fun ref => by rw [hplayers])⟩

/-- What the players have seen after a step with which the loop goes on. -/
theorem seen_step {steps : List (GameThread × GameAction × GameThread)} {t t' : GameThread}
    {action : GameAction} (h : Seen (sentAtArrival steps) t.game)
    (hstep : step t action = some t') (hruns : t'.Runs) :
    Seen (sentAtArrival (steps ++ [(t, action, t')])) t'.game := by
  cases effect_of_step hstep with
  | deliver _ _ hgame | newClientEvent _ hgame | removeDescriptor _ hgame | stop _ hgame =>
    rw [sentAtArrival_append _ _ _ (by simp), hgame]
    exact seen_of_players h (fun ref => by cases ref <;> rfl) rfl rfl
  | output _ hown _ hgame =>
    rw [sentAtArrival_append _ _ _ (by rintro _ _ rfl; cases hown), hgame]
    exact seen_of_players h (fun ref => by cases ref <;> rfl) rfl rfl
  | handlerDone hdone _ hgame =>
    rw [sentAtArrival_append _ _ _ (by rintro _ _ rfl; cases hdone), hgame]
    exact h
  | takeNewClient _ hinput hresume =>
    obtain ⟨client, waiting, hdata⟩ := EventfdQueue.exists_of_isEmpty_eq_false hinput
    obtain ⟨hreturns, _⟩ := resume_of_not_fails hresume hruns.1
    rw [sentAtArrival_takeNewClient]
    refine ⟨allShown_takeNewClient hdata hreturns fun ref hfree => ?_,
      sharedView_takeNewClient hdata hreturns⟩
    rw [sentCount, if_pos hfree, hdata]
    rfl
  | message _ hresume =>
    obtain ⟨hreturns, _⟩ := resume_of_not_fails hresume hruns.1
    rw [sentAtArrival_append _ _ _ (by simp)]
    exact ⟨allShown_processClientMessage h.allShown hreturns,
      h.shared.sentAlike (sentAlike_processClientMessage hreturns)⟩
  | receive hreceive =>
    rw [sentAtArrival_append _ _ _ (by simp)]
    exact ⟨allShown_receiveMessages h.allShown hreceive,
      h.shared.sentAlike (sentAlike_receiveMessages hreceive)⟩
  | receiveThrows _ _ hpc => exact (hruns.1 hpc).elim
  | disconnect _ hgame =>
    rw [sentAtArrival_append _ _ _ (by simp), hgame]
    exact ⟨allShown_onClientDisconnect _ _,
      h.shared.sentAlike (sentAlike_onClientDisconnect _ _)⟩
  | destroy _ heq => exact (hruns.2 (by rw [heq])).elim

theorem seen_of_run {steps : List (GameThread × GameAction × GameThread)} {t : GameThread}
    (h : system.Run steps t) (hruns : t.Runs) : Seen (sentAtArrival steps) t.game := by
  induction h with
  | init hinit =>
    obtain ⟨gameInput, gameOutput, _, hstart, _⟩ := hinit
    obtain ⟨epoll, hgame⟩ := start_eq_ok hstart
    rw [hgame]
    refine ⟨fun ref => shown_of_none (by cases ref <;> rfl), fun honline => ?_⟩
    obtain ⟨client, hclient⟩ := honline .player1
    cases hclient
  | step _ hstep ih => exact seen_step (ih (runs_of_step hstep hruns)) hstep hruns

/-- As long as the loop of a game goes on, players who are both online have been sent
the same game states since the last of them arrived, in the same order, and the last
one shows the game as it is. -/
theorem sharesView_of_run {steps : List (GameThread × GameAction × GameThread)} {t : GameThread}
    (h : system.Run steps t) (hruns : t.Runs) (honline : t.game.Online) :
    ∃ shown data, SeenSince (sentAtArrival steps) (shown ++ [data]) t.game ∧
      t.game.Shows data := by
  have hseen := seen_of_run h hruns
  obtain ⟨states, hne, hsince⟩ := hseen.shared honline
  obtain ⟨shown, data, rfl⟩ := (List.eq_nil_or_concat' states).resolve_left hne
  obtain ⟨client, hclient⟩ := honline .player1
  refine ⟨shown, data, hsince, hseen.allShown .player1 client data hclient ?_⟩
  rw [lastGameState_eq, (hsince .player1 client hclient).2, List.getLast?_append]
  rfl

/-- The first edge of a game has been shown to both players. -/
theorem sharesView_of_run_moved : ∃ steps t shown data, system.Run steps t ∧
    t.game.player1.myGraph.edges = {(0, 1)} ∧
    SeenSince (sentAtArrival steps) (shown ++ [data]) t.game ∧ t.game.Shows data := by
  have hcheck : ((started.bind (TransitionSystem.traceActions step
      (joinBoth ++ sendEdge 10 "{0,1}"))).any fun trace =>
        decide (trace.2.pc = .waiting) && trace.2.game.bothPlayersOnline &&
          decide (trace.2.game.player1.myGraph.edges = {(0, 1)})) = true := by
    decide +kernel
  obtain ⟨steps, t, hrun, hstate⟩ :=
    TransitionSystem.exists_run_of_any (fun _ _ _ => id) (init_of_start (by decide)) hcheck
  simp only [Bool.and_eq_true, decide_eq_true_eq] at hstate
  obtain ⟨⟨hpc, honline⟩, hedges⟩ := hstate
  obtain ⟨shown, data, hseen, hshows⟩ := sharesView_of_run hrun ⟨by simp [hpc], by simp [hpc]⟩
    (bothPlayersOnline_eq_true.mp honline)
  exact ⟨steps, t, shown, data, hrun, hedges, hseen, hshows⟩

end GameThread

end UpsServer
