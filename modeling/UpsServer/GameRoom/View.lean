import UpsServer.GameRoom.PauseFlag

open Outcome

namespace UpsServer

/-- The data of the last GAME_STATE among messages. -/
def lastGameState (msgs : List ProtocolData) : Option (UnorderedMap Str Str) :=
  (msgs.filter (·.method = .GAME_STATE)).getLast?.map (·.data)

@[simp] theorem lastGameState_nil : lastGameState [] = none := rfl

private theorem lastGameState_append (msgs : List ProtocolData) (msg : ProtocolData) :
    lastGameState (msgs ++ [msg]) =
      if msg.method = .GAME_STATE then some msg.data else lastGameState msgs := by
  unfold lastGameState
  split <;> simp [*]

/-- One more message is the last state, or the last state is the one before. -/
theorem lastGameState_drop {msgs : List ProtocolData} {msg : ProtocolData} {n : Nat}
    {data : UnorderedMap Str Str} (h : lastGameState ((msgs ++ [msg]).drop n) = some data) :
    msg.method = .GAME_STATE ∧ data = msg.data ∨
      msg.method ≠ .GAME_STATE ∧ lastGameState (msgs.drop n) = some data := by
  by_cases hn : n ≤ msgs.length
  · rw [List.drop_append_of_le_length hn, lastGameState_append] at h
    split at h
    · rename_i hmethod
      exact .inl ⟨hmethod, (Option.some.inj h).symm⟩
    · rename_i hmethod
      exact .inr ⟨hmethod, h⟩
  · rw [List.drop_eq_nil_of_le (by simp; omega)] at h
    cases h

namespace Game

/-- The name of a player in a game state; it is empty when he is offline. -/
def nameOf (g : Game) (ref : PlayerRef) : Str := (g.player ref).client.elim [] (·.clientName)

/-- The data of a game state shows the game: the pause, the names, the player on
turn when both are online, and the edges of both players, unless they have been
cleared after the move of which the data names the winner. -/
structure Shows (g : Game) (data : UnorderedMap Str Str) : Prop where
  state : data.get? "game_state".toList =
    some (if g.isPaused then "PAUSED".toList else "RUNNING".toList)
  player1 : data.get? "player1_username".toList = some (g.nameOf .player1)
  player2 : data.get? "player2_username".toList = some (g.nameOf .player2)
  onTurn : g.Online → data.get? "on_turn".toList = some (g.nameOf g.onTurn)
  edges : data.get? "player1_edges".toList = some g.player1.myGraph.serializeUndirectedEdges ∧
      data.get? "player2_edges".toList = some g.player2.myGraph.serializeUndirectedEdges ∨
    (∃ winner, data.get? "winning_player".toList = some winner) ∧
      ∀ ref, (g.player ref).myGraph = {}

/-- The same roster and the same board. -/
structure SameView (g g' : Game) : Prop extends SameRoster g g' where
  board : g'.board = g.board

section View

variable {g g' g'' : Game}

theorem SameView.refl (g : Game) : SameView g g := ⟨.refl g, rfl⟩

theorem SameView.trans (h : SameView g g') (h' : SameView g' g'') : SameView g g'' :=
  ⟨h.toSameRoster.trans h'.toSameRoster, h'.board.trans h.board⟩

theorem SameRoster.nameOf_eq (h : SameRoster g g') (ref : PlayerRef) :
    g'.nameOf ref = g.nameOf ref := by
  have hname := h.names ref
  rw [nameOf, nameOf]
  cases h1 : (g.player ref).client <;> cases h2 : (g'.player ref).client <;> simp_all

theorem SameView.shows (h : SameView g g') {data : UnorderedMap Str Str} (hshows : g.Shows data) :
    g'.Shows data := by
  have h1 : g'.player1.myGraph = g.player1.myGraph := graph_of_board h.board .player1
  have h2 : g'.player2.myGraph = g.player2.myGraph := graph_of_board h.board .player2
  refine ⟨?_, ?_, ?_, fun honline => ?_, ?_⟩
  · rw [h.isPaused]
    exact hshows.state
  · rw [h.nameOf_eq]
    exact hshows.player1
  · rw [h.nameOf_eq]
    exact hshows.player2
  · rw [h.nameOf_eq, onTurn_of_board h.board]
    exact hshows.onTurn (h.online_iff.mp honline)
  · rw [h1, h2]
    refine hshows.edges.imp_right fun ⟨hwinner, hempty⟩ => ⟨hwinner, fun ref => ?_⟩
    rw [graph_of_board h.board, hempty]

theorem sameView_modifyClient (g : Game) (ref : PlayerRef) {f : ProtocolClient → ProtocolClient}
    (hf : ∀ client, (g.player ref).client = some client →
      (f client).clientName = client.clientName) : SameView g (g.modifyClient ref f) :=
  ⟨sameRoster_modifyClient g ref hf, by cases ref <;> rfl⟩

private theorem sameView_setLastSeen (g : Game) (ref : PlayerRef) (now : UInt64) :
    SameView g (g.modifyPlayer ref fun p => { p with lastSeen := now }) :=
  ⟨sameRoster_setLastSeen g ref now, by cases ref <;> rfl⟩

/-- The fields of a game state, in the order in which they are set. -/
def stateFields (g : Game) : List (Str × Str) :=
  [("game_state".toList, if g.isPaused then "PAUSED".toList else "RUNNING".toList),
    ("player1_username".toList, g.nameOf .player1), ("player2_username".toList, g.nameOf .player2),
    ("player1_edges".toList, g.player1.myGraph.serializeUndirectedEdges),
    ("player2_edges".toList, g.player2.myGraph.serializeUndirectedEdges)] ++
    if g.bothPlayersOnline then [("on_turn".toList, g.nameOf g.onTurn)] else []

theorem serializeGameData_eq (g : Game) :
    g.serializeGameData = (∅ : UnorderedMap Str Str).setAll g.stateFields := by
  have hturn : g.nameOf g.onTurn =
      if g.isPlayerOneTurn then g.nameOf .player1 else g.nameOf .player2 := by
    rw [onTurn]
    split <;> rfl
  unfold serializeGameData stateFields
  rw [hturn]
  cases g.bothPlayersOnline <;> rfl

theorem get?_serializeGameData {name value : Str} (h : (name, value) ∈ g.stateFields) :
    g.serializeGameData.get? name = some value := by
  rw [serializeGameData_eq]
  refine UnorderedMap.get?_setAll_of_mem _ ∅ ?_ h
  unfold stateFields
  cases g.bothPlayersOnline <;> exact of_decide_eq_true rfl

/-- The serialized state shows the game. -/
theorem shows_serializeGameData (g : Game) : g.Shows g.serializeGameData where
  state := get?_serializeGameData (List.mem_of_getElem? (i := 0) rfl)
  player1 := get?_serializeGameData (List.mem_of_getElem? (i := 1) rfl)
  player2 := get?_serializeGameData (List.mem_of_getElem? (i := 2) rfl)
  onTurn honline := by
    refine get?_serializeGameData (List.mem_append_right _ ?_)
    rw [if_pos (bothPlayersOnline_eq_true.mpr honline)]
    exact List.mem_singleton_self _
  edges := .inl ⟨get?_serializeGameData (List.mem_of_getElem? (i := 3) rfl),
    get?_serializeGameData (List.mem_of_getElem? (i := 4) rfl)⟩

/-- The winner is named in a field of its own. -/
theorem Shows.setWinner {data : UnorderedMap Str Str} (h : g.Shows data) (winner : Str) :
    g.Shows (data.set "winning_player".toList winner) := by
  have hne : ∀ name ∈ ["game_state".toList, "player1_username".toList, "player2_username".toList,
      "on_turn".toList, "player1_edges".toList, "player2_edges".toList],
      name ≠ "winning_player".toList := by
    decide +kernel
  have hget : ∀ {name}, name ∈ ["game_state".toList, "player1_username".toList,
      "player2_username".toList, "on_turn".toList, "player1_edges".toList,
      "player2_edges".toList] →
      (data.set "winning_player".toList winner).get? name = data.get? name :=
    fun hname => UnorderedMap.get?_set_of_ne _ _ (hne _ hname)
  refine ⟨(hget (List.mem_of_getElem? (i := 0) rfl)).trans h.state,
    (hget (List.mem_of_getElem? (i := 1) rfl)).trans h.player1,
    (hget (List.mem_of_getElem? (i := 2) rfl)).trans h.player2,
    fun honline => (hget (List.mem_of_getElem? (i := 3) rfl)).trans (h.onTurn honline), ?_⟩
  rcases h.edges with ⟨h1, h2⟩ | ⟨_, hempty⟩
  · exact .inl ⟨(hget (List.mem_of_getElem? (i := 4) rfl)).trans h1,
      (hget (List.mem_of_getElem? (i := 5) rfl)).trans h2⟩
  · exact .inr ⟨⟨winner, UnorderedMap.get?_set_self _ _ _⟩, hempty⟩

end View

section Shown

variable {base : PlayerRef → Nat} {g g' : Game}

/-- The last game state a player has been sent, when `base ref` messages are left
aside, shows the game. -/
def Shown (base : PlayerRef → Nat) (g : Game) (ref : PlayerRef) : Prop :=
  ∀ client data, (g.player ref).client = some client →
    lastGameState (client.sent.drop (base ref)) = some data → g.Shows data

/-- Every player has been shown the game. -/
def AllShown (base : PlayerRef → Nat) (g : Game) : Prop := ∀ ref, Shown base g ref

theorem shown_of_none {ref : PlayerRef} (h : (g.player ref).client = none) : Shown base g ref := by
  intro client data hclient
  cases h.symm.trans hclient

theorem SameView.shown (h : SameView g g') {ref : PlayerRef}
    (hsent : (g'.player ref).client.map (·.sent) = (g.player ref).client.map (·.sent))
    (hshown : Shown base g ref) : Shown base g' ref := by
  intro client' data hclient' hlast
  rw [hclient', Option.map_some, eq_comm, Option.map_eq_some_iff] at hsent
  obtain ⟨client, hclient, hsent⟩ := hsent
  exact h.shows (hshown client data hclient (by rwa [hsent]))

/-- Only the players, the pause and the turn are shown. -/
theorem allShown_of_players (h : AllShown base g) (hplayers : ∀ ref, g'.player ref = g.player ref)
    (hpaused : g'.isPaused = g.isPaused) (hturn : g'.isPlayerOneTurn = g.isPlayerOneTurn) :
    AllShown base g' := by
  have hview : SameView g g' := by
    refine ⟨⟨hpaused, fun ref => by rw [hplayers]⟩, ?_⟩
    have h1 : g'.player1 = g.player1 := hplayers .player1
    have h2 : g'.player2 = g.player2 := hplayers .player2
    rw [board, board, h1, h2, hturn]
  exact fun ref => hview.shown (by rw [hplayers]) (h ref)

section Send

variable {ref ref' : PlayerRef} {msg : ProtocolData} {f : ProtocolClient → ProtocolClient}
  (hf : ∀ client, (f client).sent = client.sent ++ [msg] ∧ (f client).clientName = client.clientName)
include hf

/-- A player has been shown the game after a message that is no state or shows
it. -/
theorem shown_modifyClient_self (h : msg.method = .GAME_STATE → g.Shows msg.data)
    (hshown : msg.method ≠ .GAME_STATE → Shown base g ref) :
    Shown base (g.modifyClient ref f) ref := by
  intro client' data hclient' hlast
  rw [modifyClient, player_modifyPlayer_self, Option.map_eq_some_iff] at hclient'
  obtain ⟨client, hclient, rfl⟩ := hclient'
  refine (sameView_modifyClient g ref fun client _ => (hf client).2).shows ?_
  rw [(hf client).1] at hlast
  rcases lastGameState_drop hlast with ⟨hmethod, rfl⟩ | ⟨hmethod, hlast⟩
  · exact h hmethod
  · exact hshown hmethod client data hclient hlast

private theorem shown_modifyClient_of_ne (hne : ref' ≠ ref) (hshown : Shown base g ref') :
    Shown base (g.modifyClient ref f) ref' := by
  refine (sameView_modifyClient g ref fun client _ => (hf client).2).shown ?_ hshown
  rw [modifyClient, player_modifyPlayer, if_neg hne]

private theorem allShown_modifyClient (h : msg.method = .GAME_STATE → g.Shows msg.data)
    (hshown : AllShown base g) : AllShown base (g.modifyClient ref f) := by
  intro ref'
  by_cases hne : ref' = ref
  · subst hne
    exact shown_modifyClient_self hf h fun _ => hshown ref'
  · exact shown_modifyClient_of_ne hf hne (hshown ref')

end Send

private theorem sends_sendMsg (msg : ProtocolData) (client : ProtocolClient) :
    (client.sendMsg msg).sent = client.sent ++ [msg] ∧
      (client.sendMsg msg).clientName = client.clientName :=
  ⟨rfl, rfl⟩

/-- A player who has just been sent the state has been shown the game. -/
theorem shown_sendGameState (g : Game) (ref : PlayerRef) : Shown base (g.sendGameState ref) ref :=
  shown_modifyClient_self (sends_sendMsg _) (fun _ => shows_serializeGameData g)
    fun hne => (hne rfl).elim

/-- A drop shows the game to whoever is left. -/
theorem allShown_onClientDisconnect (g : Game) (clientFd : Int) :
    AllShown base (g.onClientDisconnect clientFd) := by
  obtain ⟨hnobody, _⟩ | ⟨paused, _, _, _, heq⟩ := onClientDisconnect_cases g clientFd
  · intro ref
    cases hclient : ((g.onClientDisconnect clientFd).player ref).client with
    | none => exact shown_of_none hclient
    | some client => exact (hnobody ⟨ref, client, hclient⟩).elim
  · rw [heq]
    intro ref
    cases ref with
    | player1 =>
      exact shown_modifyClient_of_ne (sends_sendMsg _) PlayerRef.noConfusion
        (shown_sendGameState paused .player1)
    | player2 => exact shown_sendGameState (paused.sendGameState .player1) .player2

private theorem allShown_denyRequest (h : AllShown base g) {clientFd : Int}
    (hdeny : g.denyRequest clientFd = .ok g') : AllShown base g' := by
  obtain ⟨ref, _, hdeny⟩ := bind_eq_ok.mp hdeny
  obtain ⟨client, _, hdeny⟩ := bind_eq_ok.mp hdeny
  split at hdeny
  · cases hdeny
    exact allShown_onClientDisconnect g _
  · cases hdeny
    exact allShown_modifyClient (f := ProtocolClient.sendReqDeniedMsg) (fun _ => ⟨rfl, rfl⟩)
      (fun hmethod => by cases hmethod) h

private theorem allShown_checkInactivity (h : AllShown base g) (ref silent : PlayerRef) :
    AllShown base (g.checkInactivity ref silent) := by
  unfold checkInactivity
  split
  · split
    · exact allShown_onClientDisconnect g _
    · exact h
  · exact h

private theorem shown_setLastSeen {ref' : PlayerRef} (h : Shown base g ref') (ref : PlayerRef)
    (now : UInt64) : Shown base (g.modifyPlayer ref fun p => { p with lastSeen := now }) ref' := by
  refine (sameView_setLastSeen g ref now).shown ?_ h
  rw [player_modifyPlayer]
  split
  · rename_i href
    rw [href]
  · rfl

private theorem allShown_updateClientLastSeen (h : AllShown base g) {clientFd : Int} {now : UInt64}
    (hupdate : g.updateClientLastSeen clientFd now = .ok g') : AllShown base g' := by
  obtain ⟨_, _, hupdate⟩ := bind_eq_ok.mp hupdate
  obtain ⟨ref, _, hupdate⟩ := bind_eq_ok.mp hupdate
  cases hupdate
  exact allShown_checkInactivity (allShown_checkInactivity
    (fun ref' => shown_setLastSeen (h ref') ref now) ref .player1) ref .player2

/-- The data of a move shows the board with the new edge. -/
theorem shows_moveData {move : Move} {playerLost : Bool} {gameData : UnorderedMap Str Str}
    (h : g.moveData move playerLost = .ok gameData) :
    g.Shows gameData ∧
      (playerLost = true → ∃ winner, gameData.get? "winning_player".toList = some winner) := by
  unfold moveData at h
  split at h
  · obtain ⟨winner, _, h⟩ := bind_eq_ok.mp h
    cases h
    exact ⟨(shows_serializeGameData g).setWinner _, fun _ => ⟨_, UnorderedMap.get?_set_self _ _ _⟩⟩
  · rename_i hlost
    cases h
    exact ⟨shows_serializeGameData g, fun hlost' => (hlost hlost').elim⟩

/-- A board that is cleared after it has been shown is shown by the winner. -/
theorem Shows.clearGame {data : UnorderedMap Str Str} (h : g.Shows data)
    (hwinner : ∃ winner, data.get? "winning_player".toList = some winner) :
    g.clearGame.Shows data := by
  have hroster := (calm_clearGame g).sameRoster
  refine ⟨h.state, ?_, ?_, fun honline => ?_, .inr ⟨hwinner, graph_clearGame g⟩⟩
  · rw [hroster.nameOf_eq]
    exact h.player1
  · rw [hroster.nameOf_eq]
    exact h.player2
  · rw [hroster.nameOf_eq]
    exact h.onTurn (hroster.online_iff.mp honline)

/-- The move is the last message to both players. -/
theorem last_showMove {gameData data : UnorderedMap Str Str} {ref : PlayerRef}
    {client : ProtocolClient} {n : Nat}
    (hclient : ((g.showMove gameData).player ref).client = some client)
    (hlast : lastGameState (client.sent.drop n) = some data) : data = gameData := by
  have hsent : ∃ msgs, client.sent = msgs ++ [⟨.GAME_STATE, gameData⟩] := by
    rw [showMove, player_sendMsg_client] at hclient
    split at hclient
    · obtain ⟨before, _, rfl⟩ := Option.map_eq_some_iff.mp hclient
      exact ⟨_, rfl⟩
    · rename_i hne
      have href : ref = .player1 := (PlayerRef.eq_or_eq_other ref .player2).resolve_left hne
      rw [player_sendMsg_client, if_pos href] at hclient
      obtain ⟨before, _, rfl⟩ := Option.map_eq_some_iff.mp hclient
      exact ⟨_, rfl⟩
  obtain ⟨msgs, hsent⟩ := hsent
  rw [hsent] at hlast
  rcases lastGameState_drop hlast with ⟨_, hdata⟩ | ⟨hmethod, _⟩
  · exact hdata
  · exact (hmethod rfl).elim

private theorem sameView_showMove (g : Game) (gameData : UnorderedMap Str Str) :
    SameView g (g.showMove gameData) :=
  (sameView_modifyClient g .player1 (f := (·.sendMsg ⟨.GAME_STATE, gameData⟩)) fun _ _ => rfl).trans
    (sameView_modifyClient _ .player2 fun _ _ => rfl)

private theorem allShown_playMove {move : Move} (h : g.playMove move = .ok g') : AllShown base g' := by
  obtain ⟨gameData, hdata, h⟩ := bind_eq_ok.mp h
  obtain ⟨g₁, hsend1, h⟩ := bind_eq_ok.mp h
  obtain ⟨_, _, hsend1⟩ := bind_eq_ok.mp hsend1
  cases hsend1
  obtain ⟨g₂, hsend2, h⟩ := bind_eq_ok.mp h
  obtain ⟨_, _, hsend2⟩ := bind_eq_ok.mp hsend2
  cases hsend2
  change pure (if (g.movedGraph move).hasCycleOfLength3 = true
    then ((g.addMove move).showMove gameData).clearGame
    else (g.addMove move).showMove gameData) = Except.ok g' at h
  obtain ⟨hshows, hwinner⟩ := shows_moveData hdata
  have hshown := (sameView_showMove (g.addMove move) gameData).shows hshows
  cases h
  intro ref client data hclient hlast
  split at hclient
  · rename_i hlost
    rw [client_clearGame] at hclient
    obtain rfl := last_showMove hclient hlast
    rw [if_pos hlost]
    exact hshown.clearGame (hwinner hlost)
  · rename_i hlost
    obtain rfl := last_showMove hclient hlast
    rwa [if_neg hlost]

private theorem allShown_answerMessage (h : AllShown base g) {msg : ProtocolData} {clientFd : Int}
    (hanswer : g.answerMessage msg clientFd = .ok g') : AllShown base g' := by
  unfold answerMessage at hanswer
  split at hanswer
  · obtain ⟨_, _, hanswer⟩ := bind_eq_ok.mp hanswer
    obtain ⟨move, _, hanswer⟩ := bind_eq_ok.mp hanswer
    cases move with
    | none => exact allShown_denyRequest h hanswer
    | some move => exact allShown_playMove hanswer
  · cases hanswer
    exact allShown_of_players h (fun ref => by cases ref <;> rfl) rfl rfl
  · obtain ⟨ref, _, hanswer⟩ := bind_eq_ok.mp hanswer
    obtain ⟨_, _, hanswer⟩ := bind_eq_ok.mp hanswer
    cases hanswer
    exact allShown_modifyClient (sends_sendMsg _) (fun hmethod => by cases hmethod) h
  · exact allShown_denyRequest h hanswer

theorem allShown_processClientMessage (h : AllShown base g) {msg : ProtocolData} {clientFd : Int}
    {now : UInt64} (hprocess : g.processClientMessage msg clientFd now = .ok g') :
    AllShown base g' := by
  obtain ⟨g₁, hanswer, hupdate⟩ := bind_eq_ok.mp hprocess
  exact allShown_updateClientLastSeen (allShown_answerMessage h hanswer) hupdate

theorem allShown_receiveMessages (h : AllShown base g) {clientFd : Int} {received : Option Str}
    {messages : List ProtocolData}
    (hreceive : g.receiveMessages clientFd received = .ok (messages, g')) : AllShown base g' := by
  obtain ⟨ref, client, hclient, rfl | ⟨parser, rfl⟩⟩ := receiveMessages_eq_ok hreceive
  · exact allShown_onClientDisconnect g _
  · intro ref'
    refine (sameView_modifyClient g ref fun client' hclient' => ?_).shown ?_ (h ref')
    · cases hclient.symm.trans hclient'
      rfl
    · rw [modifyClient, player_modifyPlayer]
      split
      · rename_i href
        rw [href, hclient]
        rfl
      · rfl

/-- Seeing the first player drops the second one, or changes nothing else. -/
theorem updateClientLastSeen_player1 {client : ProtocolClient} {now : UInt64}
    (hclient : (g.player .player1).client = some client)
    (h : g.updateClientLastSeen client.clientFd now = .ok g') :
    (g'.player .player2).client = none ∨
      g' = g.modifyPlayer .player1 fun p => { p with lastSeen := now } := by
  have hfind : g.findPlayer client.clientFd = some .player1 := by
    have hhas : g.player1.hasClient client.clientFd = true := by
      simp only [player] at hclient
      simp [Player.hasClient, hclient]
    rw [findPlayer, if_pos hhas]
  rw [updateClientLastSeen, derefClient_eq_ok.mpr hfind, ok_bind, getPlayer_eq_ok.mpr hfind,
    ok_bind] at h
  cases h
  rw [checkInactivity_self, checkInactivity]
  split
  · split
    · rename_i client2 hclient2
      exact .inl (client_onClientDisconnect hclient2)
    · exact .inr rfl
  · exact .inr rfl

/-- Both players are shown the game they meet in. -/
theorem allShown_greetPlayers {now1 now2 : UInt64} (h : g.greetPlayers now1 now2 = .ok g') :
    AllShown base g' := by
  obtain ⟨g₁, hsend1, h⟩ := bind_eq_ok.mp h
  obtain ⟨_, _, hsend1⟩ := bind_eq_ok.mp hsend1
  cases hsend1
  obtain ⟨client1, hclient1, h⟩ := bind_eq_ok.mp h
  obtain ⟨g₂, hseen1, h⟩ := bind_eq_ok.mp h
  obtain ⟨g₃, hsend2, h⟩ := bind_eq_ok.mp h
  obtain ⟨client2, hclient2, hsend2⟩ := bind_eq_ok.mp hsend2
  cases hsend2
  obtain ⟨_, _, hseen2⟩ := bind_eq_ok.mp h
  refine allShown_updateClientLastSeen (fun ref => ?_) hseen2
  rcases updateClientLastSeen_player1 (clientOf_eq_ok.mp hclient1) hseen1 with hnone | rfl
  · cases hnone.symm.trans (clientOf_eq_ok.mp hclient2)
  cases ref with
  | player1 =>
    exact shown_modifyClient_of_ne (sends_sendMsg _) PlayerRef.noConfusion
      (shown_setLastSeen (shown_sendGameState g .player1) .player1 now1)
  | player2 =>
    have hview := (sameView_modifyClient g .player1
      (f := (·.sendMsg ⟨.GAME_STATE, g.serializeGameData⟩)) fun _ _ => rfl).trans
      (sameView_setLastSeen _ .player1 now1)
    exact shown_modifyClient_self (sends_sendMsg _)
      (fun _ => hview.shows (shows_serializeGameData g)) fun hne => (hne rfl).elim

/-- A client who arrives has not been shown a game, or is shown this one at
once. -/
theorem allShown_takeNewClient {client : ProtocolClient} {waiting : List ProtocolClient}
    {now1 now2 : UInt64} (hdata : g.gameInput.data = client :: waiting)
    (h : g.takeNewClient now1 now2 = .ok g')
    (hbase : ∀ ref, g.freePlayer = some ref → base ref = client.sent.length) :
    AllShown base g' := by
  obtain ⟨ref, arrived, hfree, _, hregister, _, hrest⟩ := takeNewClient_eq_ok hdata h
  split at hrest
  · exact allShown_greetPlayers hrest
  · rename_i hboth
    subst hrest
    obtain ⟨epoll, _, harrived⟩ := bind_eq_ok.mp hregister
    have hself : (arrived.player ref).client = some client := by
      cases harrived
      cases ref <;> rfl
    intro ref' client' data hclient' hlast
    rcases PlayerRef.eq_or_eq_other ref' ref with rfl | rfl
    · cases hself.symm.trans hclient'
      rw [hbase _ hfree, List.drop_length] at hlast
      cases hlast
    · refine (hboth (bothPlayersOnline_eq_true.mpr fun ref' => ?_)).elim
      rcases PlayerRef.eq_or_eq_other ref' ref with rfl | rfl
      · exact ⟨client, hself⟩
      · exact ⟨client', hclient'⟩

end Shown

end Game

namespace GameThread

open Game

/-- The step is a handler that leaves with an exception, which ends the event
loop. -/
def HandlerFails (t : GameThread) (action : GameAction) (t' : GameThread) : Prop :=
  action ≠ .stop ∧ t.pc ≠ .stopping ∧ t'.pc = .stopping

/-- How many messages each player had been sent before the game took him. -/
def sentBefore (steps : List (GameThread × GameAction × GameThread)) (ref : PlayerRef) : Nat :=
  steps.foldl (fun n s => match s.2.1 with
    | .takeNewClient _ _ =>
      if s.1.game.freePlayer = some ref then s.1.game.gameInput.data.head?.elim 0 (·.sent.length)
      else n
    | _ => n) 0

private theorem sentBefore_append (steps : List (GameThread × GameAction × GameThread))
    (t t' : GameThread) {action : GameAction}
    (h : ∀ now1 now2, action ≠ .takeNewClient now1 now2) :
    sentBefore (steps ++ [(t, action, t')]) = sentBefore steps := by
  funext ref
  rw [sentBefore, List.foldl_append]
  cases action with
  | takeNewClient now1 now2 => exact (h now1 now2 rfl).elim
  | _ => rfl

/-- A handler that does not fail returns. -/
theorem resume_of_not_fails {t' : GameThread} {pc : ThreadPc} {x : Exec Game Game}
    (h : resume pc x = some t') (hfails : t'.pc ≠ .stopping) : x = .ok t'.game ∧ t'.pc = pc := by
  cases x with
  | ok g =>
    cases h
    exact ⟨rfl, rfl⟩
  | error e =>
    obtain ⟨_, h⟩ := Option.ite_none_right_eq_some.mp h
    cases h
    exact (hfails rfl).elim

/-- What has been shown stays shown by a step that does not fail. -/
theorem allShown_step {steps : List (GameThread × GameAction × GameThread)} {t t' : GameThread}
    {action : GameAction} (h : AllShown (sentBefore steps) t.game) (hstep : step t action = some t')
    (hok : ¬ HandlerFails t action t') :
    AllShown (sentBefore (steps ++ [(t, action, t')])) t'.game := by
  cases effect_of_step hstep with
  | deliver _ _ hgame | newClientEvent _ hgame | removeDescriptor _ hgame | stop _ hgame =>
    rw [sentBefore_append _ _ _ (by simp), hgame]
    exact allShown_of_players h (fun ref => by cases ref <;> rfl) rfl rfl
  | output _ hown _ hgame =>
    rw [sentBefore_append _ _ _ (by rintro _ _ rfl; cases hown), hgame]
    exact allShown_of_players h (fun ref => by cases ref <;> rfl) rfl rfl
  | handlerDone hdone _ hgame =>
    rw [sentBefore_append _ _ _ (by rintro _ _ rfl; cases hdone), hgame]
    exact h
  | takeNewClient hpc hinput hresume =>
    obtain ⟨client, waiting, hdata⟩ := EventfdQueue.exists_of_isEmpty_eq_false hinput
    obtain ⟨hreturns, _⟩ := resume_of_not_fails hresume fun hstop =>
      hok ⟨by simp, by simp [hpc], hstop⟩
    refine allShown_takeNewClient hdata hreturns fun ref hfree => ?_
    simp [sentBefore, hfree, hdata]
  | message hpc hresume =>
    obtain ⟨hreturns, _⟩ := resume_of_not_fails hresume fun hstop =>
      hok ⟨by simp, by simp [hpc], hstop⟩
    rw [sentBefore_append _ _ _ (by simp)]
    exact allShown_processClientMessage h hreturns
  | receive hreceive =>
    rw [sentBefore_append _ _ _ (by simp)]
    exact allShown_receiveMessages h hreceive
  | receiveThrows _ _ hpc =>
    have hruns := (between_of_step hstep rfl (by simp) (by simp)).1
    exact (hok ⟨by simp, hruns.1, hpc⟩).elim
  | disconnect _ hgame =>
    rw [hgame]
    exact allShown_onClientDisconnect _ _
  | destroy _ heq =>
    rw [heq]
    exact fun ref => shown_of_none (by cases ref <;> rfl)

/-- In every run without a handler that fails, the last game state that a player
who is online has been sent by the game shows the game as it is. -/
theorem shows_of_run {steps : List (GameThread × GameAction × GameThread)} {t : GameThread}
    (h : system.Run steps t) (hok : ∀ s ∈ steps, ¬ HandlerFails s.1 s.2.1 s.2.2) :
    ∀ ref client data, (t.game.player ref).client = some client →
      lastGameState (client.sent.drop (sentBefore steps ref)) = some data → t.game.Shows data := by
  induction h with
  | init hinit =>
    obtain ⟨gameInput, gameOutput, _, hstart, _⟩ := hinit
    obtain ⟨epoll, hgame⟩ := start_eq_ok hstart
    intro ref client data hclient
    rw [hgame] at hclient
    cases ref <;> cases hclient
  | step _ hstep ih =>
    simp only [List.mem_append, List.mem_singleton, or_imp, forall_and, forall_eq] at hok
    exact allShown_step (ih hok.1) hstep hok.2

/-- A handler that fails is the last one, so none has failed while the event loop
goes on. -/
theorem not_handlerFails_of_runs {steps : List (GameThread × GameAction × GameThread)}
    {t : GameThread} (h : system.Run steps t) (hruns : t.Runs) :
    ∀ s ∈ steps, ¬ HandlerFails s.1 s.2.1 s.2.2 := by
  induction h with
  | init => simp
  | @step steps t t' action hrun hstep ih =>
    simp only [List.mem_append, List.mem_singleton, or_imp, forall_and, forall_eq]
    exact ⟨ih (runs_of_step hstep hruns), fun hfails => hruns.1 hfails.2.2⟩

/-- Both players have been sent the state of the game they have joined. -/
theorem shows_of_run_joined : ∃ steps t client data, system.Run steps t ∧
    (t.game.player .player1).client = some client ∧
    lastGameState (client.sent.drop (sentBefore steps .player1)) = some data ∧
    t.game.Shows data := by
  have hcheck : ((started.bind (TransitionSystem.traceActions step joinBoth)).any fun trace =>
      decide (trace.2.pc = .waiting) && (trace.2.game.player .player1).client.any fun client =>
        (lastGameState (client.sent.drop (sentBefore trace.1 .player1))).isSome) = true := by
    decide +kernel
  obtain ⟨steps, t, hrun, hstate⟩ :=
    TransitionSystem.exists_run_of_any (fun _ _ _ => id) (init_of_start (by decide)) hcheck
  simp only [Bool.and_eq_true, decide_eq_true_eq, Option.any_eq_true,
    Option.isSome_iff_exists] at hstate
  obtain ⟨hpc, client, hclient, data, hlast⟩ := hstate
  have hok := not_handlerFails_of_runs hrun ⟨by simp [hpc], by simp [hpc]⟩
  exact ⟨steps, t, client, data, hrun, hclient, hlast,
    shows_of_run hrun hok _ _ _ hclient hlast⟩

end GameThread

end UpsServer
