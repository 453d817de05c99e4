import UpsServer.GameRoom.Invariants

open Outcome

namespace UpsServer.Game

/-- Both players are online. -/
def Online (g : Game) : Prop := ∀ ref, ∃ client, (g.player ref).client = some client

theorem bothPlayersOnline_eq_true {g : Game} : g.bothPlayersOnline = true ↔ g.Online := by
  simp only [bothPlayersOnline, playerOneOnline, playerTwoOnline, Bool.and_eq_true,
    Option.isSome_iff_exists]
  constructor
  · intro h ref
    cases ref with
    | player1 => exact h.1
    | player2 => exact h.2
  · intro h
    exact ⟨h .player1, h .player2⟩

/-- The game with the message of a move sent to both players. -/
def showMove (g : Game) (gameData : UnorderedMap Str Str) : Game :=
  (g.modifyClient .player1 (·.sendMsg ⟨.GAME_STATE, gameData⟩)).modifyClient .player2
    (·.sendMsg ⟨.GAME_STATE, gameData⟩)

theorem player_sendMsg_client (g : Game) (ref ref' : PlayerRef) (msg : ProtocolData) :
    ((g.modifyClient ref (·.sendMsg msg)).player ref').client =
      if ref' = ref then (g.player ref).client.map (·.sendMsg msg) else (g.player ref').client := by
  rw [modifyClient, player_modifyPlayer]
  split <;> rfl

theorem sendMsg_of_client {g : Game} {ref : PlayerRef} {client : ProtocolClient}
    (h : (g.player ref).client = some client) (msg : ProtocolData) :
    g.sendMsg ref msg = .ok (g.modifyClient ref (·.sendMsg msg)) := by
  rw [sendMsg, clientOf_eq_ok.mpr h]
  rfl

private theorem winningPlayer_ok {g : Game} (h : g.Online) (loser : PlayerRef) :
    ∃ client, g.winningPlayer loser = .ok client := by
  obtain ⟨client1, h1⟩ := h .player1
  obtain ⟨client2, h2⟩ := h .player2
  obtain ⟨client, hclient⟩ := h loser
  rw [winningPlayer, clientOf_eq_ok.mpr h1, ok_bind, clientOf_eq_ok.mpr hclient, ok_bind]
  split
  · exact ⟨client2, clientOf_eq_ok.mpr h2⟩
  · exact ⟨client1, rfl⟩

private theorem get?_serializeGameData_winning_player (g : Game) :
    g.serializeGameData.get? "winning_player".toList = none := by
  unfold serializeGameData
  simp only
  have hne : "winning_player".toList ≠ "game_state".toList ∧
      "winning_player".toList ≠ "player1_username".toList ∧
      "winning_player".toList ≠ "player2_username".toList ∧
        "winning_player".toList ≠ "player1_edges".toList ∧
      "winning_player".toList ≠ "player2_edges".toList ∧
        "winning_player".toList ≠ "on_turn".toList := by
    decide +kernel
  obtain ⟨h1, h2, h3, h4, h5, h6⟩ := hne
  split <;>
    simp only [UnorderedMap.get?_set_of_ne _ _ h1, UnorderedMap.get?_set_of_ne _ _ h2,
      UnorderedMap.get?_set_of_ne _ _ h3, UnorderedMap.get?_set_of_ne _ _ h4,
      UnorderedMap.get?_set_of_ne _ _ h5, UnorderedMap.get?_set_of_ne _ _ h6,
      UnorderedMap.get?_empty]

/-- With both players online the data of a move is sent, and names a winner
exactly when the move loses. -/
theorem moveData_ok {g : Game} (h : g.Online) (move : Move) (playerLost : Bool) :
    ∃ gameData, g.moveData move playerLost = .ok gameData ∧
      (gameData.get? "winning_player".toList).isSome = playerLost := by
  unfold moveData
  cases playerLost with
  | false => exact ⟨_, rfl, by rw [get?_serializeGameData_winning_player]; rfl⟩
  | true =>
    obtain ⟨winner, hwinner⟩ := winningPlayer_ok h move.player
    rw [if_pos rfl, hwinner]
    exact ⟨_, rfl, by rw [UnorderedMap.get?_set_self]; rfl⟩

theorem online_addMove {g : Game} (h : g.Online) (move : Move) : (g.addMove move).Online := by
  intro ref
  obtain ⟨client, hclient⟩ := h ref
  obtain ⟨mover, _, _⟩ := move
  exact ⟨client, by cases mover <;> cases ref <;> exact hclient⟩

/-- A legal move always goes through. -/
theorem playMove_ok {g : Game} (h : g.Online) (move : Move) :
    ∃ gameData,
      (gameData.get? "winning_player".toList).isSome = (g.movedGraph move).hasCycleOfLength3 ∧
      g.playMove move =
        .ok
          (if (g.movedGraph move).hasCycleOfLength3 then ((g.addMove move).showMove
            gameData).clearGame else (g.addMove move).showMove gameData) := by
  have honline := online_addMove h move
  obtain ⟨gameData, hdata, hwinner⟩ :=
    moveData_ok honline move (g.movedGraph move).hasCycleOfLength3
  obtain ⟨client1, h1⟩ := honline .player1
  obtain ⟨client2, h2⟩ := honline .player2
  refine ⟨gameData, hwinner, ?_⟩
  have h2' : (((g.addMove move).modifyClient .player1 (·.sendMsg ⟨.GAME_STATE, gameData⟩)).player
      .player2).client =
      some client2 := by
    rw [player_sendMsg_client]
    exact h2
  rw [playMove, hdata, ok_bind, sendMsg_of_client h1, ok_bind, sendMsg_of_client h2', ok_bind]
  rfl

/-- The board a legal move leaves: the edge is added, the turn passes, and both
graphs are cleared when the move loses. -/
def afterMove (g : Game) (move : Move) : Game :=
  if (g.movedGraph move).hasCycleOfLength3 then (g.addMove move).clearGame else g.addMove move

theorem board_playMove {g g' : Game} {move : Move} (honline : g.Online)
    (h : g.playMove move = .ok g') : g'.board = (g.afterMove move).board := by
  obtain ⟨gameData, _, hplay⟩ := playMove_ok honline move
  rw [hplay] at h
  cases h
  unfold afterMove
  split <;> rfl

end UpsServer.Game
