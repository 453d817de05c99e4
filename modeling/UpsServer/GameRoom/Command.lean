import UpsServer.GameRoom.BoardInvariant
import UpsServer.GameRoom.Disconnect

open Outcome

namespace UpsServer.Game

/-- The command was accepted: the edge it names has been added to the sender's
graph, the turn has passed, and a lost round has been cleared. -/
def Accepted (g g' : Game) (msg : ProtocolData) (sender : PlayerRef) : Prop :=
  ∃ edge edgeSource edgeDestination, msg.data.get? "add_edge".toList = some edge ∧
    parseEdge edge = .ok (some (edgeSource, edgeDestination)) ∧
      g'.board = (g.afterMove ⟨sender, edgeSource, edgeDestination⟩).board

/-- The command was denied: the sender is told, or dropped when he has been told
too often, and nothing else changes. -/
def Denied (g g' : Game) (sender : PlayerRef) : Prop :=
  g'.board = g.board ∧ g'.isRunning = g.isRunning ∧
    SamePlayer (g.player sender.other) (g'.player sender.other) ∧
    ∃ client, (g.player sender).client = some client ∧
      ((g'.player sender).client = some client.sendReqDeniedMsg ∨
        MAX_REQ_DENIED_CNT ≤ client.reqDeniedCnt ∧ (g'.player sender).client = none)

/-- A command is answered without an exception, by acceptance or denial. -/
def CommandAnswered (g : Game) (msg : ProtocolData) (clientFd : Int) (sender : PlayerRef) : Prop :=
  ∃ g', g.processGameCommand msg clientFd = .ok g' ∧ (Accepted g g' msg sender ∨ Denied g g' sender)

/-- The text of the edge is not looked at, or has at least three characters. -/
def EdgeLongEnough (g : Game) (msg : ProtocolData) (sender : PlayerRef) : Prop :=
  g.isPaused = true ∨ sender ≠ g.onTurn ∨ ∀ edge, msg.data.get? "add_edge".toList = some edge →
    3 ≤ edge.length

section Online

variable {g : Game} {msg : ProtocolData} {clientFd : Int} {sender : PlayerRef}

theorem denied_denyRequest (hnodup : g.heldFds.Nodup) (honline : g.Online)
    (h : g.findPlayer clientFd = some sender) :
    ∃ g', g.denyRequest clientFd = .ok g' ∧ Denied g g' sender := by
  obtain ⟨client, hclient, hfd⟩ := findPlayer_eq_some h
  rw [denyRequest, derefClient_eq_ok.mpr h, ok_bind, clientOf_eq_ok.mpr hclient, ok_bind]
  by_cases hcnt : client.reqDeniedCnt ≥ MAX_REQ_DENIED_CNT
  · rw [if_pos hcnt, hfd]
    have hpaused := paused_onClientDisconnect hnodup honline h
    exact ⟨_, rfl, (quiet_onClientDisconnect g clientFd).board, hpaused.running, hpaused.same,
      client, hclient,
      .inr ⟨hcnt, hpaused.offline⟩⟩
  · rw [if_neg hcnt]
    refine ⟨_, rfl, ?_, ?_, ?_, client, hclient, .inl ?_⟩
    · cases sender <;> rfl
    · exact isRunning_modifyPlayer _ _ _
    · rw [modifyClient, player_modifyPlayer_other]
      exact .refl _
    · rw [modifyClient, player_modifyPlayer_self]
      simp [hclient]

theorem isNotOnTurn_eq (hnodup : g.heldFds.Nodup) {opponent : ProtocolClient}
    (hopponent : (g.player g.onTurn.other).client = some opponent)
    (h : g.findPlayer clientFd = some sender) :
    g.isNotOnTurn clientFd = .ok (decide (sender ≠ g.onTurn)) := by
  have hopponent' : g.clientOf (if g.isPlayerOneTurn then .player2 else .player1) =
      .ok opponent := by
    rw [clientOf_eq_ok, ← hopponent, onTurn]
    cases g.isPlayerOneTurn <;> rfl
  have hhas : (g.player g.onTurn.other).hasClient clientFd = (opponent.clientFd == clientFd) := by
    simp [Player.hasClient, hopponent]
  rw [isNotOnTurn, hopponent', ok_bind, ← hhas]
  rcases PlayerRef.eq_or_eq_other sender g.onTurn with rfl | rfl
  · rw [hasClient_other hnodup h]
    simp
    rfl
  · rw [hasClient_of_findPlayer h]
    simp
    rfl

/-- With both players online, the checks come down to the text of the edge. -/
theorem readMove_eq (hnodup : g.heldFds.Nodup) (honline : g.Online) (h : g.findPlayer clientFd = some sender) :
    g.readMove msg clientFd =
      if g.isPaused = true ∨ sender ≠ g.onTurn then .ok none
      else match msg.data.get? "add_edge".toList with
        | none => .ok none
        | some edge => g.checkEdge sender edge := by
  unfold readMove
  by_cases hpaused : g.isPaused = true
  · rw [if_pos hpaused, if_pos (.inl hpaused)]
    rfl
  obtain ⟨opponent, hopponent⟩ := honline g.onTurn.other
  rw [if_neg hpaused, getPlayer_eq_ok.mpr h, ok_bind, isNotOnTurn_eq hnodup hopponent h, ok_bind]
  by_cases hturn : sender ≠ g.onTurn
  · rw [if_pos (decide_eq_true hturn), if_pos (.inr hturn)]
    rfl
  rw [if_neg (by simpa using hturn), if_neg (not_or.mpr ⟨hpaused, hturn⟩)]
  cases hfield : msg.data.get? "add_edge".toList with
  | none =>
    rw [ProtocolData.hasField, hfield]
    rfl
  | some edge =>
    have hget : msg.getField "add_edge".toList = .ok edge := getField_eq_ok.mpr hfield
    rw [ProtocolData.hasField, hfield, hget]
    rfl

theorem checkEdge_ok_iff {ref : PlayerRef} {edge : Str} :
    (∃ move, g.checkEdge ref edge = .ok move) ↔ 3 ≤ edge.length := by
  rw [← parseEdge_ok_iff]
  cases hparse : parseEdge edge with
  | error fault => simp [checkEdge_of_error hparse]
  | ok nodes =>
    cases nodes with
    | none => simp [checkEdge_of_none hparse]
    | some nodes =>
      obtain ⟨edgeSource, edgeDestination⟩ := nodes
      simp [checkEdge_of_nodes hparse]

/-- The checks fail only on a text that is too short. -/
theorem readMove_ok_iff (hnodup : g.heldFds.Nodup) (honline : g.Online)
    (h : g.findPlayer clientFd = some sender) :
    (∃ move, g.readMove msg clientFd = .ok move) ↔ EdgeLongEnough g msg sender := by
  rw [readMove_eq hnodup honline h, EdgeLongEnough, ← or_assoc]
  by_cases hdenied : g.isPaused = true ∨ sender ≠ g.onTurn
  · simp [hdenied]
  · rw [if_neg hdenied, or_iff_right hdenied]
    cases msg.data.get? "add_edge".toList with
    | none => simp
    | some edge => simp [checkEdge_ok_iff]

private theorem commandAnswered_iff_readMove (hnodup : g.heldFds.Nodup) (honline : g.Online)
    (h : g.findPlayer clientFd = some sender) :
    CommandAnswered g msg clientFd sender ↔ ∃ move, g.readMove msg clientFd = .ok move := by
  constructor
  · rintro ⟨g', hg', _⟩
    obtain ⟨_, _, hg'⟩ := bind_eq_ok.mp hg'
    obtain ⟨move, hmove, _⟩ := bind_eq_ok.mp hg'
    exact ⟨move, hmove⟩
  · rintro ⟨move, hmove⟩
    cases move with
    | none =>
      obtain ⟨g', hdeny, hdenied⟩ := denied_denyRequest hnodup honline h
      refine ⟨g', ?_, .inr hdenied⟩
      rw [processGameCommand, derefClient_eq_ok.mpr h, ok_bind, hmove]
      exact hdeny
    | some move =>
      have hlegal := legal_of_readMove hmove
      obtain ⟨gameData, _, hplay⟩ := playMove_ok honline move
      obtain ⟨edge, hedge, hparse⟩ := hlegal.named
      refine ⟨_, (processGameCommand_of_move hmove).trans hplay,
        .inl ⟨edge, _, _, hedge, hparse, ?_⟩⟩
      obtain rfl := Option.some.inj (h.symm.trans hlegal.player)
      exact board_playMove honline hplay

end Online

end UpsServer.Game

namespace UpsServer.GameThread

open Game

/-- A command is answered exactly when the text of its edge is not looked at or
has at least three characters. -/
theorem commandAnswered_iff {t : GameThread} {msg : ProtocolData} {clientFd : Int}
    {sender : PlayerRef} (h : system.Reachable t) (honline : t.game.Online)
    (hsender : t.game.findPlayer clientFd = some sender) :
    CommandAnswered t.game msg clientFd sender ↔ EdgeLongEnough t.game msg sender :=
  (commandAnswered_iff_readMove (nodup_heldFds h) honline hsender).trans
    (readMove_ok_iff (nodup_heldFds h) honline hsender)

/-- A command whose edge breaks off after its first node. -/
def brokenCommand : ProtocolData :=
  ⟨.GAME_COMMAND, (∅ : UnorderedMap Str Str).set "add_edge".toList "\x7b3".toList⟩

/-- A command that names an edge. -/
def wholeCommand : ProtocolData :=
  ⟨.GAME_COMMAND, (∅ : UnorderedMap Str Str).set "add_edge".toList "\x7b3,4\x7d".toList⟩

private theorem not_edgeLongEnough_broken {g : Game} (hpaused : g.isPaused = false)
    (hturn : g.onTurn = .player1) : ¬ EdgeLongEnough g brokenCommand .player1 := by
  rintro (hanswered | hanswered | hanswered)
  · cases hpaused.symm.trans hanswered
  · exact hanswered hturn.symm
  · exact absurd (hanswered "\x7b3".toList (UnorderedMap.get?_set_self _ _ _)) (by decide)

/-- Both clients have joined and the first one is on turn. -/
theorem exists_joined :
    ∃ t, system.Reachable t ∧ t.game.Online ∧ t.game.findPlayer 10 = some .player1 ∧
      t.game.isPaused = false ∧ t.game.onTurn = .player1 := by
  have hcheck : ((started.bind (TransitionSystem.runActions step joinBoth)).any fun t =>
      t.game.bothPlayersOnline && t.game.findPlayer 10 == some .player1 && !t.game.isPaused &&
        t.game.onTurn == .player1) = true := by
    decide +kernel
  obtain ⟨t, hreachable, hstate⟩ := exists_of_started hcheck
  simp only [Bool.and_eq_true, beq_iff_eq, Bool.not_eq_true', bothPlayersOnline, playerOneOnline,
    playerTwoOnline, Option.isSome_iff_exists] at hstate
  obtain ⟨⟨⟨⟨h1, h2⟩, hfind⟩, hpaused⟩, hturn⟩ := hstate
  exact ⟨t, hreachable, fun ref => by cases ref <;> assumption, hfind, hpaused, hturn⟩

theorem commandAnswered_iff_joined :
    ∃ t, system.Reachable t ∧ t.game.Online ∧ ¬ CommandAnswered t.game brokenCommand 10 .player1 ∧
      CommandAnswered t.game wholeCommand 10 .player1 := by
  obtain ⟨t, hreachable, honline, hfind, hpaused, hturn⟩ := exists_joined
  refine ⟨t, hreachable, honline, ?_, ?_⟩
  · rw [commandAnswered_iff hreachable honline hfind]
    exact not_edgeLongEnough_broken hpaused hturn
  · rw [commandAnswered_iff hreachable honline hfind]
    refine .inr (.inr fun edge hedge => ?_)
    cases hedge
    decide

/-- The broken command of the player on turn leaves with an exception. -/
theorem not_commandAnswered_broken : ¬ ∀ t msg clientFd sender, system.Reachable t → t.game.Online →
    t.game.findPlayer clientFd = some sender → CommandAnswered t.game msg clientFd sender := by
  obtain ⟨t, hreachable, honline, hfind, hpaused, hturn⟩ := exists_joined
  intro hall
  have hanswered := hall t brokenCommand 10 .player1 hreachable honline hfind
  rw [commandAnswered_iff_readMove (nodup_heldFds hreachable) honline hfind,
    readMove_ok_iff (nodup_heldFds hreachable) honline hfind] at hanswered
  exact not_edgeLongEnough_broken hpaused hturn hanswered

end UpsServer.GameThread
