import UpsServer.GameRoom.Board

open Outcome

namespace UpsServer.Game

/-- The player is the same, except that messages may have been sent to him. -/
def SamePlayer (p p' : Player) : Prop :=
  p'.myGraph = p.myGraph ∧ p'.lastSeen = p.lastSeen ∧
    ∃ msgs, p'.client = p.client.map fun client => { client with sent := client.sent ++ msgs }

theorem SamePlayer.refl (p : Player) : SamePlayer p p :=
  ⟨rfl, rfl, [], by simp⟩

/-- The state in which one of two players has just been dropped. -/
structure Paused (g g' : Game) (dropped : PlayerRef) : Prop where
  offline : (g'.player dropped).client = none
  same : SamePlayer (g.player dropped.other) (g'.player dropped.other)
  running : g'.isRunning = g.isRunning
  paused : g'.isPaused = true
  told : g'.gameOutput.data = g.gameOutput.data ++ [{ newState := .PAUSED }]

section Online

variable {g : Game} {clientFd : Int} {ref : PlayerRef}

theorem hasClient_of_findPlayer (h : g.findPlayer clientFd = some ref) :
    (g.player ref).hasClient clientFd = true := by
  obtain ⟨client, hclient, rfl⟩ := findPlayer_eq_some h
  simp [Player.hasClient, hclient]

theorem hasClient_other (hnodup : g.heldFds.Nodup) (h : g.findPlayer clientFd = some ref) :
    (g.player ref.other).hasClient clientFd = false := by
  obtain ⟨client, hclient, rfl⟩ := findPlayer_eq_some h
  rw [Bool.eq_false_iff]
  intro hother
  simp only [Player.hasClient, Option.any_eq_true, beq_iff_eq] at hother
  obtain ⟨other, hother, heq⟩ := hother
  cases ref with
  | player1 => exact distinctPlayers_of_nodup hnodup hclient hother heq.symm
  | player2 => exact distinctPlayers_of_nodup hnodup hother hclient heq

/-- Looking for the descriptor in both players drops the one who has it. -/
theorem dropClient_both (hnodup : g.heldFds.Nodup) (h : g.findPlayer clientFd = some ref) :
    (g.dropClient .player1 clientFd).dropClient .player2 clientFd =
      (g.closeSocket clientFd).modifyPlayer ref fun p => { p with client := none } := by
  have hself := hasClient_of_findPlayer h
  have hother := hasClient_other hnodup h
  cases ref with
  | player1 =>
    have hdrop : g.dropClient .player1 clientFd =
        (g.closeSocket clientFd).modifyPlayer .player1 fun p =>
          { p with client := none } := if_pos hself
    rw [hdrop]
    exact if_neg (Bool.not_eq_true _ ▸ hother)
  | player2 =>
    have hkeep : g.dropClient .player1 clientFd = g := if_neg (Bool.not_eq_true _ ▸ hother)
    rw [hkeep]
    exact if_pos hself

/-- Dropping one of two players pauses the game. -/
theorem paused_onClientDisconnect (hnodup : g.heldFds.Nodup) (honline : g.Online)
    (h : g.findPlayer clientFd = some ref) : Paused g (g.onClientDisconnect clientFd) ref := by
  obtain ⟨client, hclient⟩ := honline ref.other
  have hdrop := dropClient_both hnodup h
  rw [onClientDisconnect, hdrop]
  simp only
  rw [if_neg]
  · refine ⟨?_, ?_, ?_, ?_, ?_⟩
    · cases ref <;> rfl
    · cases ref <;> exact ⟨rfl, rfl, [_], rfl⟩
    · cases ref <;> rfl
    · cases ref <;> rfl
    · cases ref <;> rfl
  · cases ref <;>
      simp_all [playerOneOnline, playerTwoOnline, modifyPlayer, closeSocket, player,
        PlayerRef.other]

end Online

end UpsServer.Game
