import UpsServer.GameRoom.BoardInvariant

open Outcome

namespace UpsServer.Game

/-- A command was answered by a lost round: both players are sent a GAME_STATE
with a winner, and both graphs are cleared. -/
def ReportsLoss (x : Exec Game Game) : Prop :=
  ∃ g, x = .ok g ∧ ∀ ref, (g.player ref).myGraph = {} ∧
    ∃ client msg, (g.player ref).client = some client ∧ client.sent.getLast? = some msg ∧
      msg.method = .GAME_STATE ∧ msg.hasField "winning_player".toList = true

theorem client_showMove {g : Game} {ref : PlayerRef} {client : ProtocolClient}
    (h : (g.player ref).client = some client) (gameData : UnorderedMap Str Str) :
    ((g.showMove gameData).player ref).client = some (client.sendMsg ⟨.GAME_STATE, gameData⟩) := by
  cases ref <;> simp_all [showMove, modifyClient, modifyPlayer, player]

theorem client_clearGame (g : Game) (ref : PlayerRef) :
    (g.clearGame.player ref).client = (g.player ref).client := by
  cases ref <;> rfl

/-- The loss of an accepted move is reported when the search finds a cycle of
length 3. -/
theorem reportsLoss_iff {g : Game} {msg : ProtocolData} {clientFd : Int} {move : Move}
    (h : g.readMove msg clientFd = .ok (some move)) :
    ReportsLoss (g.processGameCommand msg clientFd) ↔
      (g.movedGraph move).hasCycleOfLength3 = true := by
  have honline : g.Online := (legal_of_readMove h).online
  obtain ⟨gameData, hwinner, hplay⟩ := playMove_ok honline move
  rw [processGameCommand_of_move h, hplay]
  have hclient : ∀ ref, ∃ client : ProtocolClient,
      (((g.addMove move).showMove gameData).player ref).client =
      some (client.sendMsg ⟨.GAME_STATE, gameData⟩) := fun ref => by
    obtain ⟨client, hclient⟩ := online_addMove honline move ref
    exact ⟨client, client_showMove hclient gameData⟩
  constructor
  · rintro ⟨g', hg', hreport⟩
    injection hg' with hg'
    by_contra hlost
    rw [if_neg hlost] at hg'
    subst hg'
    obtain ⟨client, hclient⟩ := hclient .player1
    obtain ⟨_, client', last, hclient', hlast, _, hfield⟩ := hreport .player1
    rw [hclient] at hclient'
    cases hclient'
    have hmsg : some ⟨.GAME_STATE, gameData⟩ = some last := by
      rw [← hlast, ProtocolClient.sendMsg, List.getLast?_concat]
    injection hmsg with hmsg
    subst hmsg
    exact hlost (hwinner ▸ hfield)
  · intro hlost
    rw [if_pos hlost]
    refine ⟨_, rfl, fun ref => ⟨graph_clearGame _ ref, ?_⟩⟩
    obtain ⟨client, hclient⟩ := hclient ref
    refine ⟨client.sendMsg ⟨.GAME_STATE, gameData⟩, ⟨.GAME_STATE, gameData⟩, ?_,
      by simp [ProtocolClient.sendMsg], rfl, ?_⟩
    · rw [client_clearGame]
      exact hclient
    · exact hwinner.trans hlost

end UpsServer.Game

namespace UpsServer.GameThread

open Game

/-- A move that is accepted in the step is reported as a loss exactly when the
mover's graph then contains a triangle. -/
def LossReported (t : GameThread) (action : GameAction) : Prop :=
  ∀ msg clientFd move, Accepts t action msg clientFd move →
    (ReportsLoss (t.game.processGameCommand msg clientFd) ↔ (t.game.movedGraph move).HasTriangle)

/-- When a move leaves the mover with a triangle, one of his triangles lies in
the component of node 0. -/
def TriangleAtZero (t : GameThread) (action : GameAction) : Prop :=
  ∀ msg clientFd move, Accepts t action msg clientFd move →
    (t.game.movedGraph move).HasTriangle → (t.game.movedGraph move).HasTriangleAtZero

theorem lossReported_step {t : GameThread} (h : system.Reachable t) (action : GameAction) :
    LossReported t action ↔ TriangleAtZero t action := by
  refine forall₄_congr fun msg clientFd move haccepts => ?_
  have hgraph :=
    undirected_movedGraph (legal_of_readMove haccepts.accepted).free (boardOk_of_reachable h)
  rw [reportsLoss_iff haccepts.accepted, GameGraph.hasCycleOfLength3_iff hgraph]
  exact ⟨fun hiff => hiff.mpr, fun himp => ⟨GameGraph.HasTriangleAtZero.hasTriangle, himp⟩⟩

/-- The move the next message of the thread makes. -/
def nextMove (t : GameThread) : Option Move :=
  t.nextMessage.bind fun next => (t.game.readMove next.2 next.1).toOption.join

/-- A move that leaves the mover with a triangle loses the round. -/
def noticesTriangle (t : GameThread) (action : GameAction) : Bool :=
  t.nextMove.all fun move => decide ((t.game.movedGraph move).HasTriangle → t.clears action = true)

private theorem triangleAtZero_of_notices {t : GameThread} {action : GameAction} (h : system.Reachable t)
    (hnotices : t.noticesTriangle action = true) : TriangleAtZero t action := by
  intro msg clientFd move haccepts htriangle
  have hmove : t.nextMove = some move := by
    rw [nextMove, nextMessage_eq_some_iff.mpr haccepts.pc]
    simp [haccepts.accepted, Except.toOption]
  rw [noticesTriangle, hmove, Option.all_some, decide_eq_true_eq] at hnotices
  have hgraph :=
    undirected_movedGraph (legal_of_readMove haccepts.accepted).free (boardOk_of_reachable h)
  rw [← GameGraph.hasCycleOfLength3_iff hgraph, ← haccepts.clears_eq]
  exact hnotices htriangle

/-- The first player closes the triangle 0, 1, 2 and loses the round. -/
def lostRound : List GameAction :=
  joinBoth ++ sendEdge 10 "{0,1}" ++ sendEdge 11 "{3,4}" ++ sendEdge 10 "{1,2}" ++
    sendEdge 11 "{4,5}" ++ sendEdge 10 "{0,2}"

theorem exists_run_lostRound :
    ∃ steps t, system.Run steps t ∧ (∀ s ∈ steps, TriangleAtZero s.1 s.2.1) ∧
      (∃ s ∈ steps, s.1.clears s.2.1 = true) ∧ t.game.Online ∧ t.game.isPaused = false := by
  have hcheck : ((started.bind (TransitionSystem.traceActions step lostRound)).any fun trace =>
      (trace.1.all fun s => s.1.noticesTriangle s.2.1) && (trace.1.any fun s => s.1.clears s.2.1) &&
        trace.2.game.bothPlayersOnline && !trace.2.game.isPaused) = true := by
    decide +kernel
  obtain ⟨steps, t, hrun, hstate⟩ :=
    TransitionSystem.exists_run_of_any (fun _ _ _ => id) (init_of_start (by decide)) hcheck
  simp only [Bool.and_eq_true, Bool.not_eq_true', List.all_eq_true, List.any_eq_true,
    bothPlayersOnline_eq_true] at hstate
  obtain ⟨⟨⟨hnotices, hclears⟩, honline⟩, hpaused⟩ := hstate
  exact ⟨steps, t, hrun, fun s hs =>
    triangleAtZero_of_notices (hrun.forall_reachable s hs).1 (hnotices s hs), hclears, honline, hpaused⟩

/-- Losses are reported rightly in every step of a run exactly when, in every
step that leaves the mover with a triangle, one of his triangles lies in the
component of node 0. -/
theorem lossReported_iff {steps : List (GameThread × GameAction × GameThread)} {t : GameThread}
    (h : system.Run steps t) :
    (∀ s ∈ steps, LossReported s.1 s.2.1) ↔ ∀ s ∈ steps, TriangleAtZero s.1 s.2.1 :=
  forall₂_congr fun s hs => lossReported_step (h.forall_reachable s hs).1 s.2.1

theorem lossReported_iff_lostRound :
    ∃ steps t, system.Run steps t ∧ (∃ s ∈ steps, s.1.clears s.2.1 = true) ∧
      ∀ s ∈ steps, LossReported s.1 s.2.1 := by
  obtain ⟨steps, t, hrun, hzero, hclears, _⟩ := exists_run_lostRound
  exact ⟨steps, t, hrun, hclears, (lossReported_iff hrun).mpr hzero⟩

/-- The players build the triangle 3, 4, 5 and the path 1, 0, 2. The command that
closes the triangle has been received. -/
def triangleRun : List GameAction :=
  joinBoth ++ sendEdge 10 "{3,4}" ++ sendEdge 11 "{0,1}" ++ sendEdge 10 "{4,5}" ++
    sendEdge 11 "{0,2}" ++
    (sendEdge 10 "{3,5}").take 1

def closingCommand : ProtocolData :=
  ⟨.GAME_COMMAND, (∅ : UnorderedMap Str Str).set "add_edge".toList "{3,5}".toList⟩

/-- A triangle away from node 0 goes unnoticed. -/
theorem not_lossReported_triangle : ¬ ∀ t action, system.Reachable t → LossReported t action := by
  have hcheck : ((started.bind (TransitionSystem.runActions step triangleRun)).any fun t =>
      decide (t.pc = .reading 10 [closingCommand]) &&
        (t.game.readMove closingCommand 10).toOption == some (some ⟨.player1, 3, 5⟩) &&
        (t.game.player1.myGraph.adjacencyMatrix 3 4 == 1 && t.game.player1.myGraph.adjacencyMatrix 4 5 == 1) &&
        !(t.game.movedGraph ⟨.player1, 3, 5⟩).hasCycleOfLength3) = true := by
    decide +kernel
  obtain ⟨t, hreachable, hstate⟩ := exists_of_started hcheck
  simp only [Bool.and_eq_true, decide_eq_true_eq, beq_iff_eq, Bool.not_eq_true'] at hstate
  obtain ⟨⟨⟨hpc, hmove⟩, h34, h45⟩, hcycle⟩ := hstate
  rw [toOption_eq_some] at hmove
  intro hall
  have hreported := hall t (.message 1000) hreachable closingCommand 10 ⟨.player1, 3, 5⟩
    ⟨⟨1000, rfl⟩, ⟨[], hpc⟩, rfl, hmove⟩
  rw [reportsLoss_iff hmove, hcycle] at hreported
  have hgraph :=
    undirected_movedGraph (legal_of_readMove hmove).free (boardOk_of_reachable hreachable)
  refine Bool.false_ne_true (hreported.mpr ⟨3, 4, 5, ?_, ?_, ?_⟩)
  · exact hgraph.graph_adj.mpr h34
  · exact hgraph.graph_adj.mpr h45
  · exact hgraph.graph_adj.mpr rfl

end UpsServer.GameThread
