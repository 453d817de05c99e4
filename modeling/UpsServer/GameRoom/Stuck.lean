import UpsServer.GameRoom.Drop
import UpsServer.GameRoom.LossReport
import UpsServer.Lib.Triangles

open Outcome

namespace UpsServer.Game

/-- Some command of the player on turn would be accepted. -/
def CanMove (g : Game) : Prop :=
  ∃ client msg g', (g.player g.onTurn).client = some client ∧
    g.processGameCommand msg client.clientFd = .ok g' ∧ Accepted g g' msg g.onTurn

/-- Not all edges have been taken. -/
def FreeEdgeLeft (g : Game) : Prop :=
  ∃ edgeSource edgeDestination, g.isFreeEdge edgeSource edgeDestination = true

/-- The text `{i,j}`. -/
def edgeText (i j : Fin GameGraph.GAME_NODE_NUM) : Str :=
  ['\x7b', Nat.digitChar i, ',', Nat.digitChar j, '\x7d']

def edgeCommand (i j : Fin GameGraph.GAME_NODE_NUM) : ProtocolData :=
  ⟨.GAME_COMMAND, (∅ : UnorderedMap Str Str).set "add_edge".toList (edgeText i j)⟩

private theorem parseEdge_edgeText :
    ∀ i j : Fin GameGraph.GAME_NODE_NUM, parseEdge (edgeText i j) = .ok (some (i.val, j.val)) := by
  decide

theorem onTurn_afterMove (g : Game) (move : Move) :
    (g.afterMove move).onTurn = g.onTurn.other := by
  rw [← onTurn_addMove g move, afterMove]
  split <;> rfl

/-- What is accepted has passed the checks: a denial does not pass the turn. -/
theorem move_of_accepted {g g' : Game} {msg : ProtocolData} {clientFd : Int} {sender : PlayerRef}
    (hnodup : g.heldFds.Nodup) (honline : g.Online) (hfind : g.findPlayer clientFd = some sender)
    (hg' : g.processGameCommand msg clientFd = .ok g') (haccepted : Accepted g g' msg sender) :
    ∃ move, g.readMove msg clientFd = .ok (some move) ∧ g.playMove move = .ok g' := by
  obtain ⟨_, edgeSource, edgeDestination, _, _, hboard⟩ := haccepted
  obtain ⟨_, _, hprocess⟩ := bind_eq_ok.mp hg'
  obtain ⟨move, hmove, hprocess⟩ := bind_eq_ok.mp hprocess
  cases move with
  | none =>
    obtain ⟨denied, hdeny, hdenied⟩ := denied_denyRequest hnodup honline hfind
    obtain rfl : denied = g' := Except.ok.inj (hdeny.symm.trans hprocess)
    have hturn := onTurn_of_board (hboard.symm.trans hdenied.1)
    rw [onTurn_afterMove] at hturn
    exact absurd hturn (PlayerRef.other_ne _)
  | some move => exact ⟨move, hmove, hprocess⟩

section Online

variable {g : Game} (hnodup : g.heldFds.Nodup) (honline : g.Online) (hpaused : g.isPaused = false)
include hnodup honline hpaused

private theorem canMove_of_freeEdge (h : g.FreeEdgeLeft) : g.CanMove := by
  obtain ⟨edgeSource, edgeDestination, hfree⟩ := h
  obtain ⟨hvalid, _⟩ := isFreeEdge_eq_true.mp hfree
  obtain ⟨_, hsource, hdestination⟩ := GameGraph.isValidEdge_eq_true.mp (hvalid .player1)
  obtain ⟨client, hclient⟩ := honline g.onTurn
  have hfind := findPlayer_of_client hnodup hclient
  have hparse := parseEdge_edgeText ⟨edgeSource, hsource⟩ ⟨edgeDestination, hdestination⟩
  have hfield := UnorderedMap.get?_set_self (∅ : UnorderedMap Str Str) "add_edge".toList
    (edgeText ⟨edgeSource, hsource⟩ ⟨edgeDestination, hdestination⟩)
  have hmove : g.readMove (edgeCommand ⟨edgeSource, hsource⟩ ⟨edgeDestination, hdestination⟩)
      client.clientFd = .ok (some ⟨g.onTurn, edgeSource, edgeDestination⟩) := by
    rw [readMove_eq hnodup honline hfind, if_neg (by simp [hpaused]), edgeCommand, hfield]
    simp only
    rw [checkEdge_of_nodes hparse, if_pos hfree]
  obtain ⟨gameData, _, hplay⟩ := playMove_ok honline ⟨g.onTurn, edgeSource, edgeDestination⟩
  have hboard := board_playMove honline hplay
  exact ⟨client, _, _, hclient, (processGameCommand_of_move hmove).trans hplay, _, _, _, hfield,
    hparse, hboard⟩

/-- While a round is on, the player on turn can move exactly when an edge is
left. -/
theorem canMove_iff : g.CanMove ↔ g.FreeEdgeLeft := by
  refine ⟨?_, canMove_of_freeEdge hnodup honline hpaused⟩
  rintro ⟨client, msg, g', hclient, hg', haccepted⟩
  obtain ⟨move, hmove, _⟩ := move_of_accepted hnodup honline
    (findPlayer_of_client hnodup hclient) hg' haccepted
  exact ⟨_, _, (legal_of_readMove hmove).free⟩

end Online

/-- No player has a triangle. -/
def TriangleFree (g : Game) : Prop := ∀ ref, ¬ (g.player ref).myGraph.HasTriangle

/-- Without a triangle the two players cannot own all edges. -/
theorem freeEdge_of_triangleFree {g : Game} (hok : BoardOk g) (h : g.TriangleFree) :
    g.FreeEdgeLeft := by
  by_contra hfull
  have hcover : Triangles.Cover g.player1.myGraph.graph g.player2.myGraph.graph := by
    intro i j hne
    by_contra hnone
    rw [not_or] at hnone
    refine hfull ⟨i, j, isFreeEdge_eq_true.mpr ⟨fun ref => ?_, fun ref => ?_⟩⟩
    · exact GameGraph.isValidEdge_eq_true.mpr ⟨Fin.val_ne_of_ne hne, i.isLt, j.isLt⟩
    · have hundirected := hok.undirected ref
      rw [Bool.eq_false_iff, ne_eq, hundirected.isUndirectedEdge_eq_true, ← hundirected.graph_adj]
      cases ref with
      | player1 => exact hnone.1
      | player2 => exact hnone.2
  have hcard : 6 ≤ Fintype.card (Fin GameGraph.GAME_NODE_NUM) := by
    rw [Fintype.card_fin, GameGraph.GAME_NODE_NUM]
  obtain htriangle | htriangle := hcover.hasTriangle hcard
  · exact h .player1 htriangle
  · exact h .player2 htriangle

theorem TriangleFree.of_board {g g' : Game} (h : g.TriangleFree) (hboard : g'.board = g.board) :
    g'.TriangleFree := by
  intro ref
  rw [graph_of_board hboard]
  exact h ref

theorem not_hasTriangle_empty {n : Nat} : ¬ ({} : GameGraph n).HasTriangle := by
  rintro ⟨a, b, _, hadj, _⟩
  rw [GameGraph.undirected_empty.graph_adj] at hadj
  cases hadj

/-- A move whose triangle is noticed leaves no triangle. -/
theorem triangleFree_afterMove {g : Game} {move : Move} (hok : BoardOk g)
    (hfree : g.isFreeEdge move.edgeSource move.edgeDestination = true)
    (hzero : (g.movedGraph move).HasTriangle → (g.movedGraph move).HasTriangleAtZero)
    (h : g.TriangleFree) : (g.afterMove move).TriangleFree := by
  unfold afterMove
  split
  · intro ref
    rw [graph_clearGame]
    exact not_hasTriangle_empty
  · rename_i hcycle
    rw [GameGraph.hasCycleOfLength3_iff (undirected_movedGraph hfree hok)] at hcycle
    intro ref
    obtain rfl | rfl := PlayerRef.eq_or_eq_other ref move.player
    · rw [graph_addMove_self]
      exact fun htriangle => hcycle (hzero htriangle)
    · rw [graph_addMove_other]
      exact h _

end UpsServer.Game

namespace UpsServer.GameThread

open Game

theorem triangleFree_init {t : GameThread} (h : system.init t) : t.game.TriangleFree := by
  obtain ⟨gameInput, gameOutput, _, hstart, _⟩ := h
  obtain ⟨epoll, hgame⟩ := start_eq_ok hstart
  rw [hgame]
  intro ref
  cases ref <;> exact not_hasTriangle_empty

theorem triangleFree_of_run {steps : List (GameThread × GameAction × GameThread)} {t : GameThread}
    (h : system.Run steps t) (hzero : ∀ s ∈ steps, TriangleAtZero s.1 s.2.1) :
    t.game.TriangleFree := by
  induction h with
  | init hinit => exact triangleFree_init hinit
  | @step steps t t' action hrun hstep ih =>
    have htriangle := ih fun s hs => hzero s (List.mem_append_left _ hs)
    have hlast := hzero (t, action, t') (by simp)
    obtain ⟨hboard, _⟩ | ⟨msg, clientFd, move, haccepts, hboard⟩ := board_step hstep
    · exact htriangle.of_board hboard
    · have hfree := (legal_of_readMove haccepts.accepted).free
      have hok := boardOk_of_reachable hrun.reachable
      exact (triangleFree_afterMove hok hfree (hlast msg clientFd move haccepts)
        htriangle).of_board hboard

/-- As long as no triangle goes unnoticed, an edge is left in every state of a
run, and the player on turn can take it while a round is on. -/
theorem canMove_of_run {steps : List (GameThread × GameAction × GameThread)} {t : GameThread}
    (h : system.Run steps t) (hzero : ∀ s ∈ steps, TriangleAtZero s.1 s.2.1) :
    t.game.FreeEdgeLeft ∧ (t.game.Online → t.game.isPaused = false → t.game.CanMove) := by
  have hleft := freeEdge_of_triangleFree (boardOk_of_reachable h.reachable) (triangleFree_of_run h hzero)
  refine ⟨hleft, fun honline hpaused => ?_⟩
  exact canMove_of_freeEdge (nodup_heldFds h.reachable) honline hpaused hleft

theorem canMove_of_run_lostRound :
    ∃ steps t, system.Run steps t ∧ (∃ s ∈ steps, s.1.clears s.2.1 = true) ∧
      t.game.FreeEdgeLeft ∧ t.game.CanMove := by
  obtain ⟨steps, t, hrun, hzero, hclears, honline, hpaused⟩ := exists_run_lostRound
  obtain ⟨hleft, hmove⟩ := canMove_of_run hrun hzero
  exact ⟨steps, t, hrun, hclears, hleft, hmove honline hpaused⟩

/-- The first player takes every edge between 0, 1 and the other four nodes, the
second one takes the rest. -/
def fullRun : List GameAction :=
  joinBoth ++
    sendEdge 10 "{0,2}" ++ sendEdge 11 "{0,1}" ++ sendEdge 10 "{0,3}" ++ sendEdge 11 "{2,3}" ++
    sendEdge 10 "{0,4}" ++ sendEdge 11 "{2,4}" ++ sendEdge 10 "{0,5}" ++ sendEdge 11 "{2,5}" ++
    sendEdge 10 "{1,2}" ++ sendEdge 11 "{3,4}" ++ sendEdge 10 "{1,3}" ++ sendEdge 11 "{3,5}" ++
    sendEdge 10 "{1,4}" ++ sendEdge 11 "{4,5}" ++ sendEdge 10 "{1,5}"

/-- All edges are taken, and no loss has been declared. -/
theorem not_canMove_full : ¬ ∀ t, system.Reachable t → t.game.Online → t.game.isPaused = false →
    t.game.CanMove := by
  have hcheck : ((started.bind (TransitionSystem.runActions step fullRun)).any fun t =>
      t.game.bothPlayersOnline && !t.game.isPaused &&
        decide (∀ i j : Fin GameGraph.GAME_NODE_NUM, t.game.isFreeEdge i j = false)) = true := by
    decide +kernel
  obtain ⟨t, hreachable, hstate⟩ := exists_of_started hcheck
  simp only [Bool.and_eq_true, Bool.not_eq_true', decide_eq_true_eq,
    bothPlayersOnline_eq_true] at hstate
  obtain ⟨⟨honline, hpaused⟩, htaken⟩ := hstate
  intro hall
  have hmove := hall t hreachable honline hpaused
  obtain ⟨i, j, hfree⟩ := (canMove_iff (nodup_heldFds hreachable) honline hpaused).mp hmove
  obtain ⟨hvalid, _⟩ := isFreeEdge_eq_true.mp hfree
  obtain ⟨_, hi, hj⟩ := GameGraph.isValidEdge_eq_true.mp (hvalid .player1)
  exact Bool.false_ne_true ((htaken ⟨i, hi⟩ ⟨j, hj⟩).symm.trans hfree)

end UpsServer.GameThread
