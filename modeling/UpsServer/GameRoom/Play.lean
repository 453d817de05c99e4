import UpsServer.GameRoom.Stuck
import UpsServer.Lib.ClaimGame

open ClaimGame

namespace UpsServer

namespace GameGraph

variable {n : Nat}

/-- The graph with some edges. -/
def edgeGraph (edges : Finset (Fin n × Fin n)) : SimpleGraph (Fin n) :=
  .fromRel fun i j => (i, j) ∈ edges

/-- The edge between two nodes, with its lesser node first. -/
def orderedEdge (n : Nat) [NeZero n] (source destination : Nat) : Fin n × Fin n :=
  (Fin.ofNat n (min source destination), Fin.ofNat n (max source destination))

theorem Undirected.edgeGraph_edges {g : GameGraph n} (h : g.Undirected) : edgeGraph g.edges = g.graph := by
  ext i j
  rw [h.graph_adj, edgeGraph, SimpleGraph.fromRel_adj]
  simp only [edges, Finset.mem_filter, Finset.mem_univ, true_and]
  constructor
  · rintro ⟨_, ⟨_, hij⟩ | ⟨_, hji⟩⟩
    · exact hij
    · rwa [h.symm]
  · intro hij
    have hne : i ≠ j := by
      rintro rfl
      rw [h.diagonal] at hij
      cases hij
    refine ⟨hne, (lt_or_gt_of_ne hne).imp (fun hlt => ⟨hlt, hij⟩) fun hgt => ⟨hgt, ?_⟩⟩
    rwa [h.symm]

private theorem edges_addUndirectedEdge_of_valid [NeZero n] (g : GameGraph n) {source destination : Nat}
    (hvalid : g.isValidEdge source destination = true) :
    (g.addUndirectedEdge source destination).edges =
      insert (orderedEdge n source destination) g.edges := by
  obtain ⟨hne, hsource, hdestination⟩ := isValidEdge_eq_true.mp hvalid
  rcases lt_or_gt_of_ne hne with hlt | hgt
  · have hedge : orderedEdge n source destination = (⟨source, hsource⟩, ⟨destination, hdestination⟩) := by
      rw [orderedEdge, min_eq_left hlt.le, max_eq_right hlt.le]
      exact Prod.ext (Fin.ext (Nat.mod_eq_of_lt hsource)) (Fin.ext (Nat.mod_eq_of_lt hdestination))
    rw [hedge]
    exact @edges_addUndirectedEdge n g ⟨source, hsource⟩ ⟨destination, hdestination⟩ hlt
  · have hedge : orderedEdge n source destination = (⟨destination, hdestination⟩, ⟨source, hsource⟩) := by
      rw [orderedEdge, min_eq_right hgt.le, max_eq_left hgt.le]
      exact Prod.ext (Fin.ext (Nat.mod_eq_of_lt hdestination)) (Fin.ext (Nat.mod_eq_of_lt hsource))
    rw [hedge, addUndirectedEdge_comm]
    exact @edges_addUndirectedEdge n g ⟨destination, hdestination⟩ ⟨source, hsource⟩ hgt

/-- An edge that a player does not have is not among his edges. -/
theorem orderedEdge_notMem [NeZero n] {g : GameGraph n} (h : g.Undirected) {source destination : Nat}
    (hvalid : g.isValidEdge source destination = true)
    (hnew : g.isUndirectedEdge source destination = false) :
    orderedEdge n source destination ∉ g.edges := by
  intro hmem
  have hcard := card_edges_addUndirectedEdge h hvalid hnew
  rw [edges_addUndirectedEdge_of_valid g hvalid, Finset.insert_eq_of_mem hmem] at hcard
  omega

private theorem orderedEdge_lt [NeZero n] {g : GameGraph n} {source destination : Nat}
    (hvalid : g.isValidEdge source destination = true) :
    (orderedEdge n source destination).1 < (orderedEdge n source destination).2 := by
  obtain ⟨hne, hsource, hdestination⟩ := isValidEdge_eq_true.mp hvalid
  change min source destination % n < max source destination % n
  rw [Nat.mod_eq_of_lt (min_lt_of_left_lt hsource), Nat.mod_eq_of_lt (max_lt hsource hdestination)]
  exact min_lt_max.mpr hne

/-- A triangle has three edges. -/
theorem three_le_card {edges : Finset (Fin n × Fin n)} {a b c : Fin n}
    (hab : (edgeGraph edges).Adj a b) (hbc : (edgeGraph edges).Adj b c)
    (hca : (edgeGraph edges).Adj c a) : 3 ≤ edges.card := by
  have hmem : ∀ {i j : Fin n}, (edgeGraph edges).Adj i j →
      s(i, j) ∈ edges.image fun e => s(e.1, e.2) := by
    intro i j hadj
    rw [edgeGraph, SimpleGraph.fromRel_adj] at hadj
    rw [Finset.mem_image]
    rcases hadj with ⟨_, hij | hji⟩
    · exact ⟨(i, j), hij, rfl⟩
    · exact ⟨(j, i), hji, Sym2.eq_swap⟩
  have hsub : ({s(a, b), s(b, c), s(c, a)} : Finset (Sym2 (Fin n))) ⊆
      edges.image fun e => s(e.1, e.2) := by
    intro e he
    simp only [Finset.mem_insert, Finset.mem_singleton] at he
    rcases he with rfl | rfl | rfl
    · exact hmem hab
    · exact hmem hbc
    · exact hmem hca
  have hthree : ({s(a, b), s(b, c), s(c, a)} : Finset (Sym2 (Fin n))).card = 3 := by
    have hne := hab.ne
    have hne' := hbc.ne
    have hne'' := hca.ne
    rw [Finset.card_eq_three]
    refine ⟨_, _, _, ?_, ?_, ?_, rfl⟩ <;> simp only [ne_eq, Sym2.eq_iff] <;> tauto
  rw [← hthree]
  exact (Finset.card_le_card hsub).trans Finset.card_image_le

end GameGraph

open GameGraph

/-- The game the two players play: they claim edges in turn, and a triangle in the
component of node 0 loses. -/
def sim : Rules PlayerRef (Fin GAME_NODE_NUM × Fin GAME_NODE_NUM) where
  other := PlayerRef.other
  other_other := PlayerRef.other_other
  other_ne := PlayerRef.other_ne
  ground := Finset.univ.filter fun e => e.1 < e.2
  loses edges := ∃ a b c, (edgeGraph edges).Adj a b ∧ (edgeGraph edges).Adj b c ∧
    (edgeGraph edges).Adj c a ∧ (edgeGraph edges).Reachable 0 a

/-- The edge a move claims. -/
def Move.edge (move : Move) : Fin GAME_NODE_NUM × Fin GAME_NODE_NUM :=
  orderedEdge GAME_NODE_NUM move.edgeSource move.edgeDestination

private theorem three_le_of_loses {edges : Finset (Fin GAME_NODE_NUM × Fin GAME_NODE_NUM)}
    (h : sim.loses edges) : 3 ≤ edges.card := by
  obtain ⟨a, b, c, hab, hbc, hca, _⟩ := h
  exact three_le_card hab hbc hca

private theorem card_ground : sim.ground.card = 15 := by decide

/-- A round takes at least five moves, and there are edges for fifteen. -/
theorem length_of_finished {starter : PlayerRef}
    {moves : List (PlayerRef × (Fin GAME_NODE_NUM × Fin GAME_NODE_NUM))}
    (h : Finished sim starter moves) : 5 ≤ moves.length ∧ moves.length ≤ 15 := by
  have hmin := h.le_length fun _ => three_le_of_loses
  have hmax := h.length_le
  rw [card_ground] at hmax
  omega

namespace Game

def position (g : Game) : Position PlayerRef (Fin GAME_NODE_NUM × Fin GAME_NODE_NUM) where
  owned ref := (g.player ref).myGraph.edges
  turn := g.onTurn

private theorem position_of_board {g g' : Game} (h : g'.board = g.board) : g'.position = g.position := by
  simp only [position, graph_of_board h, onTurn_of_board h]

section Move

variable {g : Game} {move : Move} (hok : BoardOk g)
  (hfree : g.isFreeEdge move.edgeSource move.edgeDestination = true)

include hfree

private theorem edges_movedGraph :
    (g.movedGraph move).edges = insert move.edge (g.position.owned move.player) :=
  edges_addUndirectedEdge_of_valid _ ((isFreeEdge_eq_true.mp hfree).1 move.player)

include hok

private theorem loses_iff : sim.loses (insert move.edge (g.position.owned move.player)) ↔
    (g.movedGraph move).hasCycleOfLength3 = true := by
  have hmoved := undirected_movedGraph hfree hok
  rw [hasCycleOfLength3_iff hmoved, ← edges_movedGraph hfree, HasTriangleAtZero, ← hmoved.edgeGraph_edges]
  rfl

/-- A move of the player on turn is one of the game the players play. -/
theorem step_afterMove (hturn : move.player = g.onTurn) :
    Step sim g.position (move.player, move.edge) (g.afterMove move).position := by
  have hvalid := (isFreeEdge_eq_true.mp hfree).1
  have hground : move.edge ∈ sim.ground :=
    Finset.mem_filter.mpr ⟨Finset.mem_univ _, orderedEdge_lt (hvalid .player1)⟩
  have hunowned : ∀ ref, move.edge ∉ g.position.owned ref := fun ref =>
    orderedEdge_notMem (hok.undirected ref) (hvalid ref) ((isFreeEdge_eq_true.mp hfree).2 ref)
  have hmover : (move.player, move.edge) = (g.position.turn, move.edge) := by rw [hturn]; rfl
  rw [hmover]
  by_cases hlost : (g.movedGraph move).hasCycleOfLength3 = true
  · have hposition : (g.afterMove move).position = ⟨fun _ => ∅, sim.other g.position.turn⟩ := by
      rw [position, onTurn_afterMove, afterMove, if_pos hlost]
      simp only [graph_clearGame]
      rfl
    rw [hposition]
    refine .ends hground hunowned ?_
    rw [← loses_iff hok hfree, hturn] at hlost
    exact hlost
  · have hposition : (g.afterMove move).position =
        ⟨Function.update g.position.owned g.position.turn
          (insert move.edge (g.position.owned g.position.turn)), sim.other g.position.turn⟩ := by
      rw [position, onTurn_afterMove, afterMove, if_neg hlost]
      congr 1
      funext ref
      rcases ref.eq_or_eq_other move.player with rfl | rfl
      · rw [graph_addMove_self, edges_movedGraph hfree, hturn]
        exact (Function.update_self g.onTurn _ g.position.owned).symm
      · rw [graph_addMove_other, hturn]
        exact (Function.update_of_ne (PlayerRef.other_ne g.onTurn) _ g.position.owned).symm
    rw [hposition]
    refine .goesOn hground hunowned fun hloses => hlost ?_
    rw [← loses_iff hok hfree, hturn]
    exact hloses

end Move

end Game

namespace GameThread

open Game

/-- The player and the edge of the command that a step accepts. -/
def claim : GameThread × GameAction × GameThread →
    Option (PlayerRef × (Fin GAME_NODE_NUM × Fin GAME_NODE_NUM))
  | (t, .message _, _) =>
    match t.pc with
    | .reading clientFd (msg :: _) =>
      if msg.method = .GAME_COMMAND then
        (t.game.readMove msg clientFd).toOption.join.map fun move => (move.player, move.edge)
      else none
    | _ => none
  | _ => none

private theorem claim_of_accepts {t t' : GameThread} {action : GameAction} {msg : ProtocolData} {clientFd : Int}
    {move : Move} (h : Accepts t action msg clientFd move) :
    claim (t, action, t') = some (move.player, move.edge) := by
  obtain ⟨⟨now, rfl⟩, ⟨messages, hpc⟩, hcommand, haccepted⟩ := h
  rw [claim, hpc]
  simp only [hcommand, haccepted, if_true]
  rfl

private theorem accepts_of_claim {t t' : GameThread} {action : GameAction}
    {c : PlayerRef × (Fin GAME_NODE_NUM × Fin GAME_NODE_NUM)} (h : claim (t, action, t') = some c) :
    ∃ msg clientFd move, Accepts t action msg clientFd move := by
  unfold claim at h
  split at h
  · rename_i heq
    obtain ⟨rfl, rfl, rfl⟩ := heq
    split at h
    · rename_i clientFd msg messages hpc
      obtain ⟨hcommand, h⟩ := Option.ite_none_right_eq_some.mp h
      obtain ⟨move, hmove, _⟩ := Option.map_eq_some_iff.mp h
      exact ⟨msg, clientFd, move, ⟨_, rfl⟩, ⟨messages, hpc⟩, hcommand,
        toOption_eq_some.mp (Option.join_eq_some_iff.mp hmove)⟩
    · cases h
  · cases h

/-- An accepted command plays its move. -/
theorem board_of_accepts {t t' : GameThread} {action : GameAction} {msg : ProtocolData} {clientFd : Int}
    {move : Move} (h : Accepts t action msg clientFd move) (hstep : step t action = some t') :
    t'.game.board = (t.game.afterMove move).board := by
  obtain ⟨⟨now, rfl⟩, ⟨messages, hpc⟩, hcommand, haccepted⟩ := h
  simp only [step, hpc] at hstep
  exact of_ends (board_processClientMessage hcommand haccepted now) (fun _ => board_stop)
    (resume_eq_some hstep)

/-- A step that accepts a command is a move of the game the players play, and the
others leave the position alone. -/
theorem position_step {t t' : GameThread} {action : GameAction} (hok : BoardOk t.game)
    (hstep : step t action = some t') :
    (claim (t, action, t')).elim (t'.game.position = t.game.position)
      (Step sim t.game.position · t'.game.position) := by
  cases hclaim : claim (t, action, t') with
  | none =>
    rcases board_step hstep with ⟨hboard, _⟩ | ⟨msg, clientFd, move, haccepts, _⟩
    · exact position_of_board hboard
    · cases hclaim.symm.trans (claim_of_accepts haccepts)
  | some c =>
    obtain ⟨msg, clientFd, move, haccepts⟩ := accepts_of_claim hclaim
    have hlegal := legal_of_readMove haccepts.accepted
    cases hclaim.symm.trans (claim_of_accepts haccepts)
    rw [Option.elim, position_of_board (board_of_accepts haccepts hstep)]
    exact step_afterMove hok hlegal.free hlegal.onTurn

theorem position_init {t : GameThread} (h : system.init t) :
    t.game.position = ⟨fun _ => ∅, .player1⟩ := by
  obtain ⟨gameInput, gameOutput, _, hstart, _⟩ := h
  obtain ⟨epoll, hgame⟩ := start_eq_ok hstart
  rw [hgame, position]
  congr 1
  funext ref
  cases ref <;> rfl

/-- In every run the accepted commands are a play of the game the players play:
they split into rounds that were lost by their last moves, after five to fifteen
moves each, and a round that is on, which gives all edges on the board and the
player on turn. -/
theorem plays_of_run {steps : List (GameThread × GameAction × GameThread)} {t : GameThread}
    (h : system.Run steps t) : ∃ lost current,
      Played sim .player1 (steps.filterMap claim) t.game.position lost current ∧
      ∀ round ∈ lost, 5 ≤ round.length ∧ round.length ≤ 15 := by
  obtain ⟨moves, hrun, hmoves⟩ :=
    h.events (U := ClaimGame.system sim .player1) (fun _ => position_init)
      fun _ _ _ hreach hstep => position_step (boardOk_of_reachable hreach) hstep
  obtain ⟨lost, current, hplayed⟩ := ClaimGame.played_of_run hrun
  rw [hmoves] at hplayed
  refine ⟨lost, current, hplayed, fun round hround => ?_⟩
  obtain ⟨_, hfinished⟩ := hplayed.lost round hround
  exact length_of_finished hfinished

/-- The first player loses a round, and the second one begins the next. -/
def loseRound : List GameAction := lostRound ++ sendEdge 11 "{1,2}"

/-- Six edges are claimed, and the second round is on. -/
theorem plays_of_run_lost : ∃ steps t lost current, system.Run steps t ∧
    steps.filterMap claim = [(.player1, 0, 1), (.player2, 3, 4), (.player1, 1, 2), (.player2, 4, 5),
      (.player1, 0, 2), (.player2, 1, 2)] ∧
    t.game.player2.myGraph.edges = {(1, 2)} ∧
    Played sim .player1 (steps.filterMap claim) t.game.position lost current := by
  have hcheck : ((started.bind (TransitionSystem.traceActions step loseRound)).any fun trace =>
      decide (trace.1.filterMap claim = [(.player1, 0, 1), (.player2, 3, 4), (.player1, 1, 2),
        (.player2, 4, 5), (.player1, 0, 2), (.player2, 1, 2)]) &&
      decide (trace.2.game.player2.myGraph.edges = {(1, 2)})) = true := by
    decide +kernel
  obtain ⟨steps, t, hrun, hstate⟩ :=
    TransitionSystem.exists_run_of_any (T := system) (fun _ _ _ => id) (init_of_start (by decide)) hcheck
  rw [Bool.and_eq_true, decide_eq_true_iff, decide_eq_true_iff] at hstate
  obtain ⟨lost, current, hplayed, _⟩ := plays_of_run hrun
  exact ⟨steps, t, lost, current, hrun, hstate.1, hstate.2, hplayed⟩

end GameThread

end UpsServer
