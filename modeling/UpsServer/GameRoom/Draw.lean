import UpsServer.GameRoom.Stuck
import UpsServer.Lib.Cliques

open Triangles

namespace UpsServer.GameGraph

/-- The edges of a graph whose adjacency can be decided. -/
theorem card_edges_of_adj {n : Nat} {g : GameGraph n} (h : g.Undirected) {P : Fin n → Fin n → Prop}
    [DecidableRel P] (hadj : ∀ i j, g.graph.Adj i j ↔ i ≠ j ∧ P i j) :
    g.edges.card = (Finset.univ.filter fun e : Fin n × Fin n => e.1 < e.2 ∧ P e.1 e.2).card := by
  rw [edges]
  refine congrArg Finset.card (Finset.filter_congr fun e _ => and_congr_right fun hlt => ?_)
  rw [← h.graph_adj, hadj]
  exact and_iff_right hlt.ne

end UpsServer.GameGraph

namespace UpsServer.Game

open GameGraph (GAME_NODE_NUM)

/-- No player has a triangle that his loss would be noticed by. -/
def NothingNoticed (g : Game) : Prop := ∀ ref, ¬ (g.player ref).myGraph.HasTriangleAtZero

/-- The player on turn has the edge between node 0 and another node and all edges
between the rest, his opponent those from the two nodes to the rest. -/
def Drawn (g : Game) : Prop :=
  ∃ x : Fin GAME_NODE_NUM, x ≠ 0 ∧ TwoCliques (g.player g.onTurn).myGraph.graph {0, x} ∧
    TwoCliques (g.player g.onTurn.other).myGraph.graphᶜ {0, x}

variable {g g' : Game}

theorem NothingNoticed.of_board (h : g.NothingNoticed) (hboard : g'.board = g.board) :
    g'.NothingNoticed := by
  intro ref
  rw [graph_of_board hboard]
  exact h ref

/-- The board is cleared as soon as there is something to notice. -/
theorem nothingNoticed_afterMove {move : Move} (hok : BoardOk g)
    (hfree : g.isFreeEdge move.edgeSource move.edgeDestination = true) (h : g.NothingNoticed) :
    (g.afterMove move).NothingNoticed := by
  unfold afterMove
  split
  · intro ref
    rw [graph_clearGame]
    exact fun hzero => not_hasTriangle_empty hzero.hasTriangle
  · rename_i hcycle
    rw [GameGraph.hasCycleOfLength3_iff (undirected_movedGraph hfree hok)] at hcycle
    intro ref
    obtain rfl | rfl := PlayerRef.eq_or_eq_other ref move.player
    · rw [graph_addMove_self]
      exact hcycle
    · rw [graph_addMove_other]
      exact h _

section Full

variable (hok : BoardOk g) (hfull : ¬ g.FreeEdgeLeft)
include hok hfull

/-- On a full board every edge is that of one of the players. -/
theorem compl_of_full (ref : PlayerRef) :
    (g.player ref.other).myGraph.graph = (g.player ref).myGraph.graphᶜ := by
  ext i j
  rw [SimpleGraph.compl_adj]
  constructor
  · intro hadj
    refine ⟨hadj.ne, fun hadj' => ?_⟩
    rw [(hok.undirected _).graph_adj] at hadj hadj'
    cases ref with
    | player1 => exact hok.disjoint i j ⟨hadj', hadj⟩
    | player2 => exact hok.disjoint i j ⟨hadj, hadj'⟩
  · rintro ⟨hne, hnot⟩
    by_contra hnot'
    refine hfull ⟨i, j, isFreeEdge_eq_true.mpr ⟨fun ref' => ?_, fun ref' => ?_⟩⟩
    · exact GameGraph.isValidEdge_eq_true.mpr ⟨Fin.val_ne_of_ne hne, i.isLt, j.isLt⟩
    · rw [Bool.eq_false_iff, ne_eq, (hok.undirected ref').isUndirectedEdge_eq_true,
        ← (hok.undirected ref').graph_adj]
      obtain rfl | rfl := PlayerRef.eq_or_eq_other ref' ref
      · exact hnot
      · exact hnot'

/-- Of two players between whom the edges are split into two cliques, the one who
has the cliques has seven edges, and is on turn. -/
theorem drawn_of_twoCliques {starter ref : PlayerRef} (hturns : Alternates starter g)
    {x : Fin GAME_NODE_NUM} (h : TwoCliques (g.player ref).myGraph.graph {0, x}) : g.Drawn := by
  have hother := compl_of_full hok hfull ref
  have hhas := GameGraph.card_edges_of_adj (hok.undirected ref)
    (P := fun i j => (i = 0 ∨ i = x) ↔ (j = 0 ∨ j = x)) h
  have hhasnot := GameGraph.card_edges_of_adj (hok.undirected ref.other)
    (P := fun i j => ¬ ((i = 0 ∨ i = x) ↔ (j = 0 ∨ j = x))) fun i j => by
      rw [hother, SimpleGraph.compl_adj, h i j]
      refine and_congr_right fun hne => not_congr ?_
      exact and_iff_right hne
  have hcounts : ∀ x : Fin GAME_NODE_NUM,
      (Finset.univ.filter fun e : Fin GAME_NODE_NUM × Fin GAME_NODE_NUM =>
        e.1 < e.2 ∧ ((e.1 = 0 ∨ e.1 = x) ↔ (e.2 = 0 ∨ e.2 = x))).card = (if x = 0 then 10 else 7) ∧
      (Finset.univ.filter fun e : Fin GAME_NODE_NUM × Fin GAME_NODE_NUM =>
        e.1 < e.2 ∧ ¬ ((e.1 = 0 ∨ e.1 = x) ↔ (e.2 = 0 ∨ e.2 = x))).card =
          (if x = 0 then 5 else 8) := by
    decide
  rw [(hcounts x).1] at hhas
  rw [(hcounts x).2] at hhasnot
  have hplays : x ≠ 0 ∧ ref = g.onTurn := by
    rw [Alternates] at hturns
    obtain rfl | rfl := PlayerRef.eq_or_eq_other ref starter
    · rw [hhas, hhasnot] at hturns
      split at hturns <;> split at hturns <;> omega
    · rw [PlayerRef.other_other] at hhasnot
      rw [hhas, hhasnot] at hturns
      split at hturns <;> rename_i hzero
      · split at hturns <;> omega
      · split at hturns
        · omega
        · rename_i hturn
          exact ⟨hzero, ((PlayerRef.eq_or_eq_other g.onTurn starter).resolve_left hturn).symm⟩
  obtain ⟨hzero, rfl⟩ := hplays
  refine ⟨x, hzero, h, ?_⟩
  rw [hother, compl_compl]
  exact h

/-- A full board on which no loss was noticed is drawn. -/
theorem drawn_of_full {starter : PlayerRef} (hturns : Alternates starter g)
    (hnothing : g.NothingNoticed) : g.Drawn := by
  have hcover : ∀ ref : PlayerRef, Cover (g.player ref).myGraph.graph
      (g.player ref.other).myGraph.graph := by
    intro ref i j hne
    rw [compl_of_full hok hfull ref, SimpleGraph.compl_adj]
    by_cases hadj : (g.player ref).myGraph.graph.Adj i j
    · exact .inl hadj
    · exact .inr ⟨hne, hadj⟩
  have hcard : 6 ≤ Fintype.card (Fin GAME_NODE_NUM) := by
    rw [Fintype.card_fin, GAME_NODE_NUM]
  have hsplit : ∀ ref, HasTriangle (g.player ref).myGraph.graph → g.Drawn := by
    intro ref htriangle
    obtain ⟨x, hx⟩ := (hcover ref).exists_twoCliques (z := 0) (hnothing ref) (hnothing ref.other)
      htriangle
    exact drawn_of_twoCliques hok hfull hturns hx
  exact ((hcover .player1).hasTriangle hcard).elim (hsplit .player1) (hsplit .player2)

end Full

private theorem not_freeEdgeLeft_of_drawn (hok : BoardOk g) (h : g.Drawn) : ¬ g.FreeEdgeLeft := by
  obtain ⟨x, _, hturn, hother⟩ := h
  rintro ⟨edgeSource, edgeDestination, hfree⟩
  obtain ⟨hvalid, hnobody⟩ := isFreeEdge_eq_true.mp hfree
  obtain ⟨hne, hi, hj⟩ := GameGraph.isValidEdge_eq_true.mp (hvalid .player1)
  have hnot : ∀ ref, ¬ (g.player ref).myGraph.graph.Adj ⟨edgeSource, hi⟩ ⟨edgeDestination, hj⟩ := by
    intro ref hadj
    rw [(hok.undirected ref).graph_adj, ← (hok.undirected ref).isUndirectedEdge_eq_true] at hadj
    exact Bool.false_ne_true ((hnobody ref).symm.trans hadj)
  have hne' : (⟨edgeSource, hi⟩ : Fin GAME_NODE_NUM) ≠ ⟨edgeDestination, hj⟩ :=
    fun heq => hne (congrArg Fin.val heq)
  refine hnot g.onTurn ((hturn _ _).mpr ((hother _ _).mp ?_))
  exact (SimpleGraph.compl_adj _ _ _).mpr ⟨hne', hnot _⟩

theorem Drawn.of_board (h : g.Drawn) (hboard : g'.board = g.board) : g'.Drawn := by
  rw [Drawn, onTurn_of_board hboard, graph_of_board hboard, graph_of_board hboard]
  exact h

end UpsServer.Game

namespace UpsServer.GameThread

open Game

variable {t t' : GameThread}

theorem nothingNoticed_of_reachable (h : system.Reachable t) : t.game.NothingNoticed := by
  refine h.invariant (P := fun t => t.game.NothingNoticed) (fun t hinit ref hzero => ?_)
    fun t action t' hreach hnothing hstep => ?_
  · exact triangleFree_init hinit ref hzero.hasTriangle
  · obtain ⟨hboard, _⟩ | ⟨msg, clientFd, move, haccepts, hboard⟩ := board_step hstep
    · exact hnothing.of_board hboard
    · have hfree := (legal_of_readMove haccepts.accepted).free
      exact (nothingNoticed_afterMove (boardOk_of_reachable hreach) hfree hnothing).of_board hboard

theorem freeEdgeLeft_iff_of_reachable (h : system.Reachable t) :
    t.game.FreeEdgeLeft ↔ ¬ t.game.Drawn := by
  have hok := boardOk_of_reachable h
  obtain ⟨steps, hrun⟩ := h.exists_run
  refine ⟨fun hleft hdrawn => not_freeEdgeLeft_of_drawn hok hdrawn hleft, fun hdrawn => ?_⟩
  by_contra hfull
  exact hdrawn (drawn_of_full hok hfull (alternates_of_run hrun) (nothingNoticed_of_reachable h))

/-- No command is accepted any more. -/
theorem drawn_step {action : GameAction} (hreach : system.Reachable t) (h : t.game.Drawn)
    (hstep : step t action = some t') : t'.game.Drawn := by
  obtain ⟨hboard, _⟩ | ⟨msg, clientFd, move, haccepts, _⟩ := board_step hstep
  · exact h.of_board hboard
  · refine (not_freeEdgeLeft_of_drawn (boardOk_of_reachable hreach) h ?_).elim
    exact ⟨_, _, (legal_of_readMove haccepts.accepted).free⟩

/-- In every run the player on turn can move while a round is on, unless the game is
drawn, and then it stays so to the end. -/
theorem draws_of_run {steps : List (GameThread × GameAction × GameThread)}
    (h : system.Run steps t) :
    (t.game.FreeEdgeLeft ↔ ¬ t.game.Drawn) ∧
      (t.game.Online → t.game.isPaused = false → (t.game.CanMove ↔ ¬ t.game.Drawn)) ∧
      ∀ s ∈ steps, s.1.game.Drawn → t.game.Drawn := by
  have hleft := freeEdgeLeft_iff_of_reachable h.reachable
  refine ⟨hleft, fun honline hpaused => ?_, ?_⟩
  · rw [← hleft]
    exact canMove_iff (nodup_heldFds h.reachable) honline hpaused
  · clear hleft
    induction h with
    | init => exact fun _ hs => nomatch hs
    | @step steps t t' action hrun hstep ih =>
      intro s hs hdrawn
      obtain hs | hs := List.mem_append.mp hs
      · exact drawn_step hrun.reachable (ih s hs hdrawn) hstep
      · obtain rfl := List.mem_singleton.mp hs
        exact drawn_step hrun.reachable hdrawn hstep

/-- The second player has the edge between 0 and 1 and all edges between the other
four nodes when the board is full, and his next command is denied. -/
theorem draws_of_run_full : ∃ steps t, system.Run steps t ∧ t.game.Drawn ∧ t.game.Online ∧
    ¬ t.game.CanMove ∧ ∀ s ∈ steps, s.1.game.Drawn → t.game.Drawn := by
  have hcheck : ((started.bind (TransitionSystem.traceActions step
      (fullRun ++ sendEdge 11 "{0,1}"))).any fun trace =>
      trace.2.game.bothPlayersOnline && !trace.2.game.isPaused &&
        decide (∀ i j : Fin GameGraph.GAME_NODE_NUM, trace.2.game.isFreeEdge i j = false)) = true := by
    decide +kernel
  obtain ⟨steps, t, hrun, hstate⟩ :=
    TransitionSystem.exists_run_of_any (fun _ _ _ => id) (init_of_start (by decide)) hcheck
  simp only [Bool.and_eq_true, Bool.not_eq_true', decide_eq_true_eq,
    bothPlayersOnline_eq_true] at hstate
  obtain ⟨⟨honline, hpaused⟩, htaken⟩ := hstate
  obtain ⟨hleft, hmove, hstays⟩ := draws_of_run hrun
  have hdrawn : t.game.Drawn := by
    by_contra hdrawn
    obtain ⟨i, j, hfree⟩ := hleft.mpr hdrawn
    obtain ⟨hvalid, _⟩ := isFreeEdge_eq_true.mp hfree
    obtain ⟨_, hi, hj⟩ := GameGraph.isValidEdge_eq_true.mp (hvalid .player1)
    exact Bool.false_ne_true ((htaken ⟨i, hi⟩ ⟨j, hj⟩).symm.trans hfree)
  exact ⟨steps, t, hrun, hdrawn, honline,
    fun hcan => (hmove honline hpaused).mp hcan hdrawn, hstays⟩

end UpsServer.GameThread
